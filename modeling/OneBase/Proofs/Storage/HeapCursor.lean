import OneBase.Proofs.Storage.HeapStore

/-! # Scans among other calls

An iterator that is walked along a heap while other calls insert, change and delete rows meets every row that stays
there, no RID twice, and only rows that are there when it meets them.
-/

namespace OneBase.TableHeap

open Traces

/-- An iterator over the heap of a session, with the RIDs it has stood at. -/
structure Cursor where
  session : Session
  iterator : Rid
  visited : List Rid

/-- What happens during a scan: a call on the heap, or a step of the iterator. -/
inductive Cursor.Move where
  | call (request : Request)
  | advance

/-- The iterator that a request gives. -/
def Session.moveTo (s : Session) (visited : List Rid) (request : Request) : Cursor :=
  match s.serve request with
  | some (.iterator rid, _) => ⟨s.step request, rid, if rid = endRid then visited else visited ++ [rid]⟩
  | _ => ⟨s.step request, endRid, visited⟩

theorem Session.session_moveTo (s : Session) (visited : List Rid) (request : Request) :
    (s.moveTo visited request).session = s.step request := by
  rw [Session.moveTo]
  split <;> rfl

/-- `Begin`. -/
def Session.scan (s : Session) : Cursor := s.moveTo [] .begin

namespace Cursor

/-- `operator++` on the iterator, or another call. -/
def step (c : Cursor) : Move → Cursor
  | .call request => { c with session := c.session.step request }
  | .advance => c.session.moveTo c.visited (.increment c.iterator)

def Legal (c : Cursor) : Move → Prop
  | .call request => c.session.Legal request
  | .advance => c.iterator ≠ endRid

/-- The iterator has stood at RIDs that were handed out, in the order of the chain, and stands at the last of them. -/
structure Follows (c : Cursor) (chain : List PageId) : Prop where
  sound : c.session.Sound chain
  granted : ∀ call, c.session.heap.grants call = true
  issued : ∀ rid ∈ c.visited, c.session.store rid ≠ none
  ordered : c.visited.Pairwise (Before chain)
  stands : c.iterator = endRid ∨ ∃ passed, c.visited = passed ++ [c.iterator]

/-- A RID was visited, or lies ahead. -/
def Meets (c : Cursor) (chain : List PageId) (rid : Rid) : Prop :=
  rid ∈ c.visited ∨ c.iterator ≠ endRid ∧ Before chain c.iterator rid

end Cursor

section Steps

variable {s : Session} {c : Cursor} {chain : List PageId} {rid : Rid} {request : Request} {visited : List Rid}

/-- RIDs that were handed out keep their order when the chain grows. -/
theorem Session.Sound.ordered_longer {chain' : List PageId} (sound : s.Sound chain) (longer : chain <+: chain')
    (issued : ∀ rid ∈ visited, s.store rid ≠ none) (ordered : visited.Pairwise (Before chain)) :
    visited.Pairwise (Before chain') :=
  ordered.imp_of_mem fun first second less =>
    (before_longer longer (sound.mem_chain (issued _ first)) (sound.mem_chain (issued _ second))).mpr less

/-- A request that gives an iterator, when every page is granted. -/
structure Gives (s : Session) (chain : List PageId) (request : Request) (ahead : Rid → Prop) : Prop where
  sound : s.Sound chain
  granted : ∀ call, s.heap.grants call = true
  legal : s.Legal request
  finds : ∀ response, Answers s.heap chain s.store request response →
    ∃ rid, response = .iterator rid ∧ (s.store.Stands (Before chain) ahead rid ∨ rid = endRid ∧ Refuses s.heap)
  reads : ∀ rid, record s.heap s.store request (.iterator rid) = s.store

theorem Gives.moveTo {ahead : Rid → Prop} (gives : Gives s chain request ahead) (visited : List Rid) :
    ∃ rid heap' chain',
      s.moveTo visited request = ⟨⟨heap', s.store⟩, rid, if rid = endRid then visited else visited ++ [rid]⟩ ∧
      s.store.Stands (Before chain) ahead rid ∧ Session.Sound ⟨heap', s.store⟩ chain' ∧ chain <+: chain' ∧
      ∀ call, heap'.grants call = true := by
  obtain ⟨response, heap', chain', served, answers, sound', longer, grants⟩ := gives.sound.serve gives.legal
  obtain ⟨rid, rfl, found⟩ := gives.finds response answers
  rw [gives.reads] at sound'
  refine ⟨rid, heap', chain', ?_, ?_, sound', longer, grants ▸ gives.granted⟩
  · rw [Session.moveTo, s.step_of_serve served, served, gives.reads]
  · refine found.resolve_right ?_
    rintro ⟨-, call, refused⟩
    rw [gives.granted] at refused
    cases refused

/-- The iterator goes on in order, and to the first row ahead. -/
theorem Gives.follows {ahead : Rid → Prop} (gives : Gives s chain request ahead)
    (issued : ∀ rid ∈ visited, s.store rid ≠ none) (ordered : visited.Pairwise (Before chain))
    (behind : ∀ rid, ahead rid → ∀ old ∈ visited, Before chain old rid) : ∃ chain',
      (s.moveTo visited request).Follows chain' ∧ chain <+: chain' ∧
      (s.moveTo visited request).session.store = s.store ∧
      (∀ rid, s.store.Live rid → rid ∈ visited ∨ ahead rid → (s.moveTo visited request).Meets chain' rid) ∧
      ∀ rid ∈ (s.moveTo visited request).visited, rid ∈ visited ∨
        (s.moveTo visited request).iterator = rid ∧ s.store.Live rid := by
  obtain ⟨rid, heap', chain', moved, ⟨rfl, none⟩ | ⟨live, isAhead, first⟩, sound', longer, grants⟩ :=
    gives.moveTo visited
  · rw [if_pos rfl] at moved
    rw [moved]
    refine ⟨chain', ⟨sound', grants, issued, gives.sound.ordered_longer longer issued ordered, .inl rfl⟩,
      longer, rfl, ?_,
      fun rid mem => .inl mem⟩
    rintro rid live (mem | isAhead)
    · exact .inl mem
    · exact absurd live (none rid isAhead)
  · have inside : rid ≠ endRid := gives.sound.1.ne_endRid (gives.sound.mem_chain live.issued)
    rw [if_neg inside] at moved
    rw [moved]
    have issued' : ∀ other ∈ visited ++ [rid], s.store other ≠ Option.none := by
      simp only [List.mem_append, List.mem_singleton]
      rintro other (mem | rfl)
      · exact issued other mem
      · exact live.issued
    have ordered' : (visited ++ [rid]).Pairwise (Before chain) := by
      rw [List.pairwise_append]
      refine ⟨ordered, List.pairwise_singleton _ _, fun old mem last here => ?_⟩
      rw [List.mem_singleton.mp here]
      exact behind rid isAhead old mem
    refine ⟨chain', ⟨sound', grants, issued', gives.sound.ordered_longer longer issued' ordered',
      .inr ⟨visited, rfl⟩⟩,
      longer, rfl, ?_, ?_⟩
    · intro other live' met
      rcases met with mem | isAhead'
      · exact .inl (List.mem_append_left _ mem)
      rcases eq_or_ne other rid with rfl | different
      · exact .inl (List.mem_append_right _ (List.mem_singleton_self _))
      · refine .inr ⟨inside, ?_⟩
        exact (before_longer longer (gives.sound.mem_chain live.issued) (gives.sound.mem_chain live'.issued)).mpr
          (first other isAhead' live' different)
    · simp only [List.mem_append, List.mem_singleton]
      rintro other (mem | rfl)
      · exact .inl mem
      · exact .inr ⟨rfl, live⟩

theorem Session.Sound.gives_begin (sound : s.Sound chain) (granted : ∀ call, s.heap.grants call = true) :
    Gives s chain .begin fun _ => True := by
  refine ⟨sound, granted, trivial, fun response answers => ?_, fun rid => rfl⟩
  cases response with
  | iterator rid => exact ⟨rid, rfl, answers⟩
  | _ => exact answers.elim

theorem Cursor.Follows.gives_increment (follows : c.Follows chain) (inside : c.iterator ≠ endRid) :
    Gives c.session chain (.increment c.iterator) (Before chain c.iterator) := by
  obtain ⟨passed, all⟩ := follows.stands.resolve_left inside
  have issued := follows.issued c.iterator (by simp [all])
  refine ⟨follows.sound, follows.granted, .inl issued, fun response answers => ?_, fun rid => rfl⟩
  cases response with
  | iterator rid =>
    rw [Answers, if_neg inside] at answers
    exact ⟨rid, rfl, answers⟩
  | _ => exact answers.elim

/-- One move: what lay ahead still does, or was met. -/
theorem Cursor.Follows.step (follows : c.Follows chain) {move : Cursor.Move} (legal : c.Legal move) :
    ∃ chain', (c.step move).Follows chain' ∧
      (∀ rid, c.session.store.Live rid → c.Meets chain rid → (c.step move).Meets chain' rid) ∧
      ∀ rid ∈ (c.step move).visited, rid ∈ c.visited ∨
        (c.step move).iterator = rid ∧ (c.step move).session.store.Live rid := by
  cases move with
  | call request =>
    obtain ⟨chain', sound', longer, grants⟩ := follows.sound.step legal
    refine ⟨chain', ⟨sound', grants ▸ follows.granted, ?_,
      follows.sound.ordered_longer longer follows.issued follows.ordered,
      follows.stands⟩, ?_, fun rid mem => .inl mem⟩
    · exact fun rid mem => Session.step_issued (follows.issued rid mem) request
    · rintro rid live (mem | ⟨inside, less⟩)
      · exact .inl mem
      · obtain ⟨passed, all⟩ := follows.stands.resolve_left inside
        have issued := follows.issued c.iterator (by simp [all])
        refine .inr ⟨inside, ?_⟩
        exact (before_longer longer (follows.sound.mem_chain issued) (follows.sound.mem_chain live.issued)).mpr less
  | advance =>
    have gives := follows.gives_increment legal
    obtain ⟨passed, all⟩ := follows.stands.resolve_left legal
    obtain ⟨chain', follows', -, same, meets, met⟩ := gives.follows follows.issued follows.ordered (by
      intro rid less old mem
      rw [all, List.mem_append, List.mem_singleton] at mem
      rcases mem with mem | rfl
      · have ordered := follows.ordered
        rw [all] at ordered
        exact before_trans ((List.pairwise_append.mp ordered).2.2 old mem _ (List.mem_singleton_self _)) less
      · exact less)
    refine ⟨chain', follows', ?_, ?_⟩
    · rintro rid live (mem | ⟨-, less⟩)
      · exact meets rid live (.inl mem)
      · exact meets rid live (.inr less)
    · intro rid mem
      refine (met rid mem).imp_right (And.imp_right fun live => ?_)
      rwa [Cursor.step, same]

end Steps

section Runs

variable {s : Session} {requests : List Request} {c : Cursor} {chain : List PageId} {moves : List Cursor.Move}

/-- During a run of moves, what is live throughout is met. -/
theorem Cursor.Follows.run {rid : Rid} (follows : c.Follows chain) (legal : Along Cursor.Legal Cursor.step c moves)
    (stays : ∀ early, early <+: moves → (early.foldl Cursor.step c).session.store.Live rid)
    (meets : c.Meets chain rid) :
    ∃ chain', (moves.foldl Cursor.step c).Follows chain' ∧ (moves.foldl Cursor.step c).Meets chain' rid := by
  induction moves generalizing c chain with
  | nil => exact ⟨chain, follows, meets⟩
  | cons move moves ih =>
    obtain ⟨chain', follows', kept, -⟩ := follows.step legal.1
    refine ih follows' legal.2 (fun early early_le => ?_) (kept rid (stays [] List.nil_prefix) meets)
    exact stays (move :: early) (List.cons_prefix_cons.mpr ⟨rfl, early_le⟩)

/-- What was visited was live when the iterator stood at it. -/
theorem Cursor.Follows.visited_run (follows : c.Follows chain) (legal : Along Cursor.Legal Cursor.step c moves) :
    ∃ chain', (moves.foldl Cursor.step c).Follows chain' ∧ ∀ rid ∈ (moves.foldl Cursor.step c).visited,
      rid ∈ c.visited ∨
      ∃ early, early <+: moves ∧ (early.foldl Cursor.step c).iterator = rid ∧
        (early.foldl Cursor.step c).session.store.Live rid := by
  induction moves using List.reverseRecOn with
  | nil => exact ⟨chain, follows, fun rid mem => .inl mem⟩
  | append_singleton moves move ih =>
    obtain ⟨front, last, -⟩ := along_append.mp legal
    obtain ⟨chain', follows', met⟩ := ih front
    obtain ⟨chain'', follows'', -, met'⟩ := follows'.step last
    rw [List.foldl_append]
    refine ⟨chain'', follows'', fun rid mem => ?_⟩
    rcases met' rid mem with before | ⟨here, live⟩
    · refine (met rid before).imp_right ?_
      rintro ⟨early, early_le, here, live⟩
      exact ⟨early, early_le.trans (List.prefix_append _ _), here, live⟩
    · refine .inr ⟨moves ++ [move], List.prefix_rfl, ?_, ?_⟩
      · rwa [List.foldl_append]
      · rwa [List.foldl_append]

/-- A scan that other calls interrupt, on a heap whose pages are all granted: the iterator visits no RID twice and only
rows that are stored when it stands at them, and when it is at the end it has visited every row that was stored all the
time. -/
theorem scan_among_calls (sound : s.Sound chain) (granted : ∀ call, s.heap.grants call = true)
    (before : Along Session.Legal Session.step s requests)
    (during : Along Cursor.Legal Cursor.step (requests.foldl Session.step s).scan moves) :
    let start := (requests.foldl Session.step s).scan
    let c := moves.foldl Cursor.step start
    c.visited.Nodup ∧
      (∀ rid ∈ c.visited, ∃ early, early <+: moves ∧ (early.foldl Cursor.step start).iterator = rid ∧
        (early.foldl Cursor.step start).session.store.Live rid) ∧
      (c.iterator = endRid → ∀ rid,
        (∀ early, early <+: moves → (early.foldl Cursor.step start).session.store.Live rid) →
          rid ∈ c.visited) := by
  obtain ⟨chain, sound, granted'⟩ := before.invariant
    (I := fun s => ∃ chain, s.Sound chain ∧ ∀ call, s.heap.grants call = true)
    (fun _ _ ⟨_, sound, granted⟩ legal =>
      let ⟨chain', sound', _, same⟩ := sound.step legal
      ⟨chain', sound', same ▸ granted⟩) ⟨chain, sound, granted⟩
  obtain ⟨chain', follows, -, same, meets, met⟩ := (sound.gives_begin granted').follows
    (fun rid mem => absurd mem List.not_mem_nil) List.Pairwise.nil (fun _ _ rid mem => absurd mem List.not_mem_nil)
  intro start c
  have begun : start.session.store = (requests.foldl Session.step s).store := same
  obtain ⟨chain'', follows', visited⟩ := follows.visited_run during
  refine ⟨?_, fun rid mem => ?_, fun ended rid stays => ?_⟩
  · exact follows'.ordered.imp fun less => by
      rintro rfl
      exact not_before_self less
  · refine (visited rid mem).elim (fun atFirst => ?_) id
    obtain ⟨here, live⟩ := (met rid atFirst).resolve_left List.not_mem_nil
    exact ⟨[], List.nil_prefix, here, begun ▸ live⟩
  · have live := stays [] List.nil_prefix
    rw [List.foldl_nil, begun] at live
    obtain ⟨_, -, found⟩ := follows.run during stays (meets rid live (.inr trivial))
    exact found.resolve_right fun ahead => ahead.1 ended

/-- A scan that finds a row stands at it. -/
theorem Session.Sound.scan_inside {rid : Rid} (sound : s.Sound chain) (granted : ∀ call, s.heap.grants call = true)
    (live : s.store.Live rid) : s.scan.iterator ≠ endRid := by
  obtain ⟨first, heap', chain', scanned, stands, -⟩ := (sound.gives_begin granted).moveTo []
  rw [Session.scan, scanned]
  rcases stands with ⟨-, none⟩ | ⟨found, -⟩
  · exact absurd live (none rid trivial)
  · exact sound.1.ne_endRid (sound.mem_chain found.issued)

/-- The iterator may go on after a call, and another scan may begin. -/
theorem along_advance {request : Request} (legal : c.session.Legal request) (inside : c.iterator ≠ endRid) :
    Along Cursor.Legal Cursor.step c [.call request, .advance, .call .begin] := ⟨legal, inside, trivial, trivial⟩

/-- A scan of the heap with gaps; a row ahead is deleted, the scan goes on, and another scan begins. -/
theorem scan_among_calls_gaps :
    let start := ([].foldl Session.step gapsSession).scan
    let moves := [Cursor.Move.call (.deleteTuple ⟨2, 0⟩), .advance, .call .begin]
    let c := moves.foldl Cursor.step start
    c.visited.Nodup ∧
      (∀ rid ∈ c.visited, ∃ early, early <+: moves ∧ (early.foldl Cursor.step start).iterator = rid ∧
        (early.foldl Cursor.step start).session.store.Live rid) ∧
      (c.iterator = endRid → ∀ rid,
        (∀ early, early <+: moves → (early.foldl Cursor.step start).session.store.Live rid) →
          rid ∈ c.visited) :=
  have sound := gapsSession_sound
  have inside : gapsSession.scan.iterator ≠ endRid :=
    sound.scan_inside (fun _ => rfl) (gapsSession_live ⟨0, 0⟩ (by simp))
  have issued : gapsSession.scan.session.store ⟨2, 0⟩ ≠ none := by
    rw [Session.scan, Session.session_moveTo]
    exact Session.step_issued (gapsSession_live ⟨2, 0⟩ (by simp)).issued _
  scan_among_calls sound (fun _ => rfl) trivial (along_advance issued inside)

end Runs

end OneBase.TableHeap
