import Mathlib.Order.Lattice
import Mathlib.Tactic.Common

/-! # Blocks of keys between separators

A search tree node is a list of blocks, each carrying the separator to its left; the first
separator is meaningless. `Bounded below lo links hi` says that every key of a block lies from its
own separator on (from `lo` on for the first block) and below the next separator (below `hi` for
the last). The predicate composes over concatenation, so a node changes locally: a window of blocks
may be replaced by any window with the same outer bounds.
-/

namespace Separators

variable {K ι : Type*} [LinearOrder K]

/-- `k` lies in the half-open interval between two optional bounds. -/
def Within (lo hi : Option K) (k : K) : Prop := (∀ a ∈ lo, a ≤ k) ∧ ∀ b ∈ hi, k < b

omit [LinearOrder K] in
/-- The first separator of a list, or the bound that follows it. -/
def headKey (links : List (K × ι)) (hi : Option K) : Option K :=
  match links with
  | [] => hi
  | link :: _ => some link.1

omit [LinearOrder K] in
@[simp] theorem headKey_nil (hi : Option K) : headKey ([] : List (K × ι)) hi = hi := rfl

omit [LinearOrder K] in
@[simp] theorem headKey_cons (link : K × ι) (rest : List (K × ι)) (hi : Option K) :
    headKey (link :: rest) hi = some link.1 := rfl

/-- Every block lies between its separators. -/
def Bounded (below : ι → K → Prop) : Option K → List (K × ι) → Option K → Prop
  | _, [], _ => True
  | lo, link :: rest, hi =>
    (∀ k, below link.2 k → Within lo (headKey rest hi) k) ∧ Bounded below (headKey rest hi) rest hi

variable {below below' : ι → K → Prop} {lo lo' hi hi' : Option K}

@[simp] theorem bounded_nil : Bounded below lo [] hi := trivial

theorem bounded_cons {link : K × ι} {rest : List (K × ι)} :
    Bounded below lo (link :: rest) hi ↔
      (∀ k, below link.2 k → Within lo (headKey rest hi) k) ∧ Bounded below (headKey rest hi) rest hi :=
  Iff.rfl

theorem bounded_singleton {link : K × ι} :
    Bounded below lo [link] hi ↔ ∀ k, below link.2 k → Within lo hi k := by
  simp [Bounded]

/-- A window of two blocks. -/
theorem bounded_pair {x y : K × ι} :
    Bounded below lo [x, y] hi ↔
      (∀ k, below x.2 k → Within lo (some y.1) k) ∧ ∀ k, below y.2 k → Within (some y.1) hi k := by
  simp [Bounded]

/-- The separator of the first block is never read. -/
theorem bounded_rekey {key key' : K} {block : ι} {rest : List (K × ι)} :
    Bounded below lo ((key, block) :: rest) hi ↔ Bounded below lo ((key', block) :: rest) hi := Iff.rfl

/-- A nonempty front is bounded by the separator that follows it. -/
theorem bounded_append {front back : List (K × ι)} (nonempty : front ≠ []) :
    Bounded below lo (front ++ back) hi ↔
      Bounded below lo front (headKey back hi) ∧ Bounded below (headKey back hi) back hi := by
  induction front generalizing lo with
  | nil => exact absurd rfl nonempty
  | cons link rest ih =>
    cases rest with
    | nil => simp [Bounded]
    | cons next rest =>
      rw [List.cons_append, bounded_cons, ih (by simp), ← and_assoc]
      rfl

omit [LinearOrder K] in
/-- The lower bound of a block after `front`. -/
def lowKey (front : List (K × ι)) (key : K) : Option K := if front.isEmpty then none else some key

omit [LinearOrder K] in
@[simp] theorem lowKey_nil (key : K) : lowKey ([] : List (K × ι)) key = none := rfl

omit [LinearOrder K] in
@[simp] theorem lowKey_cons (link : K × ι) (front : List (K × ι)) (key : K) :
    lowKey (link :: front) key = some key := rfl

/-- Cut a whole node at one of its blocks. -/
theorem bounded_cut {front back : List (K × ι)} {link : K × ι} :
    Bounded below none (front ++ link :: back) hi ↔
      Bounded below none front (some link.1) ∧ Bounded below (lowKey front link.1) (link :: back) hi := by
  cases front with
  | nil => simp
  | cons first rest => exact bounded_append (by simp)

/-- Cut a whole node into a front, a window and a back. -/
theorem bounded_window {front window back : List (K × ι)} {link : K × ι} :
    Bounded below none (front ++ ((link :: window) ++ back)) hi ↔
      Bounded below none front (some link.1) ∧
        Bounded below (lowKey front link.1) (link :: window) (headKey back hi) ∧
        Bounded below (headKey back hi) back hi := by
  rw [List.cons_append, bounded_cut, ← List.cons_append, bounded_append (by simp)]

/-- Smaller blocks stay bounded. -/
theorem Bounded.anti {links : List (K × ι)} (bounded : Bounded below lo links hi)
    (smaller : ∀ link ∈ links, ∀ k, below' link.2 k → below link.2 k) : Bounded below' lo links hi := by
  induction links generalizing lo with
  | nil => trivial
  | cons link rest ih =>
    exact ⟨fun k member => bounded.1 k (smaller link List.mem_cons_self k member),
      ih bounded.2 (fun other member => smaller other (List.mem_cons_of_mem _ member))⟩

theorem bounded_congr {links : List (K × ι)}
    (same : ∀ link ∈ links, ∀ k, below' link.2 k ↔ below link.2 k) :
    Bounded below' lo links hi ↔ Bounded below lo links hi :=
  ⟨fun bounded => bounded.anti fun link member k => (same link member k).mpr,
    fun bounded => bounded.anti fun link member k => (same link member k).mp⟩

/-- The upper bound only has to bound the keys that are there. -/
theorem Bounded.rebound_right {links : List (K × ι)} (bounded : Bounded below lo links hi)
    (under : ∀ link ∈ links, ∀ k, below link.2 k → ∀ b ∈ hi', k < b) : Bounded below lo links hi' := by
  induction links generalizing lo with
  | nil => trivial
  | cons link rest ih =>
    cases rest with
    | nil =>
      rw [bounded_singleton] at bounded ⊢
      exact fun k member => ⟨(bounded k member).1, under link List.mem_cons_self k member⟩
    | cons next rest =>
      exact ⟨bounded.1, ih bounded.2 (fun other member => under other (List.mem_cons_of_mem _ member))⟩

/-- The lower bound only has to bound the keys of the first block. -/
theorem Bounded.rebound_left {link : K × ι} {rest : List (K × ι)}
    (bounded : Bounded below lo (link :: rest) hi)
    (above : ∀ k, below link.2 k → ∀ a ∈ lo', a ≤ k) : Bounded below lo' (link :: rest) hi :=
  ⟨fun k member => ⟨above k member, (bounded.1 k member).2⟩, bounded.2⟩

/-- With no empty block, the outer bounds bound every key and every inner separator. -/
theorem Bounded.within {links : List (K × ι)} (bounded : Bounded below lo links hi)
    (inhabited : ∀ link ∈ links, ∃ k, below link.2 k) :
    ∀ link ∈ links, ∀ k, below link.2 k → Within lo hi k := by
  induction links generalizing lo with
  | nil => simp
  | cons link rest ih =>
    cases rest with
    | nil =>
      intro other member k stored
      obtain rfl := List.mem_singleton.mp member
      exact bounded_singleton.mp bounded k stored
    | cons next rest =>
      have later := ih bounded.2 (fun other member => inhabited other (List.mem_cons_of_mem _ member))
      obtain ⟨first, firstStored⟩ := inhabited link List.mem_cons_self
      obtain ⟨second, secondStored⟩ := inhabited next (List.mem_cons_of_mem _ List.mem_cons_self)
      have upper := later next List.mem_cons_self second secondStored
      intro other member k stored
      rcases List.mem_cons.mp member with rfl | member
      · refine ⟨(bounded.1 k stored).1, fun b bound => ?_⟩
        exact (((bounded.1 k stored).2 _ rfl).trans_le (upper.1 _ rfl)).trans (upper.2 b bound)
      · have inside := later other member k stored
        refine ⟨fun a bound => ?_, inside.2⟩
        have start := bounded.1 first firstStored
        exact ((start.1 a bound).trans_lt (start.2 _ rfl)).le.trans (inside.1 _ rfl)

/-- A separator between inhabited blocks lies strictly inside the outer bounds. -/
theorem Bounded.separator_within {x y : K × ι} {rest : List (K × ι)}
    (bounded : Bounded below lo (x :: y :: rest) hi)
    (inhabited : ∀ link ∈ x :: y :: rest, ∃ k, below link.2 k) :
    (∀ a ∈ lo, a < y.1) ∧ ∀ b ∈ headKey rest hi, y.1 < b := by
  obtain ⟨first, firstStored⟩ := inhabited x List.mem_cons_self
  obtain ⟨second, secondStored⟩ := inhabited y (List.mem_cons_of_mem _ List.mem_cons_self)
  have start := bounded.1 first firstStored
  have next := bounded.2.1 second secondStored
  exact ⟨fun a bound => (start.1 a bound).trans_lt (start.2 _ rfl),
    fun b bound => (next.1 _ rfl).trans_lt (next.2 b bound)⟩

/-- Another separator fits before a block exactly when it splits the keys on its two sides. -/
theorem bounded_resplit {front back : List (K × ι)} {block : ι} {key key' : K} (nonempty : front ≠ [])
    (inhabited : ∀ link ∈ front, ∃ k, below link.2 k)
    (bounded : Bounded below lo (front ++ (key, block) :: back) hi) :
    Bounded below lo (front ++ (key', block) :: back) hi ↔
      (∀ link ∈ front, ∀ k, below link.2 k → k < key') ∧ ∀ k, below block k → key' ≤ k := by
  rw [bounded_append nonempty] at bounded ⊢
  constructor
  · rintro ⟨left, right⟩
    exact ⟨fun link member k stored => (left.within inhabited link member k stored).2 _ rfl,
      fun k stored => (right.1 k stored).1 _ rfl⟩
  · rintro ⟨under, above⟩
    refine ⟨bounded.1.rebound_right fun link member k stored b bound => ?_,
      bounded.2.rebound_left fun k stored a bound => ?_⟩
    · obtain rfl := Option.mem_some.mp bound
      exact under link member k stored
    · obtain rfl := Option.mem_some.mp bound
      exact above k stored

/-- A key that routes to a block by its separators lies above the blocks before and below those after. -/
theorem Bounded.splits {front back : List (K × ι)} {link : K × ι} {key : K}
    (bounded : Bounded below none (front ++ link :: back) none)
    (inhabited : ∀ other ∈ front ++ link :: back, ∃ k, below other.2 k)
    (lower : front ≠ [] → link.1 ≤ key) (upper : ∀ next ∈ back.head?, key < next.1) :
    (∀ other ∈ front, ∀ k, below other.2 k → k < key) ∧ ∀ other ∈ back, ∀ k, below other.2 k →
    key < k := by
  obtain ⟨left, right⟩ := bounded_cut.mp bounded
  constructor
  · intro other member k stored
    have inside := left.within (fun o m => inhabited o (List.mem_append_left _ m)) other member k stored
    exact (inside.2 _ rfl).trans_le (lower (List.ne_nil_of_mem member))
  · intro other member k stored
    cases back with
    | nil => simp at member
    | cons next rest =>
      have inside := right.2.within (fun o m => inhabited o (List.mem_append_right _
        (List.mem_cons_of_mem _ m))) other member k stored
      exact (upper next rfl).trans_le (inside.1 _ rfl)

/-- A key that routes to a block by its separators is in no other block. -/
theorem Bounded.routes {front back : List (K × ι)} {link : K × ι} {key : K}
    (bounded : Bounded below none (front ++ link :: back) none)
    (inhabited : ∀ other ∈ front ++ link :: back, ∃ k, below other.2 k)
    (lower : front ≠ [] → link.1 ≤ key) (upper : ∀ next ∈ back.head?, key < next.1) :
    ∀ other ∈ front ++ back, ¬ below other.2 key := by
  obtain ⟨before, after⟩ := bounded.splits inhabited lower upper
  intro other member stored
  rcases List.mem_append.mp member with member | member
  · exact lt_irrefl _ (before other member key stored)
  · exact lt_irrefl _ (after other member key stored)

/-- The predicate read position by position. -/
theorem bounded_iff_getElem {links : List (K × ι)} :
    Bounded below lo links hi ↔
      ∀ i (inside : i < links.length), ∀ k, below links[i].2 k →
        Within (if i = 0 then lo else some links[i].1)
          (if next : i + 1 < links.length then some links[i + 1].1 else hi) k := by
  induction links generalizing lo with
  | nil => simp
  | cons link rest ih =>
    rw [bounded_cons, ih]
    have shift : 2 < rest.length + 1 ↔ 1 < rest.length := by omega
    have upper : ∀ last, headKey rest last = if next : 0 < rest.length then some (rest[0]).1 else last := by
      intro last
      cases rest <;> simp
    constructor
    · rintro ⟨head, tail⟩ i inside k stored
      cases i with
      | zero => simpa [upper] using head k stored
      | succ i =>
        have inside' : i < rest.length := by simpa using inside
        have found := tail i inside' k (by simpa using stored)
        cases i with
        | zero => simpa [upper, inside', shift] using found
        | succ i => simpa using found
    · intro all
      refine ⟨fun k stored => ?_, fun i inside k stored => ?_⟩
      · simpa [upper] using all 0 (by simp) k stored
      · have found := all (i + 1) (by simpa using inside) k (by simpa using stored)
        cases i with
        | zero => simpa [upper, inside, shift] using found
        | succ i => simpa using found

end Separators
