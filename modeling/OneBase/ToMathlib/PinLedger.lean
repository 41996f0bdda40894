import Mathlib.Data.Multiset.Count
import Mathlib.Algebra.Order.Group.Multiset
import Mathlib.Algebra.BigOperators.Group.Multiset.Basic

/-! # Keeping account of pins

Code over a buffer pool takes and drops pins by hand. `Moves held m after` says that if the pins `held` are taken when
`m` begins, the pins `after a` are taken when it ends with `a`: every page is pinned as often more than before as it
stands in the multiset. A page that is allocated on the way has its count set, so that there the account is a bound.
The account of the pins that a caller of `m` holds besides is a frame.
-/

namespace PinLedger

theorem cons_cons_last {ι : Type} (a b c : ι) : (a ::ₘ b ::ₘ {c} : Multiset ι) = c ::ₘ a ::ₘ {b} := by
  rw [← Multiset.cons_zero c, Multiset.cons_swap b c, Multiset.cons_swap a c]
  rfl

variable {σ ι α β : Type} [LinearOrder ι]

/-- Where a state keeps the pin counts, and the first page id that was never allocated. -/
structure Pool (σ ι : Type) where
  pinCount : σ → ι → ℕ
  nextPageId : σ → ι

namespace Pool

variable (pool : Pool σ ι)

/-- Over the counts `base` the pages in `held` are pinned, as often as they stand there. The pages from `first` on
were allocated since. -/
structure Holds (base : ι → ℕ) (first : ι) (held : Multiset ι) (s : σ) : Prop where
  allocated : first ≤ pool.nextPageId s
  old : ∀ p < first, pool.pinCount s p = base p + held.count p
  new : ∀ p, first ≤ p → pool.pinCount s p ≤ base p + held.count p

/-- Code that holds the pins `held` when it begins holds the pins `after a` when it ends. -/
def Moves (held : Multiset ι) (m : StateT σ Option α) (after : α → Multiset ι) : Prop :=
  ∀ base first s, pool.Holds base first held s → ∀ a s', m s = some (a, s') → pool.Holds base first (after a) s'

/-- Code that has nothing to do with pins. -/
def Still (m : StateT σ Option α) : Prop :=
  ∀ s a s', m s = some (a, s') → pool.pinCount s' = pool.pinCount s ∧ pool.nextPageId s' = pool.nextPageId s

/-- Code that pins a page when its result is `ok`. -/
def Fetches (p : ι) (ok : α → Bool) (m : StateT σ Option α) : Prop :=
  ∀ s a s', m s = some (a, s') → pool.nextPageId s' = pool.nextPageId s ∧
    pool.pinCount s' = if ok a then Function.update (pool.pinCount s) p (pool.pinCount s p + 1) else pool.pinCount s

/-- Code that allocates a page, which it pins, or does nothing. -/
def Allocates (m : StateT σ Option (Option ι)) : Prop :=
  ∀ s a s', m s = some (a, s') → pool.nextPageId s ≤ pool.nextPageId s' ∧
    (a = none ∧ pool.pinCount s' = pool.pinCount s ∨
      a = some (pool.nextPageId s) ∧ pool.pinCount s' = Function.update (pool.pinCount s) (pool.nextPageId s) 1)

/-- Code that drops a pin. -/
def Unpins (p : ι) (m : StateT σ Option α) : Prop :=
  ∀ s a s', m s = some (a, s') → pool.nextPageId s' = pool.nextPageId s ∧
    pool.pinCount s' = Function.update (pool.pinCount s) p (pool.pinCount s p - 1)

variable {pool} {base : ι → ℕ} {first p : ι} {held besides : Multiset ι} {s s' : σ} {m : StateT σ Option α}
  {f : α → StateT σ Option β} {after middle : α → Multiset ι} {final : β → Multiset ι}

namespace Holds

theorem congr (holds : pool.Holds base first held s) (pins : pool.pinCount s' = pool.pinCount s)
    (next : pool.nextPageId s ≤ pool.nextPageId s') : pool.Holds base first held s' :=
  ⟨holds.allocated.trans next, pins ▸ holds.old, pins ▸ holds.new⟩

theorem pin (holds : pool.Holds base first held s) (next : pool.nextPageId s' = pool.nextPageId s)
    (pins : pool.pinCount s' = Function.update (pool.pinCount s) p (pool.pinCount s p + 1)) :
    pool.Holds base first (p ::ₘ held) s' := by
  refine ⟨next ▸ holds.allocated, fun q old => ?_, fun q new => ?_⟩
  · have before := holds.old q old
    rw [pins, Function.update_apply, Multiset.count_cons]
    split_ifs with same
    · subst same
      omega
    · exact before
  · have before := holds.new q new
    rw [pins, Function.update_apply, Multiset.count_cons]
    split_ifs with same
    · subst same
      omega
    · exact before

theorem unpin (holds : pool.Holds base first (p ::ₘ held) s) (next : pool.nextPageId s' = pool.nextPageId s)
    (pins : pool.pinCount s' = Function.update (pool.pinCount s) p (pool.pinCount s p - 1)) :
    pool.Holds base first held s' := by
  refine ⟨next ▸ holds.allocated, fun q old => ?_, fun q new => ?_⟩
  · have before := holds.old q old
    rw [Multiset.count_cons] at before
    rw [pins, Function.update_apply]
    split_ifs at before ⊢ with same
    · subst same
      omega
    · exact before
  · have before := holds.new q new
    rw [Multiset.count_cons] at before
    rw [pins, Function.update_apply]
    split_ifs at before ⊢ with same
    · subst same
      omega
    · exact before

/-- An allocated page is a new one, whose count no longer matters. -/
theorem allocate (holds : pool.Holds base first held s) (next : pool.nextPageId s ≤ pool.nextPageId s')
    (pins : pool.pinCount s' = Function.update (pool.pinCount s) (pool.nextPageId s) 1) :
    pool.Holds base first (pool.nextPageId s ::ₘ held) s' := by
  refine ⟨holds.allocated.trans next, fun q old => ?_, fun q new => ?_⟩
  · have other : q ≠ pool.nextPageId s := (old.trans_le holds.allocated).ne
    rw [pins, Function.update_of_ne other, Multiset.count_cons_of_ne other]
    exact holds.old q old
  · have before := holds.new q new
    rw [pins, Function.update_apply, Multiset.count_cons]
    split_ifs
    · omega
    · exact before

/-- The pins of a caller may be counted among the ones that were there before. -/
theorem frame_iff : pool.Holds base first (held + besides) s ↔
    pool.Holds (fun p => base p + besides.count p) first held s := by
  have sum (q : ι) : base q + (held + besides).count q = base q + besides.count q + held.count q := by
    rw [Multiset.count_add]
    omega
  constructor
  · rintro ⟨allocated, old, new⟩
    exact ⟨allocated, fun q h => (old q h).trans (sum q), fun q h => (new q h).trans_eq (sum q)⟩
  · rintro ⟨allocated, old, new⟩
    exact ⟨allocated, fun q h => (old q h).trans (sum q).symm, fun q h => (new q h).trans_eq (sum q).symm⟩

end Holds

theorem moves_pure {a : α} (same : held = after a) : pool.Moves held (pure a) after := by
  rintro base first s holds _ _ ⟨⟩
  exact same ▸ holds

/-- Running out of rounds ends nothing. -/
theorem moves_none : pool.Moves held (fun _ => none : StateT σ Option α) after := by
  rintro base first s holds a s' ⟨⟩

theorem Moves.bind (head : pool.Moves held m middle) (rest : ∀ a, pool.Moves (middle a) (f a) final) :
    pool.Moves held (m >>= f) final := by
  intro base first s holds b s'' ran
  change (m s).bind (fun result => f result.1 result.2) = some (b, s'') at ran
  obtain ⟨⟨a, s'⟩, ranHead, ranRest⟩ := Option.bind_eq_some_iff.mp ran
  exact rest a base first s' (head base first s holds a s' ranHead) b s'' ranRest

/-- What the caller holds besides stays held. -/
theorem Moves.frame (moves : pool.Moves held m after) (besides : Multiset ι) :
    pool.Moves (held + besides) m fun a => after a + besides := fun _ first s holds a s' ran =>
  Holds.frame_iff.mpr (moves _ first s (Holds.frame_iff.mp holds) a s' ran)

theorem Still.moves (still : pool.Still m) (held : Multiset ι) : pool.Moves held m fun _ => held :=
  fun _ _ s holds a s' ran => holds.congr (still s a s' ran).1 (still s a s' ran).2.ge

theorem Still.bind (still : pool.Still m) (rest : ∀ a, pool.Moves held (f a) final) :
    pool.Moves held (m >>= f) final :=
  (still.moves held).bind rest

theorem Fetches.moves {ok : α → Bool} (fetches : pool.Fetches p ok m) (held : Multiset ι) :
    pool.Moves held m fun a => if ok a then p ::ₘ held else held := by
  intro base first s holds a s' ran
  obtain ⟨next, pins⟩ := fetches s a s' ran
  beta_reduce
  cases fetched : ok a with
  | true =>
    rw [fetched, if_pos rfl] at pins
    exact holds.pin next pins
  | false =>
    rw [fetched, if_neg Bool.false_ne_true] at pins
    exact holds.congr pins next.ge

theorem Fetches.bind {ok : α → Bool} (fetches : pool.Fetches p ok m)
    (fetched : ∀ a, ok a = true → pool.Moves (p ::ₘ held) (f a) final)
    (refused : ∀ a, ok a = false → pool.Moves held (f a) final) : pool.Moves held (m >>= f) final := by
  refine (fetches.moves held).bind fun a => ?_
  cases result : ok a with
  | true => exact fetched a result
  | false => exact refused a result

theorem Allocates.moves {m : StateT σ Option (Option ι)} (allocates : pool.Allocates m) (held : Multiset ι) :
    pool.Moves held m fun result => result.elim held (· ::ₘ held) := by
  intro base first s holds a s' ran
  obtain ⟨next, ⟨rfl, pins⟩ | ⟨rfl, pins⟩⟩ := allocates s a s' ran
  · exact holds.congr pins next
  · exact holds.allocate next pins

theorem Allocates.bind {m : StateT σ Option (Option ι)} {f : Option ι → StateT σ Option β}
    (allocates : pool.Allocates m) (allocated : ∀ p, pool.Moves (p ::ₘ held) (f (some p)) final)
    (refused : pool.Moves held (f none) final) : pool.Moves held (m >>= f) final := by
  refine (allocates.moves held).bind fun result => ?_
  cases result with
  | none => exact refused
  | some p => exact allocated p

theorem Unpins.moves (unpins : pool.Unpins p m) (held : Multiset ι) : pool.Moves (p ::ₘ held) m fun _ => held :=
  fun _ _ s holds a s' ran => holds.unpin (unpins s a s' ran).1 (unpins s a s' ran).2

theorem Unpins.bind (unpins : pool.Unpins p m) (taken : held = p ::ₘ besides)
    (rest : ∀ a, pool.Moves besides (f a) final) : pool.Moves held (m >>= f) final := by
  subst taken
  exact (unpins.moves besides).bind rest

/-- Code that ends without pins of its own leaves every page pinned as it was, if no page that was never allocated
was pinned. -/
theorem Moves.pinCount_eq (moves : pool.Moves 0 m fun _ => 0)
    (unused : ∀ p, pool.nextPageId s ≤ p → pool.pinCount s p = 0)
    {a : α} (ran : m s = some (a, s')) : pool.pinCount s' = pool.pinCount s := by
  have start : pool.Holds (pool.pinCount s) (pool.nextPageId s) 0 s :=
    ⟨le_rfl, fun _ _ => rfl, fun _ _ => le_rfl⟩
  have holds := moves _ _ s start a s' ran
  funext p
  rcases lt_or_ge p (pool.nextPageId s) with old | new
  · exact holds.old p old
  · exact Nat.le_antisymm (holds.new p new) ((unused p new).symm ▸ Nat.zero_le _)

end Pool

end PinLedger
