import OneBase.Proofs.Query.Sort
import OneBase.Proofs.Query.Runtime

/-! # Sorting by ORDER BY

On rows on which the keys are integers or texts the comparison given to `std::sort` is a strict weak ordering, so what
comes out of the sort is the rows of the child in the lexicographic order of the keys.
-/

namespace OneBase

variable {F : Type} [Field F] [LinearOrder F]

namespace Value

/-- The types with an order that ORDER BY is about. -/
def Ordered (t : TypeId) : Prop := t = .integer ∨ t = .varchar

section Payload

omit [Field F] [LinearOrder F]

/-- Two values of one type with the same payload; a NULL stands for the payload it is read with. -/
def Same (a b : Value F) : Prop :=
  a.typeId = b.typeId ∧ a.integerPart = b.integerPart ∧ a.varcharPart = b.varcharPart

/-- A smaller integer, or a text that comes first byte by byte. -/
def Below (a b : Value F) : Prop :=
  a.typeId = .integer ∧ b.typeId = .integer ∧ a.integerPart < b.integerPart ∨
    a.typeId = .varchar ∧ b.typeId = .varchar ∧ a.varcharPart < b.varcharPart

theorem varcharPart_of_integer {a : Value F} (type : a.typeId = .integer) : a.varcharPart = [] := by
  cases a with
  | varchar s => cases type
  | _ => rfl

theorem integerPart_of_varchar {a : Value F} (type : a.typeId = .varchar) : a.integerPart = 0 := by
  cases a with
  | integer i => cases type
  | _ => rfl

end Payload

section Ordered

variable {a b : Value F}

omit [LinearOrder F] in
theorem rank_eq_iff (ordered : Ordered a.typeId) (sameType : a.typeId = b.typeId) : a.rank = b.rank ↔ a.Same b := by
  have text (s t : Text) : s.map UInt8.toNat = t.map UInt8.toNat ↔ s = t :=
    (List.map_injective_iff.mpr fun _ _ => UInt8.toNat_inj.mp).eq_iff
  rw [rank_eq a, rank_eq b, ← sameType, Same]
  rcases ordered with type | type
  · have typeB : b.typeId = .integer := sameType ▸ type
    simp [type, typeB, varcharPart_of_integer, Int32.toInt_inj]
  · have typeB : b.typeId = .varchar := sameType ▸ type
    simp [type, typeB, integerPart_of_varchar, text]

theorem rank_lt_iff (ordered : Ordered a.typeId) (sameType : a.typeId = b.typeId) : a.rank < b.rank ↔ a.Below b := by
  rw [rank_eq a, rank_eq b, ← sameType, Below, ← sameType]
  rcases ordered with type | type
  · simp [type, Prod.Lex.toLex_lt_toLex, Int32.lt_iff_toInt_lt]
  · simp [type, Prod.Lex.toLex_lt_toLex, text_lt_iff]

end Ordered

end Value

namespace SortExecutor

/-- The lexicographic order of the keys, each with its direction. -/
def InOrder : List (Bool × Expression F) → Row F → Row F → Prop
  | [], _, _ => True
  | (isAscending, e) :: rest, a, b => ∃ valA valB, e.evaluate a = .ok valA ∧ e.evaluate b = .ok valB ∧
    ((if isAscending then valA.Below valB else valB.Below valA) ∨ valA.Same valB ∧ InOrder rest a b)

/-- Every key has a value on every row, and all of them are integers or all of them are texts. -/
def Sortable (orderBys : List (Bool × Expression F)) (rows : List (Row F)) : Prop :=
  ∀ entry ∈ orderBys, ∃ t, Value.Ordered t ∧ ∀ row ∈ rows, ∃ value, entry.2.evaluate row = .ok value ∧
    value.typeId = t

section Keys

variable {orderBys : List (Bool × Expression F)} {rows : List (Row F)} {a b : Row F}

/-- The comparison answers on sortable rows. -/
theorem Sortable.answers (sortable : Sortable orderBys rows) (memA : a ∈ rows) (memB : b ∈ rows) :
    ∃ answer, less orderBys a b = .ok answer := by
  induction orderBys with
  | nil => exact ⟨false, rfl⟩
  | cons first rest ih =>
    obtain ⟨isAscending, e⟩ := first
    obtain ⟨t, ordered, typed⟩ := sortable _ (List.mem_cons_self ..)
    obtain ⟨valA, evalA, typeA⟩ := typed a memA
    obtain ⟨valB, evalB, typeB⟩ := typed b memB
    obtain ⟨answer, answered⟩ := ih fun entry mem => sortable entry (List.mem_cons_of_mem _ mem)
    have valid : valA.typeId ≠ .invalid := by
      rintro invalid
      rcases ordered with rfl | rfl <;> simp [invalid] at typeA
    have notBoolean : valA.typeId ≠ .boolean := by
      rintro boolean
      rcases ordered with rfl | rfl <;> simp [boolean] at typeA
    simp only [less_cons_eq_ok_iff]
    by_cases same : valA.rank = valB.rank
    · exact ⟨answer, valA, valB, evalA, evalB, typeA.trans typeB.symm, valid, by rwa [if_pos same]⟩
    · exact ⟨_, valA, valB, evalA, evalB, typeA.trans typeB.symm, valid, by
        rw [if_neg same]
        exact ⟨notBoolean, rfl⟩⟩

/-- On sortable rows the order of the ranks is the lexicographic order. -/
theorem Sortable.inOrder_iff (sortable : Sortable orderBys rows) (memA : a ∈ rows) (memB : b ∈ rows) :
    InOrder orderBys a b ↔ le orderBys a b := by
  induction orderBys with
  | nil => simp [InOrder, le]
  | cons first rest ih =>
    obtain ⟨isAscending, e⟩ := first
    obtain ⟨t, ordered, typed⟩ := sortable _ (List.mem_cons_self ..)
    obtain ⟨valA, evalA, rfl⟩ := typed a memA
    obtain ⟨valB, evalB, sameType⟩ := typed b memB
    have keyA : key e a = valA.rank := by rw [key, evalA]; rfl
    have keyB : key e b = valB.rank := by rw [key, evalB]; rfl
    have rest := ih fun entry mem => sortable entry (List.mem_cons_of_mem _ mem)
    simp only [InOrder, evalA, evalB, Except.ok.injEq, exists_eq_left', exists_and_left, le, keyA, keyB, rest,
      ← Value.rank_lt_iff ordered sameType.symm, ← Value.rank_lt_iff (sameType ▸ ordered) sameType,
      ← Value.rank_eq_iff ordered sameType.symm]
    by_cases same : valA.rank = valB.rank
    · simp [same]
    · cases isAscending <;> simp [same]

/-- The comparison is a strict weak ordering of sortable rows. -/
theorem Sortable.strictWeak (sortable : Sortable orderBys rows) :
    IsStrictWeakOrder {row // row ∈ rows} fun a b => less orderBys a b = .ok true := by
  have iff (a b : {row // row ∈ rows}) : less orderBys a b = .ok true ↔ ¬ le orderBys b a := by
    obtain ⟨answer, answered⟩ := sortable.answers a.2 b.2
    rw [answered, less_eq_not_le answered]
    simp
  have total (a b : {row // row ∈ rows}) := le_total orderBys a.1 b.1
  have trans (a b c : {row // row ∈ rows}) := le_trans orderBys a.1 b.1 c.1
  refine { irrefl := ?_, trans := ?_, incomp_trans := ?_ }
  · intro a before
    rw [iff] at before
    exact before ((total a a).elim id id)
  · intro a b c ab bc
    rw [iff] at ab bc ⊢
    exact fun ca => bc (trans c a b ca ((total a b).resolve_right ab))
  · intro a b c ab bc
    simp only [iff, not_not] at ab bc ⊢
    exact ⟨trans c b a bc.1 ab.1, trans a b c ab.2 bc.2⟩

end Keys

/-- ORDER BY over integers and texts: the comparison is a strict weak ordering on the rows of the child, and the rows
come back in the lexicographic order of the keys. -/
theorem sorts_lexicographically (runtime : Runtime F) (orderBys : List (Bool × Expression F)) (rows : List (Row F))
    (sortable : Sortable orderBys rows) :
    (∀ a ∈ rows, ∀ b ∈ rows, ∃ answer, less orderBys a b = .ok answer) ∧
      IsStrictWeakOrder {row // row ∈ rows} (fun a b => less orderBys a b = .ok true) ∧
      ∃ sorted, init runtime orderBys (.ok { rows }) = .ok { rows := sorted } ∧ sorted.Perm rows ∧
        sorted.IsChain (InOrder orderBys) := by
  have answers : ∀ a ∈ rows, ∀ b ∈ rows, ∃ answer, less orderBys a b = .ok answer :=
    fun a memA b memB => sortable.answers memA memB
  obtain ⟨sorted, returned⟩ := sort_returns runtime answers
  obtain ⟨perm, ordered⟩ := sort_sorted returned
  refine ⟨answers, sortable.strictWeak, sorted, ?_, perm, ?_⟩
  · simp [init, Stream.drain, returned, bind, Except.bind, pure, Except.pure]
  · apply List.Pairwise.isChain
    apply ordered.imp_of_mem
    intro a b memA memB before
    exact (sortable.inOrder_iff (perm.mem_iff.mp memA) (perm.mem_iff.mp memB)).mpr before

/-- A number up, then a name down. -/
def numberThenName : List (Bool × Expression ℚ) :=
  [(true, .columnValue 0 0 .integer), (false, .columnValue 0 1 .varchar)]

def numberedNames : List (Row ℚ) :=
  [[.integer 2, .varchar [97]], [.integer 1, .varchar [97]], [.integer 1, .varchar [98, 99]]]

theorem sorts_lexicographically_numberedNames : IsStrictWeakOrder {row // row ∈ numberedNames}
    (fun a b => less numberThenName a b = .ok true) ∧ ∃ sorted,
      init (Runtime.plain ℚ) numberThenName (.ok { rows := numberedNames }) = .ok { rows := sorted } ∧
      sorted.Perm numberedNames ∧ sorted.IsChain (InOrder numberThenName) := by
  apply And.right
  apply sorts_lexicographically (Runtime.plain ℚ) numberThenName numberedNames
  intro entry mem
  simp only [numberThenName, List.mem_cons, List.not_mem_nil, or_false] at mem
  rcases mem with rfl | rfl
  · exact ⟨.integer, .inl
      rfl, by simp [numberedNames, Expression.evaluate, Expression.evaluateWith, Row.getValue, Value.typeId]⟩
  · exact ⟨.varchar, .inr
      rfl, by simp [numberedNames, Expression.evaluate, Expression.evaluateWith, Row.getValue, Value.typeId]⟩

end SortExecutor

end OneBase
