import Mathlib.Data.List.Basic

/-! # Code with state and exceptions that carries out a pure computation

`Code ε σ α` passes a state on, also when it throws, and fails when it runs out of rounds. `Ends m s outcome R`
says that from `s` the code `m` does what the pure `outcome` says: it throws what `outcome` throws, or it ends with a
result and a state that `R` relates to the result of `outcome`. The rules follow the shape of `do` blocks. A loop that
pulls values out of a part of its state is a fold over the values that the part yields. What code comes to in a number
of rounds it comes to in more of them.
-/

namespace ExceptRuns

variable {ε σ τ α β γ δ : Type}

/-- State-passing code that keeps its state when it throws and may run out of rounds. -/
abbrev Code (ε σ α : Type) := ExceptT ε (StateT σ Option) α

namespace Code

/-- A computation that leaves the state alone. -/
def lift (x : Except ε α) : Code ε σ α := fun s => some (x, s)

theorem bind_ok {m : Code ε σ α} {s s' : σ} {a : α} (ran : m s = some (.ok a, s')) (f : α → Code ε σ β) :
    (m >>= f) s = f a s' := by
  change (m s).bind (fun out => ExceptT.bindCont f out.1 out.2) = f a s'
  rw [ran]
  rfl

theorem bind_error {m : Code ε σ α} {s s' : σ} {e : ε} (ran : m s = some (.error e, s'))
    (f : α → Code ε σ β) :
    (m >>= f) s = some (.error e, s') := by
  change (m s).bind (fun out => ExceptT.bindCont f out.1 out.2) = _
  rw [ran]
  rfl

theorem bind_none {m : Code ε σ α} {s : σ} (stuck : m s = none) (f : α → Code ε σ β) :
    (m >>= f) s = none := by
  change (m s).bind (fun out => ExceptT.bindCont f out.1 out.2) = none
  rw [stuck]
  rfl

end Code

/-- A part of a state that can be read and replaced. -/
structure Part (σ τ : Type) where
  read : σ → τ
  write : σ → τ → σ
  read_write : ∀ s t, read (write s t) = t

/-- Code on a part, as code on the whole. -/
def Part.on (part : Part σ τ) (m : Code ε τ α) : Code ε σ α := fun s =>
  (m (part.read s)).map fun out => (out.1, part.write s out.2)

theorem Part.on_run {part : Part σ τ} {m : Code ε τ α} {s : σ} {t : τ} {a : Except ε α}
    (ran : m (part.read s) = some (a, t)) : part.on m s = some (a, part.write s t) := by
  rw [Part.on, ran]
  rfl

/-- The whole of a state. -/
def Part.whole : Part σ σ := ⟨id, fun _ s => s, fun _ _ => rfl⟩

@[simp] theorem Part.whole_on (m : Code ε σ α) : Part.whole.on m = m := by
  funext s
  change (m s).map (fun out => (out.1, out.2)) = m s
  cases m s <;> rfl

/-- The code does what the computation says. -/
def Ends (m : Code ε σ β) (s : σ) (outcome : Except ε γ) (R : γ → β → σ → Prop) : Prop :=
  match outcome with
  | .error e => ∃ s', m s = some (.error e, s')
  | .ok g => ∃ b s', m s = some (.ok b, s') ∧ R g b s'

namespace Ends

variable {m : Code ε σ β} {s : σ} {outcome : Except ε γ} {R : γ → β → σ → Prop}

theorem bind {α' γ' : Type} {f : β → Code ε σ α'} {rest : γ → Except ε γ'}
    {R' : γ' → α' → σ → Prop}
    (first : Ends m s outcome R) (later : ∀ g b s', outcome = .ok g → R g b s' → Ends (f b) s' (rest g) R') :
    Ends (m >>= f) s (outcome >>= rest) R' := by
  cases outcome with
  | error e =>
    obtain ⟨s', ran⟩ := first
    exact ⟨s', Code.bind_error ran f⟩
  | ok g =>
    obtain ⟨b, s', ran, related⟩ := first
    have ends := later g b s' rfl related
    change Ends (m >>= f) s (rest g) R'
    unfold Ends at ends ⊢
    rw [Code.bind_ok ran f]
    exact ends

theorem pure {a : α} {g : γ} {R : γ → α → σ → Prop} (related : R g a s) :
    Ends (Pure.pure a) s (Pure.pure g : Except ε γ) R :=
  ⟨a, s, rfl, related⟩

/-- Code that has no counterpart in the computation and does not throw. -/
theorem skip {f : β → Code ε σ α} {s' : σ} {b : β} {R : γ → α → σ → Prop}
    (ran : m s = some (.ok b, s'))
    (later : Ends (f b) s' outcome R) : Ends (m >>= f) s outcome R := by
  unfold Ends at later ⊢
  rw [Code.bind_ok ran f]
  exact later

theorem lift {x : Except ε β} {R : β → β → σ → Prop} (related : ∀ b, x = .ok b → R b b s) :
    Ends (Code.lift x) s x R := by
  cases x with
  | error e => exact ⟨s, rfl⟩
  | ok b => exact ⟨b, s, rfl, related b rfl⟩

theorem modify {f : σ → σ} {g : γ} {R : γ → PUnit → σ → Prop} (related : R g ⟨⟩ (f s)) :
    Ends (modify f) s (Pure.pure g : Except ε γ) R :=
  ⟨⟨⟩, f s, rfl, related⟩

/-- The computation goes on with a pure step. -/
theorem map {f : γ → δ} {R' : δ → β → σ → Prop} (ends : Ends m s outcome R)
    (related : ∀ g b s', R g b s' → R' (f g) b s') :
    Ends m s (outcome >>= fun g => Pure.pure (f g)) R' := by
  cases outcome with
  | error e => exact ends
  | ok g =>
    obtain ⟨b, s', ran, holds⟩ := ends
    exact ⟨b, s', ran, related g b s' holds⟩

/-- The code goes on with a step that does not throw. -/
theorem after {f : β → Code ε σ α} {R' : γ → α → σ → Prop} (ends : Ends m s outcome R)
    (later : ∀ g b s', R g b s' → ∃ a s'', f b s' = some (.ok a, s'') ∧ R' g a s'') :
    Ends (m >>= f) s outcome R' := by
  cases outcome with
  | error e =>
    obtain ⟨s', ran⟩ := ends
    exact ⟨s', Code.bind_error ran f⟩
  | ok g =>
    obtain ⟨b, s', ran, holds⟩ := ends
    obtain ⟨a, s'', ranOn, related⟩ := later g b s' holds
    exact ⟨a, s'', (Code.bind_ok ran f).trans ranOn, related⟩

theorem mono {R' : γ → β → σ → Prop} (ends : Ends m s outcome R)
    (weaker : ∀ g b s', R g b s' → R' g b s') :
    Ends m s outcome R' := by
  cases outcome with
  | error e => exact ends
  | ok g =>
    obtain ⟨b, s', ran, related⟩ := ends
    exact ⟨b, s', ran, weaker g b s' related⟩

theorem on {part : Part σ τ} {m : Code ε τ β} {R : γ → β → τ → Prop}
    (ends : Ends m (part.read s) outcome R) :
    Ends (part.on m) s outcome fun g b s' => ∃ t, s' = part.write s t ∧ R g b t := by
  cases outcome with
  | error e =>
    obtain ⟨t, ran⟩ := ends
    exact ⟨_, Part.on_run ran⟩
  | ok g =>
    obtain ⟨b, t, ran, related⟩ := ends
    exact ⟨b, _, Part.on_run ran, t, rfl, related⟩

end Ends

/-! ## Pulling values -/

/-- From a state on, the calls of `next` give these values one after another, and then the end or an exception. -/
def Yields (next : Code ε σ (Option α)) : List α → Option ε → σ → Prop
  | [], none, s => ∃ s', next s = some (.ok none, s')
  | [], some e, s => ∃ s', next s = some (.error e, s')
  | a :: rest, failure, s => ∃ s', next s = some (.ok (some a), s') ∧ Yields next rest failure s'

theorem Yields.congr {next : Code ε σ (Option α)} {values : List α} {failure : Option ε} {s s' : σ}
    (yields : Yields next values failure s) (same : next s' = next s) : Yields next values failure s' := by
  cases values with
  | nil =>
    cases failure with
    | none =>
      obtain ⟨last, ran⟩ := yields
      exact ⟨last, same.trans ran⟩
    | some e =>
      obtain ⟨last, ran⟩ := yields
      exact ⟨last, same.trans ran⟩
  | cons a rest =>
    obtain ⟨middle, ran, later⟩ := yields
    exact ⟨middle, same.trans ran, later⟩

/-- `while (next(&value)) { … }`, with the local variables of the loop. -/
def whileNext (next : Code ε σ (Option α)) (body : β → α → Code ε σ β) : ℕ → β → Code ε σ β
  | 0, _ => fun _ => none
  | rounds + 1, b => do
    match ← next with
    | none => return b
    | some a => whileNext next body rounds (← body b a)

/-- What a loop over yielded values computes when its body computes `step`. -/
def throughAll (step : γ → α → Except ε γ) (values : List α) (failure : Option ε) (g : γ) :
    Except ε γ := do
  let g ← values.foldlM step g
  failure.elim (.ok g) .error

/-- A loop that pushes every value. -/
theorem throughAll_push (values : List α) (failure : Option ε) (pushed : List α) :
    throughAll (fun pushed a => .ok (pushed ++ [a])) values failure pushed =
      (failure.elim (.ok (pushed ++ values)) .error : Except ε (List α)) := by
  induction values generalizing pushed with
  | nil => simp [throughAll, pure, Except.pure, bind, Except.bind]
  | cons a rest ih =>
    rw [List.append_cons]
    exact ih (pushed ++ [a])

theorem Ends.whileNext {part : Part σ τ} {next : Code ε τ (Option α)} {body : β → α → Code ε σ β}
    {step : γ → α → Except ε γ} {R : γ → β → σ → Prop}
    (stable : ∀ g b s t, R g b s → R g b (part.write s t))
    (runs : ∀ g b s a, R g b s → Ends (body b a) s (step g a) fun g' b' s' =>
      part.read s' = part.read s ∧ R g' b' s')
    {values : List α} {failure : Option ε} {s : σ} {g : γ} {b : β}
    (yields : Yields next values failure (part.read s))
    (related : R g b s) {rounds : ℕ} (enough : values.length < rounds) :
    Ends (whileNext (part.on next) body rounds b) s (throughAll step values failure g) R := by
  induction values generalizing s g b rounds with
  | nil =>
    obtain ⟨rounds, rfl⟩ := Nat.exists_eq_succ_of_ne_zero (Nat.ne_of_gt enough)
    cases failure with
    | none =>
      obtain ⟨t, ran⟩ := yields
      exact Ends.skip (Part.on_run ran) ⟨b, _, rfl, stable g b s t related⟩
    | some e =>
      obtain ⟨t, ran⟩ := yields
      exact ⟨_, Code.bind_error (Part.on_run ran) _⟩
  | cons a rest ih =>
    obtain ⟨rounds, rfl⟩ := Nat.exists_eq_succ_of_ne_zero (Nat.ne_of_gt (Nat.lt_of_le_of_lt (Nat.zero_le _) enough))
    obtain ⟨t, ran, later⟩ := yields
    have unfolded : throughAll step (a :: rest) failure g = step g a >>= throughAll step rest failure := by
      simp only [throughAll, List.foldlM_cons, bind_assoc]
      rfl
    rw [unfolded]
    apply Ends.skip (Part.on_run ran)
    apply (runs g b (part.write s t) a (stable g b s t related)).bind
    rintro g' b' s' - ⟨same, related'⟩
    apply ih _ related' (Nat.lt_of_succ_lt_succ enough)
    rw [same, part.read_write]
    exact later

/-! ## More rounds -/

/-- Where the first code comes to something, the second one comes to the same. -/
def Extends (m m' : σ → Option β) : Prop := ∀ s out, m s = some out → m' s = some out

namespace Extends

theorem refl (m : σ → Option β) : Extends m m := fun _ _ ran => ran

theorem trans {m m' m'' : σ → Option β} (first : Extends m m') (second : Extends m' m'') : Extends m m'' :=
  fun s out ran => second s out (first s out ran)

theorem none (m : σ → Option β) : Extends (fun _ => Option.none) m := fun _ _ ran => by cases ran

theorem stateT_bind {m m' : StateT σ Option α} {f f' : α → StateT σ Option β} (first : Extends m m')
    (later : ∀ a, Extends (f a) (f' a)) : Extends (m >>= f) (m' >>= f') := by
  intro s out ran
  change (m s).bind (fun done => f done.1 done.2) = some out at ran
  change (m' s).bind (fun done => f' done.1 done.2) = some out
  obtain ⟨done, came, ran⟩ := Option.bind_eq_some_iff.mp ran
  rw [first s done came]
  exact later done.1 done.2 out ran

theorem bind {m m' : Code ε σ α} {f f' : α → Code ε σ β} (first : Extends m m')
    (later : ∀ a, Extends (f a) (f' a)) : Extends (m >>= f) (m' >>= f') := by
  refine @stateT_bind σ _ _ m m' (ExceptT.bindCont f) (ExceptT.bindCont f') first fun a => ?_
  cases a with
  | error e => exact refl _
  | ok a => exact later a

theorem on {part : Part σ τ} {m m' : Code ε τ α} (whole : Extends m m') : Extends (part.on m) (part.on m') := by
  intro s out ran
  obtain ⟨done, came, rfl⟩ := Option.map_eq_some_iff.mp ran
  rw [Part.on, whole _ _ came]
  rfl

theorem whileNext {next next' : Code ε σ (Option α)} {body body' : β → α → Code ε σ β}
    (pulls : Extends next next')
    (bodies : ∀ b a, Extends (body b a) (body' b a)) (rounds : ℕ) (b : β) :
    Extends (whileNext next body rounds b) (whileNext next' body' rounds b) := by
  induction rounds generalizing b with
  | zero => exact none _
  | succ rounds ih =>
    refine bind pulls fun value => ?_
    cases value with
    | none => exact refl _
    | some a => exact bind (bodies b a) ih

/-- What each further round extends, any number of them does. -/
theorem of_le {m : ℕ → σ → Option β} (step : ∀ rounds, Extends (m rounds) (m (rounds + 1)))
    {rounds rounds' : ℕ}
    (more : rounds ≤ rounds') : Extends (m rounds) (m rounds') := by
  induction more with
  | refl => exact refl _
  | step _ ih => exact ih.trans (step _)

end Extends

end ExceptRuns
