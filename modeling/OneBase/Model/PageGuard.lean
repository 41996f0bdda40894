import Mathlib.Logic.Function.Basic
import OneBase.Model.Types

/-! # Page guards

`buffer/page_guard.cpp`. The three guards differ in which latch they take and in what they tell
`UnpinPage`, so each operation is one definition over these two and the source's guards are its
members. An operation gives back the guards it changed and the calls it makes on the page and on the
buffer pool. A guard never looks into the page it points to: pages are any type `ρ`, buffer pools any
type `β`, and the null pointer is `none`.
-/

namespace OneBase

/-- The calls of `RLatch` and `WLatch`. -/
inductive LatchMode where
  | read
  | write
deriving DecidableEq, Repr

/-- The calls on a page that a guard makes; `UnpinPage` is a call on the pool the guard points to. -/
inductive PageCall (β : Type) where
  | latch (mode : LatchMode)
  | getDataMut
  | unlatch (mode : LatchMode)
  | unpinPage (bpm : Option β) (isDirty : Bool)
deriving DecidableEq, Repr

/-- The fields of a guard. Only a `BasicPageGuard` has `is_dirty_`; in the others it stays `false`. -/
structure PageGuard (β ρ : Type) where
  bpm : Option β := none
  page : Option ρ := none
  isDirty : Bool := false
deriving DecidableEq, Repr

namespace PageGuard

variable {β ρ : Type}

/-- The constructor from a pool and a page. -/
def construct (latch : Option LatchMode) (bpm : Option β) (page : Option ρ) :
    PageGuard β ρ × List (ρ × PageCall β) :=
  ({ bpm, page }, page.toList.flatMap fun page => latch.toList.map fun mode => (page, .latch mode))

/-- What a move leaves in the source: its `is_dirty_` is not reset. -/
def moved (that : PageGuard β ρ) : PageGuard β ρ := { that with bpm := none, page := none }

/-- The move constructor: the new guard and the moved one. -/
def moveConstruct (that : PageGuard β ρ) : PageGuard β ρ × PageGuard β ρ := (that, that.moved)

/-- `Drop`. -/
def drop (latch : Option LatchMode) (dirty : Bool → Bool) (guard : PageGuard β ρ) :
    PageGuard β ρ × List (ρ × PageCall β) :=
  match guard.page with
  | none => (guard, [])
  | some page =>
    ({}, (latch.toList.map fun mode => (page, .unlatch mode)) ++
      [(page, .unpinPage guard.bpm (dirty guard.isDirty))])

end PageGuard

variable {β ρ : Type}

namespace BasicPageGuard

/-- `BasicPageGuard::BasicPageGuard`. -/
def construct (bpm : Option β) (page : Option ρ) := PageGuard.construct none bpm page

/-- `BasicPageGuard::Drop`. -/
def drop (guard : PageGuard β ρ) := guard.drop none id

/-- `BasicPageGuard::GetDataMut`. -/
def getDataMut (guard : PageGuard β ρ) : PageGuard β ρ × List (ρ × PageCall β) :=
  ({ guard with isDirty := true }, guard.page.toList.map fun page => (page, .getDataMut))

end BasicPageGuard

namespace ReadPageGuard

/-- `ReadPageGuard::ReadPageGuard`. -/
def construct (bpm : Option β) (page : Option ρ) := PageGuard.construct (some .read) bpm page

/-- `ReadPageGuard::Drop`. -/
def drop (guard : PageGuard β ρ) := guard.drop (some .read) fun _ => false

end ReadPageGuard

namespace WritePageGuard

/-- `WritePageGuard::WritePageGuard`. -/
def construct (bpm : Option β) (page : Option ρ) := PageGuard.construct (some .write) bpm page

/-- `WritePageGuard::Drop`. -/
def drop (guard : PageGuard β ρ) := guard.drop (some .write) fun _ => true

/-- `WritePageGuard::GetDataMut`. -/
def getDataMut (guard : PageGuard β ρ) : PageGuard β ρ × List (ρ × PageCall β) :=
  (guard, guard.page.toList.map fun page => (page, .getDataMut))

end WritePageGuard

/-- The three classes. -/
inductive GuardKind where
  | basic
  | read
  | write
deriving DecidableEq, Repr

namespace GuardKind

def construct : GuardKind → Option β → Option ρ → PageGuard β ρ × List (ρ × PageCall β)
  | basic => BasicPageGuard.construct
  | read => ReadPageGuard.construct
  | write => WritePageGuard.construct

def drop : GuardKind → PageGuard β ρ → PageGuard β ρ × List (ρ × PageCall β)
  | basic => BasicPageGuard.drop
  | read => ReadPageGuard.drop
  | write => WritePageGuard.drop

/-- A `ReadPageGuard` has no `GetDataMut`. -/
def getDataMut : GuardKind → PageGuard β ρ → PageGuard β ρ × List (ρ × PageCall β)
  | basic => BasicPageGuard.getDataMut
  | read => fun guard => (guard, [])
  | write => WritePageGuard.getDataMut

end GuardKind

/-! ## Programs with guards

Guards are objects at addresses. Each time a pinned page is handed to a guard counts: a `Handover`
is the page pointer with a number that the code does not have, so that two guards on one page are
told apart.
-/

/-- A pinned page as a guard gets it. -/
structure Handover (β π : Type) where
  number : ℕ
  kind : GuardKind
  bpm : β
  page : π
deriving DecidableEq, Repr

/-- The guard objects, what was handed over and the calls so far. -/
structure GuardProgram (β π : Type) where
  guards : ℕ → Option (GuardKind × PageGuard β (Handover β π)) := fun _ => none
  handed : List (Handover β π) := []
  calls : List (Handover β π × PageCall β) := []

/-- What a program does with guards. -/
inductive GuardAction (β π : Type) where
  | default (g : ℕ) (kind : GuardKind)
  | construct (g : ℕ) (kind : GuardKind) (bpm : β) (page : Option π)
  | moveConstruct (g that : ℕ)
  | moveAssign (g that : ℕ)
  | getDataMut (g : ℕ)
  | drop (g : ℕ)
  | destroy (g : ℕ)
deriving DecidableEq, Repr

namespace GuardProgram

variable {π : Type} (s : GuardProgram β π)

def setGuard (g : ℕ) (object : Option (GuardKind × PageGuard β (Handover β π))) : GuardProgram β π :=
  { s with guards := Function.update s.guards g object }

/-- An object takes the outcome of one of its operations. -/
def run (g : ℕ) (kind : GuardKind)
    (outcome : PageGuard β (Handover β π) × List (Handover β π × PageCall β)) : GuardProgram β π :=
  { s.setGuard g (some (kind, outcome.1)) with calls := s.calls ++ outcome.2 }

def dropAt (g : ℕ) : GuardProgram β π :=
  match s.guards g with
  | none => s
  | some (kind, guard) => s.run g kind (kind.drop guard)

/-- The end of a move: `g` takes what `that` holds. -/
def moveInto (g that : ℕ) : GuardProgram β π :=
  match s.guards that with
  | none => s
  | some (kind, guard) =>
    let moved := guard.moveConstruct
    (s.setGuard that (some (kind, moved.2))).setGuard g (some (kind, moved.1))

/-- One step. -/
def step (s : GuardProgram β π) : GuardAction β π → GuardProgram β π
  | .default g kind => s.setGuard g (some (kind, {}))
  | .construct g kind bpm page =>
    let given := page.map fun page => ⟨s.handed.length, kind, bpm, page⟩
    { s with handed := s.handed ++ given.toList }.run g kind (kind.construct (some bpm) given)
  | .moveConstruct g that => s.moveInto g that
  -- `operator=`
  | .moveAssign g that => if g = that then s else (s.dropAt g).moveInto g that
  | .getDataMut g =>
    match s.guards g with
    | none => s
    | some (kind, guard) => s.run g kind (kind.getDataMut guard)
  | .drop g => s.dropAt g
  | .destroy g => (s.dropAt g).setGuard g none

def kindOf (g : ℕ) : Option GuardKind := (s.guards g).map Prod.fst

/-- What the language lets a program do: an object is constructed where there is none and used while
it lives, moves are between guards of one class, and `GetDataMut` is a member of two classes. -/
def Enabled (s : GuardProgram β π) : GuardAction β π → Prop
  | .default g _ | .construct g _ _ _ => s.kindOf g = none
  | .moveConstruct g that => s.kindOf g = none ∧ s.kindOf that ≠ none
  | .moveAssign g that => s.kindOf g ≠ none ∧ s.kindOf that = s.kindOf g
  | .getDataMut g => s.kindOf g = some .basic ∨ s.kindOf g = some .write
  | .drop g | .destroy g => s.kindOf g ≠ none

instance : ∀ (a : GuardAction β π), Decidable (s.Enabled a)
  | .default _ _ | .construct _ _ _ _ | .moveConstruct _ _ | .moveAssign _ _ | .getDataMut _
  | .drop _ | .destroy _ => by unfold Enabled; infer_instance

end GuardProgram

end OneBase
