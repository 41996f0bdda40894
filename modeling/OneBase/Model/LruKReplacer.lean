import Mathlib.Data.List.AList

/-! # The LRU-K replacer

`buffer/lru_k_replacer.cpp`. Timestamps are unbounded here, and frames are the ids other than
`INVALID_FRAME_ID`. `Evict` looks at the entries in the order of an unordered map: `evictAlong` takes
that order as an argument, `evict` fixes one.
-/

namespace OneBase

/-- `FrameEntry`. -/
structure FrameEntry where
  history : List ℕ := []
  isEvictable : Bool := false
deriving DecidableEq, Repr

/-- `LRUKReplacer` over frames of type `F`. -/
structure LruKReplacer (F : Type) where
  k : ℕ
  currSize : ℕ := 0
  currentTimestamp : ℕ := 0
  entries : AList fun _ : F => FrameEntry := ∅

namespace LruKReplacer

variable {F : Type} [DecidableEq F]

/-- The variables of the loop in `Evict`. -/
structure Search (F : Type) where
  victimFrame : Option F
  maxKDistance : ℕ
  earliestFirstAccess : ℕ
  foundInfFrame : Bool

/-- One round of the loop in `Evict`. -/
def consider (replacer : LruKReplacer F) (search : Search F) (fid : F) (entry : FrameEntry) : Search F :=
  if !entry.isEvictable then search
  else if entry.history.length < replacer.k then
    if !search.foundInfFrame then
      { search with foundInfFrame := true, victimFrame := some fid, earliestFirstAccess := entry.history.headD 0 }
    else if entry.history.headD 0 < search.earliestFirstAccess then
      { search with earliestFirstAccess := entry.history.headD 0, victimFrame := some fid }
    else search
  else if !search.foundInfFrame then
    if search.maxKDistance < replacer.currentTimestamp - entry.history.headD 0 then
      { search with maxKDistance := replacer.currentTimestamp - entry.history.headD 0, victimFrame := some fid }
    else search
  else search

/-- The loop in `Evict`. -/
def findVictim (replacer : LruKReplacer F) : Option F :=
  (replacer.entries.entries.foldl (fun search entry => replacer.consider search entry.1 entry.2)
    ⟨none, 0, replacer.currentTimestamp, false⟩).victimFrame

/-- `Evict`; `none` is `false`. -/
def evict (replacer : LruKReplacer F) : LruKReplacer F × Option F :=
  if replacer.currSize = 0 then (replacer, none)
  else
    match replacer.findVictim with
    | none => (replacer, none)
    | some victim =>
      ({ replacer with entries := replacer.entries.erase victim, currSize := replacer.currSize - 1 }, some victim)

/-- The loop in `Evict` over a map that hands out its entries in the order `order`. -/
def findVictimAlong (replacer : LruKReplacer F) (order : List (Sigma fun _ : F => FrameEntry)) : Option F :=
  (order.foldl (fun search entry => replacer.consider search entry.1 entry.2)
    ⟨none, 0, replacer.currentTimestamp, false⟩).victimFrame

/-- `Evict` over a map that hands out its entries in the order `order`; `none` is `false`. -/
def evictAlong (replacer : LruKReplacer F) (order : List (Sigma fun _ : F => FrameEntry)) :
    LruKReplacer F × Option F :=
  if replacer.currSize = 0 then (replacer, none)
  else
    match replacer.findVictimAlong order with
    | none => (replacer, none)
    | some victim =>
      ({ replacer with entries := replacer.entries.erase victim, currSize := replacer.currSize - 1 }, some victim)

/-- `evict` takes the order in which the map was filled. -/
theorem evict_eq_evictAlong (replacer : LruKReplacer F) :
    replacer.evict = replacer.evictAlong replacer.entries.entries := rfl

/-- `RecordAccess`. -/
def recordAccess (replacer : LruKReplacer F) (frameId : F) : LruKReplacer F :=
  let entry := (replacer.entries.lookup frameId).getD {}
  let history := entry.history ++ [replacer.currentTimestamp]
  let history := if replacer.k < history.length then history.tail else history
  { replacer with
    entries := replacer.entries.insert frameId { entry with history := history }
    currentTimestamp := replacer.currentTimestamp + 1 }

/-- `SetEvictable`. -/
def setEvictable (replacer : LruKReplacer F) (frameId : F) (setEvictable : Bool) : LruKReplacer F :=
  match replacer.entries.lookup frameId with
  | none => replacer
  | some entry =>
    { replacer with
      currSize :=
        if entry.isEvictable && !setEvictable then replacer.currSize - 1
        else if !entry.isEvictable && setEvictable then replacer.currSize + 1
        else replacer.currSize
      entries := replacer.entries.insert frameId { entry with isEvictable := setEvictable } }

/-- `Remove`, which throws for a frame that is not evictable. -/
def remove (replacer : LruKReplacer F) (frameId : F) : Except String (LruKReplacer F) :=
  match replacer.entries.lookup frameId with
  | none => .ok replacer
  | some entry =>
    if !entry.isEvictable then .error "Cannot remove non-evictable frame"
    else .ok { replacer with currSize := replacer.currSize - 1, entries := replacer.entries.erase frameId }

/-- `Size`. -/
def size (replacer : LruKReplacer F) : ℕ := replacer.currSize

end LruKReplacer

end OneBase
