import ChainIndex.Rehearsal.Control
import Std.Data.TreeMap

/-!
# Changes

What a step of a rehearsal has changed, for a reader who was shown every change before
it. Only records that were written to are looked at, and of those only the ones whose
value differs from the one shown last are shown. When the ledger was written does not
count as a change.

## Main definitions

* `Shown`: The values shown last.
* `Change`: A value that is to be shown.
* `Shown.update`: What is to be shown after some writes.
-/

namespace ChainIndex

/-- A record by model and key. -/
structure Target where
  /-- The model. -/
  model : String
  /-- The key. -/
  key : String
deriving DecidableEq

/-- By model, then by key. -/
instance : Ord Target where
  compare := compareLex (compareOn Target.model) (compareOn Target.key)

instance : Std.TransOrd Target :=
  inferInstanceAs (Std.TransCmp (compareLex (compareOn Target.model) (compareOn Target.key)))

/-- A value that is to be shown, or that a record is gone. -/
structure Change where
  /-- The record. -/
  target : Target
  /-- Its value, if it is there. -/
  value : Option Json
deriving DecidableEq

/-- A value as it is shown: one of the ledger without the time of writing. -/
def shownValue (model : String) (value : Json) : Json :=
  if model == Entity.model SyncStatus then
    match value with
    | .object entries => .object (entries.filter fun entry => entry.1 != "updated_at")
    | other => other
  else value

/-- The values shown last. Records that are not there, or were never shown, have none. -/
abbrev Shown := Std.TreeMap Target Json

namespace Shown

variable {σ : Type} [KeyedStore σ]

/-- The value of a record as it would be shown now. -/
def current (store : σ) (target : Target) : Option Json :=
  match KeyedStore.get store target.model target.key with
  | .ok (some value) => some (shownValue target.model value)
  | _ => none

/-- Looks at one record that was written to. -/
def look (store : σ) (shown : Shown) (target : Target) : Option Change × Shown :=
  let value := current store target
  if value = shown[target]? then (none, shown)
  else
    (some ⟨target, value⟩,
      match value with
      | some value => shown.insert target value
      | none => shown.erase target)

/-- What is to be shown after some writes, in the order in which they came first. -/
def update (store : σ) : List Write → Shown → List Change × Shown
  | [], shown => ([], shown)
  | write :: rest, shown =>
    let (change, shown) := look store shown ⟨write.target.1, write.target.2⟩
    let (changes, shown) := update store rest shown
    (change.toList ++ changes, shown)

end Shown

namespace Change

/-- The models of some changes, each once. -/
def models (changes : List Change) : List String :=
  (changes.map fun change => change.target.model).eraseDups

/-- The changes of one model. -/
def ofModel (changes : List Change) (model : String) : List Change :=
  changes.filter fun change => change.target.model == model

/-- Changes by model and key; a record that is gone has null. -/
def listing (changes : List Change) : Json :=
  Json.ofFields <| (models changes).map fun model =>
    (model, Json.ofFields <| (ofModel changes model).map fun change =>
      (change.target.key, change.value.getD .null))

/-- How many changes each model has. -/
def tally (changes : List Change) : Json :=
  Json.ofFields <| (models changes).map fun model =>
    (model, .int (ofModel changes model).length)

end Change

end ChainIndex
