import ChainIndex.Entity.BlockRecord

/-!
# Probes

Two questions about a running follower. It is alive when the source answers and the
stored tip can be read. It is ready when, besides, the tip trails the best block of the
source by no more than an allowed number of blocks. A probe never fails: what goes wrong
is its answer.

## Main definitions

* `Probe`: The answer to a probe.
* `liveness`, `readiness`: The probes.
-/

namespace ChainIndex

/-- The answer to a probe. -/
structure Probe where
  /-- Is all well? -/
  healthy : Bool
  /-- The height of the stored tip. -/
  indexedHeight : Option UInt32
  /-- The height of the best block of the source. -/
  sourceHeight : Option UInt32
  /-- What is not well. -/
  reason : Option String
deriving DecidableEq

namespace Probe

/-- The answer when nothing is known but a reason. -/
def down (reason : String) : Probe := ⟨false, none, none, some reason⟩

/-- The answer as an object, without what is not known. -/
def toJson (probe : Probe) : Json :=
  let known (name : String) (value : Option Json) : List (String × Json) :=
    match value with
    | some value => [(name, value)]
    | none => []
  Json.ofFields <|
    ("healthy", .bool probe.healthy)
      :: known "indexed_height" (probe.indexedHeight.map Json.ofUInt32)
      ++ known "source_height" (probe.sourceHeight.map Json.ofUInt32)
      ++ known "reason" (probe.reason.map Json.string)

end Probe

/-- The answer when the source does not answer. -/
def sourceUnreachable (e : Error) : Probe :=
  .down ("chain source unreachable: " ++ e.message)

/-- The answer when the tip cannot be read. -/
def tipUnreadable (e : Error) : Probe :=
  .down ("cannot read indexed tip: " ++ e.message)

/-- Does the source answer, and can the tip be read? -/
def liveness : Program Probe := do
  match ← (Program.request .connectionCount).attempt with
  | .error e => return sourceUnreachable e
  | .ok _ =>
    match ← BlockRecord.tip?.attempt with
    | .error e => return tipUnreadable e
    | .ok tip => return ⟨true, tip.map BlockRecord.height, none, none⟩

/-- The answer for a tip and the height of the source. -/
def lagProbe (tip : Option BlockRecord) (sourceHeight maxLag : UInt32) : Probe :=
  match tip with
  | none => ⟨false, none, some sourceHeight, some "nothing indexed yet"⟩
  | some tip =>
    -- A tip ahead of the source does not trail it.
    if maxLag.toNat < sourceHeight.toNat - tip.height.toNat then
      ⟨false, some tip.height, some sourceHeight,
        some ("indexed height " ++ toString tip.height.toNat ++ " trails source height "
          ++ toString sourceHeight.toNat)⟩
    else ⟨true, some tip.height, some sourceHeight, none⟩

/-- Does the tip trail the source by no more than `maxLag` blocks? -/
def readiness (maxLag : UInt32) : Program Probe := do
  match ← (Program.request .chainInfo).attempt with
  | .error e => return sourceUnreachable e
  | .ok info =>
    match ← BlockRecord.tip?.attempt with
    | .error e => return tipUnreadable e
    | .ok tip => return lagProbe tip info.blocks maxLag

end ChainIndex
