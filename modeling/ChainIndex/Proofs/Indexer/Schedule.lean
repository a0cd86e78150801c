import ChainIndex.Indexer.Registry
import Mathlib.Data.List.Induction
import Mathlib.Tactic.Common

/-!
# The schedule of a block

Applying and undoing are written as two walks over the same things, one forwards and one
backwards, each in four stages with loops inside. Here both are brought down to one list,
the duties of a block: which indexer is called for which stage, in the order of applying.
Applying is going through that list and undoing is going through its reverse, whatever the
indexers do in their hooks.

What is observed of a dispatch is the calls that reach the indexers. To see them each
indexer is put outside, where a hook is a single call and what answers the calls decides
how each of them goes. A dispatch then either makes all calls of its schedule, or it stops
behind the first one that fails and returns the error of that one.

The indexers that want an operation are found through a table that is filled while indexers
are registered, one position for each time an indexer names the operation.

## Main definitions

* `Registry.duties`: Who is called for what while a block is applied.
* `Registry.slots`: The positions under an operation in the table of registrations.
* `Registry.outside`: The indexers as seen from outside.
* `Program.transcript`: The calls of a run and how they failed.
* `Call.counterpart`: The same hook in the other phase.
* `Follows`: A run makes the calls of a list until one fails.

## Theorems

* `interested_eq_slots`: The table leads to the indexers that want an operation.
* `applyBlock_eq_duties`, `undoBlock_eq_duties`: A dispatch goes through the duties.
* `follows_forM`: Calls made one after another follow their list.
* `undo_mirrors_apply`: Undoing is the mirror of applying, error or not.
-/

namespace ChainIndex

/-! ## The table of registrations -/

namespace Registry

/-- The table after an operation has been entered for the indexer at a position. -/
def enter (slot : Nat) (table : OpTag → List Nat) (tag : OpTag) : OpTag → List Nat :=
  fun other => if other = tag then table other ++ [slot] else table other

/-- The positions under an operation once all indexers are registered. -/
def slots (registry : Registry) : OpTag → List Nat :=
  registry.indexers.zipIdx.foldl
    (fun table entry => entry.1.ops.foldl (enter entry.2) table) fun _ => []

theorem foldl_enter (slot : Nat) (tag : OpTag) (ops : List OpTag) :
    ∀ table : OpTag → List Nat, ops.foldl (enter slot) table tag =
      table tag ++ (ops.filter fun op => op == tag).map fun _ => slot := by
  induction ops with
  | nil => simp
  | cons op rest ih =>
      intro table
      rw [List.foldl_cons, ih, enter, List.filter_cons]
      by_cases heq : tag = op
      · simp [heq]
      · simp [heq, Ne.symm heq]

theorem slots_add (registry : Registry) (indexer : Indexer) (tag : OpTag) :
    (registry.add indexer).slots tag = registry.slots tag ++
      (indexer.ops.filter fun op => op == tag).map fun _ => registry.indexers.length := by
  rw [slots, add, List.zipIdx_append, List.foldl_append]
  simp only [List.zipIdx_cons, List.zipIdx_nil, List.foldl_cons, List.foldl_nil, foldl_enter,
    Nat.zero_add]
  rfl

theorem interested_add (registry : Registry) (indexer : Indexer) (tag : OpTag) :
    (registry.add indexer).interested tag = registry.interested tag ++
      (indexer.ops.filter fun op => op == tag).map fun _ => indexer := by
  simp [interested, add]

/-- The table leads to the indexers that want an operation, as often as they name it. -/
theorem interested_eq_slots (registry : Registry) (tag : OpTag) :
    (registry.slots tag).map (registry.indexers[·]?) = (registry.interested tag).map some := by
  rcases registry with ⟨indexers⟩
  induction indexers using List.reverseRecOn with
  | nil => rfl
  | append_singleton indexers indexer ih =>
      change (((Registry.mk indexers).add indexer).slots tag).map ((indexers ++ [indexer])[·]?) =
        (((Registry.mk indexers).add indexer).interested tag).map some
      rw [slots_add, interested_add, List.map_append, List.map_append, ← ih]
      congr 1
      · -- A position that led to an indexer before still leads to the same one.
        refine List.map_congr_left fun slot hslot => ?_
        have hled := List.mem_map_of_mem (f := (indexers[·]?)) hslot
        rw [ih, List.mem_map] at hled
        rcases hled with ⟨_, _, hfound⟩
        rw [List.getElem?_append_left (List.getElem?_eq_some_iff.mp hfound.symm).1]
      · simp

/-- An operation that an indexer names twice leads to it twice. -/
example : (Registry.mk [.external "twice" [.createToken, .setOracleData, .createToken],
    .external "once" [.createToken]]).slots .createToken = [0, 0, 1] := by
  decide

/-! ## Duties -/

/-- Who is called for what while a block is applied, in this order. -/
def duties (registry : Registry) (block : Block) : List (Indexer × Stage) :=
  let all (stage : Stage) : List (Indexer × Stage) :=
    registry.indexers.map fun indexer => (indexer, stage)
  (if block.height = 0 then all .genesis else []) ++ all .blockStart ++
    (block.ops.flatMap fun (tx, op) =>
      (registry.interested op.tag).map fun indexer => (indexer, .transaction tx op)) ++
    all .blockEnd

/-- Runs one hook of an indexer. -/
def perform (phase : Phase) (block : Block) (duty : Indexer × Stage) : Program Unit :=
  duty.1.hook phase duty.2 block

theorem forM_flatMap {α β : Type} (items : List α) (f : α → List β) (g : β → Program PUnit) :
    forM (items.flatMap f) g = forM items fun item => forM (f item) g := by
  induction items with
  | nil => rfl
  | cons item rest ih => rw [List.flatMap_cons, List.forM_append, List.forM_cons, ih]

/-- Applying a block is going through its duties. -/
theorem applyBlock_eq_duties (registry : Registry) (block : Block) :
    registry.applyBlock block = (registry.duties block).forM (perform .apply block) := by
  unfold applyBlock duties
  by_cases hheight : block.height = 0
  · simp only [if_pos hheight, List.forM_eq_forM, List.forM_append, List.forM_map, forM_flatMap,
      perform, bind_assoc]
  · simp only [if_neg hheight, List.nil_append, List.forM_eq_forM, List.forM_append,
      List.forM_map, forM_flatMap, perform, bind_assoc]

/-- Undoing a block is going through the same duties backwards. -/
theorem undoBlock_eq_duties (registry : Registry) (block : Block) :
    registry.undoBlock block = (registry.duties block).reverse.forM (perform .undo block) := by
  have hpure : ∀ program : Program Unit, (program >>= fun _ => pure ()) = program :=
    fun program => bind_pure (m := Program) program
  unfold undoBlock duties
  by_cases hheight : block.height = 0
  · simp only [if_pos hheight, List.reverse_append, List.reverse_flatMap, ← List.map_reverse,
      Function.comp_def, List.forM_eq_forM, List.forM_append, List.forM_map, forM_flatMap, perform]
  · simp only [if_neg hheight, List.reverse_append, List.reverse_flatMap, ← List.map_reverse,
      Function.comp_def, List.nil_append, List.forM_eq_forM, List.forM_append, List.forM_map,
      forM_flatMap, perform, hpure]

end Registry

/-! ## The indexers from outside -/

/-- An indexer with each of its hooks a single call. -/
def Indexer.outside (indexer : Indexer) : Indexer := .external indexer.name indexer.ops

namespace Registry

/-- The indexers of a registry as seen from outside. -/
def outside (registry : Registry) : Registry := ⟨registry.indexers.map Indexer.outside⟩

/-- The call of a duty. -/
def callOf (phase : Phase) (block : Block) (duty : Indexer × Stage) : Call :=
  .hook duty.1.name phase duty.2 block

theorem interested_outside (registry : Registry) (tag : OpTag) :
    registry.outside.interested tag = (registry.interested tag).map Indexer.outside := by
  simp only [interested, outside, List.flatMap_map, List.map_flatMap, List.map_map]
  rfl

theorem duties_outside (registry : Registry) (block : Block) :
    registry.outside.duties block =
      (registry.duties block).map fun duty => (duty.1.outside, duty.2) := by
  have hall : registry.outside.indexers = registry.indexers.map Indexer.outside := rfl
  by_cases hheight : block.height = 0
  · simp [duties, hheight, hall, interested_outside, List.map_flatMap, Function.comp_def]
  · simp [duties, hheight, hall, interested_outside, List.map_flatMap, Function.comp_def]

end Registry

/-! ## What is observed -/

/-- The other phase. -/
def Phase.other : Phase → Phase
  | .apply => .undo
  | .undo => .apply

/-- The counterpart of a hook: the one for the same stage in the other phase. -/
def Call.counterpart : Call → Call
  | .hook indexer phase stage subject => .hook indexer phase.other stage subject
  | call => call

namespace Program

variable {α σ : Type}

/-- The error of an answer, if it is one. -/
def failure? : Except Error α → Option Error
  | .ok _ => none
  | .error error => some error

/-- The calls that a run makes, each with the error that it fails with, if it does. -/
def transcript (handle : Handler σ) : Program α → σ → List (Call × Option Error)
  | .done _, _ => []
  | .call c next, world =>
    let (answer, world) := handle c world
    (c, failure? answer) :: (next answer).transcript handle world

theorem transcript_request_bind (handle : Handler σ) (c : Call) (f : c.Answer → Program α)
    (world : σ) :
    ((request c).bind f).transcript handle world =
      (c, failure? (handle c world).1) ::
        ((done (handle c world).1).bind f).transcript handle (handle c world).2 :=
  rfl

theorem run_request_bind (handle : Handler σ) (c : Call) (f : c.Answer → Program α)
    (world : σ) :
    ((request c).bind f).run handle world =
      ((done (handle c world).1).bind f).run handle (handle c world).2 :=
  rfl

end Program

/-- A run makes the calls of a list one after another. Either all of them go well and so
    does the run, or it ends with the first that fails and with the error of that one. -/
def Follows (calls : List Call) (log : List (Call × Option Error)) (result : Except Error Unit) :
    Prop :=
  (log = calls.map fun call => (call, none)) ∧ result = .ok () ∨
    ∃ made call rest error, calls = made ++ call :: rest ∧
      (log = (made.map fun call => (call, none)) ++ [(call, some error)]) ∧
      result = .error error

theorem Follows.cons {calls : List Call} {log : List (Call × Option Error)}
    {result : Except Error Unit} (call : Call) (h : Follows calls log result) :
    Follows (call :: calls) ((call, none) :: log) result := by
  rcases h with ⟨rfl, hresult⟩ | ⟨made, failed, rest, error, rfl, rfl, hresult⟩
  · exact Or.inl ⟨rfl, hresult⟩
  · exact Or.inr ⟨call :: made, failed, rest, error, rfl, rfl, hresult⟩

open Registry in
/-- Going through duties makes their calls. -/
theorem follows_forM {σ : Type} (handle : Program.Handler σ) (phase : Phase) (block : Block)
    (duties : List (Indexer × Stage)) : ∀ world : σ,
    let program := (duties.map fun duty => (duty.1.outside, duty.2)).forM (perform phase block)
    Follows (duties.map (callOf phase block)) (program.transcript handle world)
      (program.run handle world).1 := by
  induction duties with
  | nil => exact fun _ => Or.inl ⟨rfl, rfl⟩
  | cons duty rest ih =>
      intro world
      -- The first call is made in any case, and its answer decides about the others.
      let f : Unit → Program Unit := fun _ =>
        (rest.map fun duty => (duty.1.outside, duty.2)).forM (perform phase block)
      let program := (Program.request (.hook duty.1.name phase duty.2 block)).bind f
      change Follows (callOf phase block duty :: rest.map (callOf phase block))
        (program.transcript handle world) (program.run handle world).1
      rw [Program.transcript_request_bind, Program.run_request_bind]
      rcases handle (.hook duty.1.name phase duty.2 block) world with ⟨error | answer, next⟩
      · exact Or.inr ⟨[], callOf phase block duty, _, error, rfl, rfl, rfl⟩
      · exact (ih next).cons (callOf phase block duty)

/-- Undoing a block is the exact mirror of applying it. Both go through the duties of the
    block, in which the table of registrations says who is called for a transaction, and
    undoing goes backwards. Seen from outside, a dispatch makes the calls of applying, or
    their counterparts in reverse, up to the first that fails and with its error. -/
theorem undo_mirrors_apply (registry : Registry) (block : Block) :
    let duties := registry.duties block
    let calls := duties.map (Registry.callOf .apply block)
    (∀ tag, (registry.slots tag).map (registry.indexers[·]?) =
      (registry.interested tag).map some) ∧
    registry.applyBlock block = duties.forM (Registry.perform .apply block) ∧
    registry.undoBlock block = duties.reverse.forM (Registry.perform .undo block) ∧
    ∀ {σ : Type} (handle : Program.Handler σ) (world : σ),
      Follows calls ((registry.outside.applyBlock block).transcript handle world)
        ((registry.outside.applyBlock block).run handle world).1 ∧
      Follows (calls.reverse.map Call.counterpart)
        ((registry.outside.undoBlock block).transcript handle world)
        ((registry.outside.undoBlock block).run handle world).1 := by
  intro duties calls
  refine ⟨registry.interested_eq_slots, registry.applyBlock_eq_duties block,
    registry.undoBlock_eq_duties block, fun handle world => ⟨?_, ?_⟩⟩
  · rw [Registry.applyBlock_eq_duties, Registry.duties_outside]
    exact follows_forM handle .apply block duties world
  · have hcalls : calls.reverse.map Call.counterpart =
        duties.reverse.map (Registry.callOf .undo block) := by
      rw [← List.map_reverse, List.map_map]
      rfl
    rw [hcalls, Registry.undoBlock_eq_duties, Registry.duties_outside, ← List.map_reverse]
    exact follows_forM handle .undo block duties.reverse world

end ChainIndex
