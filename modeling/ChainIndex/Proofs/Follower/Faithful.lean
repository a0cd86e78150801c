import ChainIndex.Proofs.Follower.Steps
import ChainIndex.Proofs.Program.Points
import ChainIndex.Follower.Cycle

/-!
# The mirror is the replay of its own chain

A follower may be stopped at any point and started again over the same store, any of its
calls may fail, and the source may replace its best chain between any two of them. The
stores it may be met in are the `Reachable` ones: the empty store, and every store at any
point of a step from a reachable one. A step that comes to its end is one of these points,
and so is one that is abandoned, so no more has to be said of starting again.

Whenever the ledger of such a store names no attempt, the records are those that replaying
the blocks it holds leaves. The proof is that of any invariant: a step keeps `Sound` at
every point, and a sound store at rest mirrors a chain.

## Main definitions

* `Surroundings.adverse`: Anything may fail, and the source may change at any time.
* `Reachable`: A store that a follower may be met in.
* `Holds`: The store holds the records of exactly these blocks.

## Theorems

* `Reachable.advance`, `Reachable.run`: Cycles stay among the reachable stores.
* `Reachable.sound`: A reachable store is sound.
* `mirror_is_replay`: A reachable store at rest is the replay of its own chain.
-/

namespace ChainIndex

open Entity Program Chain MemoryStore

/-- Any call may fail, and the source is at every call any one that serves these blocks. -/
def Surroundings.adverse (served : String → Option Block) : Surroundings where
  faulty := True
  source source := ∀ hash block, source.block hash = .ok block → served hash = some block

theorem Surroundings.adverse_sourced (served : String → Option Block) :
    (adverse served).Sourced served :=
  ⟨fun _ hsource => hsource, Or.inl trivial⟩

/-- A store that a follower may be met in, whatever has happened to it. -/
inductive Reachable (served : String → Option Block) (follower : Follower) :
    MemoryStore → Prop where
  | empty : Reachable served follower .empty
  | step {store last : MemoryStore} {rest : Program SyncStep}
    (hreachable : Reachable served follower store)
    (hreaches : Reaches (.adverse served) follower.step store rest last) :
    Reachable served follower last

/-- The store holds the records of exactly these blocks. -/
def Holds (store : MemoryStore) (chain : List Block) : Prop :=
  ∀ k found, store.find (model BlockRecord) k = some found ↔
    ∃ block ∈ chain, k = block.hash ∧ found = stored (BlockRecord.ofBlock block)

/-- The blocks that are held stand in one order only: that of their heights. -/
theorem Holds.unique {served : String → Option Block} {store : MemoryStore}
    {chain other : List Block} (h : Holds store chain) (hother : Holds store other)
    (hlinked : Linked served chain) (hlinked' : Linked served other) : other = chain := by
  -- A block stands at its height in every chain that is held.
  have hsubset : ∀ {a b : List Block}, Holds store a → Holds store b → Linked served a →
      Linked served b → ∀ (i : Nat) (block : Block), a[i]? = some block → b[i]? = some block := by
    intro a b ha hb hla hlb i block hget
    have hmem := List.mem_of_getElem? hget
    rcases (hb block.hash _).mp ((ha block.hash _).mpr ⟨block, hmem, rfl, rfl⟩) with
      ⟨same, hsame, hhash, _⟩
    have heq : same = block := by
      rw [← Option.some.injEq, ← hlb.served same hsame, ← hhash, hla.served block hmem]
    subst heq
    rcases List.getElem?_of_mem hsame with ⟨j, hj⟩
    rw [← hla.numbered i same hget, hlb.numbered j same hj]
    exact hj
  refine List.ext_getElem? fun i => Option.ext fun block => ⟨?_, ?_⟩
  · exact hsubset hother h hlinked' hlinked i block
  · exact hsubset h hother hlinked hlinked' i block

section

variable {symbol : String} {served : String → Option Block} {follower : Follower}

/-! ## Cycles -/

/-- A cycle that has come to its end stays there. -/
theorem CyclePoint.run_succ {σ : Type}
    (step : Guarded σ → Except Error SyncStep × Guarded σ) (actions : Nat) (point : CyclePoint)
    (state : Guarded σ) :
    run step (actions + 1) point state
      = run step actions (advance step state point).1 (advance step state point).2 := by
  cases point with
  | finished result => cases actions <;> rfl
  | _ => rfl

/-- An action of a cycle, each step of which ends in some way the surroundings allow, leaves
    a reachable store. -/
theorem Reachable.advance
    {step : Guarded MemoryStore → Except Error SyncStep × Guarded MemoryStore}
    (hstep : ∀ state, Reaches (.adverse served) follower.step state.world
      (.done (step state).1) (step state).2.world)
    {state : Guarded MemoryStore} (h : Reachable served follower state.world)
    (point : CyclePoint) :
    Reachable served follower (CyclePoint.advance step state point).2.world := by
  have hafter := h.step (hstep state)
  cases point with
  | stepping steps =>
      unfold CyclePoint.advance
      rcases hresult : step state with ⟨_ | outcome, after⟩
      · rw [hresult] at hafter
        exact hafter
      · rw [hresult] at hafter
        by_cases hwork : outcome.didWork = true
        · simpa [hwork] using hafter
        · simpa [hwork] using hafter
  | entering | claiming | checking | releasing | finished =>
      simp only [CyclePoint.advance]
      try split
      all_goals exact h

/-- A cycle leaves a reachable store. -/
theorem Reachable.run
    {step : Guarded MemoryStore → Except Error SyncStep × Guarded MemoryStore}
    (hstep : ∀ state, Reaches (.adverse served) follower.step state.world
      (.done (step state).1) (step state).2.world)
    {actions : Nat} {point : CyclePoint} {state last : Guarded MemoryStore}
    {result : Except Error CycleOutcome} (h : Reachable served follower state.world)
    (hrun : CyclePoint.run step actions point state = some (result, last)) :
    Reachable served follower last.world := by
  induction actions generalizing point state with
  | zero =>
      cases point with
      | finished ended =>
          simp only [CyclePoint.run, Option.some.injEq, Prod.mk.injEq] at hrun
          exact hrun.2 ▸ h
      | _ => simp [CyclePoint.run] at hrun
  | succ actions ih =>
      rw [CyclePoint.run_succ] at hrun
      exact ih (h.advance hstep point) hrun

/-! ## The invariant -/

theorem rest_empty : Rest symbol served [] .empty :=
  ⟨.nil, .empty, none, MemoryStore.find_empty _ _, by simp⟩

/-- A store that a follower may be met in is sound. -/
theorem Reachable.sound (hserves : Serves symbol served) {store : MemoryStore}
    (h : Reachable served (Follower.ofRegistry (Registry.standard symbol)) store) :
    Sound symbol served store := by
  induction h with
  | empty => exact ⟨[], Or.inl rest_empty⟩
  | step _ hreaches ih =>
      rcases ih with ⟨chain, hpending⟩
      exact (always_step hserves (Surroundings.adverse_sourced served) hpending).reaches hreaches

/-- A sound store at rest mirrors a chain. -/
theorem Sound.rest {store : MemoryStore} (h : Sound symbol served store) (hrest : store.AtRest) :
    ∃ chain, Rest symbol served chain store := by
  rcases h with ⟨chain, hchain | ⟨block, hbusy⟩⟩
  · exact ⟨chain, hchain⟩
  · exact absurd hrest hbusy.attempting.not_atRest

/-- A store at rest holds the blocks of its chain. -/
theorem Rest.holds {chain : List Block} {store : MemoryStore} (hserves : Serves symbol served)
    (h : Rest symbol served chain store) : Holds store chain :=
  (h.mirrors.built (hserves.clean h.linked)).blocks

/-- A store at rest is the replay of its chain, in every model but the ledger. -/
theorem Rest.replay {chain : List Block} {store : MemoryStore}
    (h : Rest symbol served chain store) :
    ∃ replayed, build symbol chain = .ok replayed ∧
      ∀ model, model ≠ ledgerModel → (store.model model).Same (replayed.model model) := by
  rcases h.mirrors.replay with ⟨replayed, hbuild, halike⟩
  exact ⟨replayed, hbuild, fun model hmodel => halike.symm model hmodel⟩

/-- Whenever the ledger names no attempt, the blocks that are held make up one chain of
    served blocks, and every model but the ledger is as indexing that chain into an empty
    store leaves it. -/
theorem mirror_is_replay (symbol : String) (served : String → Option Block)
    (hserves : Serves symbol served) (store : MemoryStore)
    (hreachable : Reachable served (Follower.ofRegistry (Registry.standard symbol)) store)
    (hrest : store.AtRest) :
    ∃ chain, Linked served chain ∧ Holds store chain ∧
      (∀ other, Linked served other → Holds store other → other = chain) ∧
      ∃ replayed, build symbol chain = .ok replayed ∧
        ∀ model, model ≠ ledgerModel → (store.model model).Same (replayed.model model) := by
  rcases (hreachable.sound hserves).rest hrest with ⟨chain, hchain⟩
  have hholds := hchain.holds hserves
  refine ⟨chain, hchain.linked, hholds, fun other hlinked hother => ?_, hchain.replay⟩
  exact hholds.unique hother hchain.linked hlinked

end

/-! ## A source with a fork -/

namespace Fork

/-- The block below the fork. -/
def root : Block :=
  .holding "g" "" 0 [.carrying "o" .appointOracle
    [("ownerAddress", .string "x"), ("priceFeeds", .array []), ("weightage", .int 1)]]

/-- One block above it. -/
def left : Block :=
  .holding "a" "g" 1 [.carrying "u" .updateOracle
    [("oracleId", .string "o"), ("ownerAddress", .string "y"), ("priceFeeds", .array []),
      ("weightage", .int 2)]]

/-- Another one. -/
def right : Block :=
  .holding "b" "g" 1 [.carrying "r" .removeOracle [("oracleId", .string "o")]]

/-- The three blocks by their hashes. -/
def served (hash : String) : Option Block :=
  [root, left, right].find? fun block => block.hash == hash

theorem mem_served {hash : String} {block : Block} (h : served hash = some block) :
    block.hash = hash ∧ (block = root ∨ block = left ∨ block = right) := by
  have hmem := List.mem_of_find?_eq_some h
  have hhash := List.find?_some h
  exact ⟨by simpa using hhash, by simpa using hmem⟩

/-- No chain goes beyond the two branches. -/
theorem linked_cases {chain : List Block} (h : Linked served chain) :
    ∃ full ∈ [[root, left], [root, right]], chain <+: full := by
  -- The height of a block tells which of the three it may be.
  have hat : ∀ (i : Nat) (block : Block), chain[i]? = some block →
      (i = 0 ∧ block = root) ∨ (i = 1 ∧ (block = left ∨ block = right)) := by
    intro i block hget
    have hheight := h.numbered i block hget
    rcases (mem_served (h.served block (List.mem_of_getElem? hget))).2 with rfl | rfl | rfl
    · exact Or.inl ⟨hheight.symm, rfl⟩
    · exact Or.inr ⟨hheight.symm, Or.inl rfl⟩
    · exact Or.inr ⟨hheight.symm, Or.inr rfl⟩
  match chain, hat with
  | [], _ => exact ⟨_, List.mem_cons_self, List.nil_prefix⟩
  | [x], hat =>
      rcases hat 0 x rfl with ⟨_, rfl⟩ | ⟨hzero, _⟩
      · exact ⟨_, List.mem_cons_self, [left], rfl⟩
      · exact absurd hzero (by decide)
  | [x, y], hat =>
      rcases hat 0 x rfl with ⟨_, rfl⟩ | ⟨hzero, _⟩
      · rcases hat 1 y rfl with ⟨hone, _⟩ | ⟨_, rfl | rfl⟩
        · exact absurd hone (by decide)
        · exact ⟨_, List.mem_cons_self, List.prefix_rfl⟩
        · exact ⟨_, List.mem_cons_of_mem _ List.mem_cons_self, List.prefix_rfl⟩
      · exact absurd hzero (by decide)
  | x :: y :: z :: rest, hat =>
      rcases hat 2 z rfl with ⟨htwo, _⟩ | ⟨htwo, _⟩
      · exact absurd htwo (by decide)
      · exact absurd htwo (by decide)

/-- A store that holds a block above the fork holds the branch of that block. -/
theorem eq_of_holds (block : Block) {store : MemoryStore} {chain : List Block}
    (hlinked : Linked served chain) (hholds : Holds store chain)
    (hfound : store.find (model BlockRecord) block.hash = some (stored (BlockRecord.ofBlock block)))
    (hserved : served block.hash = some block) (hne : block ≠ root) : chain = [root, block] := by
  rcases (hholds block.hash _).mp hfound with ⟨other, hmem, hhash, -⟩
  have hsame : other = block := by
    rw [← Option.some.injEq, ← hlinked.served other hmem, ← hhash, hserved]
  rw [hsame] at hmem
  -- The chain is part of a branch, and the block is not below the fork, so nothing is missing.
  rcases linked_cases hlinked with ⟨full, hfull, hbranch⟩
  have htip : ∃ tip, full = [root, tip] := by
    rcases List.mem_pair.mp hfull with rfl | rfl
    · exact ⟨_, rfl⟩
    · exact ⟨_, rfl⟩
  rcases htip with ⟨tip, rfl⟩
  rcases List.prefix_cons_iff.mp hbranch with rfl | ⟨behind, rfl, hbehind⟩
  · exact absurd hmem List.not_mem_nil
  · rcases List.prefix_cons_iff.mp hbehind with rfl | ⟨_, rfl, hnil⟩
    · exact absurd (List.mem_singleton.mp hmem) hne
    · rw [List.prefix_nil.mp hnil] at hmem ⊢
      rw [(List.mem_pair.mp hmem).resolve_left hne]

theorem serves : Serves "DFI" served := by
  refine .of_branches [[root, left], [root, right]] (fun _ _ h => (mem_served h).1)
    (fun _ => linked_cases) (by decide) (fun _ block h => ?_) (by decide) (by decide) (by decide)
    (by decide +kernel) (by decide) ?_
  · rcases (mem_served h).2 with rfl | rfl | rfl
    · exact ⟨_, List.mem_cons_self, by simp⟩
    · exact ⟨_, List.mem_cons_self, by simp⟩
    · exact ⟨_, List.mem_cons_of_mem _ List.mem_cons_self, by simp⟩
  · intro full hfull
    rcases List.mem_pair.mp hfull with rfl | rfl
    · exact ⟨_, build_of_run (Prod.ext (by decide +kernel) rfl)⟩
    · exact ⟨_, build_of_run (Prod.ext (by decide +kernel) rfl)⟩

/-- A source that has seen none but the three blocks serves no others. -/
theorem served_of_block {source : MemorySource}
    (hseen : ∀ block ∈ source.seen, block = root ∨ block = left ∨ block = right)
    {hash : String} {block : Block} (h : source.block hash = .ok block) :
    served hash = some block := by
  rw [MemorySource.block] at h
  split at h
  · next found hfound =>
    rw [Except.ok.injEq] at h
    subst h
    have hhash : found.hash = hash := by simpa using List.find?_some hfound
    rw [← hhash]
    rcases hseen found (List.mem_of_find?_eq_some hfound) with rfl | rfl | rfl
    · rfl
    · rfl
    · rfl
  · exact absurd h (by simp)

/-- The source while its best chain has the left branch. -/
def source : MemorySource := ⟨[root, left], [left, root]⟩

/-- The source when its best chain has the right branch instead. -/
def replaced : MemorySource := ⟨[root, right], [right, root, left]⟩

/-- The store after a first step. -/
def first : MemoryStore :=
  ((Follower.ofRegistry (Registry.standard "DFI")).step.run World.answer
    ⟨.empty, source, 0⟩).2.store

/-- The store after a second step. -/
def second : MemoryStore :=
  ((Follower.ofRegistry (Registry.standard "DFI")).step.run World.answer
    ⟨first, source, 0⟩).2.store

theorem reachable_second :
    Reachable served (Follower.ofRegistry (Registry.standard "DFI")) second := by
  have hsource : (Surroundings.adverse served).source source :=
    fun hash block => served_of_block (by simp [source])
  exact (Reachable.empty.step (reaches_run _ hsource 0)).step (reaches_run _ hsource 0)

theorem atRest_second : second.AtRest := by
  refine ⟨some ⟨"a", 1, .indexed, 0⟩, ?_, fun noted hnoted => Option.some.inj hnoted ▸ rfl⟩
  unfold Noted
  decide +kernel

/-- A step over a source, with the flags as they are. -/
def stepOver (source : MemorySource) (state : Guarded MemoryStore) :
    Except Error SyncStep × Guarded MemoryStore :=
  let (result, world) := (Follower.ofRegistry (Registry.standard "DFI")).step.run World.answer
    ⟨state.world, source, 0⟩
  (result, { state with world := world.store })

/-- What a cycle over a source leaves of a store. -/
def cycled (source : MemorySource) (store : MemoryStore) : MemoryStore :=
  ((runCycle (stepOver source) 20 ⟨⟨true, false⟩, store⟩).map fun ended => ended.2.world).getD
    store

theorem reachable_cycled {source : MemorySource} {store : MemoryStore}
    (hseen : ∀ block ∈ source.seen, block = root ∨ block = left ∨ block = right)
    (h : Reachable served (Follower.ofRegistry (Registry.standard "DFI")) store) :
    Reachable served (Follower.ofRegistry (Registry.standard "DFI")) (cycled source store) := by
  have hsource : (Surroundings.adverse served).source source :=
    fun hash block => served_of_block hseen
  rw [cycled]
  rcases hcycle : runCycle (stepOver source) 20 ⟨⟨true, false⟩, store⟩ with _ | ⟨result, last⟩
  · exact h
  · exact Reachable.run (fun state => reaches_run _ hsource 0) h hcycle

/-- A cycle goes up the left branch. When that has been replaced, a step begins to undo it, and
    a call fails in the midst of the hooks. -/
def broken : MemoryStore :=
  ((Follower.ofRegistry (Registry.standard "DFI")).step.runFailing (.other "out of reach") 10
    ⟨cycled source .empty, replaced, 0⟩).2.store

/-- The store after one more cycle. -/
def recovered : MemoryStore := cycled replaced broken

theorem reachable_recovered :
    Reachable served (Follower.ofRegistry (Registry.standard "DFI")) recovered := by
  have hsource : (Surroundings.adverse served).source replaced :=
    fun hash block => served_of_block (by simp [replaced])
  have hclimbed : Reachable served (Follower.ofRegistry (Registry.standard "DFI"))
      (cycled source .empty) := reachable_cycled (by simp [source]) .empty
  exact reachable_cycled (by simp [replaced])
    (hclimbed.step (reaches_runFailing trivial (.other "out of reach") 10 _ hsource 0))

theorem noted_recovered : recovered.Noted (some ⟨"b", 1, .indexed, 0⟩) := by
  unfold Noted
  decide +kernel

theorem atRest_recovered : recovered.AtRest :=
  ⟨_, noted_recovered, fun _ hnoted => Option.some.inj hnoted ▸ rfl⟩

end Fork

/-- A cycle goes up the left branch, which is then replaced by the right one. While it is undone
    a call fails, so that its block is gone and its oracle is still there; and when another cycle
    has ended, the store is the replay of the right branch. -/
theorem mirror_is_replay_fork :
    (Fork.broken.Noted (some ⟨"a", 1, .error, 0⟩) ∧
      Fork.broken.find (model BlockRecord) "a" = none ∧
      (Fork.broken.find (model Oracle) "o").isSome = true) ∧
    Holds Fork.recovered [Fork.root, Fork.right] ∧
    ∃ replayed, build "DFI" [Fork.root, Fork.right] = .ok replayed ∧
      ∀ model, model ≠ ledgerModel →
        (Fork.recovered.model model).Same (replayed.model model) := by
  rcases mirror_is_replay "DFI" Fork.served Fork.serves Fork.recovered Fork.reachable_recovered
    Fork.atRest_recovered with ⟨chain, hlinked, hholds, -, hreplay⟩
  have hfound : Fork.recovered.find (model BlockRecord) "b"
      = some (stored (BlockRecord.ofBlock Fork.right)) := by decide +kernel
  obtain rfl := Fork.eq_of_holds Fork.right hlinked hholds hfound rfl (by decide +kernel)
  refine ⟨⟨?_, by decide +kernel, by decide +kernel⟩, hholds, hreplay⟩
  unfold Noted
  decide +kernel

end ChainIndex
