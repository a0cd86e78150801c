import ChainIndex.Proofs.Chain.Tip
import ChainIndex.Proofs.Follower.Attempts

/-!
# Steps

What a step does can be told by the chain alone. `Moves` lists the moves that a chain may
make, each with what the source has said to bring it about, and leaves out the store, the
ledger and the hooks. A step from a store that mirrors a chain, once what was left open is
cleaned up, makes one of these moves and leaves a mirror of the chain that it leads to. A
step that fails leaves a store in which a follower may be met, and if it is not for a call
that failed then the source has refused an answer that the chain would need: `Stuck`.

## Main definitions

* `Surroundings.HashAt`, `BlockAt`: What the source may say about a height.
* `Moves`: The moves of a chain.
* `Stuck`: The chain cannot move.

## Theorems

* `always_step`: A step makes a move of the chain.
-/

namespace ChainIndex

open Entity Program Chain MemoryStore

namespace Surroundings

/-- The source may answer this when it is asked for the hash at a height. -/
def HashAt (env : Surroundings) (height : UInt32) (answer : Except Error String) : Prop :=
  ∃ store behind, env.Answers (.blockHash height) store answer behind

/-- The source may answer this when it is asked for the block at a height: first for its
    hash, then for the block with the hash. -/
def BlockAt (env : Surroundings) (height : UInt32) (answer : Except Error Block) : Prop :=
  (∃ e, env.HashAt height (.error e) ∧ answer = .error e) ∨
    ∃ hash, env.HashAt height (.ok hash) ∧
      ∃ store behind, env.Answers (.block hash) store answer behind

end Surroundings

/-- The moves of a chain, by what a step reports. -/
inductive Moves (env : Surroundings) : List Block → SyncStep → List Block → Prop where
  | genesis {block : Block} (hblock : env.BlockAt 0 (.ok block)) (hheight : block.height = 0) :
    Moves env [] (.genesis block.hash) [block]
  | indexed {chain : List Block} {tip next : Block}
    (hnext : env.BlockAt (tip.height + 1) (.ok next))
    (hfollows : next.follows tip.hash tip.height = true) :
    Moves env (chain ++ [tip]) (.indexed next.height next.hash) (chain ++ [tip] ++ [next])
  | replaced {chain : List Block} {tip next : Block}
    (hnext : env.BlockAt (tip.height + 1) (.ok next))
    (hfollows : next.follows tip.hash tip.height = false) :
    Moves env (chain ++ [tip]) (.invalidated tip.height tip.hash) chain
  | outdone {chain : List Block} {tip : Block} {e : Error} {hash : String}
    (hend : env.BlockAt (tip.height + 1) (.error e)) (hrange : e.isOutOfRange = true)
    (hhash : env.HashAt tip.height (.ok hash)) (hne : hash ≠ tip.hash) :
    Moves env (chain ++ [tip]) (.invalidated tip.height tip.hash) chain
  | shortened {chain : List Block} {tip : Block} {e e' : Error}
    (hend : env.BlockAt (tip.height + 1) (.error e)) (hrange : e.isOutOfRange = true)
    (hgone : env.HashAt tip.height (.error e')) (hrange' : e'.isOutOfRange = true) :
    Moves env (chain ++ [tip]) (.invalidated tip.height tip.hash) chain
  | upToDate {chain : List Block} {tip : Block} {e : Error}
    (hend : env.BlockAt (tip.height + 1) (.error e)) (hrange : e.isOutOfRange = true)
    (hhash : env.HashAt tip.height (.ok tip.hash)) :
    Moves env (chain ++ [tip]) .upToDate (chain ++ [tip])

/-- The chain cannot move, for want of an answer from the source. -/
inductive Stuck (env : Surroundings) : List Block → Prop where
  | noGenesis {e : Error} (hend : env.BlockAt 0 (.error e)) : Stuck env []
  | wrongHeight {block : Block} (hblock : env.BlockAt 0 (.ok block)) (hheight : block.height ≠ 0) :
    Stuck env []
  | noNext {chain : List Block} {tip : Block} {e : Error}
    (hend : env.BlockAt (tip.height + 1) (.error e)) (hrange : e.isOutOfRange = false) :
    Stuck env (chain ++ [tip])
  | noTip {chain : List Block} {tip : Block} {e : Error}
    (hend : env.HashAt tip.height (.error e)) (hrange : e.isOutOfRange = false) :
    Stuck env (chain ++ [tip])

section

variable {symbol : String} {served : String → Option Block} {env : Surroundings}
variable {chain : List Block} {tip : Block} {store : MemoryStore}

/-- A block that the source has at a height is served under its hash. -/
theorem Surroundings.BlockAt.is_served {height : UInt32} {block : Block}
    (h : env.BlockAt height (.ok block)) (hserves : Serves symbol served)
    (hsourced : env.Sourced served) : served block.hash = some block := by
  rcases h with ⟨e, _, he⟩ | ⟨hash, _, store, behind, hanswer⟩
  · exact absurd he (by simp)
  · have hblock := (hsourced.answers_block hanswer).1 block rfl
    rw [hserves.hash hash block hblock]
    exact hblock

/-- Asking for the hash at a height. -/
theorem always_hashAt {mid : MemoryStore → Prop} (height : UInt32) (hmid : mid store) :
    Always env mid (fun answer behind => behind = store ∧ env.HashAt height answer)
      (request (.blockHash height)) store := by
  refine always_request hmid fun answer behind hanswer => ?_
  have hkept := Surroundings.answers_keeps hanswer rfl
  exact ⟨hkept ▸ hmid, hkept, store, behind, hanswer⟩

/-- Asking for the block at a height. -/
theorem always_blockAt {mid : MemoryStore → Prop} (height : UInt32) (hmid : mid store) :
    Always env mid (fun answer behind => behind = store ∧ env.BlockAt height answer)
      (blockAt height) store := by
  refine always_bind (always_hashAt height hmid) ?_ ?_
  · rintro hash behind - ⟨rfl, hhash⟩
    refine always_request hmid fun answer after hanswer => ?_
    have hkept := Surroundings.answers_keeps hanswer rfl
    exact ⟨hkept ▸ hmid, hkept, Or.inr ⟨hash, hhash, behind, after, hanswer⟩⟩
  · rintro e behind - ⟨rfl, hhash⟩
    exact ⟨rfl, Or.inl ⟨e, hhash, rfl⟩⟩

/-- Reading the tip of a store at rest. -/
theorem always_tip? (hserves : Serves symbol served) (hrest : Rest symbol served chain store) :
    Always env (Sound symbol served)
      (Ends env.faulty fun tip behind =>
        behind = store ∧ tip = chain.getLast?.map BlockRecord.ofBlock)
      BlockRecord.tip? store := by
  have hbuilt := hrest.mirrors.built (hserves.clean hrest.linked)
  refine (always_of_runs (hbuilt.runs_tip? hrest.linked.numbered)
    fun behind heq _ => heq ▸ ⟨chain, Or.inl hrest⟩).mono fun result behind _ hend => ?_
  cases result with
  | ok tip => exact ⟨hend.1, hend.2.2.1 tip rfl⟩
  | error e => exact (hend.2.2.2 e rfl).resolve_left id

/-- What a step from a chain comes to. -/
def StepEnds (symbol : String) (served : String → Option Block) (env : Surroundings)
    (chain : List Block) : Except Error SyncStep → MemoryStore → Prop :=
  Ends (env.faulty ∨ Stuck env chain) fun outcome behind =>
    ∃ chain', Moves env chain outcome chain' ∧ Rest symbol served chain' behind

/-- The genesis block is applied to a store without any. -/
theorem always_applyGenesis (hserves : Serves symbol served) (hsourced : env.Sourced served)
    (hrest : Rest symbol served [] store) :
    Always env (Sound symbol served) (StepEnds symbol served env [])
      (Follower.ofRegistry (Registry.standard symbol)).applyGenesis store := by
  have hsound : Sound symbol served store := ⟨[], Or.inl hrest⟩
  refine always_attempt (always_blockAt 0 hsound) ?_
  rintro answer behind - ⟨rfl, hat⟩
  cases answer with
  | error e => exact always_throw hsound (Or.inr (.noGenesis hat))
  | ok genesis =>
      by_cases hheight : genesis.height = 0
      · simp only [if_pos hheight]
        have hlinked : Linked served ([] ++ [genesis]) :=
          Linked.nil.snoc (hat.is_served hserves hsourced) (by rw [hheight]; rfl) (by simp)
        refine always_seq (always_applyBlock hserves hrest hlinked) ?_ Or.inl
        intro _ last hlast hdone
        exact always_pure hlast ⟨[genesis], .genesis hat hheight, hdone⟩
      · simp only [if_neg hheight]
        exact always_throw hsound (Or.inr (.wrongHeight hat hheight))

/-- The tip is undone. -/
theorem always_undoTip (hserves : Serves symbol served) (hsourced : env.Sourced served)
    (hrest : Rest symbol served (chain ++ [tip]) store)
    (hmoves : Moves env (chain ++ [tip]) (.invalidated tip.height tip.hash) chain) :
    Always env (Sound symbol served) (StepEnds symbol served env (chain ++ [tip]))
      ((Follower.ofRegistry (Registry.standard symbol)).undoTip (BlockRecord.ofBlock tip))
      store := by
  have hunderway := hrest.mirrors.last (hserves.clean hrest.linked)
  refine always_seq (always_invalidate hserves hsourced ⟨_, Or.inl hrest⟩ hrest.linked hunderway)
    ?_ Or.inl
  exact fun _ last hlast hdone => always_pure hlast ⟨chain, hmoves, hdone⟩

/-- The tip is compared with what the source has at its height. -/
theorem always_verifyTip (hserves : Serves symbol served) (hsourced : env.Sourced served)
    (hrest : Rest symbol served (chain ++ [tip]) store) {e : Error}
    (hend : env.BlockAt (tip.height + 1) (.error e)) (hrange : e.isOutOfRange = true) :
    Always env (Sound symbol served) (StepEnds symbol served env (chain ++ [tip]))
      ((Follower.ofRegistry (Registry.standard symbol)).verifyTip (BlockRecord.ofBlock tip))
      store := by
  have hsound : Sound symbol served store := ⟨_, Or.inl hrest⟩
  refine always_attempt (always_hashAt _ hsound) ?_
  rintro answer behind - ⟨rfl, hat⟩
  cases answer with
  | ok hash =>
      by_cases hhash : hash = tip.hash
      · simp only [if_pos (show hash = (BlockRecord.ofBlock tip).hash from hhash)]
        exact always_pure hsound ⟨_, .upToDate hend hrange (hhash ▸ hat), hrest⟩
      · simp only [if_neg (show ¬ hash = (BlockRecord.ofBlock tip).hash from hhash)]
        exact always_undoTip hserves hsourced hrest (.outdone hend hrange hat hhash)
  | error e' =>
      by_cases hrange' : e'.isOutOfRange = true
      · simp only [if_pos hrange']
        exact always_undoTip hserves hsourced hrest (.shortened hend hrange hat hrange')
      · simp only [if_neg hrange']
        exact always_throw hsound (Or.inr (.noTip hat (by simpa using hrange')))

/-- Going on from the tip. -/
theorem always_advance (hserves : Serves symbol served) (hsourced : env.Sourced served)
    (hrest : Rest symbol served (chain ++ [tip]) store) :
    Always env (Sound symbol served) (StepEnds symbol served env (chain ++ [tip]))
      ((Follower.ofRegistry (Registry.standard symbol)).advance (BlockRecord.ofBlock tip))
      store := by
  have hsound : Sound symbol served store := ⟨_, Or.inl hrest⟩
  refine always_attempt (always_blockAt _ hsound) ?_
  rintro answer behind - ⟨rfl, hat⟩
  cases answer with
  | ok next =>
      by_cases hfollows : next.follows tip.hash tip.height = true
      · -- A block that follows the tip makes the chain one longer.
        have hlinked : Linked served (chain ++ [tip] ++ [next]) :=
          hrest.linked.snoc_of_follows (hserves.short _ hrest.linked)
            (hat.is_served hserves hsourced) hfollows
        simp only [if_pos (show next.follows (BlockRecord.ofBlock tip).hash
          (BlockRecord.ofBlock tip).height = true from hfollows)]
        refine always_seq (always_applyBlock hserves hrest hlinked) ?_ Or.inl
        exact fun _ last hlast hdone => always_pure hlast ⟨_, .indexed hat hfollows, hdone⟩
      · simp only [if_neg (show ¬ next.follows (BlockRecord.ofBlock tip).hash
          (BlockRecord.ofBlock tip).height = true from hfollows)]
        exact always_undoTip hserves hsourced hrest (.replaced hat (by simpa using hfollows))
  | error e =>
      by_cases hrange : e.isOutOfRange = true
      · simp only [if_pos hrange]
        exact always_verifyTip hserves hsourced hrest hat hrange
      · simp only [if_neg hrange]
        exact always_throw hsound (Or.inr (.noNext hat (by simpa using hrange)))

/-- A step makes a move of the chain that is left when what was open is cleaned up. -/
theorem always_step (hserves : Serves symbol served) (hsourced : env.Sourced served)
    (hpending : Pending symbol served chain store) :
    Always env (Sound symbol served) (StepEnds symbol served env chain)
      (Follower.ofRegistry (Registry.standard symbol)).step store := by
  refine always_seq (always_cleanup hserves hsourced hpending) ?_ Or.inl
  intro _ cleaned _ hrest
  refine always_seq (always_tip? hserves hrest) ?_ Or.inl
  rintro tip behind - ⟨rfl, rfl⟩
  -- What is left to do depends on whether the chain has a tip.
  cases chain using List.reverseRecOn with
  | nil => exact always_applyGenesis hserves hsourced hrest
  | append_singleton init tip =>
      rw [List.getLast?_append, List.getLast?_singleton, Option.some_or]
      exact always_advance hserves hsourced hrest

end

end ChainIndex
