import ChainIndex.Proofs.Chain.Fork
import ChainIndex.Proofs.Follower.Faithful

/-!
# Steps under a settled source

When nothing fails and the source stays as it is, its best chain decides every move. A chain
that has blocks behind the fork loses its tip, whichever way the source gives that away: by
a next block that does not follow, by another hash at the height of the tip, or by having
nothing there at all. A chain that the best chain continues gains the next block of it, and
the best chain itself stays.

## Main definitions

* `MemorySource.blockAt`: The block that a source has at a height.
* `Settled`: The source has a best chain of served blocks, and all blocks that are served.
* `SyncStep.applied`, `SyncStep.undone`: What a step reports of a block.

## Theorems

* `Moves.next_applied`, `Moves.tip_undone`: The block above a chain makes it longer or shorter.
* `run_step_of_not_stuck`: A step of a chain that can move makes its move.
* `Settled.moves_back`, `Settled.moves_on`, `Settled.moves_rest`: The move of a chain.
* `Settled.not_stuck`: There always is one.
* `Settled.run_step`: A step makes it.
-/

namespace ChainIndex

open Entity Program Chain MemoryStore

/-- The block that a source has at a height of its best chain: it is asked for the hash first,
    and for the block with the hash then. -/
def MemorySource.blockAt (source : MemorySource) (height : UInt32) : Except Error Block :=
  match source.blockHash height with
  | .ok hash => source.block hash
  | .error e => .error e

/-- The source has a best chain of served blocks, and every block that is served. -/
structure Settled (served : String → Option Block) (source : MemorySource) : Prop where
  serves : ∀ hash block, source.block hash = .ok block ↔ served hash = some block
  linked : Linked served source.best
  nonempty : source.best ≠ []

/-- What a step that applies the block reports. -/
def SyncStep.applied (block : Block) : SyncStep :=
  if block.height = 0 then .genesis block.hash else .indexed block.height block.hash

/-- What a step that undoes the block reports. -/
def SyncStep.undone (block : Block) : SyncStep :=
  .invalidated block.height block.hash

theorem SyncStep.didWork_applied (block : Block) : (SyncStep.applied block).didWork = true := by
  unfold applied
  split
  · rfl
  · rfl

/-- The moves of a chain with a tip. -/
theorem Moves.of_snoc {env : Surroundings} {chain chain' : List Block} {tip : Block}
    {outcome : SyncStep} (h : Moves env (chain ++ [tip]) outcome chain') :
    (∃ next, env.BlockAt (tip.height + 1) (.ok next) ∧ next.follows tip.hash tip.height = true ∧
        outcome = .indexed next.height next.hash ∧ chain' = chain ++ [tip] ++ [next]) ∨
      (((∃ next, env.BlockAt (tip.height + 1) (.ok next) ∧
            next.follows tip.hash tip.height = false) ∨
          (∃ e, env.BlockAt (tip.height + 1) (.error e)) ∧
            ((∃ hash, env.HashAt tip.height (.ok hash) ∧ hash ≠ tip.hash) ∨
              ∃ e, env.HashAt tip.height (.error e))) ∧
        outcome = .undone tip ∧ chain' = chain) ∨
      ((∃ e, env.BlockAt (tip.height + 1) (.error e)) ∧ env.HashAt tip.height (.ok tip.hash) ∧
        outcome = .upToDate ∧ chain' = chain ++ [tip]) := by
  generalize hc : chain ++ [tip] = whole at h
  -- A chain comes apart into its tip and the rest in one way only.
  have hsplit : ∀ {init : List Block} {last : Block}, whole = init ++ [last] →
      init = chain ∧ last = tip := by
    intro init last heq
    rcases List.append_inj' (hc.trans heq) rfl with ⟨hinit, hlast⟩
    exact ⟨hinit.symm, (List.singleton_inj.mp hlast).symm⟩
  cases h with
  | genesis hblock hheight => exact absurd hc (by simp)
  | indexed hnext hfollows =>
      rcases hsplit rfl with ⟨rfl, rfl⟩
      exact Or.inl ⟨_, hnext, hfollows, rfl, rfl⟩
  | replaced hnext hfollows =>
      rcases hsplit rfl with ⟨rfl, rfl⟩
      exact Or.inr (Or.inl ⟨Or.inl ⟨_, hnext, hfollows⟩, rfl, rfl⟩)
  | outdone hend hrange hhash hne =>
      rcases hsplit rfl with ⟨rfl, rfl⟩
      exact Or.inr (Or.inl ⟨Or.inr ⟨⟨_, hend⟩, Or.inl ⟨_, hhash, hne⟩⟩, rfl, rfl⟩)
  | shortened hend hrange hgone hrange' =>
      rcases hsplit rfl with ⟨rfl, rfl⟩
      exact Or.inr (Or.inl ⟨Or.inr ⟨⟨_, hend⟩, Or.inr ⟨_, hgone⟩⟩, rfl, rfl⟩)
  | upToDate hend hrange hhash =>
      rcases hsplit rfl with ⟨rfl, rfl⟩
      exact Or.inr (Or.inr ⟨⟨_, hend⟩, hhash, rfl, rfl⟩)

/-! ## A source that stays as it is -/

section

variable {symbol : String} {served : String → Option Block} {source : MemorySource}
variable {chain chain' rest : List Block} {tip next : Block} {outcome : SyncStep}
variable {height : UInt32}

theorem Surroundings.HashAt.still {answer : Except Error String}
    (hat : (Surroundings.still source).HashAt height answer) :
    answer = source.blockHash height := by
  rcases hat with ⟨store, behind, hfault | ⟨other, now, rfl, hworld⟩⟩
  · exact absurd hfault.1 id
  · exact (Prod.mk.inj hworld).1.symm

theorem Surroundings.HashAt.out_of_range {e : Error}
    (hat : (Surroundings.still source).HashAt height (.error e)) :
    source.best[height.toNat]? = none ∧ e.isOutOfRange = true := by
  have hanswer := hat.still
  rw [MemorySource.blockHash] at hanswer
  split at hanswer
  · exact absurd hanswer (by simp)
  · next hget => exact ⟨hget, by rw [Except.error.inj hanswer]; rfl⟩

theorem Surroundings.BlockAt.still {answer : Except Error Block}
    (hat : (Surroundings.still source).BlockAt height answer) :
    answer = source.blockAt height := by
  rcases hat with ⟨e, hhash, rfl⟩ | ⟨hash, hhash, store, behind, hfault | ⟨other, now, rfl, hworld⟩⟩
  · rw [MemorySource.blockAt, ← hhash.still]
  · exact absurd hfault.1 id
  · rw [MemorySource.blockAt, ← hhash.still]
    exact (Prod.mk.inj hworld).1.symm

/-- Every block of a chain of served blocks follows the one below it. -/
theorem Chain.Linked.follows {init : List Block}
    (h : Linked served (init ++ [tip] ++ next :: rest)) :
    next.follows tip.hash tip.height = true := by
  have htip : (init ++ [tip] ++ next :: rest)[init.length]? = some tip := by simp
  have hnext : (init ++ [tip] ++ next :: rest)[init.length + 1]? = some next := by simp
  refine Block.follows_iff.mpr ⟨UInt32.toNat_inj.mp ?_, h.linked _ tip next htip hnext⟩
  -- Both have their positions as heights, so there is a height above the tip.
  have hlt := next.height.toNat_lt
  rw [h.numbered _ next hnext] at hlt
  rw [UInt32.toNat_add, h.numbered _ tip htip, h.numbered _ next hnext, UInt32.toNat_one,
    Nat.mod_eq_of_lt hlt]

/-- A chain that may go on with the block that the source has there does so. -/
theorem Moves.next_applied (hlinked : Linked served (chain ++ next :: rest))
    (hat : source.blockAt next.height = .ok next)
    (hmoves : Moves (.still source) chain outcome chain') :
    outcome = .applied next ∧ chain' = chain ++ [next] := by
  cases chain using List.reverseRecOn with
  | nil =>
      have hzero : next.height = 0 := UInt32.toNat_inj.mp (hlinked.numbered 0 next rfl)
      generalize hc : ([] : List Block) = whole at hmoves
      cases hmoves with
      | genesis hblock hheight =>
          have hsame := hblock.still
          rw [← hzero, hat, Except.ok.injEq] at hsame
          subst hsame
          exact ⟨by rw [SyncStep.applied, if_pos hheight], rfl⟩
      | _ => exact absurd hc (by simp)
  | append_singleton init tip =>
      have hfollows := hlinked.follows
      have habove := (Block.follows_iff.mp hfollows).1
      -- So whatever is answered above the tip is the next block.
      have hanswer : ∀ {answer}, (Surroundings.still source).BlockAt (tip.height + 1) answer →
          answer = .ok next := fun hother => by rw [hother.still, ← habove, hat]
      rcases hmoves.of_snoc with ⟨other, hother, _, houtcome, hchain⟩ |
        ⟨⟨other, hother, hnot⟩ | ⟨⟨e, he⟩, _⟩, _⟩ | ⟨⟨e, he⟩, _⟩
      · rw [Except.ok.inj (hanswer hother)] at houtcome hchain
        refine ⟨?_, hchain⟩
        rw [SyncStep.applied, if_neg, houtcome]
        intro hzero
        have hnumber := hlinked.numbered (init ++ [tip]).length next (by simp)
        rw [hzero, List.length_append, List.length_singleton] at hnumber
        exact absurd hnumber (by simp)
      · rw [Except.ok.inj (hanswer hother), hfollows] at hnot
        exact absurd hnot (by decide)
      · exact absurd (hanswer he) (by simp)
      · exact absurd (hanswer he) (by simp)

/-- A chain whose tip is not followed by what the source has above it loses the tip. -/
theorem Moves.tip_undone {other : Block} (hat : source.blockAt (tip.height + 1) = .ok other)
    (hother : other.follows tip.hash tip.height = false)
    (hmoves : Moves (.still source) (chain ++ [tip]) outcome chain') :
    outcome = .undone tip ∧ chain' = chain := by
  rcases hmoves.of_snoc with ⟨next, hnext, hfollows, _⟩ | ⟨_, hundone⟩ | ⟨⟨e, he⟩, _⟩
  · have hsame := hnext.still
    rw [hat, Except.ok.injEq] at hsame
    rw [hsame, hother] at hfollows
    exact absurd hfollows (by decide)
  · exact hundone
  · exact absurd (he.still.trans hat) (by simp)

/-- A chain with a tip can move if the source has a block above it. -/
theorem not_stuck_above {other : Block} (hat : source.blockAt (tip.height + 1) = .ok other) :
    ¬ Stuck (.still source) (chain ++ [tip]) := by
  generalize hc : chain ++ [tip] = whole
  intro hstuck
  cases hstuck with
  | noGenesis | wrongHeight => exact absurd hc (by simp)
  | noNext hend hrange =>
      rw [← List.singleton_inj.mp (List.append_inj' hc rfl).2] at hend
      exact absurd (hend.still.trans hat) (by simp)
  | noTip hend hrange => exact absurd (hend.out_of_range.2.symm.trans hrange) (by decide)

/-- A chain can move if the source has the block that it may go on with. -/
theorem not_stuck_below (hlinked : Linked served (chain ++ next :: rest))
    (hat : source.blockAt next.height = .ok next) : ¬ Stuck (.still source) chain := by
  cases chain using List.reverseRecOn with
  | nil =>
      have hzero : next.height = 0 := UInt32.toNat_inj.mp (hlinked.numbered 0 next rfl)
      generalize hc : ([] : List Block) = whole
      intro hstuck
      cases hstuck with
      | noGenesis hend =>
          rw [← hzero] at hend
          exact absurd (hend.still.trans hat) (by simp)
      | wrongHeight hblock hheight =>
          have hsame := hblock.still
          rw [← hzero, hat, Except.ok.injEq] at hsame
          exact hheight (hsame ▸ hzero)
      | noNext | noTip => exact absurd hc (by simp)
  | append_singleton init tip =>
      exact not_stuck_above ((Block.follows_iff.mp hlinked.follows).1 ▸ hat)

/-- A step of a chain that can move makes its move. -/
theorem run_step_of_not_stuck (hserves : Serves symbol served)
    (hsourced : (Surroundings.still source).Sourced served)
    (hmobile : ¬ Stuck (.still source) chain) {store : MemoryStore}
    (hpending : Pending symbol served chain store) (now : Int64) :
    ∃ outcome chain' behind,
      (Follower.ofRegistry (Registry.standard symbol)).step.run World.answer ⟨store, source, now⟩
        = (.ok outcome, ⟨behind, source, now⟩) ∧
      Moves (.still source) chain outcome chain' ∧ Rest symbol served chain' behind := by
  rcases (always_step hserves hsourced hpending).run now with ⟨result, behind, hrun, _, hend⟩
  cases result with
  | ok outcome =>
      rcases hend with ⟨chain', hmoves, hrest⟩
      exact ⟨outcome, chain', behind, hrun, hmoves, hrest⟩
  | error e => exact absurd hend fun hfail => hfail.elim id hmobile

end

namespace Settled

variable {symbol : String} {served : String → Option Block} {source : MemorySource}
variable {chain chain' shared fresh : List Block} {tip next : Block} {outcome : SyncStep}
variable {height : UInt32}

theorem sourced (h : Settled served source) : (Surroundings.still source).Sourced served where
  serves other hother hash block hblock := by
    rw [show other = source from hother] at hblock
    exact (h.serves hash block).mp hblock
  keeps := Or.inr fun other hother hash block hblock => by
    rw [show other = source from hother]
    exact (h.serves hash block).mpr hblock

/-! ## What the source says -/

theorem hashAt_ok {hash : String} (hat : (Surroundings.still source).HashAt height (.ok hash)) :
    ∃ block, source.best[height.toNat]? = some block ∧ block.hash = hash := by
  have hanswer := hat.still
  rw [MemorySource.blockHash] at hanswer
  split at hanswer
  · next block hget => exact ⟨block, hget, (Except.ok.inj hanswer).symm⟩
  · exact absurd hanswer (by simp)

theorem blockAt (h : Settled served source) {hash : String} {answer : Except Error Block}
    {store behind : MemoryStore}
    (hhash : (Surroundings.still source).HashAt height (.ok hash))
    (hanswer : (Surroundings.still source).Answers (.block hash) store answer behind) :
    ∃ block, source.best[height.toNat]? = some block ∧ answer = .ok block := by
  rcases hashAt_ok hhash with ⟨block, hget, rfl⟩
  refine ⟨block, hget, ?_⟩
  rcases hanswer with hfault | ⟨other, now, rfl, hworld⟩
  · exact absurd hfault.1 id
  · rw [← (Prod.mk.inj hworld).1]
    exact (h.serves _ _).mpr (h.linked.served block (List.mem_of_getElem? hget))

theorem blockAt_ok (h : Settled served source)
    (hat : (Surroundings.still source).BlockAt height (.ok next)) :
    source.best[height.toNat]? = some next := by
  rcases hat with ⟨e, _, he⟩ | ⟨hash, hhash, store, behind, hanswer⟩
  · exact absurd he (by simp)
  · rcases h.blockAt hhash hanswer with ⟨block, hget, hblock⟩
    rw [hget, Except.ok.inj hblock]

theorem blockAt_error (h : Settled served source) {e : Error}
    (hat : (Surroundings.still source).BlockAt height (.error e)) :
    source.best[height.toNat]? = none ∧ e.isOutOfRange = true := by
  rcases hat with ⟨e', hhash, he⟩ | ⟨hash, hhash, store, behind, hanswer⟩
  · rw [Except.error.inj he]
    exact hhash.out_of_range
  · rcases h.blockAt hhash hanswer with ⟨block, _, hblock⟩
    exact absurd hblock (by simp)

/-! ## The move of a chain -/

/-- There always is a move. -/
theorem not_stuck (h : Settled served source) : ¬ Stuck (.still source) chain := by
  have hfirst : ∃ block, source.best[0]? = some block := by
    cases hbest : source.best with
    | nil => exact absurd hbest h.nonempty
    | cons block rest => exact ⟨block, rfl⟩
  rcases hfirst with ⟨block, hfirst⟩
  intro hstuck
  cases hstuck with
  | noGenesis hend =>
      have hnone : source.best[0]? = none := (h.blockAt_error hend).1
      exact absurd (hfirst.symm.trans hnone) (by simp)
  | wrongHeight hblock hheight =>
      have hget := h.blockAt_ok hblock
      exact hheight (UInt32.toNat_inj.mp (h.linked.numbered 0 _ hget))
  | noNext hend hrange =>
      rw [(h.blockAt_error hend).2] at hrange
      exact absurd hrange (by decide)
  | noTip hend hrange =>
      rw [hend.out_of_range.2] at hrange
      exact absurd hrange (by decide)

/-- A chain with blocks behind the fork loses its tip. -/
theorem moves_back (h : Settled served source) (hserves : Serves symbol served)
    {init : List Block} (hlinked : Linked served (shared ++ (init ++ [tip])))
    (hbest : source.best = shared ++ fresh) (hdiverged : Diverged (init ++ [tip]) fresh)
    (hmoves : Moves (.still source) (shared ++ (init ++ [tip])) outcome chain') :
    outcome = .undone tip ∧ chain' = shared ++ init := by
  have hforeign := hlinked.not_shared (hbest ▸ h.linked) hdiverged
  rw [← hbest] at hforeign
  rw [← List.append_assoc] at hmoves hlinked
  have hheight := hlinked.numbered.height_last
  have habove := hlinked.numbered.height_above (hserves.short _ hlinked)
  rcases hmoves.of_snoc with ⟨next, hat, hfollows, _⟩ | ⟨_, houtcome, hchain⟩ |
    ⟨_, hat, _⟩
  · -- The parent of a next block that follows would be the tip.
    have hget := h.blockAt_ok hat
    rw [habove, List.length_append, List.length_singleton] at hget
    have hlt := (List.getElem?_eq_some_iff.mp hget).1
    have hparent : source.best[(shared ++ init).length]?
        = some source.best[(shared ++ init).length] :=
      List.getElem?_eq_getElem (by omega)
    have hhash := h.linked.linked _ _ next hparent hget
    rw [(Block.follows_iff.mp hfollows).2] at hhash
    refine absurd (hparent.trans ?_) hforeign
    rw [← h.linked.served _ (List.getElem_mem _), ← hhash, hlinked.served_last]
  · exact ⟨houtcome, hchain⟩
  · -- The tip would be at its height in the best chain.
    rcases hashAt_ok hat with ⟨block, hget, hhash⟩
    rw [hheight] at hget
    refine absurd (hget.trans ?_) hforeign
    rw [← h.linked.served block (List.mem_of_getElem? hget), hhash, hlinked.served_last]

/-- The source has every block of its best chain at the height of the block. -/
theorem blockAt_of_mem (h : Settled served source) (hmem : next ∈ source.best) :
    source.blockAt next.height = .ok next := by
  rcases List.getElem?_of_mem hmem with ⟨i, hget⟩
  have hhash : source.blockHash next.height = .ok next.hash := by
    rw [MemorySource.blockHash, h.linked.numbered i next hget, hget]
  rw [MemorySource.blockAt, hhash]
  exact (h.serves _ _).mpr (h.linked.served next hmem)

/-- A chain that the best chain continues gains its next block. -/
theorem moves_on (h : Settled served source) {rest : List Block}
    (hbest : source.best = chain ++ next :: rest)
    (hmoves : Moves (.still source) chain outcome chain') :
    outcome = .applied next ∧ chain' = chain ++ [next] :=
  hmoves.next_applied (hbest ▸ h.linked) (h.blockAt_of_mem (by simp [hbest]))

/-- The best chain stays. -/
theorem moves_rest (h : Settled served source) (hserves : Serves symbol served)
    (hmoves : Moves (.still source) source.best outcome chain') :
    outcome = .upToDate ∧ chain' = source.best := by
  have hne := h.nonempty
  have hlinked := h.linked
  generalize hbest : source.best = best at *
  cases best using List.reverseRecOn with
  | nil => exact absurd rfl hne
  | append_singleton init tip =>
      have hheight := hlinked.numbered.height_last
      have htip : source.best[tip.height.toNat]? = some tip := by
        rw [hheight, hbest, List.getElem?_append_right (Nat.le_refl _), Nat.sub_self]
        rfl
      have hend : source.best[(tip.height + 1).toNat]? = none := by
        rw [hlinked.numbered.height_above (hserves.short _ hlinked), hbest]
        exact List.getElem?_eq_none le_rfl
      have hat : ∀ {block}, ¬ (Surroundings.still source).BlockAt (tip.height + 1) (.ok block) := by
        intro block hat
        have hget := h.blockAt_ok hat
        rw [hend] at hget
        exact absurd hget (by simp)
      rcases hmoves.of_snoc with ⟨other, hother, _⟩ |
        ⟨⟨other, hother, _⟩ | ⟨_, ⟨hash, hhash, hother⟩ | ⟨e, he⟩⟩, _⟩ | ⟨_, _, houtcome, hchain⟩
      · exact absurd hother hat
      · exact absurd hother hat
      · rcases hashAt_ok hhash with ⟨block, hget, rfl⟩
        rw [htip, Option.some.injEq] at hget
        exact absurd (congrArg Block.hash hget.symm) hother
      · have hnone := he.out_of_range.1
        rw [htip] at hnone
        exact absurd hnone (by simp)
      · exact ⟨houtcome, hchain⟩

/-- A step makes the move. -/
theorem run_step (h : Settled served source) (hserves : Serves symbol served)
    {store : MemoryStore} (hpending : Pending symbol served chain store) (now : Int64) :
    ∃ outcome chain' behind,
      (Follower.ofRegistry (Registry.standard symbol)).step.run World.answer ⟨store, source, now⟩
        = (.ok outcome, ⟨behind, source, now⟩) ∧
      Moves (.still source) chain outcome chain' ∧ Rest symbol served chain' behind :=
  run_step_of_not_stuck hserves h.sourced h.not_stuck hpending now

end Settled

end ChainIndex
