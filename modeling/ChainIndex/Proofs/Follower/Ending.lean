import ChainIndex.Proofs.Follower.Convergence
import ChainIndex.Proofs.Follower.History

/-!
# When a cycle ends

A cycle has no measure of its own: a step may bring the tip up or down, as the source says
about the tip and the height above it. Over a source that does not change, what it says about
the heights of its best chain is all there is to know.

As long as the follower undoes blocks it has ever fewer of them. Once it has applied one, its
tip is what the source has at that height. If the best chain fits, in that a block at its own
height is followed by the block at the next height, then from there on the tip only rises, and
not beyond the best chain. So a cycle takes no more steps than there are blocks in the store
and on the best chain, whatever else the blocks of the source are like. The heights must not
run out for that: above the greatest height the follower looks for a block at height zero, and
if one follows there the tip stays where it is.

Without a best chain that fits a cycle need not end. Where a block is followed by one that does
not go on from it the tip is undone, is found to be the next block of the one below it, and is
applied again.

## Main definitions

* `MemorySource.Fitting`: Blocks at their own height are followed by the next ones.
* `MemoryStore.Headroom`: What follows on a block of a store is higher.
* `MemoryStore.AtMost`: How many blocks there are at most.
* `Climbs`: The tip is what the source has at its height.
* `Within`: How many steps a cycle takes at most.
* `Crooked`: Behind a chain the source has a block that does not follow it.

## Theorems

* `Climbs.step`, `AtMost.step`: A step up, and one from anywhere.
* `cycle_ends`: A cycle over a source whose best chain fits comes to its end.
* `Crooked.never_ends`: One over a source whose best chain is crooked does not.
-/

namespace ChainIndex

open Entity Program Chain MemoryStore Follower

/-! ## What the source has -/

namespace MemorySource

/-- The best chain of a source fits: there are fewer blocks on it than heights, and where it
    has a block at its own height, the block that it has at the next height follows on it, if
    there is one. -/
structure Fitting (source : MemorySource) : Prop where
  short : source.best.length < UInt32.size
  goesOn : ∀ height block next, source.blockAt height = .ok block → block.height = height →
    source.blockAt (height + 1) = .ok next → next.follows block.hash block.height = true

variable {source : MemorySource} {height : UInt32} {block : Block}

theorem blockHash_of_blockAt (h : source.blockAt height = .ok block) :
    source.blockHash height = .ok block.hash := by
  unfold blockAt at h
  split at h
  · next hash hhash => rw [hhash, hash_of_block h]
  · exact absurd h (by simp)

theorem lt_of_blockAt (h : source.blockAt height = .ok block) :
    height.toNat < source.best.length := by
  have hhash := blockHash_of_blockAt h
  rw [blockHash] at hhash
  split at hhash
  · next found hget => exact (List.getElem?_eq_some_iff.mp hget).1
  · exact absurd hhash (by simp)

end MemorySource

/-! ## What a finished block leaves -/

section

variable {block : Block} {store behind : MemoryStore} {record : BlockRecord}

theorem Done.hasBlock_of_apply (h : Done .apply block store behind)
    (hrecord : behind.HasBlock record) :
    record = BlockRecord.ofBlock block ∨ store.HasBlock record := by
  unfold HasBlock at hrecord
  rw [h.blocks] at hrecord
  by_cases hhash : record.hash = block.hash
  · rw [if_pos hhash, Phase.left, Option.some.injEq] at hrecord
    exact Or.inl (stored_injective hrecord.symm)
  · rw [if_neg hhash] at hrecord
    exact Or.inr hrecord

theorem Done.hasBlock_of_undo (h : Done .undo block store behind)
    (hrecord : behind.HasBlock record) : record.hash ≠ block.hash ∧ store.HasBlock record := by
  unfold HasBlock at hrecord
  rw [h.blocks] at hrecord
  by_cases hhash : record.hash = block.hash
  · rw [if_pos hhash, Phase.left] at hrecord
    exact absurd hrecord (by simp)
  · rw [if_neg hhash] at hrecord
    exact ⟨hhash, hrecord⟩

theorem Done.has_applied (h : Done .apply block store behind) :
    behind.HasBlock (BlockRecord.ofBlock block) := by
  unfold HasBlock
  rw [h.blocks]
  exact if_pos rfl

end

/-- The heights do not run out above a block of the store: what follows on it is higher. -/
def MemoryStore.Headroom (store : MemoryStore) (source : MemorySource) : Prop :=
  ∀ record, store.HasBlock record → ∀ block, source.blockAt (record.height + 1) = .ok block →
    block.follows record.hash record.height = true → record.height < block.height

theorem Block.lt_of_follows {block : Block} {hash : String} {height : UInt32}
    (h : block.follows hash height = true) (hroom : height.toNat + 1 < UInt32.size) :
    height < block.height := by
  rw [UInt32.lt_iff_toNat_lt, block.height_of_follows h hroom]
  exact Nat.lt_succ_self _

/-- They do not where no block is at the greatest height. -/
theorem MemoryStore.Headroom.of_lt {store : MemoryStore}
    (h : ∀ record, store.HasBlock record → record.height.toNat + 1 < UInt32.size)
    (source : MemorySource) : store.Headroom source :=
  fun record hrecord _ _ hfollows => Block.lt_of_follows hfollows (h record hrecord)

/-- There are at most so many blocks in the store. -/
def MemoryStore.AtMost (count : Nat) (store : MemoryStore) : Prop :=
  ∃ hashes : List String, hashes.length ≤ count ∧
    ∀ record, store.HasBlock record → record.hash ∈ hashes

theorem MemoryStore.atMost_count (store : MemoryStore) :
    store.AtMost (store.count (Entity.model BlockRecord)) := by
  refine ⟨(store.model (Entity.model BlockRecord)).records.keys, ?_, fun record hrecord => ?_⟩
  · rw [Std.TreeMap.length_keys]
    exact le_rfl
  · rw [Std.TreeMap.mem_keys, Std.TreeMap.mem_iff_isSome_getElem?]
    exact Option.isSome_iff_exists.mpr ⟨_, hrecord⟩

/-- Undoing a block that is there leaves one less. -/
theorem MemoryStore.AtMost.undo {count : Nat} {store behind : MemoryStore} {block : Block}
    {record : BlockRecord} (h : store.AtMost count) (hrecord : store.HasBlock record)
    (hhash : block.hash = record.hash) (hdone : Done .undo block store behind) :
    ∃ less, less + 1 = count ∧ behind.AtMost less := by
  rcases h with ⟨hashes, hlength, hmem⟩
  have hin := hmem record hrecord
  have hpos := List.length_pos_of_mem hin
  refine ⟨count - 1, by omega, hashes.erase block.hash, ?_, fun other hother => ?_⟩
  · rw [List.length_erase_of_mem (hhash ▸ hin)]
    omega
  · rcases hdone.hasBlock_of_undo hother with ⟨hne, hbefore⟩
    exact (List.mem_erase_of_ne hne).mpr (hmem other hbefore)

theorem MemoryStore.AtMost.cleaned {count : Nat} {store cleaned : MemoryStore}
    (h : store.AtMost count) (hclean : Cleaned store cleaned) : cleaned.AtMost count := by
  rcases hclean with ⟨_, rfl⟩ | ⟨block, _, hdone⟩
  · exact h
  · rcases h with ⟨hashes, hlength, hmem⟩
    exact ⟨hashes, hlength, fun record hrecord => hmem record (hdone.hasBlock_of_undo hrecord).2⟩

/-- Undoing a block leaves the others at their heights. -/
theorem MemoryStore.Headroom.undo {store behind : MemoryStore} {source : MemorySource}
    {block : Block} (h : store.Headroom source) (hdone : Done .undo block store behind) :
    behind.Headroom source :=
  fun record hrecord => h record (hdone.hasBlock_of_undo hrecord).2

theorem MemoryStore.Headroom.cleaned {store cleaned : MemoryStore} {source : MemorySource}
    (h : store.Headroom source) (hclean : Cleaned store cleaned) : cleaned.Headroom source := by
  rcases hclean with ⟨_, rfl⟩ | ⟨block, _, hdone⟩
  · exact h
  · exact h.undo hdone

/-! ## Steps over a source that stays as it is -/

/-- No attempt is open, and the tip is higher than every other block and is what the source has
    at its height. -/
structure Climbs (source : MemorySource) (height : UInt32) (store : MemoryStore) : Prop where
  atRest : store.AtRest
  tip : ∃ block, source.blockAt height = .ok block ∧ block.height = height ∧
    store.HasBlock (BlockRecord.ofBlock block) ∧
    ∀ record, store.HasBlock record →
      record = BlockRecord.ofBlock block ∨ record.height < height

section

variable {source : MemorySource} {height : UInt32} {store behind : MemoryStore}
variable {outcome : SyncStep} {count : Nat}

/-- A store at rest needs no cleaning up. -/
theorem Cleaned.of_atRest (h : Cleaned store behind) (hrest : store.AtRest) : behind = store := by
  rcases h with ⟨_, rfl⟩ | ⟨block, hopen, _⟩
  · rfl
  · exact absurd hrest hopen.not_atRest

/-- The block of the source that has been applied on top of all others is climbed to. -/
theorem Climbs.of_applied {block : Block} (hat : source.blockAt block.height = .ok block)
    (hlower : ∀ record, store.HasBlock record → record.height < block.height)
    (hdone : Done .apply block store behind) : Climbs source block.height behind where
  atRest := hdone.atRest
  tip := by
    refine ⟨block, hat, rfl, hdone.has_applied, fun record hrecord => ?_⟩
    exact (hdone.hasBlock_of_apply hrecord).imp_right (hlower record)

/-- Applying a block that follows the tip and is higher climbs to it. -/
theorem Climbs.of_indexed {tip : BlockRecord} {block : Block} (htip : store.IsTip tip)
    (hat : (Surroundings.still source).BlockAt (tip.height + 1) (.ok block))
    (hfollows : block.follows tip.hash tip.height = true) (hlt : tip.height < block.height)
    (hdone : Done .apply block store behind) : Climbs source block.height behind := by
  have hat := hat.still
  rw [← (Block.follows_iff.mp hfollows).1] at hat
  exact .of_applied hat.symm (fun record hrecord =>
    UInt32.lt_of_le_of_lt (htip.highest record hrecord) hlt) hdone

/-- A step from where the source has the tip, over a best chain that fits, is one up. -/
theorem Climbs.step (h : Climbs source height store) (hfits : source.Fitting)
    (hstep : Stepped (.still source) store (.ok outcome) behind)
    (hwork : outcome.didWork = true) :
    ∃ next : UInt32, next.toNat = height.toNat + 1 ∧ next.toNat < source.best.length ∧
      Climbs source next behind := by
  rcases hstep.2 outcome rfl with ⟨cleaned, hclean, hwent⟩
  have hsame := hclean.of_atRest h.atRest
  subst hsame
  rcases h.tip with ⟨block, hat, hheight, hhere, hothers⟩
  -- There is no other tip than the block.
  have htip : ∀ {tip : BlockRecord}, cleaned.IsTip tip → tip = BlockRecord.ofBlock block := by
    intro tip htip
    refine (hothers tip htip.here).resolve_right fun hlt => ?_
    have hle : block.height ≤ tip.height := htip.highest _ hhere
    rw [hheight] at hle
    exact UInt32.lt_irrefl _ (UInt32.lt_of_le_of_lt hle hlt)
  cases hwent with
  | genesis hnone => exact absurd hhere (hnone _)
  | @indexed tip next _ htip' hnext hfollows hdone =>
      have htip := htip htip'
      subst htip
      -- The tip is on the best chain, and that leaves a height above it.
      have hroom : block.height.toNat + 1 < UInt32.size := by
        rw [hheight]
        exact lt_of_le_of_lt (MemorySource.lt_of_blockAt hat) hfits.short
      have hlt := Block.lt_of_follows hfollows hroom
      have hclimbs := Climbs.of_indexed htip' hnext hfollows hlt hdone
      rcases hclimbs.tip with ⟨same, hsame, _⟩
      refine ⟨next.height, ?_, MemorySource.lt_of_blockAt hsame, hclimbs⟩
      rw [Block.height_of_follows hfollows hroom, ← hheight]
      rfl
  | @invalidated tip undone _ htip' hhash hwhy hdone =>
      have htip := htip htip'
      subst htip
      change Outdated (.still source) (BlockRecord.ofBlock block) at hwhy
      rw [← hheight] at hat
      have hhash := MemorySource.blockHash_of_blockAt hat
      -- The source has the tip at its height, and a next block that follows it if any.
      rcases hwhy with ⟨next, hnext, hfollows⟩ | ⟨_, ⟨other, hother, hne⟩ | ⟨e, herror⟩⟩
      · have hfollows' := hfits.goesOn _ _ _ hat rfl hnext.still.symm
        exact absurd (hfollows'.symm.trans hfollows) (by decide)
      · exact absurd (Except.ok.inj (hother.still.trans hhash)) hne
      · exact absurd (herror.still.trans hhash) (by simp)
  | upToDate => exact absurd hwork (by decide)

/-- A step from anywhere either climbs or leaves one block less. -/
theorem MemoryStore.AtMost.step (h : store.AtMost count) (hroom : store.Headroom source)
    (hstep : Stepped (.still source) store (.ok outcome) behind)
    (hwork : outcome.didWork = true) :
    (∃ next : UInt32, next.toNat < source.best.length ∧ Climbs source next behind) ∨
      ∃ less, less + 1 = count ∧ behind.AtMost less ∧ behind.Headroom source := by
  rcases hstep.2 outcome rfl with ⟨cleaned, hclean, hwent⟩
  have hcleaned := h.cleaned hclean
  have hroom := hroom.cleaned hclean
  cases hwent with
  | @genesis block _ hnone hat hheight hdone =>
      have hat := hat.still.symm
      rw [← hheight] at hat
      exact Or.inl ⟨block.height, MemorySource.lt_of_blockAt hat,
        .of_applied hat (fun record hrecord => absurd hrecord (hnone record)) hdone⟩
  | indexed htip hat hfollows hdone =>
      -- The tip may be at any height, but what follows on it is higher.
      have hlt := hroom _ htip.here _ hat.still.symm hfollows
      have hclimbs := Climbs.of_indexed htip hat hfollows hlt hdone
      rcases hclimbs.tip with ⟨same, hsame, _⟩
      exact Or.inl ⟨_, MemorySource.lt_of_blockAt hsame, hclimbs⟩
  | invalidated htip hhash _ hdone =>
      rcases hcleaned.undo htip.here hhash hdone with ⟨less, hless, hbehind⟩
      exact Or.inr ⟨less, hless, hbehind, hroom.undo hdone⟩
  | upToDate => exact absurd hwork (by decide)

/-- A cycle takes at most so many steps from here: there are no more blocks than that on the
    best chain and in the store, or on the best chain above the tip that is climbed to. -/
def Within (source : MemorySource) (steps : Nat) (store : MemoryStore) : Prop :=
  (∃ count, store.AtMost count ∧ store.Headroom source ∧ count + source.best.length ≤ steps) ∨
    ∃ height, Climbs source height store ∧ source.best.length ≤ steps + height.toNat + 1

theorem Within.step {steps : Nat} (h : Within source steps store) (hfits : source.Fitting)
    (hstep : Stepped (.still source) store (.ok outcome) behind)
    (hwork : outcome.didWork = true) : ∃ less, less + 1 = steps ∧ Within source less behind := by
  rcases h with ⟨count, hcount, hroom, hsteps⟩ | ⟨height, hclimbs, hsteps⟩
  · rcases hcount.step hroom hstep hwork with ⟨next, hlt, hclimbs⟩ | ⟨less, rfl, hless, hroom⟩
    · exact ⟨steps - 1, by omega, Or.inr ⟨next, hclimbs, by omega⟩⟩
    · exact ⟨steps - 1, by omega, Or.inl ⟨less, hless, hroom, by omega⟩⟩
  · rcases hclimbs.step hfits hstep hwork with ⟨next, hnext, hlt, hclimbs⟩
    exact ⟨steps - 1, by omega, Or.inr ⟨next, hclimbs, by omega⟩⟩

/-- A step in a world. -/
theorem MemoryStore.Legible.run_step (symbol : String) (h : store.Legible) (now : Int64) :
    ∃ result behind, (Follower.standard symbol).step.run World.answer ⟨store, source, now⟩
        = (result, ⟨behind, source, now⟩) ∧ Stepped (.still source) store result behind := by
  rcases ((orderly_step h).always h Legible h fun phase block store hlegible _ _ _ =>
    (always_work symbol phase block hlegible).mono fun _ _ _ _ => trivial).run now with
    ⟨result, behind, hrun, _, hstepped⟩
  exact ⟨result, behind, hrun, hstepped⟩

theorem didWork_of_ne (h : outcome ≠ .upToDate) : outcome.didWork = true := by
  cases outcome with
  | upToDate => exact absurd rfl h
  | genesis | indexed | invalidated => rfl

/-- Steps are taken until one has nothing to do or fails, and no more of them than there may
    be. -/
theorem Within.takes (symbol : String) {steps : Nat} (h : Within source steps store)
    (hfits : source.Fitting) (hlegible : store.Legible) (now : Int64) :
    ∃ outcomes between result last,
      Takes (.standard symbol) ⟨store, source, now⟩ outcomes between ∧
        (∀ outcome ∈ outcomes, outcome.didWork = true) ∧ outcomes.length ≤ steps ∧
        (Follower.standard symbol).step.run World.answer between = (result, last) ∧
        ∀ outcome, result = .ok outcome → outcome = .upToDate := by
  induction steps generalizing store with
  | zero =>
      rcases hlegible.run_step symbol now with ⟨result, behind, hrun, hstep⟩
      refine ⟨[], _, result, _, .nil _, by simp, le_rfl, hrun, fun outcome heq => ?_⟩
      subst heq
      by_contra hne
      rcases h.step hfits hstep (didWork_of_ne hne) with ⟨less, hless, _⟩
      exact absurd hless (Nat.succ_ne_zero less)
  | succ steps ih =>
      rcases hlegible.run_step symbol now with ⟨result, behind, hrun, hstep⟩
      cases result with
      | error e =>
          exact ⟨[], _, _, _, .nil _, by simp, Nat.zero_le _, hrun, fun _ heq =>
            absurd heq (by simp)⟩
      | ok outcome =>
          by_cases hidle : outcome = .upToDate
          · exact ⟨[], _, _, _, .nil _, by simp, Nat.zero_le _, hrun, fun _ heq =>
              Except.ok.inj heq ▸ hidle⟩
          · have hwork := didWork_of_ne hidle
            rcases h.step hfits hstep hwork with ⟨less, hless, hwithin⟩
            rw [Nat.succ_inj.mp hless] at hwithin
            rcases ih hwithin hstep.1 with
              ⟨outcomes, between, result, last, htakes, hall, hlength, hend, hresult⟩
            refine ⟨outcome :: outcomes, between, result, last, .cons hrun htakes,
              fun other hmem => ?_, ?_, hend, hresult⟩
            · rcases List.mem_cons.mp hmem with rfl | hrest
              · exact hwork
              · exact hall other hrest
            · rw [List.length_cons]
              omega

end

/-! ## Cycles -/

/-- From every store that a follower may be met with, whatever the surroundings have been, as
    long as the heights have not run out, a cycle over a source that stays as it is and whose
    best chain fits comes to its end: after no more steps than there are blocks in the store and
    on the best chain, one has nothing to do or fails. -/
theorem cycle_ends (symbol : String) (store : MemoryStore)
    (hmet : Met .lawless (.standard symbol) store) (source : MemorySource)
    (hroom : store.Headroom source) (hfits : source.Fitting) (now : Int64) :
    ∃ outcomes between result last,
      Takes (.standard symbol) ⟨store, source, now⟩ outcomes between ∧
      (∀ outcome ∈ outcomes, outcome.didWork = true) ∧
      outcomes.length ≤ store.count (model BlockRecord) + source.best.length ∧
      (Follower.standard symbol).step.run World.answer between = (result, last) ∧
      (∀ outcome, result = .ok outcome → outcome = .upToDate) ∧
      ∀ actions, 2 * outcomes.length + 5 ≤ actions →
        runCycle (Follower.standard symbol).stepIn actions ⟨⟨true, false⟩, ⟨store, source, now⟩⟩
          = some (result.map fun _ => .completed outcomes.length, ⟨⟨true, false⟩, last⟩) := by
  have hwithin : Within source (store.count (model BlockRecord) + source.best.length) store :=
    Or.inl ⟨_, store.atMost_count, hroom, le_rfl⟩
  rcases hwithin.takes symbol hfits hmet.legible now with
    ⟨outcomes, between, result, last, htakes, hwork, hlength, hend, hresult⟩
  refine ⟨outcomes, between, result, last, htakes, hwork, hlength, hend, hresult,
    runCycle_of_ends hwork htakes hend fun outcome heq => hresult outcome heq ▸ rfl⟩

namespace Fork

/-- A source whose best chain begins with a block above the fork. -/
def misplaced : MemorySource := ⟨[right], [right, left, root]⟩

theorem misplaced_fitting : misplaced.Fitting where
  short := by decide
  goesOn height block next hat hheight hnext := by
    have hzero := MemorySource.lt_of_blockAt hat
    have hone := MemorySource.lt_of_blockAt hnext
    rw [show misplaced.best.length = 1 from rfl, Nat.lt_one_iff] at hzero hone
    rw [UInt32.toNat_add, hzero] at hone
    exact absurd hone (by decide)

theorem headroom_second : second.Headroom misplaced := by
  refine .of_lt (fun record hrecord => ?_) misplaced
  rcases (reachable_second.sound serves).rest atRest_second with ⟨chain, hrest⟩
  rcases (hrest.holds serves _ _).mp hrecord with ⟨block, hmem, -, hstored⟩
  rw [stored_injective hstored]
  rcases (mem_served (hrest.linked.served block hmem)).2 with rfl | rfl | rfl
  · decide
  · decide
  · decide

theorem met_second : Met .lawless (.standard "DFI") second := by
  have hsource : Surroundings.lawless.source source := trivial
  exact (Met.empty.step (reaches_run _ hsource 0)).step (reaches_run _ hsource 0)

end Fork

/-- A cycle ends also where the best chain begins with a block of another height. -/
theorem cycle_ends_misplaced :
    ∃ result last, runCycle (Follower.standard "DFI").stepIn 11
      ⟨⟨true, false⟩, ⟨Fork.second, Fork.misplaced, 0⟩⟩ = some (result, ⟨⟨true, false⟩, last⟩) := by
  rcases cycle_ends "DFI" Fork.second Fork.met_second Fork.misplaced Fork.headroom_second
      Fork.misplaced_fitting 0 with
    ⟨outcomes, _, result, last, _, _, hlength, _, _, hcycle⟩
  have hcount : Fork.second.count (model BlockRecord) = 2 := by decide +kernel
  rw [hcount, show Fork.misplaced.best.length = 1 from rfl] at hlength
  exact ⟨_, last, hcycle 11 (by omega)⟩

/-! ## Best chains that do not fit -/

section

variable {symbol : String} {served : String → Option Block} {source : MemorySource}
variable {chain below : List Block} {store : MemoryStore}

/-- The source has the blocks of a chain at their heights, and above the last one a block that
    does not follow it. -/
structure Crooked (served : String → Option Block) (source : MemorySource)
    (chain : List Block) : Prop where
  sourced : (Surroundings.still source).Sourced served
  linked : Linked served chain
  here : ∀ block ∈ chain, source.blockAt block.height = .ok block
  bend : ∃ init tip other, chain = init ++ [tip] ∧ source.blockAt (tip.height + 1) = .ok other ∧
    other.follows tip.hash tip.height = false

/-- Up to where the best chain is crooked every step has something to do, and leads to another
    place of that chain: the next one, or from the last one the one before. -/
theorem Crooked.run_step (h : Crooked served source chain) (hserves : Serves symbol served)
    (hbelow : below <+: chain) (hpending : Pending symbol served below store) (now : Int64) :
    ∃ outcome behind below', (Follower.standard symbol).step.run World.answer ⟨store, source, now⟩
        = (.ok outcome, ⟨behind, source, now⟩) ∧ outcome.didWork = true ∧
      below' <+: chain ∧ Pending symbol served below' behind := by
  rcases hbelow with ⟨rest, rfl⟩
  cases rest with
  | nil =>
      rcases h.bend with ⟨init, tip, other, hchain, hat, hother⟩
      rw [List.append_nil] at hchain ⊢
      subst hchain
      rcases run_step_of_not_stuck hserves h.sourced (not_stuck_above hat) hpending now with
        ⟨outcome, below', behind, hrun, hmoves, hrest⟩
      rcases hmoves.tip_undone hat hother with ⟨rfl, rfl⟩
      exact ⟨_, behind, below', hrun, rfl, List.prefix_append _ _, Or.inl hrest⟩
  | cons next rest =>
      have hat := h.here next (by simp)
      rcases run_step_of_not_stuck hserves h.sourced (not_stuck_below h.linked hat) hpending now
        with ⟨outcome, below', behind, hrun, hmoves, hrest⟩
      rcases hmoves.next_applied h.linked hat with ⟨rfl, rfl⟩
      exact ⟨_, behind, below ++ [next], hrun, SyncStep.didWork_applied next,
        ⟨rest, by simp⟩, Or.inl hrest⟩

/-- A cycle does not end where every step has something to do. -/
theorem run_checking_of_works {follower : Follower} (mid : World MemoryStore → Prop)
    (hstep : ∀ world, mid world → ∃ outcome next,
      follower.step.run World.answer world = (.ok outcome, next) ∧
        outcome.didWork = true ∧ mid next)
    (actions steps : Nat) {world : World MemoryStore} {indexing : Bool} (h : mid world) :
    CyclePoint.run follower.stepIn actions (.checking steps) ⟨⟨true, indexing⟩, world⟩ = none := by
  induction actions using Nat.twoStepInduction generalizing steps world with
  | zero => rfl
  | one => rfl
  | more actions ih _ =>
      rcases hstep world h with ⟨outcome, next, hrun, hwork, hnext⟩
      simp only [CyclePoint.run_succ, CyclePoint.advance, stepIn, hrun, if_true, hwork]
      exact ih (steps + 1) hnext

/-- Over a crooked best chain a cycle does not end: it goes up to where the chain is crooked,
    back by one block and up again. -/
theorem Crooked.never_ends (h : Crooked served source chain) (hserves : Serves symbol served)
    (hbelow : below <+: chain) (hpending : Pending symbol served below store) (now : Int64)
    (actions : Nat) :
    runCycle (Follower.standard symbol).stepIn actions ⟨⟨true, false⟩, ⟨store, source, now⟩⟩
      = none := by
  rcases actions with _ | _ | actions
  · rfl
  · rfl
  · rw [runCycle]
    simp only [CyclePoint.run_succ, CyclePoint.advance, if_true, Bool.false_eq_true, if_false]
    refine run_checking_of_works (fun world => world.source = source ∧ world.now = now ∧
      ∃ below, below <+: chain ∧ Pending symbol served below world.store) ?_ actions 0
      ⟨rfl, rfl, below, hbelow, hpending⟩
    rintro ⟨store, _, _⟩ ⟨rfl, rfl, below, hbelow, hpending⟩
    rcases h.run_step hserves hbelow hpending _ with
      ⟨outcome, behind, below', hrun, hwork, hbelow', hpending'⟩
    exact ⟨outcome, _, hrun, hwork, rfl, rfl, below', hbelow', hpending'⟩

end

namespace Fork

/-- A source that has the two blocks above the fork one behind the other. -/
def crooked : MemorySource := .ofChain [root, left, right]

theorem crooked_behind_left : Crooked served crooked [root, left] where
  sourced :=
    { serves := by
        rintro source rfl hash block h
        exact served_of_block (by simp [crooked, MemorySource.ofChain, MemorySource.setChain]) h
      keeps := by
        refine Or.inr ?_
        rintro source rfl hash block h
        rcases mem_served h with ⟨rfl, rfl | rfl | rfl⟩
        · rfl
        · rfl
        · rfl }
  linked := by
    have hroot : Linked served ([] ++ [root]) := Linked.nil.snoc rfl rfl (by simp)
    exact hroot.snoc rfl rfl fun parent hparent => Option.some.inj hparent ▸ rfl
  here block hmem := by
    rcases List.mem_pair.mp hmem with rfl | rfl
    · rfl
    · rfl
  bend := ⟨[root], left, right, rfl, rfl, by decide +kernel⟩

end Fork

/-- Over a best chain that has two blocks of one height behind each other, a cycle that begins
    with an empty store does not end, for any number of steps. -/
theorem cycle_over_crooked_chain :
    Met .lawless (.standard "DFI") .empty ∧ ∀ actions,
      runCycle (Follower.standard "DFI").stepIn actions
        ⟨⟨true, false⟩, ⟨.empty, Fork.crooked, 0⟩⟩ = none :=
  ⟨.empty, Fork.crooked_behind_left.never_ends Fork.serves List.nil_prefix (Or.inl rest_empty) 0⟩

end ChainIndex
