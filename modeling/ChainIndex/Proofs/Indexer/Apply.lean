import ChainIndex.Proofs.Indexer.ApplyOp
import ChainIndex.Proofs.Indexer.Writes

/-!
# Applying a block

A block is applied within its footprint, whatever becomes of it: at every point the store
is between `base` and the block. When it has been applied in full, what was said of its
operations holds of all of them, and its record is there.

Around the operations a block writes its transactions, its aggregates, its statistics and
its record, and for the first block the native token. None of that is read when the block
is undone, apart from the statistics, whose block is asked for before they are deleted.
What the aggregates and the statistics are computed from is only read, so it does not
matter here how they are computed.

## Theorems

* `Applied.saveKey`: A write of the block as such.
* `runs_applyBlock`: Applying a block.
-/

namespace ChainIndex

open Entity Program

variable {base : MemoryStore} {block : Block} {done : List (Transaction × DecodedOp)}
variable {t : MemoryStore}

/-- A write under a key of the block as such. -/
theorem Applied.saveKey {α : Type} [Entity α] (h : Applied base block done t) (a : α)
    (hkey : BlockKeys block (model α) (key a))
    (hmodel : model α ∉ model Masternode :: oracleModels)
    (hstats : model α = model MasternodeStats → ∃ stats : MasternodeStats,
      stored a = stored stats ∧ stats.block.hash = block.hash) :
    Applied base block done (saved t a) := by
  have hnode : model α ≠ model Masternode := fun hc => hmodel (by simp [hc])
  have hsnapshot : model α ≠ model OracleSnapshot := fun hc => hmodel (by simp [hc, oracleModels])
  have hbetween : Between base block (BlockKeys block) done (saved t a) :=
    h.between.saved a (Or.inl hkey)
      ⟨fun hc => absurd hc hsnapshot, fun hc => absurd hc hnode, hstats⟩
  refine h.pass (fun _ hq => hq) hbetween (find_saved_of_oracleModels a fun hc => ?_)
    (fun k node hfound _ => ?_) h.grounded
  · exact hmodel (List.mem_cons_of_mem _ hc)
  · rw [find_saved, if_neg fun hc => hnode hc.1.symm] at hfound
    exact Or.inl hfound

/-- What is done is done within the footprint of the whole block. -/
theorem Applied.within (h : Applied base block done t) (hdone : ∀ p ∈ done, p ∈ block.ops) :
    Between base block (BlockKeys block) block.ops t :=
  h.between.mono (fun _ _ hkey => hkey) hdone

section

variable (hdone : ∀ p ∈ done, p ∈ block.ops) (h : Applied base block done t)
include hdone h

/-- A save under a key of the block as such, in a run. -/
theorem runs_saveKey {α : Type} [Entity α] [Recorded α] (a : α)
    (hkey : BlockKeys block (model α) (key a))
    (hmodel : model α ∉ model Masternode :: oracleModels)
    (hstats : model α = model MasternodeStats → ∃ stats : MasternodeStats,
      stored a = stored stats ∧ stats.block.hash = block.hash) :
    Runs (Between base block (BlockKeys block) block.ops) True
      (fun _ behind => Applied base block done behind) (Entity.save a) t := by
  have hsaved := h.saveKey a hkey hmodel hstats
  exact runs_save (h.within hdone) (hsaved.within hdone) hsaved

theorem runs_seedNative (symbol : String) (hheight : block.height = 0) :
    Runs (Between base block (BlockKeys block) block.ops) True
      (fun _ behind => Applied base block done behind) (seedNative symbol block) t := by
  have hsaved := h.saveKey (Token.native symbol block.ref)
    (Or.inr (Or.inr (Or.inr (Or.inr (Or.inr ⟨rfl, hheight, rfl⟩))))) (by decide)
    (by simp [Entity.model])
  exact ⟨h.within hdone, ⟨_, rfl, Recorded.model_ne_ledger (α := Token)⟩, fun e => ⟨_, rfl⟩, (),
    _, rfl, hsaved.within hdone, hsaved⟩

theorem runs_writeTransaction (position : Nat) {tx : Transaction}
    (htx : tx ∈ block.transactions) :
    Runs (Between base block (BlockKeys block) block.ops) True
      (fun _ behind => Applied base block done behind) (writeTransaction block position tx) t := by
  refine runs_bind (runs_forM_keeps (fun behind => Applied base block done behind) tx.outputs
    (h.within hdone) h fun output houtput behind _ hbehind => ?_) fun _ behind _ hbehind => ?_
  · exact runs_saveKey hdone hbehind _
      (Or.inr (Or.inr (Or.inr (Or.inr (Or.inl ⟨rfl, tx, htx, output, houtput, rfl⟩)))))
      (by decide) (by simp [Entity.model])
  · exact runs_saveKey hdone hbehind _ (Or.inr (Or.inr (Or.inr (Or.inl ⟨rfl, tx, htx, rfl⟩))))
      (by decide) (by simp [Entity.model])

theorem runs_writeAggregates :
    Runs (Between base block (BlockKeys block) block.ops) True
      (fun _ behind => Applied base block done behind)
      (Indexer.setOracleData.hook .apply .blockEnd block) t := by
  refine runs_bind (q := fun pairs behind =>
    Applied base block done behind ∧ fedPairs block = .ok pairs)
    (runs_ofExcept (h.within hdone) (fun pairs hpairs => ⟨h, hpairs⟩) fun _ _ => trivial) ?_
  rintro pairs behind hmid ⟨hbehind, hpairs⟩
  refine runs_forM_keeps (fun after => Applied base block done after) pairs hmid hbehind
    fun pair hpair after hafter hinv => ?_
  refine runs_bind ((quiet_aggregatePair block pair).runs hafter) ?_
  rintro aggregated last hlast rfl
  cases aggregated with
  | none => exact runs_pure hlast hinv
  | some aggregated =>
      exact runs_saveKey hdone hinv _
        (Or.inr (Or.inr (Or.inl ⟨rfl, pairs, hpairs, pair, hpair, rfl⟩)))
        (by decide) (by simp [Entity.model])

theorem runs_writeStats (hfresh : Fresh base block) :
    Runs (Between base block (BlockKeys block) block.ops) True
      (fun _ behind => Applied base block done behind)
      (Indexer.masternodeStats.hook .apply .blockEnd block) t := by
  have hkey : BlockKeys block (model MasternodeStats) (MasternodeStats.keyAt block.height) :=
    Or.inr (Or.inl ⟨rfl, rfl⟩)
  refine runs_bind ((quiet_before? block.height).runs (h.within hdone)) ?_
  rintro previous behind - rfl
  refine runs_bind ((quiet_foldlM block.ops _ fun totals p =>
    quiet_afterOp p.1 p.2 totals).runs (h.within hdone)) ?_
  rintro totals behind - rfl
  by_cases hchanged : totals.changed = true
  · simp only [if_pos hchanged]
    have hsave := runs_saveKey hdone h (totals.toStats block) hkey (by decide)
      fun _ => ⟨_, rfl, rfl⟩
    refine runs_bind (q := fun value after => after = behind ∧
      ∀ existing : MasternodeStats, value = some existing → existing.block.hash = block.hash)
      (runs_find? (h.within hdone) (fun _ => ⟨rfl, by simp⟩) fun found hfound => ?_) ?_
    · rcases h.between.own_stats hfresh hfound with ⟨stats, rfl, hhash⟩
      exact ⟨stats, rfl, rfl, fun existing heq => Option.some.inj heq ▸ hhash⟩
    · -- Statistics that are there already are those of this very block, and are written again.
      rintro value after - ⟨rfl, hhash⟩
      cases value with
      | none => exact hsave
      | some existing =>
          simp only
          rw [if_pos (show existing.block.hash = (totals.toStats block).block.hash from
            hhash existing rfl)]
          exact hsave
  · simp only [if_neg hchanged]
    exact runs_pure (h.within hdone) h

end

/-- A block is applied within its footprint. Applied in full, all of its operations are
    done and its record is there. -/
theorem runs_applyBlock (symbol : String) (hbase : Coherent base)
    (hnodes : Typed Masternode base) (hfresh : Fresh base block) (hregular : block.Regular)
    (hbelow : ∀ k (s : OracleSnapshot),
      base.find (model OracleSnapshot) k = some (stored s) → s.block.height < block.height) :
    Runs (Between base block (BlockKeys block) block.ops) True
      (fun _ behind => Applied base block block.ops behind ∧
        behind.find (model BlockRecord) block.hash = some (stored (BlockRecord.ofBlock block)))
      ((Registry.full symbol).applyBlock block) base := by
  have hstart : Applied base block [] base := .start hbase hbelow
  have hnone : ∀ p ∈ ([] : List (Transaction × DecodedOp)), p ∈ block.ops := by simp
  rw [Registry.applyBlock_full]
  -- The native token and the transactions.
  refine runs_bind (q := fun _ behind => Applied base block [] behind) ?_ ?_
  · by_cases hheight : block.height = 0
    · rw [if_pos hheight]
      exact runs_seedNative hnone hstart symbol hheight
    · rw [if_neg hheight]
      exact runs_pure (hstart.within hnone) hstart
  intro _ behind hmid hbehind
  refine runs_bind (runs_forM_keeps (fun after => Applied base block [] after)
    block.transactions.zipIdx hmid hbehind ?_) ?_
  · rintro ⟨tx, position⟩ hmem after _ hafter
    exact runs_writeTransaction hnone hafter position (List.fst_mem_of_mem_zipIdx hmem)
  intro _ behind hmid hbehind
  -- The operations.
  refine runs_bind (runs_forM (fun done _ after => Applied base block done after) block.ops hmid
    hbehind ?_) ?_
  · intro done p rest after hops _ hafter
    exact (runs_applyOp symbol hnodes hfresh hregular hops.symm hafter).weaken
      (fun last hlast => hlast.mono (fun _ _ hkey => hkey) (mem_last_ops hops.symm)) id
  intro _ behind hmid hbehind
  -- The end of the block.
  refine runs_bind (runs_writeAggregates (fun _ hp => hp) hbehind) ?_
  intro _ behind hmid hbehind
  refine runs_bind (runs_writeStats (fun _ hp => hp) hbehind hfresh) ?_
  intro _ behind hmid hbehind
  have hsaved := hbehind.saveKey (BlockRecord.ofBlock block) (Or.inl ⟨rfl, rfl⟩)
    (by decide) (by simp [Entity.model])
  refine runs_save hmid (hsaved.within fun _ hp => hp) ⟨hsaved, ?_⟩
  rw [find_saved, if_pos ⟨rfl, rfl⟩]

end ChainIndex
