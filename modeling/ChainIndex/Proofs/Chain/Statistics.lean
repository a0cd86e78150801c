import ChainIndex.Proofs.Chain.Rolled
import ChainIndex.Proofs.Indexer.Statistics

/-!
# The statistics of masternodes are a recount

However a store was rolled forward and back, its newest statistics say what a count over its
masternodes would: how many are not resigned, and what they lock. There are no statistics
exactly as long as no block has created or resigned any.

What is assumed of a chain is that no masternode is resigned twice, that there are fewer
masternodes than 32 bits count, and that together they lock less than 64 bits hold. Resigned
twice, a masternode would be taken off twice. Under these assumptions the totals of a block are
never below zero and never too large, so that they are written as they are, and nothing is in
their way when they are.

## Main definitions

* `Chain.ops`: The operations of a chain.
* `Chain.Countable`: What is assumed of the masternodes of a chain.
* `StatsTold`: What holds of masternodes and statistics in a store of a chain.
* `StatsMidway`: What holds of them while a block is applied.
* `StatsRecounted`: Statistics and masternodes say the same.
* `CountsNext`: The statistics of the next block are written as they were counted.

## Theorems

* `Countable.free`, `Countable.unresigned`: The next operation of the last block.
* `runs_ofBlock`: The totals of a block are a recount.
* `runs_statistics`: Its statistics are written and are taken back.
* `rolled_statistics_recount`: Statistics are a recount in every store.
-/

namespace ChainIndex

open Entity Program MemoryStore

namespace Chain

/-- The operations of a chain. -/
def ops (chain : List Block) : List (Transaction × DecodedOp) :=
  chain.flatMap Block.ops

/-- What is assumed of the masternodes of a tidy chain: none is resigned twice, there are fewer
    than 32 bits count, and they lock less than 64 bits hold. -/
structure Countable (chain : List Block) : Prop extends Tidy chain where
  once : (resignedBy (ops chain)).Nodup
  few : (lockedBy (ops chain)).length < UInt32.size
  light : ((lockedBy (ops chain)).map UInt64.toNat).sum < UInt64.size

theorem ops_snoc (chain : List Block) (block : Block) :
    ops (chain ++ [block]) = ops chain ++ block.ops := by
  simp [ops]

theorem ops_txids_sublist (chain : List Block) :
    ((ops chain).map fun p => p.1.txid).Sublist (txids chain) := by
  induction chain with
  | nil => exact .slnil
  | cons block rest ih =>
      rw [ops, txids, List.flatMap_cons, List.flatMap_cons, List.map_append]
      exact block.ops_txids_sublist.append ih

section

variable {chain : List Block} {block : Block} {tx : Transaction} {op : DecodedOp}
variable {init rest : List (Transaction × DecodedOp)}

/-- No operation so far belongs to the transaction of the next one. -/
theorem Tidy.free (h : Tidy (chain ++ [block])) (hops : block.ops = init ++ (tx, op) :: rest) :
    tx.txid ∉ (ops chain ++ init).map fun p => p.1.txid := by
  have hnodup := (ops_txids_sublist (chain ++ [block])).nodup h.distinct
  rw [ops_snoc, hops, ← List.append_assoc, List.map_append, List.map_cons,
    List.nodup_append] at hnodup
  exact fun hmem => hnodup.2.2 _ hmem _ List.mem_cons_self rfl

/-- No operation so far has resigned what the next one resigns. -/
theorem Countable.unresigned (h : Countable (chain ++ [block]))
    (hops : block.ops = init ++ (tx, op) :: rest) (id : String) (hid : op.resigned = some id) :
    id ∉ resignedBy (ops chain ++ init) := by
  have hnodup := h.once
  rw [ops_snoc, hops, ← List.append_assoc, resignedBy, List.filterMap_append,
    List.nodup_append] at hnodup
  exact fun hmem => hnodup.2.2 _ hmem id (by simp [hid]) rfl

end

end Chain

open Chain

/-- What holds of masternodes and statistics in a store of a chain. -/
structure StatsTold (chain : List Block) (t : MemoryStore) : Prop where
  nodes : NodesFrom (ops chain) t
  typed : Typed MasternodeStats t
  below : ∀ stats : MasternodeStats, Held t stats → stats.height.toNat < chain.length
  recount : ∀ previous, MasternodeStats.Newest t previous →
    (MasternodeTotals.start previous).Recount t
  moved : (∃ stats : MasternodeStats, Held t stats) ↔ ∃ p ∈ ops chain, p.2.Moves

/-- What holds of them while a block is applied to `base`, when some operations are done. -/
structure StatsMidway (chain : List Block) (base : MemoryStore)
    (done : List (Transaction × DecodedOp)) (t : MemoryStore) : Prop where
  nodes : NodesFrom (ops chain ++ done) t
  stats : t.Agree [model MasternodeStats] base
  tally : ∀ previous, MasternodeStats.Newest base previous →
    ∃ totals, Tally (MasternodeTotals.start previous) done t totals

section

variable {chain : List Block} {block : Block} {base t after : MemoryStore}
variable {done init rest : List (Transaction × DecodedOp)} {tx : Transaction} {op : DecodedOp}

theorem held_iff_of_agree (h : after.Agree [model MasternodeStats] t) (stats : MasternodeStats) :
    Held after stats ↔ Held t stats :=
  held_congr (h _ (by simp)) stats

theorem statsTold_empty : StatsTold [] .empty where
  nodes := nodesFrom_empty
  typed := by simp [Typed]
  below := by simp [Held]
  recount previous hnewest := by
    cases previous with
    | none => exact ⟨rfl, rfl⟩
    | some stats => exact absurd hnewest.1 (by simp [Held])
  moved := by simp [Held, ops]

theorem StatsTold.congr (h : StatsTold chain t) (hagree : after.Agree nodeModels t) :
    StatsTold chain after where
  nodes := h.nodes.congr hagree.nodes
  typed := h.typed.congr (hagree.stats _ (by simp))
  below stats hstats := h.below stats ((held_iff_of_agree hagree.stats stats).mp hstats)
  recount previous hnewest :=
    (h.recount previous (hnewest.congr hagree.stats.symm)).congr hagree.nodes
  moved := by
    rw [← h.moved]
    exact exists_congr fun stats => held_iff_of_agree hagree.stats stats

/-- Before any operation is done. -/
theorem StatsTold.start (h : StatsTold chain base) : StatsMidway chain base [] base where
  nodes := by
    rw [List.append_nil]
    exact h.nodes
  stats := .refl _ _
  tally previous hnewest := by
    refine ⟨_, .nil (h.recount previous hnewest) ?_⟩
    cases previous with
    | none => rfl
    | some stats => rfl

theorem StatsMidway.congr (h : StatsMidway chain base done t) (hagree : after.Agree nodeModels t) :
    StatsMidway chain base done after where
  nodes := h.nodes.congr hagree.nodes
  stats := hagree.stats.trans h.stats
  tally previous hnewest := by
    rcases h.tally previous hnewest with ⟨totals, htally⟩
    exact ⟨totals, htally.congr hagree.nodes⟩

/-- When one more operation is done. -/
theorem StatsMidway.step (h : StatsMidway chain base init t)
    (hstep : NodeStep (ops chain ++ init) tx op t after) :
    StatsMidway chain base (init ++ [(tx, op)]) after where
  nodes := by
    rw [← List.append_assoc]
    exact hstep.nodes
  stats := hstep.stats.trans h.stats
  tally previous hnewest := by
    rcases h.tally previous hnewest with ⟨totals, htally⟩
    exact hstep.tally _ _ totals htally

/-! ## The end of a block -/

section

variable (htold : StatsTold chain base) (hcountable : Chain.Countable (chain ++ [block]))
variable (h : StatsMidway chain base block.ops t) (hwf : t.WF)

include htold hcountable

/-- All statistics are below the block. -/
theorem StatsTold.below_last {stats : MasternodeStats} (hheld : Held base stats) :
    stats.height < block.height := by
  rw [UInt32.lt_iff_toNat_lt, hcountable.numbered.height_last]
  exact htold.below stats hheld

/-- So there are none at its height. -/
theorem StatsTold.free_last :
    base.find (model MasternodeStats) (MasternodeStats.keyAt block.height) = none := by
  rcases hfound : base.find (model MasternodeStats) (MasternodeStats.keyAt block.height) with
    _ | found
  · rfl
  · rcases htold.typed.exists_held hfound with ⟨stats, _, hk, hheld⟩
    have hlt := htold.below_last hcountable hheld
    rw [MasternodeStats.keyAt_injective hk] at hlt
    exact absurd hlt (UInt32.lt_irrefl _)

include h hwf

/-- The totals of a block are a recount. -/
theorem runs_ofBlock :
    Runs MemoryStore.WF False
      (fun totals behind => behind = t ∧ ∃ previous, MasternodeStats.Newest t previous ∧
        Tally (MasternodeTotals.start previous) block.ops t totals)
      (MasternodeTotals.ofBlock block) t := by
  have htyped : Typed MasternodeStats t := htold.typed.congr (h.stats _ (by simp))
  refine runs_bind (MasternodeStats.runs_before? hwf htyped fun stats hheld =>
    htold.below_last hcountable ((held_iff_of_agree h.stats stats).mp hheld)) ?_
  rintro previous behind hbehind ⟨rfl, hnewest⟩
  rcases h.tally previous (hnewest.congr h.stats.symm) with ⟨totals, htally⟩
  refine (htally.tallied behind hbehind h.nodes.typed fun node hnode =>
    ⟨node, hnode, rfl, rfl⟩).mono ?_
  rintro result last - ⟨rfl, rfl⟩
  exact ⟨rfl, previous, hnewest, htally⟩

omit hwf in
/-- When the statistics of the block are written. -/
theorem StatsTold.written {previous : Option MasternodeStats} {totals : MasternodeTotals}
    (htally : Tally (MasternodeTotals.start previous) block.ops t totals)
    (hchanged : totals.changed = true) :
    StatsTold (chain ++ [block]) (saved t (totals.toStats block)) := by
  have hnodes : NodesFrom (ops (chain ++ [block])) t := ops_snoc chain block ▸ h.nodes
  have hsaved : (saved t (totals.toStats block)).Agree [model Masternode] t :=
    agree_saved (by decide) t _
  have htyped : Typed MasternodeStats t := htold.typed.congr (h.stats _ (by simp))
  have hheight := hcountable.numbered.height_last
  have hexact := htally.recount.exact hnodes hcountable.few hcountable.light block
  have hlower : ∀ stats : MasternodeStats, Held t stats → stats.height < block.height :=
    fun stats hheld => htold.below_last hcountable ((held_iff_of_agree h.stats stats).mp hheld)
  refine ⟨hnodes.congr hsaved, htyped.saved _, fun stats hstats => ?_, fun newest hnewest => ?_,
    ?_⟩
  · rw [List.length_append, List.length_singleton]
    rcases hstats.of_saved with rfl | ⟨_, hstats⟩
    · exact lt_of_eq_of_lt hheight (Nat.lt_succ_self _)
    · have hlt := UInt32.lt_iff_toNat_lt.mp (hlower stats hstats)
      omega
  · cases newest with
    | none => exact absurd (held_saved t _) (hnewest _)
    | some stats =>
        -- Every other statistics are lower, so these are the newest.
        rcases hnewest.1.of_saved with rfl | ⟨_, hstats⟩
        · exact ⟨hexact.1.trans (htally.recount.congr hsaved).count,
            hexact.2.trans (htally.recount.congr hsaved).tvl⟩
        · exact absurd (hnewest.2 _ (held_saved t (totals.toStats block)))
            (UInt32.not_le.mpr (hlower stats hstats))
  · rw [ops_snoc]
    rcases htally.changed.mp hchanged with ⟨p, hp, hmoves⟩
    exact ⟨fun _ => ⟨p, List.mem_append_right _ hp, hmoves⟩, fun _ => ⟨_, held_saved t _⟩⟩

omit hcountable hwf in
/-- When the block has none. -/
theorem StatsTold.still (hstill : ¬ ∃ p ∈ block.ops, p.2.Moves) :
    StatsTold (chain ++ [block]) t := by
  refine ⟨ops_snoc chain block ▸ h.nodes, htold.typed.congr (h.stats _ (by simp)),
    fun stats hstats => ?_, fun previous hnewest => ?_, ?_⟩
  · have hlt := htold.below stats ((held_iff_of_agree h.stats stats).mp hstats)
    rw [List.length_append, List.length_singleton]
    omega
  · rcases h.tally previous (hnewest.congr h.stats.symm) with ⟨totals, htally⟩
    have hsame := htally.still (by simpa using mt htally.changed.mp hstill)
    exact hsame ▸ htally.recount
  · rw [exists_congr (held_iff_of_agree h.stats), htold.moved, ops_snoc]
    constructor
    · rintro ⟨p, hp, hmoves⟩
      exact ⟨p, List.mem_append_left _ hp, hmoves⟩
    · rintro ⟨p, hp, hmoves⟩
      rcases List.mem_append.mp hp with hp | hp
      · exact ⟨p, hp, hmoves⟩
      · exact absurd ⟨p, hp, hmoves⟩ hstill

/-- The statistics of a block are written, and are taken back. -/
theorem runs_statistics :
    Runs MemoryStore.WF False
      (fun _ after => StatsTold (chain ++ [block]) after ∧
        Reverts nodeModels (MasternodeStats.discard block) after t)
      (Indexer.masternodeStats.hook .apply .blockEnd block) t := by
  have hfree := (h.stats (model MasternodeStats) (by simp) _).trans (htold.free_last hcountable)
  rw [masternodeStats_apply]
  refine runs_bind (runs_ofBlock htold hcountable h hwf) ?_
  rintro totals behind hbehind ⟨rfl, previous, _, htally⟩
  by_cases hchanged : totals.changed = true
  · rw [if_pos hchanged]
    refine (MasternodeStats.runs_storeStats hbehind hfree).mono ?_
    rintro _ after - rfl
    exact ⟨htold.written hcountable h htally hchanged,
      MasternodeStats.reverts_storeStats rfl rfl hfree⟩
  · rw [if_neg hchanged]
    exact runs_pure hbehind ⟨htold.still h (mt htally.changed.mpr hchanged),
      MasternodeStats.reverts_noStats hfree⟩

end

/-! ## Blocks -/

/-- Ahead of its statistics a block keeps what holds of masternodes, and is taken back. -/
theorem runs_applyAhead_stats (symbol : String) (htold : StatsTold chain base)
    (hcountable : Chain.Countable (chain ++ [block])) (hwf : base.WF) :
    Runs MemoryStore.WF True
      (fun _ behind => StatsMidway chain base block.ops behind ∧
        Reverts nodeModels (Registry.undoAhead symbol block) behind base)
      (Registry.applyAhead symbol block) base := by
  have hstep : ∀ init tx op rest before, block.ops = init ++ (tx, op) :: rest → before.WF →
      StatsMidway chain base init before →
      Runs MemoryStore.WF True
        (fun _ behind => StatsMidway chain base (init ++ [(tx, op)]) behind ∧
          Reverts nodeModels
            ((Indexer.ofTag symbol op.tag).hook .undo (.transaction tx op) block) behind before)
        ((Indexer.ofTag symbol op.tag).hook .apply (.transaction tx op) block) before :=
    fun _ _ _ _ _ hops hbefore hmidway =>
      (runs_nodeStep hmidway.nodes hbefore symbol (hcountable.free hops)
        (hcountable.unresigned hops)).mono
        fun _ _ _ hstep => ⟨hmidway.step hstep.1, hstep.2⟩
  exact runs_applyAhead_reverts symbol (by decide)
    (fun _ _ _ hbefore _ hagree => hbefore.congr hagree) hstep hwf htold.start

/-- The next block keeps what holds of statistics, and is taken back. -/
theorem runs_applyBlock_stats (symbol : String) (htold : StatsTold chain base)
    (hcountable : Chain.Countable (chain ++ [block])) (hwf : base.WF) :
    Runs MemoryStore.WF True
      (fun _ after => StatsTold (chain ++ [block]) after ∧
        Reverts nodeModels ((Registry.standard symbol).undoBlock block) after base)
      ((Registry.standard symbol).applyBlock block) base := by
  rw [Registry.applyBlock_ahead, Registry.undoBlock_ahead]
  refine runs_bind (runs_applyAhead_stats symbol htold hcountable hwf)
    fun _ behind hbehind hahead => ?_
  exact ((runs_statistics htold hcountable hahead.1 hbehind).mono fun _ after _ hafter =>
    ⟨hafter.1, hafter.2.seq hahead.2⟩).weaken (fun _ hmid => hmid) False.elim

end

/-! ## Agreement -/

/-- Statistics and masternodes say the same: there are no statistics exactly if no block of the
    chain has created or resigned a masternode, and if there are any then those at the greatest
    height count the masternodes that are not resigned, and add up what these lock. -/
structure StatsRecounted (chain : List Block) (t : MemoryStore) : Prop where
  nodes : Typed Masternode t
  stats : Typed MasternodeStats t
  none_iff : (∀ stats : MasternodeStats, ¬ Held t stats) ↔
    ∀ block ∈ chain, ∀ p ∈ block.ops, ¬ p.2.Moves
  newest : (∃ stats : MasternodeStats, Held t stats) →
    ∃ stats, MasternodeStats.Newest t (some stats)
  recount : ∀ stats, MasternodeStats.Newest t (some stats) →
    stats.count.toNat = (Masternode.enabled t).length ∧
      stats.tvl.toNat = ((Masternode.enabled t).map fun node => node.collateral.toNat).sum

/-- When the next block is applied to a store, and all is done but the statistics, then its
    totals are found, neither is below zero nor too large for the word that it is kept in, and
    the hook that writes them ends without an error. -/
def CountsNext (symbol : String) (t : MemoryStore) (block : Block) : Prop :=
  ∀ behind, (Registry.applyAhead symbol block).run World.answer ⟨t, ⟨[], []⟩, 0⟩
      = (.ok (), ⟨behind, ⟨[], []⟩, 0⟩) →
    (∃ totals, (MasternodeTotals.ofBlock block).run World.answer ⟨behind, ⟨[], []⟩, 0⟩
        = (.ok totals, ⟨behind, ⟨[], []⟩, 0⟩) ∧ 0 ≤ totals.count ∧ 0 ≤ totals.tvl ∧
      ((totals.toStats block).count.toNat : Int) = totals.count ∧
      ((totals.toStats block).tvl.toNat : Int) = totals.tvl) ∧
    ((Indexer.masternodeStats.hook .apply .blockEnd block).run World.answer
      ⟨behind, ⟨[], []⟩, 0⟩).1 = .ok ()

section

variable {chain : List Block} {t : MemoryStore}

theorem StatsTold.recounted (h : StatsTold chain t) (hwf : t.WF) : StatsRecounted chain t where
  nodes := h.nodes.typed
  stats := h.typed
  none_iff := by
    rw [← not_exists, h.moved]
    constructor
    · exact fun hno block hblock p hp hmoves =>
        hno ⟨p, List.mem_flatMap.mpr ⟨block, hblock, hp⟩, hmoves⟩
    · rintro hno ⟨p, hp, hmoves⟩
      rcases List.mem_flatMap.mp hp with ⟨block, hblock, hp⟩
      exact hno block hblock p hp hmoves
  newest hsome := by
    rcases MasternodeStats.exists_newest hwf h.typed with ⟨_ | stats, hnewest⟩
    · exact absurd hsome (not_exists.mpr hnewest)
    · exact ⟨stats, hnewest⟩
  recount stats hnewest := by
    have hrecount := h.recount (some stats) hnewest
    exact ⟨Int.ofNat_inj.mp hrecount.count, Int.ofNat_inj.mp hrecount.tvl⟩

theorem StatsTold.counts (symbol : String) (h : StatsTold chain t) (hwf : t.WF) {block : Block}
    (hcountable : Chain.Countable (chain ++ [block])) : CountsNext symbol t block := by
  intro behind hrun
  rcases (runs_applyAhead_stats symbol h hcountable hwf).post_of_run hrun with
    ⟨hbehind, hmidway, _⟩
  rcases (runs_ofBlock h hcountable hmidway hbehind).ends ⟨[], []⟩ 0 with
    ⟨totals, last, htotals, _, rfl, previous, _, htally⟩
  rcases (runs_statistics h hcountable hmidway hbehind).ends ⟨[], []⟩ 0 with
    ⟨_, after, hafter, _⟩
  have hnodes : NodesFrom (ops (chain ++ [block])) last := ops_snoc chain block ▸ hmidway.nodes
  have hexact := htally.recount.exact hnodes hcountable.few hcountable.light block
  refine ⟨⟨totals, htotals, ?_, ?_, hexact⟩, by rw [hafter]⟩
  · rw [← hexact.1]
    exact Int.natCast_nonneg _
  · rw [← hexact.2]
    exact Int.natCast_nonneg _

end

/-- However a store was rolled forward and back, its statistics are a recount, and whatever
    block is next, its own will be written as they are counted. -/
theorem rolled_statistics_recount (symbol : String) {chain : List Block} {t : MemoryStore}
    (h : Rolled symbol Chain.Countable chain t) :
    StatsRecounted chain t ∧
      ∀ block, Chain.Countable (chain ++ [block]) → CountsNext symbol t block := by
  have htold : t.WF ∧ StatsTold chain t :=
    h.holds statsTold_empty (fun hbefore _ hagree => hbefore.congr hagree)
      fun hcountable hwf hbefore => runs_applyBlock_stats symbol hbefore hcountable hwf
  exact ⟨htold.2.recounted htold.1, fun block hcountable =>
    htold.2.counts symbol htold.1 hcountable⟩

/-- A transaction that creates a masternode, which locks an amount. -/
def Transaction.enlisting (txid : String) (amount : FiniteFloat) : Transaction :=
  { Transaction.carrying txid .createMasternode [] with
    outputs := [default, { (default : Output) with value := amount }] }

/-- A transaction that resigns one. -/
def Transaction.retiring (txid node : String) : Transaction :=
  .carrying txid .resignMasternode [("nodeId", .string node)]

namespace Enlisted

/-- A masternode is created. -/
def first : Block := .holding "a" "" 0 [.enlisting "m" ⟨20000.5, by decide⟩]

/-- Another one is, and the first is resigned. -/
def second : Block :=
  .holding "b" "a" 1 [.enlisting "n" ⟨10000.25, by decide⟩, .retiring "r" "m"]

/-- A third one is created and resigned, and so is the second. -/
def third : Block :=
  .holding "c" "b" 2
    [.enlisting "p" ⟨7.125, by decide⟩, .retiring "s" "p", .retiring "t" "n"]

/-- The store when a block has been applied. -/
def forward (store : MemoryStore) (block : Block) : MemoryStore :=
  ((Registry.standard "DFI").applyBlock block).leaves store

/-- The store when all three blocks have been applied. -/
def ahead : MemoryStore := forward (forward (forward .empty first) second) third

/-- The store when the last one has been undone. -/
def behind : MemoryStore := ((Registry.standard "DFI").undoBlock third).leaves ahead

theorem countable : ∀ chain ∈ [[first], [first, second], [first, second, third]],
    Chain.Countable chain := by
  have htidy : ∀ chain ∈ [[first], [first, second], [first, second, third]],
      (chain.map fun block => block.height.toNat) = List.range chain.length ∧
        (txids chain).Nodup ∧ ∀ txid ∈ txids chain, Text.DashFree txid := by decide +kernel
  have hcounted : ∀ chain ∈ [[first], [first, second], [first, second, third]],
      (resignedBy (Chain.ops chain)).Nodup ∧
        (lockedBy (Chain.ops chain)).length < UInt32.size ∧
        ((lockedBy (Chain.ops chain)).map UInt64.toNat).sum < UInt64.size := by decide +kernel
  intro chain hchain
  rcases htidy chain hchain with ⟨hheights, hdistinct, hdash⟩
  rcases hcounted chain hchain with ⟨honce, hfew, hlight⟩
  exact ⟨⟨numbered_of_map hheights, hdistinct, hdash⟩, honce, hfew, hlight⟩

theorem rolled : Rolled "DFI" Chain.Countable [first, second] behind := by
  have hfirst : Rolled "DFI" Chain.Countable ([] ++ [first]) (forward .empty first) :=
    .forward .start (countable _ (by simp)) (Program.run_of_ok (by decide +kernel))
  have hsecond : Rolled "DFI" Chain.Countable ([first] ++ [second])
      (forward (forward .empty first) second) :=
    .forward hfirst (countable _ (by simp)) (Program.run_of_ok (by decide +kernel))
  have hthird : Rolled "DFI" Chain.Countable ([first, second] ++ [third]) ahead :=
    .forward hsecond (countable _ (by simp)) (Program.run_of_ok (by decide +kernel))
  exact .back hthird (Program.run_of_ok (by decide +kernel))

end Enlisted

open Enlisted in
/-- When the block with three changes has been undone, its statistics are gone, and those of the
    block below it count the one masternode that is not resigned. -/
theorem rolled_statistics_recount_enlisted :
    behind.find (model MasternodeStats) "2" = none ∧ StatsRecounted [first, second] behind ∧
    (∃ stats, MasternodeStats.Newest behind (some stats) ∧ stats.count.toNat = 1 ∧
      stats.tvl.toNat = 1000025000000) ∧
    CountsNext "DFI" behind third := by
  rcases rolled_statistics_recount "DFI" rolled with ⟨hrecounted, hnext⟩
  -- The first block creates a masternode, so there are statistics.
  have hsome : ∃ stats : MasternodeStats, Held behind stats := by
    by_contra hnone
    exact hrecounted.none_iff.mp (not_exists.mp hnone) first (by simp) _ List.mem_cons_self
      (Or.inl rfl)
  rcases hrecounted.newest hsome with ⟨stats, hnewest⟩
  have hcounted : (Masternode.enabled behind).length = 1 ∧
      ((Masternode.enabled behind).map fun node => node.collateral.toNat).sum
        = 1000025000000 := by decide +kernel
  rcases hrecounted.recount stats hnewest with ⟨hcount, htvl⟩
  exact ⟨by decide +kernel, hrecounted,
    ⟨stats, hnewest, hcount.trans hcounted.1, htvl.trans hcounted.2⟩,
    hnext third (countable _ (by simp))⟩

end ChainIndex
