import ChainIndex.Proofs.Chain.Interrupted
import ChainIndex.Proofs.Chain.Newest
import ChainIndex.Proofs.Indexer.Resignations

/-!
# Undoing gives masternodes back but for earlier resignations

A block that was applied can be undone. All that undoing looks for was there when the operation
in question was applied: its payload could be read, the masternode that it resigns was found,
and so was the oracle that it updates or removes. An oracle is never written without a snapshot,
and snapshots are not written over, since the ids of transactions are not shared. So one is
left to bring the oracle back from, and it is of an operation ahead, which is not undone yet.

What comes of masternodes is then a matter of `NodesNear`. The statistics of the block are
taken back whatever they are.

Nothing is assumed of how often a masternode is resigned. One that is resigned although it was
resigned before is found and gets the new resignation, but undoing clears it. This is the only
way in which undoing does not give masternodes back.

## Main definitions

* `Portrayed`: A store keeps the snapshots, and has one of every oracle.
* `Backed`: An operation has found what undoing it will look for.
* `PartlyApplied`: What is so while a block is applied.
* `Rooted`: What is so of a store of a chain.
* `Revocable`: What is so of a store when a block has been applied.

## Theorems

* `runs_applyBlock_rooted`, `Indexed.rooted`: Blocks along a chain.
* `Revocable.retractable`: The block can be undone.
* `runs_undo_nodes`: What undoing leaves of masternodes and statistics.
* `undo_gives_masternodes_back_iff`: When all masternodes are given back.
* `undo_forgets_resignation`: A second resignation that is undone.
-/

namespace ChainIndex

open Entity Program MemoryStore Chain

/-- A store keeps these snapshots, in place of those with the same keys, and it has no oracle
    without a snapshot. -/
structure Portrayed (snapshots : List OracleSnapshot) (t : MemoryStore) : Prop where
  kept : SnapshotsKept (snapshots.foldl upserted []) t
  shown : ∀ id, t.find (model Oracle) id ≠ none → ∃ s ∈ snapshots, s.oracleId = id

/-- An operation has found what undoing it will look for: with these snapshots in the store,
    when the operations `ahead` of it were done. -/
structure Backed (base : MemoryStore) (snapshots : List OracleSnapshot)
    (ahead : List (Transaction × DecodedOp)) (op : DecodedOp) : Prop where
  readable : op.Readable
  oracle : ∀ id, op.restored = some id → ∃ s ∈ snapshots, s.oracleId = id
  node : ∀ id, op.resigned = some id →
    base.find (model Masternode) id ≠ none ∨ ErasesNode ahead id

/-- The operations that are done have found what undoing them will look for. -/
def AllBacked (chain : List Block) (block : Block) (base : MemoryStore)
    (done : List (Transaction × DecodedOp)) : Prop :=
  ∀ ahead p behind, done = ahead ++ p :: behind →
    Backed base (snapshots chain ++ ahead.filterMap block.snapshotOf) ahead p.2

/-- While a block is applied to a store of a chain, when some operations are done. -/
structure PartlyApplied (chain : List Block) (block : Block) (base : MemoryStore)
    (done : List (Transaction × DecodedOp)) (t : MemoryStore) : Prop where
  nodes : NodesNear base done (resignedBy done) [] t
  stats : t.Agree [model MasternodeStats] base
  portrayed : Portrayed (snapshots chain ++ done.filterMap block.snapshotOf) t
  backed : AllBacked chain block base done

/-- What is so of a store of a chain: what it has of masternodes, statistics and oracles comes
    from the chain. -/
structure Rooted (chain : List Block) (t : MemoryStore) : Prop where
  legible : t.Legible
  portrayed : Portrayed (snapshots chain) t
  nodes : ∀ id, t.find (model Masternode) id ≠ none → id ∈ txids chain
  stats : ∀ k, t.find (model MasternodeStats) k ≠ none →
    ∃ block ∈ chain, k = MasternodeStats.keyAt block.height

/-- When a block has been applied to `base`: undoing its operations will find what it looks for,
    and discarding its statistics leaves the rest to them. -/
structure Revocable (chain : List Block) (block : Block) (base after : MemoryStore) : Prop where
  nodes : NodesNear base block.ops (resignedBy block.ops) [] after
  backed : AllBacked chain block base block.ops
  discard : Runs MemoryStore.WF True
    (fun _ behind => NodesNear base block.ops (resignedBy block.ops) [] behind ∧
      behind.Agree [model MasternodeStats] base)
    (MasternodeStats.discard block) after

section

variable {chain : List Block} {block : Block} {base t after : MemoryStore}
variable {init rest : List (Transaction × DecodedOp)} {tx : Transaction} {op : DecodedOp}
variable {items : List OracleSnapshot}

/-! ## What operations find -/

/-- What cannot be read is an error. -/
theorem runs_unreadable {α : Type} {read : Json.Reader α} {f : α → Program Unit}
    {post : Unit → MemoryStore → Prop} (hread : ¬ ∃ data, read op.payload = .ok data)
    (hwf : t.WF) :
    Runs MemoryStore.WF True post (Program.ofExcept (decodePayload read tx op) >>= f) t :=
  runs_bind (q := fun _ _ => False)
    (runs_ofExcept hwf (fun data hdata => hread ⟨data, read_of_decode hdata⟩) fun _ _ => trivial)
    fun _ _ _ hnever => hnever.elim

/-- An operation that is applied can be read. -/
theorem runs_readable (symbol : String) (hwf : t.WF) :
    Runs MemoryStore.WF True (fun _ _ => op.Readable)
      ((Indexer.ofTag symbol op.tag).hook .apply (.transaction tx op) block) t := by
  by_cases hreadable : op.Readable
  · exact ((makes_operation_of_tag symbol block tx op .apply).runs_outside hwf).mono
      fun _ _ _ _ => hreadable
  · revert hreadable
    rw [DecodedOp.Readable]
    cases op.tag with
    | createToken | createMasternode => exact fun hreadable => absurd trivial hreadable
    | _ => exact fun hreadable => runs_unreadable hreadable hwf

theorem Portrayed.congr (h : Portrayed items t) (hagree : after.Agree oracleModels t) :
    Portrayed items after where
  kept := h.kept.congr (hagree _ (by simp [oracleModels]))
  shown id hid := h.shown id (hagree (model Oracle) (by simp [oracleModels]) id ▸ hid)

/-- An operation leaves a snapshot of the oracle that it writes. -/
theorem Portrayed.step (h : Portrayed items t) (hstep : OracleStep block tx op t after) :
    Portrayed (items ++ (block.snapshotOf (tx, op)).toList) after where
  kept := by
    rw [List.foldl_append]
    exact hstep.snapshotsKept h.kept
  shown id hid := by
    have hbefore : t.find (model Oracle) id ≠ none →
        ∃ s ∈ items ++ (block.snapshotOf (tx, op)).toList, s.oracleId = id := fun hfound => by
      rcases h.shown id hfound with ⟨s, hs, hsid⟩
      exact ⟨s, List.mem_append_left _ hs, hsid⟩
    cases hstep with
    | @wrote oracle former order hwritten horder =>
        rw [find_written_oracle] at hid
        split at hid
        · next heq =>
          rw [Block.snapshotOf_eq_some.mpr ⟨_, _, hwritten, orderOf?_of_orderIn horder, rfl⟩]
          exact ⟨_, List.mem_append_right _ (List.mem_singleton_self _), heq.symm⟩
        · exact hbefore hid
    | erased hwritten =>
        rw [find_erased_oracle] at hid
        split at hid
        · exact absurd rfl hid
        · exact hbefore hid
    | passed hwritten hagree =>
        exact hbefore (hagree (model Oracle) (by simp [oracleModels]) id ▸ hid)

/-- The last of the operations that are done has found what it looks for, like the others. -/
theorem AllBacked.snoc (h : AllBacked chain block base init)
    (hlast : Backed base (snapshots chain ++ init.filterMap block.snapshotOf) init op) :
    AllBacked chain block base (init ++ [(tx, op)]) := by
  intro ahead p behind hsplit
  rcases List.eq_nil_or_concat behind with rfl | ⟨front, q, rfl⟩
  · rcases List.append_inj' hsplit rfl with ⟨rfl, hp⟩
    rw [← List.singleton_inj.mp hp]
    exact hlast
  · rw [List.concat_eq_append, ← List.cons_append, ← List.append_assoc] at hsplit
    exact h ahead p front (List.append_inj' hsplit rfl).1

/-- Applying the next operation. -/
theorem PartlyApplied.runs_step (symbol : String) (h : PartlyApplied chain block base init t)
    (hwf : t.WF) :
    Runs MemoryStore.WF True
      (fun _ behind => PartlyApplied chain block base (init ++ [(tx, op)]) behind)
      ((Indexer.ofTag symbol op.tag).hook .apply (.transaction tx op) block) t := by
  have hstats := (makes_operation_of_tag symbol block tx op .apply).agrees
    (show ∀ m ∈ [model MasternodeStats], m ∉ op.tag.models by cases op.tag <;> decide) hwf
  refine ((h.nodes.runs_apply symbol hwf).and ((runs_oracleOp symbol hwf).and
    ((runs_readable symbol hwf).and hstats))).mono ?_
  rintro _ behind - ⟨⟨hnodes, hnode⟩, ⟨hstep, hfound⟩, hreadable, hagree⟩
  refine ⟨hnodes, hagree.trans h.stats, ?_, h.backed.snoc
    ⟨hreadable, fun id hid => h.portrayed.shown id (hfound id hid), hnode⟩⟩
  rw [filterMap_snoc, ← List.append_assoc]
  exact h.portrayed.step hstep

/-! ## Applying a block -/

/-- The models that are followed. -/
def revocableModels : List String := nodeModels ++ oracleModels

theorem agree_nodeModels (h : after.Agree revocableModels t) : after.Agree nodeModels t :=
  fun m hm => h m (List.mem_append_left _ hm)

theorem agree_oracles (h : after.Agree revocableModels t) : after.Agree oracleModels t :=
  fun m hm => h m (List.mem_append_right _ hm)

theorem PartlyApplied.congr (h : PartlyApplied chain block base init t)
    (hagree : after.Agree revocableModels t) : PartlyApplied chain block base init after where
  nodes := h.nodes.congr (agree_nodeModels hagree).nodes
  stats := (agree_nodeModels hagree).stats.trans h.stats
  portrayed := h.portrayed.congr (agree_oracles hagree)
  backed := h.backed

theorem Rooted.start (h : Rooted chain base) : PartlyApplied chain block base [] base where
  nodes := .start h.legible.nodes
  stats := .refl _ _
  portrayed := by
    rw [List.filterMap_nil, List.append_nil]
    exact h.portrayed
  backed ahead p behind hsplit := by simp at hsplit

/-- What a block does ahead of its statistics. -/
theorem runs_applyAhead_partly (symbol : String) (h : Rooted chain base) :
    Runs MemoryStore.WF True (fun _ behind => PartlyApplied chain block base block.ops behind)
      (Registry.applyAhead symbol block) base := by
  refine runs_bind ((makes_seedFirst symbol).agrees
    (by decide : ∀ m ∈ revocableModels, m ∉ [model Token]) h.legible.wf)
    fun _ seeded hseeded hagree => ?_
  refine runs_bind (makes_listing.agrees
    (by decide : ∀ m ∈ revocableModels, m ∉ chainModels) hseeded)
    fun _ listed hlisted hsame => ?_
  refine runs_bind (runs_forM (fun done _ behind => PartlyApplied chain block base done behind)
    block.ops hlisted (h.start.congr (hsame.trans hagree))
    fun _ _ _ _ _ hbefore hpartly => hpartly.runs_step symbol hbefore)
    fun _ operated hoperated hdone => ?_
  exact ((makes_aggregates block .apply).agrees
    (by decide : ∀ m ∈ revocableModels, m ∉ [model PriceAggregate]) hoperated).mono
    fun _ _ _ hkept => hdone.congr hkept

/-- A block writes nothing but whole records. -/
theorem runs_applyBlock_legible (symbol : String) (h : base.Legible) :
    Runs MemoryStore.WF True (fun _ behind => behind.Legible)
      ((Registry.standard symbol).applyBlock block) base := by
  have hmakes : Makes (Call.Within fun _ _ => True)
      ((Registry.standard symbol).applyBlock block) := by
    rw [Registry.applyBlock_standard]
    refine makes_bind ((makes_seed symbol block).mono fun _ hc => hc.mono fun _ _ _ => trivial)
      fun _ => makes_bind (makes_listing.mono fun _ hc => hc.mono fun _ _ _ => trivial) fun _ => ?_
    exact (makes_deriveBody symbol block).mono fun _ hc => hc.mono fun _ _ _ => trivial
  exact ((hmakes.runs_within h (.refl _ base)).mono fun _ _ hmid _ => hmid.1).weaken
    (fun _ hmid => hmid.1.wf) id

/-- What a store has after a block, with statistics of the block, comes from the chain with that
    block if what it had before comes from the chain. -/
theorem PartlyApplied.rooted {mid : MemoryStore} (h : PartlyApplied chain block base block.ops mid)
    (hbase : Rooted chain base) (hlegible : after.Legible)
    (hagree : after.Agree (model Masternode :: oracleModels) mid)
    (hothers : ∀ k, k ≠ MasternodeStats.keyAt block.height →
      after.find (model MasternodeStats) k = mid.find (model MasternodeStats) k) :
    Rooted (chain ++ [block]) after where
  legible := hlegible
  portrayed := by
    rw [snapshots, List.flatMap_append, List.flatMap_singleton]
    exact h.portrayed.congr fun m hm => hagree m (List.mem_cons_of_mem _ hm)
  nodes id hid := by
    rw [hagree _ List.mem_cons_self] at hid
    rw [txids_snoc, List.mem_append]
    by_contra hc
    rw [not_or] at hc
    -- What the block has not created was there before.
    refine hid (h.nodes.absent id ?_ ?_)
    · rintro ⟨q, hq, _, rfl⟩
      exact hc.2 (List.mem_map_of_mem (Block.mem_transactions_of_mem_ops hq))
    · by_contra hbefore
      exact hc.1 (hbase.nodes id hbefore)
  stats k hk := by
    by_cases hkey : k = MasternodeStats.keyAt block.height
    · exact ⟨block, List.mem_concat_self, hkey⟩
    · rw [hothers k hkey, h.stats _ (List.mem_singleton_self _)] at hk
      rcases hbase.stats k hk with ⟨other, hother, heq⟩
      exact ⟨other, List.mem_append_left _ hother, heq⟩

theorem PartlyApplied.revocable {mid : MemoryStore}
    (h : PartlyApplied chain block base block.ops mid) (hwf : after.WF)
    (hagree : after.Agree (model Masternode :: oracleModels) mid)
    (hreverts : Reverts nodeModels (MasternodeStats.discard block) after mid) :
    Revocable chain block base after where
  nodes := h.nodes.congr fun m hm => hagree m (by rw [List.mem_singleton.mp hm]; simp)
  backed := h.backed
  discard := (hreverts after hwf (.refl _ _)).mono fun _ _ _ hbehind =>
    ⟨h.nodes.congr hbehind.nodes, hbehind.stats.trans h.stats⟩

/-- A store of a chain has no statistics for a block on top of the chain. -/
theorem Rooted.stats_absent (h : Rooted chain base) (hchain : Ascending (chain ++ [block])) :
    base.find (model MasternodeStats) (MasternodeStats.keyAt block.height) = none := by
  by_contra hc
  rcases h.stats _ hc with ⟨other, hother, heq⟩
  have hlt := (List.pairwise_append.mp hchain.heights).2.2 other hother block
    (List.mem_singleton_self block)
  rw [MasternodeStats.keyAt_injective heq] at hlt
  exact UInt32.lt_irrefl _ hlt

/-- The next block leaves a store of the chain with that block, and one that it can be taken
    back from. -/
theorem runs_applyBlock_rooted (symbol : String) (h : Rooted chain base)
    (hchain : Ascending (chain ++ [block])) :
    Runs MemoryStore.WF True
      (fun _ after => Rooted (chain ++ [block]) after ∧ Revocable chain block base after)
      ((Registry.standard symbol).applyBlock block) base := by
  have hends : Runs MemoryStore.WF True
      (fun _ after => after.Legible →
        Rooted (chain ++ [block]) after ∧ Revocable chain block base after)
      ((Registry.standard symbol).applyBlock block) base := by
    rw [Registry.applyBlock_ahead]
    refine runs_bind (runs_applyAhead_partly symbol h) fun _ mid hmid hpartly => ?_
    have habsent := (hpartly.stats _ (by simp) _).trans (h.stats_absent hchain)
    refine ((runs_statistics_back hmid habsent).and
      ((makes_statistics block .apply).agrees (by decide :
        ∀ m ∈ model Masternode :: oracleModels, m ∉ [model MasternodeStats]) hmid)).mono ?_
    rintro _ after - ⟨⟨hothers, hreverts⟩, hagree⟩ hlegible
    exact ⟨hpartly.rooted h hlegible hagree hothers, hpartly.revocable hlegible.wf hagree hreverts⟩
  exact ((runs_applyBlock_legible symbol h.legible).and hends).mono
    fun _ _ _ hafter => hafter.2 hafter.1

theorem rooted_empty : Rooted [] .empty where
  legible := legible_empty
  portrayed := ⟨⟨by simp [Typed], by simp [Held, snapshots], by simp [snapshots]⟩, by simp⟩
  nodes := by simp
  stats := by simp

theorem Chain.Ascending.of_snoc (h : Ascending (chain ++ [block])) : Ascending chain where
  heights := (List.pairwise_append.mp h.heights).1
  distinct := by
    have hdistinct := h.distinct
    rw [txids_snoc, List.nodup_append] at hdistinct
    exact hdistinct.1
  dashFree txid hmem := h.dashFree txid (mem_txids_snoc hmem)
  fits other hother := h.fits other (List.mem_append_left _ hother)

/-- A store that a chain was indexed into. -/
theorem Chain.Indexed.rooted {symbol : String} (h : Indexed symbol chain t)
    (hchain : Ascending chain) : Rooted chain t := by
  induction h with
  | start => exact rooted_empty
  | next _ hrun ih =>
      have hbefore := ih hchain.of_snoc
      exact ((runs_applyBlock_rooted symbol hbefore hchain).post_of_run hrun).2.1

/-! ## Undoing it -/

/-- Of a snapshot that was written there is one with its key. -/
theorem exists_mem_upserted {a : OracleSnapshot} (h : a ∈ items) :
    ∃ b ∈ items.foldl upserted [], key b = key a := by
  induction items using List.reverseRecOn with
  | nil => exact absurd h List.not_mem_nil
  | append_singleton init b ih =>
      simp only [List.foldl_concat, mem_upserted]
      by_cases hkey : key a = key b
      · exact ⟨b, .inr rfl, hkey.symm⟩
      · rcases List.mem_append.mp h with hinit | hlast
        · rcases ih hinit with ⟨c, hc, hsame⟩
          exact ⟨c, .inl ⟨hc, hsame ▸ hkey⟩, hsame⟩
        · exact absurd (congrArg key (List.mem_singleton.mp hlast)) hkey

theorem Chain.Ascending.txid_not_mem (h : Ascending (chain ++ [block]))
    (htx : tx ∈ block.transactions) : tx.txid ∉ txids chain := by
  have hdistinct := h.distinct
  rw [txids_snoc, List.nodup_append] at hdistinct
  exact fun hmem => hdistinct.2.2 _ hmem _ (List.mem_map_of_mem htx) rfl

/-- What is there below the block is not created by its operations. -/
theorem Rooted.not_erased (h : Rooted chain base) (hchain : Ascending (chain ++ [block]))
    {id : String} (hid : base.find (model Masternode) id ≠ none)
    {ops : List (Transaction × DecodedOp)} (hops : ∀ q ∈ ops, q ∈ block.ops) :
    ¬ ErasesNode ops id := by
  rintro ⟨q, hq, _, rfl⟩
  exact hchain.txid_not_mem (Block.mem_transactions_of_mem_ops (hops q hq)) (h.nodes _ hid)

/-- A snapshot from ahead of an operation is not taken away by undoing the operation and those
    behind it. -/
theorem not_erased_of_ahead (hchain : Ascending (chain ++ [block])) {p : Transaction × DecodedOp}
    {ahead behind : List (Transaction × DecodedOp)} (hops : block.ops = ahead ++ p :: behind)
    {s : OracleSnapshot} (hs : s ∈ snapshots chain ++ ahead.filterMap block.snapshotOf)
    (hall : s ∈ snapshots (chain ++ [block])) : ¬ ErasesSnapshot block (p :: behind) s.id := by
  rintro ⟨q, hq, oracle, hwritten, hkey⟩
  have hmem : q ∈ block.ops := hops ▸ List.mem_append_right _ hq
  have htx := Block.mem_transactions_of_mem_ops hmem
  rcases Block.exists_orderOf? htx with ⟨order, horder⟩
  -- What goes is the snapshot of that operation, so it would have its transaction.
  have htxid : s.txid = q.1.txid := (hchain.ids_of_key hall (mem_snapshots.mpr
    ⟨block, List.mem_concat_self, q, hmem,
      Block.snapshotOf_eq_some.mpr ⟨oracle, order, hwritten, horder, rfl⟩⟩)
    (hkey.trans (written_id hwritten order).symm)).1
  rcases List.mem_append.mp hs with hbelow | hahead
  · rcases mem_snapshots.mp hbelow with ⟨other, hother, r, hr, hsome⟩
    rcases Block.snapshotOf_eq_some.mp hsome with ⟨_, _, _, _, rfl⟩
    exact hchain.txid_not_mem htx
      (htxid ▸ mem_txids hother (Block.mem_transactions_of_mem_ops hr))
  · rcases List.mem_filterMap.mp hahead with ⟨r, hr, hsome⟩
    rcases Block.snapshotOf_eq_some.mp hsome with ⟨_, _, _, _, rfl⟩
    rcases List.append_of_mem hq with ⟨front, back, hsplit⟩
    rw [hsplit, ← List.append_assoc] at hops
    exact Block.txid_ne_of_mem (hchain.regular List.mem_concat_self) hops
      (List.mem_append_left _ hr) htxid

/-- A block that was applied can be undone. -/
theorem Revocable.retractable (h : Revocable chain block base after) (hbase : Rooted chain base)
    (hafter : Rooted (chain ++ [block]) after) (hchain : Ascending (chain ++ [block])) :
    Retractable after block := by
  intro ahead p behind hops
  have hbacked := h.backed ahead p behind hops
  refine ⟨hbacked.readable, fun id hid => .inl ?_, fun id hid => ?_⟩
  · rcases hbacked.oracle id hid with ⟨s, hs, rfl⟩
    have hall : s ∈ snapshots (chain ++ [block]) := by
      rw [snapshots, List.flatMap_append, List.flatMap_singleton, hops, List.filterMap_append,
        ← List.append_assoc]
      exact List.mem_append_left _ hs
    -- What is left under its key is of the same oracle.
    rcases exists_mem_upserted hall with ⟨left, hleft, hkey⟩
    refine ⟨left, (hchain.ids_of_key (mem_of_mem_upserted hleft) hall hkey).2,
      (hafter.portrayed.kept.held left trivial).mpr hleft, ?_⟩
    rw [show left.id = s.id from hkey]
    exact not_erased_of_ahead hchain hops hs hall
  · rcases hbacked.node id hid with hbefore | ⟨q, hq, htag, rfl⟩
    · rcases Option.ne_none_iff_exists'.mp hbefore with ⟨found, hfound⟩
      rcases hbase.legible.nodes.exists_held hfound with ⟨node, rfl, rfl, hnode⟩
      rcases h.nodes.near node hnode (hbase.not_erased hchain hbefore fun _ hq => hq) with
        ⟨now, hnow, hsame, _⟩
      refine .inl ⟨?_, hbase.not_erased hchain hbefore fun q hq =>
        hops ▸ List.mem_append_right _ (List.mem_cons_of_mem _ hq)⟩
      rw [show key node = key now from (id_of_unresigned hsame).symm,
        show after.find (model Masternode) (key now) = _ from hnow]
      simp
    · exact .inr (Block.createsBefore_of_mem (hchain.regular List.mem_concat_self) hops hq htag rfl)

/-- The last operation that is still pending is undone. -/
theorem runs_undo_pending (symbol : String) {done : List (Transaction × DecodedOp)}
    (h : NodesNear base (init ++ [(tx, op)]) (resignedBy block.ops) (resignedBy done) t)
    (hstats : t.Agree [model MasternodeStats] base) (hbase : Rooted chain base)
    (hchain : Ascending (chain ++ [block])) (hmem : (tx, op) ∈ block.ops) (hwf : t.WF) :
    Runs MemoryStore.WF True
      (fun _ behind =>
        NodesNear base init (resignedBy block.ops) (resignedBy ((tx, op) :: done)) behind ∧
          behind.Agree [model MasternodeStats] base)
      ((Indexer.ofTag symbol op.tag).hook .undo (.transaction tx op) block) t := by
  have hfree : base.find (model Masternode) tx.txid = none := by
    by_contra hc
    exact hchain.txid_not_mem (Block.mem_transactions_of_mem_ops hmem) (hbase.nodes _ hc)
  refine ((h.runs_undo symbol hwf hfree fun id hid => mem_resignedBy.mpr ⟨(tx, op), hmem, hid⟩).and
    ((makes_operation_of_tag symbol block tx op .undo).agrees (show
      ∀ m ∈ [model MasternodeStats], m ∉ op.tag.models by cases op.tag <;> decide) hwf)).mono ?_
  rintro _ behind - ⟨hbehind, hkept⟩
  refine ⟨?_, hkept.trans hstats⟩
  cases hresigned : op.resigned with
  | none => simpa [resignedBy, hresigned] using hbehind
  | some id => simpa [resignedBy, hresigned] using hbehind

/-- What undoing leaves of masternodes and statistics. -/
theorem runs_undo_nodes (symbol : String) (h : Revocable chain block base after)
    (hbase : Rooted chain base) (hchain : Ascending (chain ++ [block])) :
    Runs MemoryStore.WF True
      (fun _ behind => NodesNear base [] (resignedBy block.ops) (resignedBy block.ops) behind ∧
        behind.Agree [model MasternodeStats] base)
      ((Registry.standard symbol).undoBlock block) after := by
  rw [Registry.undoBlock_ahead, Registry.undoAhead]
  refine runs_bind h.discard fun _ behind hbehind hnear => ?_
  refine runs_bind ((makes_aggregates block .undo).agrees
    (by decide : ∀ m ∈ nodeModels, m ∉ [model PriceAggregate]) hbehind) fun _ w hw hagree => ?_
  -- The operations, from the last. Those that are left are still pending.
  refine runs_bind (runs_forM (fun done rest t =>
    NodesNear base rest.reverse (resignedBy block.ops) (resignedBy done.reverse) t ∧
      t.Agree [model MasternodeStats] base) block.ops.reverse hw
    ⟨by rw [List.reverse_reverse]; exact hnear.1.congr hagree.nodes,
      hagree.stats.trans hnear.2⟩ ?_) ?_
  · rintro done ⟨tx, op⟩ rest t hitems ht ⟨hnodes, hstats⟩
    rw [List.reverse_cons] at hnodes
    rw [List.reverse_append, List.reverse_singleton, List.singleton_append]
    exact runs_undo_pending symbol hnodes hstats hbase hchain
      (List.mem_reverse.mp (hitems ▸ List.mem_append_right _ List.mem_cons_self)) ht
  · rintro _ t ht ⟨hnodes, hstats⟩
    rw [List.reverse_reverse] at hnodes
    refine runs_bind (makes_unlisting.agrees
      (by decide : ∀ m ∈ nodeModels, m ∉ chainModels) ht) fun _ unlisted hunlisted hsame => ?_
    exact (makes_unseedFirst.agrees
      (by decide : ∀ m ∈ nodeModels, m ∉ [model Token]) hunlisted).mono fun _ _ _ hlast =>
        ⟨hnodes.congr (hlast.trans hsame).nodes, (hlast.trans hsame).stats.trans hstats⟩

/-- That none of the masternodes that a block resigns is resigned already, in terms of the
    masternodes that are there. -/
theorem resignsUnresigned_iff (h : Typed Masternode base) : ResignsUnresigned base block ↔
    ∀ node : Masternode, Held base node → node.id ∈ resignedBy block.ops →
      node.unresigned = node := by
  constructor
  · intro hresigns node hnode hmem
    rcases mem_resignedBy.mp hmem with ⟨q, hq, hid⟩
    exact node.unresigned_eq_iff.mpr (hresigns q hq _ hid node hnode)
  · intro hall p hp id hid node hnode
    rcases h.exists_held hnode with ⟨held, heq, rfl, hheld⟩
    rw [stored_injective heq]
    exact held.unresigned_eq_iff.mp (hall held hheld (mem_resignedBy.mpr ⟨p, hp, hid⟩))

end

/-- **Undoing gives masternodes back but for earlier resignations.** Take a store that a chain
    was indexed into, and a next block that is applied to it without an error. Undoing the block
    then ends without an error. All statistics are as they were before the block, and so are all
    masternodes, but that those which the block resigns are not resigned. So they are all given
    back exactly if the block resigns none that was resigned already. -/
theorem undo_gives_masternodes_back_iff {symbol : String} {chain : List Block} {block : Block}
    {before after : MemoryStore} (h : Indexed symbol chain before)
    (hchain : Ascending (chain ++ [block]))
    (hrun : ((Registry.standard symbol).applyBlock block).run World.answer ⟨before, ⟨[], []⟩, 0⟩
      = (.ok (), ⟨after, ⟨[], []⟩, 0⟩)) :
    ∃ behind, ((Registry.standard symbol).undoBlock block).run World.answer ⟨after, ⟨[], []⟩, 0⟩
        = (.ok (), ⟨behind, ⟨[], []⟩, 0⟩) ∧
      behind.Agree [model MasternodeStats] before ∧
      (∀ node : Masternode, Held behind node ↔ ∃ was : Masternode, Held before was ∧
        node = if was.id ∈ resignedBy block.ops then was.unresigned else was) ∧
      (behind.Agree [model Masternode] before ↔ ResignsUnresigned before block) := by
  have hbefore := h.rooted hchain.of_snoc
  rcases (runs_applyBlock_rooted symbol hbefore hchain).post_of_run hrun with
    ⟨_, hafter, hrevocable⟩
  have hretractable := hrevocable.retractable hbefore hafter hchain
  -- It does not fail, so what it leaves if it ends is what it leaves.
  have hends := ((runs_retractStandard symbol (Remains.self hafter.legible)).weaken
    (fun _ hmid => hmid) fun hnot => hnot hretractable).and
      (runs_undo_nodes symbol hrevocable hbefore hchain)
  rcases hends.ends ⟨[], []⟩ 0 with ⟨_, behind, hundone, _, _, hnodes, hstats⟩
  exact ⟨behind, hundone, hstats, fun node => hnodes.held_iff hbefore.legible.nodes,
    (hnodes.agree_iff hbefore.legible.nodes).trans
      (resignsUnresigned_iff hbefore.legible.nodes).symm⟩

/-! A masternode is created, resigned, and resigned again. -/

namespace Resigning

/-- The masternode is created. -/
def creation : Block :=
  .holding "a" "" 0
    [{ Transaction.carrying "m" .createMasternode [] with outputs := [default, default] }]

/-- It is resigned. -/
def first : Block :=
  .holding "b" "a" 1 [.carrying "r" .resignMasternode [("nodeId", .string "m")]]

/-- It is resigned again. -/
def second : Block :=
  .holding "c" "b" 2 [.carrying "s" .resignMasternode [("nodeId", .string "m")]]

/-- The masternode as it is created. -/
def node : Masternode where
  id := "m"
  ownerScript := ""
  operatorAddress := ""
  creationHeight := 0
  resignHeight := none
  resignTx := none
  collateral := 0
  block := creation.ref

/-- The store with the masternode. -/
def created : MemoryStore :=
  ((Registry.standard "DFI").applyBlock creation).leaves .empty

/-- The store when it is resigned. -/
def resigned : MemoryStore :=
  ((Registry.standard "DFI").applyBlock first).leaves created

/-- The store when it is resigned again. -/
def resignedAgain : MemoryStore :=
  ((Registry.standard "DFI").applyBlock second).leaves resigned

/-- The store when the second resignation is undone. -/
def behind : MemoryStore :=
  ((Registry.standard "DFI").undoBlock second).leaves resignedAgain

theorem ascending : Ascending ([creation, first] ++ [second]) :=
  ⟨by decide, by decide, by decide, by decide⟩

theorem indexed_creation : Indexed "DFI" [creation] created :=
  .next .start (Program.run_of_ok (by decide +kernel))

theorem applied_first : ((Registry.standard "DFI").applyBlock first).run World.answer
    ⟨created, ⟨[], []⟩, 0⟩ = (.ok (), ⟨resigned, ⟨[], []⟩, 0⟩) :=
  Program.run_of_ok (by decide +kernel)

theorem held_created : created.find (model Masternode) "m" = some (stored node) := by
  decide +kernel

end Resigning

open Resigning in
/-- The first resignation is undone, and the masternode is what it was. -/
theorem undo_gives_masternodes_back_iff_first :
    (Indexed "DFI" [creation] created ∧ Ascending ([creation] ++ [first])) ∧
    ∃ behind, ((Registry.standard "DFI").undoBlock first).run World.answer
        ⟨resigned, ⟨[], []⟩, 0⟩ = (.ok (), ⟨behind, ⟨[], []⟩, 0⟩) ∧
      behind.Agree [model MasternodeStats] created ∧ behind.Agree [model Masternode] created := by
  have hchain : Ascending ([creation] ++ [first]) := ascending.of_snoc
  have hresigned : ∀ p ∈ first.ops, p.2.resigned = some "m" := by decide +kernel
  have hresigns : ResignsUnresigned created first := by
    intro p hp id hid other hother
    obtain rfl := Option.some.inj ((hresigned p hp).symm.trans hid)
    rw [held_created, Option.some.injEq] at hother
    rw [← stored_injective hother]
    exact ⟨rfl, rfl⟩
  rcases undo_gives_masternodes_back_iff indexed_creation hchain applied_first with
    ⟨behind, hundone, hstats, _, hiff⟩
  exact ⟨⟨indexed_creation, hchain⟩, behind, hundone, hstats, hiff.mpr hresigns⟩

open Resigning in
/-- The second resignation is undone, and the first one is gone. -/
theorem undo_forgets_resignation :
    Ascending ([creation, first] ++ [second]) ∧ Indexed "DFI" [creation, first] resigned ∧
      ((Registry.standard "DFI").applyBlock second).run World.answer ⟨resigned, ⟨[], []⟩, 0⟩
        = (.ok (), ⟨resignedAgain, ⟨[], []⟩, 0⟩) ∧
      ((Registry.standard "DFI").undoBlock second).run World.answer ⟨resignedAgain, ⟨[], []⟩, 0⟩
        = (.ok (), ⟨behind, ⟨[], []⟩, 0⟩) ∧
      Held resigned { node with resignHeight := some 1, resignTx := some "r" } ∧
      Held behind node ∧ ¬ behind.Agree [model Masternode] resigned := by
  have hbefore : Held resigned { node with resignHeight := some 1, resignTx := some "r" } := by
    rw [Held]
    decide +kernel
  have hbehind : Held behind node := by
    rw [Held]
    decide +kernel
  have hindexed : Indexed "DFI" ([creation] ++ [first]) resigned :=
    .next indexed_creation applied_first
  refine ⟨ascending, hindexed, Program.run_of_ok (by decide +kernel),
    Program.run_of_ok (by decide +kernel), hbefore, hbehind, fun hagree => ?_⟩
  have hsame := hbefore.eq_of_key
    ((held_congr (hagree _ (List.mem_singleton_self _)) _).mp hbehind) rfl
  exact absurd (congrArg Masternode.resignTx hsame) (by decide)

end ChainIndex
