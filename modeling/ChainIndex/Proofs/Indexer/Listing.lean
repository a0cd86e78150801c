import ChainIndex.Proofs.Entity.Pages
import ChainIndex.Proofs.Indexer.Derived
import ChainIndex.Proofs.Indexer.Schedule
import Mathlib.Algebra.GroupWithZero.Nat

/-!
# Listing the transactions of a block

At the start of a block its transactions and their outputs are put, one after another. If
nothing of the block is in the store and no two of its transactions have one id, none of the
puts takes the place of anything but an output of the same transaction with the same number.
So what was held is held still, and what is new stands in the partitions of the block and of
its transactions, where nothing was before.

The order in which they are read is that of the sort keys, whatever the order of the puts
was. For transactions it is that of their positions, as these are less than what a sort key
has room for. For outputs it is that of their numbers.

## Main definitions

* `Block.listing`: What is put for the transactions of a block.
* `Block.NewTo`: Nothing of a block is in a store.
* `Block.Fills`: The partitions of a block and of its transactions.
* `ListsBlock`: What is read from a store in which a block was listed.

## Theorems

* `hook_eq_listing`: The hook puts the listing of the block.
* `NewTo.listed_transaction_iff`, `NewTo.listed_output_iff`: What stands in the partitions
  of a block that is new.
* `transactions_listed_faithfully`: All that is read of the block is the block, and all else is
  read as before.
-/

namespace ChainIndex

open Entity

/-! ## The changes that list a block -/

namespace Edit

/-- A transaction is put. -/
def transaction (record : TransactionRecord) : Edit := .put .transaction record

/-- An output is put. -/
def output (record : OutputRecord) : Edit := .put .output record

end Edit

namespace Block

/-- What is put for the transaction at a position: its outputs, and then the transaction. -/
def listingAt (block : Block) (position : Nat) (tx : Transaction) : List Edit :=
  tx.outputs.map (fun output => .output (OutputRecord.ofOutput tx.txid output)) ++
    [.transaction (TransactionRecord.ofTransaction block position tx)]

/-- What is put for the transactions of a block. -/
def listing (block : Block) : List Edit :=
  block.transactions.zipIdx.flatMap fun (tx, position) => block.listingAt position tx

/-- What is kept of the transactions of a block. -/
def records (block : Block) : List TransactionRecord :=
  block.transactions.zipIdx.map fun (tx, position) =>
    TransactionRecord.ofTransaction block position tx

theorem forM_listingAt (block : Block) (position : Nat) (tx : Transaction) :
    (block.listingAt position tx).forM Edit.program = writeTransaction block position tx := by
  rw [listingAt, List.forM_eq_forM, List.forM_append, List.forM_map, List.forM_cons,
    List.forM_nil]
  exact congrArg (bind _) (funext fun _ => bind_pure _)

/-- The hook puts the listing of the block. -/
theorem hook_eq_listing (block : Block) :
    Indexer.transactions.hook .apply .blockStart block = block.listing.forM Edit.program := by
  rw [listing, List.forM_eq_forM, Registry.forM_flatMap]
  simp only [← List.forM_eq_forM, forM_listingAt]
  rfl

variable {block : Block}

theorem mem_listing {edit : Edit} : edit ∈ block.listing ↔
    (∃ record ∈ block.records, edit = .transaction record) ∨
      ∃ tx ∈ block.transactions, ∃ output ∈ tx.outputs,
        edit = .output (OutputRecord.ofOutput tx.txid output) := by
  simp only [listing, records, listingAt, List.mem_flatMap, List.mem_append, List.mem_map,
    List.mem_singleton]
  constructor
  · rintro ⟨⟨tx, position⟩, htx, ⟨output, houtput, rfl⟩ | rfl⟩
    · exact Or.inr ⟨tx, List.fst_mem_of_mem_zipIdx htx, output, houtput, rfl⟩
    · exact Or.inl ⟨_, ⟨(tx, position), htx, rfl⟩, rfl⟩
  · rintro (⟨_, ⟨⟨tx, position⟩, htx, rfl⟩, rfl⟩ | ⟨tx, htx, output, houtput, rfl⟩)
    · exact ⟨(tx, position), htx, Or.inr rfl⟩
    · rcases List.mem_iff_getElem?.mp htx with ⟨position, hget⟩
      exact ⟨(tx, position), List.mem_zipIdx_iff_getElem?.mpr hget,
        Or.inl ⟨output, houtput, rfl⟩⟩

/-- Whatever is put is read back from its text. -/
theorem listing_readable : ∀ edit ∈ block.listing, edit.Readable := by
  intro edit hedit
  rcases mem_listing.mp hedit with ⟨record, -, rfl⟩ | ⟨tx, -, output, -, rfl⟩
  · exact record.readsBack
  · exact (OutputRecord.ofOutput tx.txid output).readsBack

end Block

/-! ## A block that is new -/

theorem TransactionRecord.mem_entries {record : TransactionRecord} {index partition sort : String} :
    (⟨index, partition, sort⟩ : IndexEntry) ∈ entries record ↔
      index = byBlock.name ∧ partition = record.block.hash ∧ sort = encodeHeight record.order := by
  rw [show entries record = [⟨byBlock.name, record.block.hash, encodeHeight record.order⟩] from rfl,
    List.mem_singleton, IndexEntry.mk.injEq]

theorem OutputRecord.mem_entries {record : OutputRecord} {index partition sort : String} :
    (⟨index, partition, sort⟩ : IndexEntry) ∈ entries record ↔
      index = byTransaction.name ∧ partition = record.txid ∧ sort = encodeHeight record.n := by
  rw [show entries record = [⟨byTransaction.name, record.txid, encodeHeight record.n⟩] from rfl,
    List.mem_singleton, IndexEntry.mk.injEq]

namespace Block

/-- Nothing of a block is in a store: no transaction and no output there has the id of one of
    its transactions, and no transaction there is of a block with its hash. -/
structure NewTo (block : Block) (t : MemoryStore) : Prop where
  transaction : ∀ record : TransactionRecord, Held t record →
    ∀ tx ∈ block.transactions, record.txid ≠ tx.txid
  output : ∀ record : OutputRecord, Held t record →
    ∀ tx ∈ block.transactions, record.txid ≠ tx.txid
  hash : ∀ record : TransactionRecord, Held t record → record.block.hash ≠ block.hash

/-- The partitions of a block and of its transactions. -/
def Fills (block : Block) : RecordKind → IndexDef → String → Prop
  | .transaction, index, partition =>
    index.name = TransactionRecord.byBlock.name ∧ partition = block.hash
  | .output, index, partition =>
    index.name = OutputRecord.byTransaction.name ∧
      ∃ tx ∈ block.transactions, partition = tx.txid
  | _, _, _ => False

variable {block : Block} {t : MemoryStore}

theorem mem_records {record : TransactionRecord} : record ∈ block.records ↔
    ∃ position tx, block.transactions[position]? = some tx ∧
      TransactionRecord.ofTransaction block position tx = record := by
  rw [records, List.mem_map]
  constructor
  · rintro ⟨⟨tx, position⟩, htx, rfl⟩
    exact ⟨position, tx, List.mem_zipIdx_iff_getElem?.mp htx, rfl⟩
  · rintro ⟨position, tx, hget, rfl⟩
    exact ⟨(tx, position), List.mem_zipIdx_iff_getElem?.mpr hget, rfl⟩

theorem length_records (block : Block) : block.records.length = block.transactions.length := by
  rw [records, List.length_map, List.length_zipIdx]

/-- What is put is put under the keys of the block. -/
theorem listingKeys_of_at {edit : Edit} {m k : String} (hedit : edit ∈ block.listing)
    (h : edit.At m k) : ListingKeys block m k := by
  rcases mem_listing.mp hedit with ⟨record, hrecord, rfl⟩ | ⟨tx, htx, output, houtput, rfl⟩
  · rcases mem_records.mp hrecord with ⟨position, tx, hget, rfl⟩
    exact Or.inl ⟨h.1, tx, List.mem_of_getElem? hget, h.2⟩
  · exact Or.inr ⟨h.1, tx, htx, output, houtput, h.2⟩

/-- What stands at an entry of one of them is put in a partition of the block. -/
theorem fills_of_put {kind : RecordKind} {a : kind.Value} {index : IndexDef}
    {partition sort : String} (hput : .put kind a ∈ block.listing)
    (hentry : (⟨index.name, partition, sort⟩ : IndexEntry) ∈ entries a) :
    block.Fills kind index partition := by
  rcases mem_listing.mp hput with ⟨record, hrecord, heq⟩ | ⟨tx, htx, output, houtput, heq⟩
  · cases heq
    rcases mem_records.mp hrecord with ⟨position, tx, -, rfl⟩
    rcases TransactionRecord.mem_entries.mp hentry with ⟨hindex, hpartition, -⟩
    exact ⟨hindex, hpartition⟩
  · cases heq
    rcases OutputRecord.mem_entries.mp hentry with ⟨hindex, hpartition, -⟩
    exact ⟨hindex, tx, htx, hpartition⟩

theorem records_txid (block : Block) :
    block.records.map TransactionRecord.txid = block.transactions.map Transaction.txid := by
  rw [← List.zipIdx_map_fst 0 block.transactions, records, List.map_map, List.map_map]
  rfl

/-- A sort key has room for each position. -/
theorem records_order (hlength : block.transactions.length < UInt32.size) :
    block.records.map (fun record => record.order.toNat) =
      List.range block.transactions.length := by
  rw [List.range_eq_range', ← List.zipIdx_map_snd 0 block.transactions, records, List.map_map]
  refine List.map_congr_left fun p hp => ?_
  have hposition := List.snd_lt_of_mem_zipIdx hp
  exact UInt32.toNat_ofNat_of_lt' (by omega)

/-- The store in which a block is listed. -/
def listedIn (block : Block) (t : MemoryStore) : MemoryStore :=
  block.listing.foldl Edit.made t

theorem shaped_listedIn (block : Block) (h : t.Shaped) : (block.listedIn t).Shaped := by
  refine List.foldlRecOn (motive := MemoryStore.Shaped) _ _ h fun t ht edit hedit => ?_
  refine ⟨Edit.wf_made ht.wf edit, fun kind => Edit.typed_made (ht.typed kind) edit,
    fun kind => Edit.held_made (ht.derived kind) fun value hput => ?_⟩
  rcases mem_listing.mp hedit with ⟨record, -, rfl⟩ | ⟨tx, -, output, -, rfl⟩
  · cases hput
    trivial
  · cases hput
    exact rfl

/-- What is held was put, or it was held before. -/
theorem held_listedIn (kind : RecordKind) (a : kind.Value) (ha : Held (block.listedIn t) a) :
    .put kind a ∈ block.listing ∨ Held t a :=
  Edit.put_or_held kind ha

namespace NewTo

variable (h : block.NewTo t) (hshaped : t.Shaped)
include h hshaped

/-- All that was held is held still. -/
theorem held_still {kind : RecordKind} {a : kind.Value} (ha : Held t a) :
    Held (block.listedIn t) a := by
  -- What is under a key of the block has the id of one of its transactions. Of an output the
  -- key says so because the key is made of the id.
  have hfree : ¬ ListingKeys block (model kind.Value) (key a) := by
    rintro (⟨hmodel, tx, htx, hkey⟩ | ⟨hmodel, tx, htx, output, -, hkey⟩)
    · obtain rfl : kind = .transaction := RecordKind.eq_of_model_eq hmodel
      exact h.transaction a ha tx htx hkey
    · obtain rfl : kind = .output := RecordKind.eq_of_model_eq hmodel
      have hid : OutputRecord.id a = _ := hshaped.derived .output a ha
      exact h.output a ha tx htx (OutputRecord.idOf_injective (hid.symm.trans hkey)).1
  have hfind := Edit.find_foldl_made (t := t) fun edit hedit hat =>
    hfree (listingKeys_of_at hedit hat)
  rw [Held, listedIn, hfind]
  exact ha

/-- The partitions of others have the same values as before. -/
theorem sameListed {kind : RecordKind} {index : IndexDef} {partition : String}
    (hother : ¬ block.Fills kind index partition) :
    SameListed kind.Value index partition t (block.listedIn t) where
  wf := hshaped.wf
  wf' := (block.shaped_listedIn hshaped).wf
  typed := hshaped.typed kind
  typed' := (block.shaped_listedIn hshaped).typed kind
  listed a := by
    refine ⟨fun ha => ⟨h.held_still hshaped ha.1, ha.2⟩, fun ⟨hheld, sort, hentry⟩ => ?_⟩
    rcases held_listedIn kind a hheld with hput | ha
    · exact absurd (fills_of_put hput hentry) hother
    · exact ⟨ha, sort, hentry⟩

omit hshaped

/-- In the partition of the block stand its transactions. -/
theorem listed_transaction_iff (hids : (block.transactions.map Transaction.txid).Nodup)
    (record : TransactionRecord) :
    Listed TransactionRecord.byBlock block.hash (block.listedIn t) record ↔
      record ∈ block.records := by
  constructor
  · rintro ⟨hheld, sort, hentry⟩
    rcases held_listedIn .transaction record hheld with hput | hbefore
    · rcases mem_listing.mp hput with ⟨found, hfound, heq⟩ | ⟨tx, -, output, -, heq⟩
      · cases heq
        exact hfound
      · cases heq
    · exact absurd (TransactionRecord.mem_entries.mp hentry).2.1.symm (h.hash record hbefore)
  · intro hrecord
    refine ⟨Edit.held_of_put .transaction (mem_listing.mpr (Or.inl ⟨_, hrecord, rfl⟩))
      fun edit hedit hat => ?_, encodeHeight record.order, ?_⟩
    · -- Nothing else is put under its id, for no other transaction has it.
      rcases mem_listing.mp hedit with ⟨other, hother, rfl⟩ | ⟨tx, -, output, -, rfl⟩
      · rw [← records_txid] at hids
        rw [List.inj_on_of_nodup_map hids hrecord hother hat.2]
        rfl
      · exact absurd hat.1 (by decide)
    · rcases mem_records.mp hrecord with ⟨position, tx, -, rfl⟩
      exact TransactionRecord.mem_entries.mpr ⟨rfl, rfl, rfl⟩

/-- In that of one of its transactions stand the outputs of the transaction. -/
theorem listed_output_iff (hids : (block.transactions.map Transaction.txid).Nodup)
    {tx : Transaction} (htx : tx ∈ block.transactions) (hnumbers : (tx.outputs.map Output.n).Nodup)
    (record : OutputRecord) :
    Listed OutputRecord.byTransaction tx.txid (block.listedIn t) record ↔
      record ∈ tx.outputs.map (OutputRecord.ofOutput tx.txid) := by
  rw [List.mem_map]
  constructor
  · rintro ⟨hheld, sort, hentry⟩
    have htxid := (OutputRecord.mem_entries.mp hentry).2.1
    rcases held_listedIn .output record hheld with hput | hbefore
    · rcases mem_listing.mp hput with ⟨found, -, heq⟩ | ⟨other, hother, output, houtput, heq⟩
      · cases heq
      · cases heq
        obtain rfl := List.inj_on_of_nodup_map hids htx hother htxid
        exact ⟨output, houtput, rfl⟩
    · exact absurd htxid.symm (h.output record hbefore tx htx)
  · rintro ⟨output, houtput, rfl⟩
    refine ⟨Edit.held_of_put .output
      (mem_listing.mpr (Or.inr ⟨tx, htx, output, houtput, rfl⟩)) fun edit hedit hat => ?_,
      encodeHeight output.n, OutputRecord.mem_entries.mpr ⟨rfl, rfl, rfl⟩⟩
    rcases mem_listing.mp hedit with ⟨other, -, rfl⟩ | ⟨other, hother, found, hfound, rfl⟩
    · exact absurd hat.1 (by decide)
    · -- The key tells the transaction and the number, and these tell the output.
      rcases OutputRecord.idOf_injective hat.2 with ⟨htxid, hn⟩
      obtain rfl := List.inj_on_of_nodup_map hids htx hother htxid
      rw [List.inj_on_of_nodup_map hnumbers houtput hfound hn]
      rfl

end NewTo

end Block

/-! ## What is read -/

section

variable {σ : Type} [KeyedStore σ]

/-- What is read from a store before and after a block was listed in it. -/
structure ListsBlock (block : Block) (before after : World σ) : Prop where
  /-- The transactions of the block are read in the order of the block. -/
  transactions : ∀ limit pages,
    block.transactions.length / (PageQuery.first limit).effectiveLimit.toNat < pages →
      (PageQuery.readAll (TransactionRecord.pageOfBlock block.hash) pages (.first limit)).run
        World.answer after = (.ok block.records, after)
  /-- Each is at its position. -/
  order : block.records.map (fun record => record.order.toNat) =
    List.range block.transactions.length
  /-- The outputs of each are read in the order of their numbers, and the amounts that are read
      add up to its total. -/
  outputs : ∀ position tx, block.transactions[position]? = some tx →
    (tx.outputs.map Output.n).Nodup → ∃ records : List OutputRecord,
      records.Perm (tx.outputs.map (OutputRecord.ofOutput tx.txid)) ∧
      records.Pairwise (fun a b => a.n < b.n) ∧
      (∀ limit pages,
        tx.outputs.length / (PageQuery.first limit).effectiveLimit.toNat < pages →
          (PageQuery.readAll (OutputRecord.pageOfTransaction tx.txid) pages (.first limit)).run
            World.answer after = (.ok records, after)) ∧
      let total := (records.map fun record => record.value.toNat).sum
      total < UInt64.size →
        (TransactionRecord.ofTransaction block position tx).totalOutput.toNat = total
  /-- All other partitions are read as before. -/
  others : ∀ (kind : RecordKind) (index : IndexDef) (partition : Option String),
    ¬ block.Fills kind index (partition.getD "") → ∀ pages query,
      AnsweredAlike before after
        (PageQuery.readAll (Entity.page kind.Value index partition) pages query)

end

/-- Amounts are added up as words. If the sum is one, nothing is lost on the way. -/
theorem toNat_total {α : Type} (f : α → UInt64) (items : List α) (start : UInt64)
    (hfits : start.toNat + (items.map fun a => (f a).toNat).sum < UInt64.size) :
    (items.foldl (fun total a => total + f a) start).toNat =
      start.toNat + (items.map fun a => (f a).toNat).sum := by
  induction items generalizing start with
  | nil => rfl
  | cons a rest ih =>
      rw [List.map_cons, List.sum_cons] at hfits ⊢
      have hstart : (start + f a).toNat = start.toNat + (f a).toNat := by
        rw [UInt64.toNat_add]
        exact Nat.mod_eq_of_lt (lt_of_le_of_lt (by omega) hfits)
      rw [List.foldl_cons, ih _ (by rw [hstart]; omega), hstart]
      omega

instance : SinglyIndexed TransactionRecord :=
  inferInstanceAs (SinglyIndexed RecordKind.transaction.Value)

instance : SinglyIndexed OutputRecord := inferInstanceAs (SinglyIndexed RecordKind.output.Value)

theorem TransactionRecord.sortKey_byBlock (record : TransactionRecord) :
    sortKey byBlock record = encodeHeight record.order :=
  sortKey_of_entry (List.mem_singleton_self _)

theorem OutputRecord.sortKey_byTransaction (record : OutputRecord) :
    sortKey byTransaction record = encodeHeight record.n :=
  sortKey_of_entry (List.mem_singleton_self _)

namespace Block.NewTo

variable {block : Block} {t : MemoryStore} {σ : Type} [KeyedStore σ] {before after : World σ}

/-- The transactions of the block are read in the order of the block. -/
theorem run_transactions (h : block.NewTo t) (hshaped : t.Shaped)
    (hlength : block.transactions.length < UInt32.size)
    (hids : (block.transactions.map Transaction.txid).Nodup)
    (hafter : PagesLike after.store (block.listedIn t)) {limit : UInt64} {pages : Nat}
    (hcount : block.transactions.length / (PageQuery.first limit).effectiveLimit.toNat < pages) :
    (PageQuery.readAll (TransactionRecord.pageOfBlock block.hash) pages (.first limit)).run
      World.answer after = (.ok block.records, after) := by
  have hlisted := block.shaped_listedIn hshaped
  have htyped : Typed TransactionRecord (block.listedIn t) := hlisted.typed .transaction
  have hsorted : block.records.Pairwise fun a b =>
      TransactionRecord.byBlock.direction.Precedes (sortKey TransactionRecord.byBlock a)
        (sortKey TransactionRecord.byBlock b) := by
    have horder : (block.records.map fun record => record.order.toNat).Pairwise (· < ·) := by
      rw [records_order hlength]
      exact List.pairwise_lt_range
    refine (List.pairwise_map.mp horder).imp fun {a b} hlt => ?_
    rw [TransactionRecord.sortKey_byBlock, TransactionRecord.sortKey_byBlock]
    exact Text.encodeHeight_lt (UInt32.lt_iff_toNat_lt.mpr hlt)
  refine run_readAll hafter hlisted.wf htyped (Ahead.of_listed htyped hsorted fun record => ?_)
    hsorted ?_
  · exact (h.listed_transaction_iff hids record).symm
  · rwa [length_records]

/-- The outputs of a transaction are read in the order of their numbers. -/
theorem run_outputs (h : block.NewTo t) (hshaped : t.Shaped)
    (hids : (block.transactions.map Transaction.txid).Nodup)
    (hafter : PagesLike after.store (block.listedIn t)) {tx : Transaction}
    (htx : tx ∈ block.transactions) (hnumbers : (tx.outputs.map Output.n).Nodup) :
    ∃ records : List OutputRecord,
      records.Perm (tx.outputs.map (OutputRecord.ofOutput tx.txid)) ∧
      records.Pairwise (fun a b => a.n < b.n) ∧
      ∀ limit pages, tx.outputs.length / (PageQuery.first limit).effectiveLimit.toNat < pages →
        (PageQuery.readAll (OutputRecord.pageOfTransaction tx.txid) pages (.first limit)).run
          World.answer after = (.ok records, after) := by
  have hlisted := block.shaped_listedIn hshaped
  have htyped : Typed OutputRecord (block.listedIn t) := hlisted.typed .output
  rcases Entity.exists_ahead OutputRecord.byTransaction (some tx.txid) hlisted.wf htyped none with
    ⟨records, hahead, -⟩
  -- The store has them in the order of their sort keys, and no two of them share one.
  have hsorted := hahead.sorted (hlisted.untied .output trivial _ _)
  have hmem : ∀ record, record ∈ records ↔
      record ∈ tx.outputs.map (OutputRecord.ofOutput tx.txid) := by
    intro record
    rw [← h.listed_output_iff hids htx hnumbers]
    exact hahead.mem_iff_listed htyped record
  have hnodup : (tx.outputs.map (OutputRecord.ofOutput tx.txid)).Nodup := by
    refine List.Nodup.of_map OutputRecord.n ?_
    rwa [List.map_map]
  have hperm := (List.perm_ext_iff_of_nodup hahead.nodup hnodup).mpr hmem
  refine ⟨records, hperm, hsorted.imp fun {a b} hlt => ?_, fun limit pages hcount => ?_⟩
  · rw [OutputRecord.sortKey_byTransaction, OutputRecord.sortKey_byTransaction] at hlt
    exact Text.encodeHeight_lt_iff.mp hlt
  · refine run_readAll hafter hlisted.wf htyped hahead hsorted ?_
    rwa [hperm.length_eq, List.length_map]

theorem listsBlock (h : block.NewTo t) (hshaped : t.Shaped)
    (hlength : block.transactions.length < UInt32.size)
    (hids : (block.transactions.map Transaction.txid).Nodup)
    (hbefore : PagesLike before.store t) (hafter : PagesLike after.store (block.listedIn t)) :
    ListsBlock block before after where
  transactions _ _ hcount := h.run_transactions hshaped hlength hids hafter hcount
  order := records_order hlength
  outputs := by
    intro position tx hget hnumbers
    rcases h.run_outputs hshaped hids hafter (List.mem_of_getElem? hget) hnumbers with
      ⟨records, hperm, hsorted, hread⟩
    refine ⟨records, hperm, hsorted, hread, ?_⟩
    -- The total was added up in the order of the transaction, which makes no difference.
    have hsum := (hperm.map fun record => record.value.toNat).sum_eq
    rw [List.map_map] at hsum
    rw [hsum]
    intro total hfits
    exact (toNat_total (fun output : Output => toUnits output.value.val) tx.outputs 0
      ((Nat.zero_add _).trans_lt hfits)).trans (Nat.zero_add _)
  others kind index partition hother pages query := by
    have hsame := h.sameListed hshaped hother
    refine AnsweredAlike.readAll (.page hbefore hafter fun limit bound => ?_) pages query
    exact MemoryModel.scan_congr (hsame.wf _) (hsame.wf' _) _
      fun _ _ hentry => hsame.find_iff hentry

end Block.NewTo

/-- **The transactions of a block are listed faithfully.** Whatever the hooks of the standard
    indexers have written to a store, and wherever they were cut off: as long as a block is new to
    it, and its transactions have ids of their own and are fewer than there are positions, the
    hook comes to its end. Then the pages of the block have its transactions in their order,
    and those of a transaction whose outputs have numbers of their own have these in the order
    of the numbers. The size of the pages does not matter. The pages of all other partitions
    are as they were. This is so of both stores; of the one in tables if it was in step with
    the one in memory before. -/
theorem transactions_listed_faithfully {symbol : String} {t : MemoryStore}
    (hwrote : (Registry.standard symbol).Wrote t) (block : Block)
    (hlength : block.transactions.length < UInt32.size)
    (hids : (block.transactions.map Transaction.txid).Nodup) (hnew : block.NewTo t)
    (source : MemorySource) (now : Int64) :
    (∃ after, (Indexer.transactions.hook .apply .blockStart block).run World.answer
        (⟨t, source, now⟩ : World MemoryStore) = (.ok (), after) ∧
      ListsBlock block ⟨t, source, now⟩ after) ∧
    ∀ tables : TableStore, tables.Represents t →
      ∃ after, (Indexer.transactions.hook .apply .blockStart block).run World.answer
          (⟨tables, source, now⟩ : World TableStore) = (.ok (), after) ∧
        ListsBlock block ⟨tables, source, now⟩ after := by
  have hshaped := hwrote.shaped
  let memory : World MemoryStore := ⟨t, source, now⟩
  have hlisted : (Edit.reached block.listing memory).store = block.listedIn t :=
    Edit.store_reached block.listing memory
  rw [block.hook_eq_listing]
  refine ⟨⟨_, Edit.run_forM _ _, ?_⟩, fun tables hstep => ⟨_, Edit.run_forM _ _, ?_⟩⟩
  · refine hnew.listsBlock hshaped hlength hids t.pagesLike ?_
    rw [hlisted]
    exact MemoryStore.pagesLike _
  · -- All that is put reads back, so the tables stay in step.
    have hafter : (Edit.reached block.listing ⟨tables, source, now⟩).store.Represents
        (Edit.reached block.listing memory).store :=
      Edit.represents_reached Block.listing_readable hstep
    rw [hlisted] at hafter
    exact hnew.listsBlock hshaped hlength hids hstep.pagesLike hafter.pagesLike

/-! A block is listed, and behind it one whose first transaction has the key of an output of the
other block for its id. The outputs of this transaction are not in the order of their numbers,
and the transaction after it has none. -/

namespace Appended

/-- A transaction of which nothing matters but what it pays: numbers and amounts. -/
def paying (txid : String) (outputs : List (UInt32 × FiniteFloat)) : Transaction :=
  { (default : Transaction) with
    txid, outputs := outputs.map fun (n, value) => { (default : Output) with n, value } }

/-- The block that is listed first. -/
def first : Block :=
  { (default : Block) with hash := "x", transactions := [paying "a" [(1, ⟨2, by decide⟩)]] }

/-- The block behind it. -/
def second : Block :=
  { (default : Block) with
    hash := "y", height := 1,
    transactions :=
      [paying "a-1" [(10, ⟨3.5, by decide⟩), (2, ⟨0.75, by decide⟩)], paying "b" []] }

/-- A store in which the first block is listed. -/
def withFirst (σ : Type) [KeyedStore σ] : World σ :=
  Edit.reached first.listing ⟨KeyedStore.empty, ⟨[], []⟩, 0⟩

theorem wrote_first : (Registry.standard "DFI").Wrote (withFirst MemoryStore).store :=
  .hook .empty (List.mem_cons_self : Indexer.transactions ∈ (Registry.standard "DFI").indexers)
    .apply .blockStart first 2 ⟨[], []⟩ 0

theorem second_new : second.NewTo (withFirst MemoryStore).store := by
  have hshaped := wrote_first.shaped
  have htyped : Typed TransactionRecord _ := hshaped.typed .transaction
  have htyped' : Typed OutputRecord _ := hshaped.typed .output
  have htransactions : ∀ record ∈ Entity.all TransactionRecord (withFirst MemoryStore).store,
      (∀ tx ∈ second.transactions, record.txid ≠ tx.txid) ∧
        record.block.hash ≠ second.hash := by decide +kernel
  have houtputs : ∀ record ∈ Entity.all OutputRecord (withFirst MemoryStore).store,
      ∀ tx ∈ second.transactions, record.txid ≠ tx.txid := by decide +kernel
  constructor
  · exact fun record hheld => (htransactions record ((mem_all htyped record).mpr hheld)).1
  · exact fun record hheld => houtputs record ((mem_all htyped' record).mpr hheld)
  · exact fun record hheld => (htransactions record ((mem_all htyped record).mpr hheld)).2

end Appended

open Appended in
theorem transactions_listed_faithfully_appended :
    ((Registry.standard "DFI").Wrote (withFirst MemoryStore).store ∧
      second.transactions.length < UInt32.size ∧
      (second.transactions.map Transaction.txid).Nodup ∧
      second.NewTo (withFirst MemoryStore).store ∧
      (withFirst TableStore).store.Represents (withFirst MemoryStore).store) ∧
    ∃ after, (Indexer.transactions.hook .apply .blockStart second).run World.answer
        (withFirst TableStore) = (.ok (), after) ∧
      second.records.map TransactionRecord.txid = ["a-1", "b"] ∧
      (PageQuery.readAll (TransactionRecord.pageOfBlock "y") 3 (.first 1)).run World.answer after =
        (.ok second.records, after) ∧
      ∃ outputs : List OutputRecord, outputs.map key = ["a-1-2", "a-1-10"] ∧
        (PageQuery.readAll (OutputRecord.pageOfTransaction "a-1") 2 (.first 2)).run
          World.answer after = (.ok outputs, after) ∧
        (second.records.map fun record => record.totalOutput.toNat) =
          [(outputs.map fun output => output.value.toNat).sum, 0] := by
  have hstep : (withFirst TableStore).store.Represents (withFirst MemoryStore).store :=
    Edit.represents_reached Block.listing_readable .empty
  have hids : (second.transactions.map Transaction.txid).Nodup := by decide +kernel
  have hlength : second.transactions.length < UInt32.size := by decide +kernel
  refine ⟨⟨wrote_first, hlength, hids, second_new, hstep⟩, ?_⟩
  rcases (transactions_listed_faithfully wrote_first second hlength hids second_new
    ⟨[], []⟩ 0).2 _ hstep with ⟨after, hrun, hlists⟩
  rcases hlists.outputs 0 _ rfl (by decide +kernel) with ⟨outputs, hperm, hsorted, hread, -⟩
  -- There is one order in which the numbers of the outputs increase.
  obtain rfl : outputs = [OutputRecord.ofOutput "a-1" ⟨⟨0.75, by decide⟩, 2, default, none⟩,
      OutputRecord.ofOutput "a-1" ⟨⟨3.5, by decide⟩, 10, default, none⟩] := by
    refine (hperm.trans (List.Perm.swap _ _ _)).eq_of_pairwise (fun a b _ _ hab hba => ?_) hsorted
      (by decide +kernel)
    exact absurd hba (UInt32.lt_asymm hab)
  exact ⟨after, hrun, by decide +kernel, hlists.transactions 1 3 (by decide +kernel),
    _, by decide +kernel, hread 2 2 (by decide +kernel), by decide +kernel⟩

end ChainIndex
