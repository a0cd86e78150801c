import ChainIndex.Proofs.Chain.Replay
import ChainIndex.Proofs.Indexer.Writes
import ChainIndex.Proofs.Store.Outside
import ChainIndex.Proofs.Store.Texts

/-!
# A chain in tables

What a database ought to hold of a chain is told by indexing it into empty tables, without
a follower and so without a ledger. Applying a block to a database does to the rows outside
of the ledger what it does to such tables, and fails when it fails there.

The block records are the one model that applying reads back between two blocks: the next
block is sought above the record of greatest height. It is that of the last block of the
chain, with the difficulty that its text is read as, and if the text is not read as one the
database cannot be followed on from there.

## Main definitions

* `TableStore.applied`: The tables after a block was applied.
* `Chain.tables`: The tables that indexing a chain into empty ones leaves.
* `Chain.ListedIn`: The block records of tables are those of a chain.

## Theorems

* `run_applyBlock`: Applying a block to a database.
* `listedIn_of_tables`: What is indexed of a chain lists its blocks.
* `ListedIn.run_tip?`: The tip is the last block of the chain.
-/

namespace ChainIndex

open Entity Program

/-- The tables after a block was applied, or the error that ended it. -/
def TableStore.applied (symbol : String) (tables : TableStore) (block : Block) :
    Except Error TableStore :=
  match ((Registry.full symbol).applyBlock block).run World.answer ⟨tables, ⟨[], []⟩, 0⟩ with
  | (.ok (), world) => .ok world.store
  | (.error e, _) => .error e

namespace Chain

/-- The tables that indexing a chain into empty ones leaves, or the error that ended it. -/
def tables (symbol : String) (chain : List Block) : Except Error TableStore :=
  chain.foldlM (TableStore.applied symbol) .empty

theorem tables_snoc (symbol : String) (chain : List Block) (block : Block) :
    tables symbol (chain ++ [block]) =
      tables symbol chain >>= fun before => before.applied symbol block := by
  simp [tables, List.foldlM_append]

/-- A chain can be indexed as far as a longer one can. -/
theorem tables_of_append {symbol : String} {chain rest : List Block} {after : TableStore}
    (h : tables symbol (chain ++ rest) = .ok after) :
    ∃ before, tables symbol chain = .ok before := by
  rw [tables, List.foldlM_append] at h
  rcases hchain : tables symbol chain with e | before
  · rw [tables] at hchain
    rw [hchain] at h
    exact absurd h (by simp [bind, Except.bind])
  · exact ⟨before, rfl⟩

end Chain

/-! ## Applying a block -/

section

variable (symbol : String) (block : Block)

/-- The record of a block is written last, and what comes ahead of it writes none. -/
theorem exists_ahead : ∃ ahead : Program Unit,
    (Registry.full symbol).applyBlock block =
        (ahead >>= fun _ => save (BlockRecord.ofBlock block)) ∧
      Makes (Call.Within fun m _ => m ≠ model BlockRecord) ahead := by
  have hderived : ∀ {program : Program Unit}, Makes (Call.Within DerivedKeys) program →
      Makes (Call.Within fun m _ => m ≠ model BlockRecord) program := by
    intro program h
    exact (h.of_derived block).mono fun _ hc => hc.mono fun _ _ hk => hk.ne_block
  refine ⟨(if block.height = 0 then seedNative symbol block else pure ()) >>= fun _ =>
    (block.transactions.zipIdx.forM fun entry => writeTransaction block entry.2 entry.1)
      >>= fun _ => deriveBody symbol block, ?_, ?_⟩
  · rw [applyBlock_body]
    simp only [LawfulMonad.bind_assoc]
  · refine makes_bind (hderived (makes_seed symbol block)) fun _ => makes_bind
      (makes_forM _ fun _ _ => makes_bind (makes_forM _ fun _ _ => ?_) fun _ => ?_)
      fun _ => hderived (makes_deriveBody symbol block)
    · exact makes_save _ (by decide : model OutputRecord ≠ model BlockRecord)
    · exact makes_save _ (by decide : model TransactionRecord ≠ model BlockRecord)

theorem makes_applyBlock :
    Makes (Call.Within fun _ _ => True) ((Registry.full symbol).applyBlock block) := by
  rcases exists_ahead symbol block with ⟨ahead, heq, hahead⟩
  rw [heq]
  exact makes_bind (hahead.mono fun _ hc => hc.mono fun _ _ _ => trivial) fun _ =>
    makes_save _ trivial

/-- Applying a block to a database does to the rows outside of the ledger what it does to
    these alone, and leaves the ledger as it is. -/
theorem run_applyBlock (tables : TableStore) (source : MemorySource) (now : Int64) :
    ∃ result behind, ((Registry.full symbol).applyBlock block).run World.answer
        ⟨tables, source, now⟩ = (result, ⟨behind, source, now⟩) ∧
      tables.outside.applied symbol block = result.map (fun _ => behind.outside) ∧
      TableStore.SameModel ledgerModel tables behind := by
  have hmakes := makes_applyBlock symbol block
  -- The source and the clock are not asked, so they may as well be those of `applied`.
  have hworld := Chain.run_world ((Registry.full symbol).applyBlock block) ⟨tables, source, now⟩
  have houtside := TableStore.run_outside hmakes tables source ⟨[], []⟩ now 0
  have hledger := TableStore.run_sameLedger hmakes ⟨tables, source, now⟩
  rcases hrun : ((Registry.full symbol).applyBlock block).run World.answer ⟨tables, source, now⟩
    with ⟨result, behind, source', now'⟩
  rw [hrun] at hworld houtside hledger
  rcases hworld with ⟨rfl, rfl⟩
  refine ⟨result, behind, rfl, ?_, hledger⟩
  rw [TableStore.applied]
  rcases hrows : ((Registry.full symbol).applyBlock block).run World.answer
    ⟨tables.outside, ⟨[], []⟩, 0⟩ with ⟨result', rows⟩
  rw [hrows] at houtside
  rcases houtside with ⟨rfl, hstore⟩
  cases result with
  | error e => rfl
  | ok u => exact congrArg Except.ok hstore.symm

end

/-! ## The blocks of a chain -/

namespace Chain

/-- The row of the entry of a block. -/
def blockRow (block : Block) : EntryRow :=
  ⟨model BlockRecord, BlockRecord.byHeight.name, "", encodeHeight block.height, block.hash⟩

/-- The block records of tables are those of a chain, the last one as it was written. -/
structure ListedIn (chain : List Block) (tables : TableStore) : Prop where
  listed : ∀ row ∈ tables.entries, row.model = model BlockRecord →
    ∃ block ∈ chain, row = blockRow block
  last : ∀ block, chain.getLast? = some block → blockRow block ∈ tables.entries ∧
    tables.selectText (model BlockRecord) block.hash =
      some (toJson (BlockRecord.ofBlock block)).compact

variable {symbol : String} {chain : List Block} {tables behind : TableStore}

theorem ListedIn.of_same (h : ListedIn chain tables)
    (hsame : TableStore.SameModel (model BlockRecord) tables behind) : ListedIn chain behind where
  listed row hrow hmodel := h.listed row ((hsame.entry row hmodel).mp hrow) hmodel
  last block hlast := by
    rcases h.last block hlast with ⟨hrow, htext⟩
    exact ⟨(hsame.entry _ rfl).mpr hrow, (hsame.text _).trans htext⟩

theorem listedIn_nil : ListedIn [] .empty where
  listed row hrow := absurd hrow List.not_mem_nil
  last block hlast := by simp at hlast

/-- The record of one more block. -/
theorem ListedIn.put (h : ListedIn chain tables) (block : Block) :
    ListedIn (chain ++ [block])
      (tables.put (model BlockRecord) (toRecord (BlockRecord.ofBlock block))) where
  listed row hrow hmodel := by
    rw [TableStore.mem_entries_put] at hrow
    split at hrow
    · next hput =>
      refine ⟨block, List.mem_concat_self, ?_⟩
      simp only [toRecord, Entity.entries, IndexEntry.unpartitioned, List.mem_singleton,
        IndexEntry.mk.injEq] at hrow
      rcases row with ⟨m, index, partition, sort, key⟩
      rcases hput with ⟨rfl, rfl⟩
      rcases hrow with ⟨rfl, rfl, rfl⟩
      rfl
    · rcases h.listed row hrow hmodel with ⟨other, hmem, hother⟩
      exact ⟨other, List.mem_append_left _ hmem, hother⟩
  last other hlast := by
    rw [List.getLast?_append, List.getLast?_singleton, Option.some_or, Option.some.injEq] at hlast
    subst hlast
    constructor
    · rw [TableStore.mem_entries_put, if_pos ⟨rfl, rfl⟩]
      exact List.mem_singleton.mpr rfl
    · rw [TableStore.selectText_put, if_pos ⟨rfl, rfl⟩]
      rfl

/-- Applying a block lists it behind the others. -/
theorem ListedIn.applied (h : ListedIn chain tables) {block : Block}
    (happlied : tables.applied symbol block = .ok behind) :
    ListedIn (chain ++ [block]) behind := by
  rcases exists_ahead symbol block with ⟨ahead, heq, hahead⟩
  -- Until the record of the block is put, the block records are those from before.
  have hsame := TableStore.run_sameModel_within hahead (fun _ _ hm => hm) ⟨tables, ⟨[], []⟩, 0⟩
  have hbind : (ahead >>= fun _ => save (BlockRecord.ofBlock block)).run World.answer
      ⟨tables, ⟨[], []⟩, 0⟩ = _ := run_bind ..
  rw [TableStore.applied, heq, hbind] at happlied
  rcases hrun : ahead.run World.answer ⟨tables, ⟨[], []⟩, 0⟩ with ⟨result, middle⟩
  rw [hrun] at hsame happlied
  cases result with
  | error e => exact absurd happlied (by simp)
  | ok u =>
      rw [← Except.ok.inj happlied]
      exact (h.of_same hsame).put block

/-- What is indexed of a chain lists its blocks. -/
theorem listedIn_of_tables (h : Chain.tables symbol chain = .ok tables) :
    ListedIn chain tables := by
  induction chain using List.reverseRecOn generalizing tables with
  | nil =>
      rw [← Except.ok.inj h]
      exact listedIn_nil
  | append_singleton init block ih =>
      rw [tables_snoc] at h
      rcases hbefore : Chain.tables symbol init with e | before
      · rw [hbefore] at h
        exact absurd h (by simp [bind, Except.bind])
      · rw [hbefore] at h
        exact (ih hbefore).applied h

/-! ## The tip -/

/-- The scan for the tip. -/
def tipScan : Scan := ⟨BlockRecord.byHeight.name, none, .desc, 1, none⟩

/-- The scan for the tip selects no row without blocks. -/
theorem ListedIn.select_nil (h : ListedIn [] tables) :
    tables.selectEntries (model BlockRecord) tipScan = [] := by
  rw [List.eq_nil_iff_forall_not_mem]
  intro row hrow
  rw [TableStore.mem_selectEntries] at hrow
  rcases h.listed row hrow.1 hrow.2.1 with ⟨block, hmem, _⟩
  exact List.not_mem_nil hmem

/-- It selects the row of the last block first. -/
theorem ListedIn.select_snoc {init : List Block} {last : Block}
    (h : ListedIn (init ++ [last]) tables) (hnumbered : Numbered (init ++ [last])) :
    ∃ rest, tables.selectEntries (model BlockRecord) tipScan = blockRow last :: rest := by
  have hmem : blockRow last ∈ tables.selectEntries (model BlockRecord) tipScan := by
    rw [TableStore.mem_selectEntries]
    exact ⟨(h.last last (by simp)).1, rfl, rfl, rfl, rfl⟩
  have hsorted : (tables.selectEntries (model BlockRecord) tipScan).Pairwise
      fun a b => TableStore.EntryRow.notAfter b a = true := by
    unfold TableStore.selectEntries tipScan
    exact List.pairwise_mergeSort
      (fun a b c hab hbc => TableStore.notAfter_trans c b a hbc hab)
      (fun a b => TableStore.notAfter_total b a) _
  have hrows : ∀ row ∈ tables.selectEntries (model BlockRecord) tipScan,
      ∃ block ∈ init ++ [last], row = blockRow block := by
    intro row hrow
    rw [TableStore.mem_selectEntries] at hrow
    exact h.listed row hrow.1 hrow.2.1
  rcases hselect : tables.selectEntries (model BlockRecord) tipScan with _ | ⟨first, rest⟩
  · rw [hselect] at hmem
    exact absurd hmem List.not_mem_nil
  · rw [hselect] at hmem hsorted hrows
    refine ⟨rest, ?_⟩
    rcases List.mem_cons.mp hmem with heq | hrest
    · rw [heq]
    · -- A row ahead of that of the last block would be of a block that is no lower.
      have hnot := List.rel_of_pairwise_cons hsorted hrest
      rw [TableStore.notAfter_iff] at hnot
      rcases hrows first List.mem_cons_self with ⟨block, hblock, rfl⟩
      rcases List.mem_append.mp hblock with hbefore | hlast
      · have hlt : encodeHeight block.height < encodeHeight last.height := by
          refine Text.encodeHeight_lt (UInt32.lt_iff_toNat_lt.mpr ?_)
          rw [hnumbered.height_last]
          exact hnumbered.of_snoc.height_lt hbefore
        rcases hnot with hgt | ⟨heq, _⟩
        · exact absurd (String.lt_trans hlt hgt) (String.lt_irrefl _)
        · change encodeHeight last.height = encodeHeight block.height at heq
          rw [heq] at hlt
          exact absurd hlt (String.lt_irrefl _)
      · rw [List.mem_singleton.mp hlast]

/-- The tip of what is listed: the last block, with its difficulty read from its text. -/
def tipOf (chain : List Block) : Except Error (Option BlockRecord) :=
  match chain.getLast? with
  | none => .ok none
  | some last =>
    match (BlockRecord.ofBlock last).reread with
    | some again => .ok (some again)
    | none => .error (.serialization (.other "not a document"))

theorem tipOf_snoc (init : List Block) (last : Block) : tipOf (init ++ [last]) =
    match (BlockRecord.ofBlock last).reread with
    | some again => .ok (some again)
    | none => .error (.serialization (.other "not a document")) := by
  rw [tipOf, List.getLast?_append, List.getLast?_singleton, Option.some_or]

/-- What the scan for the tip finds. -/
theorem ListedIn.scan_eq (h : ListedIn chain tables) (hnumbered : Numbered chain) :
    tables.scan (model BlockRecord) tipScan =
      (tipOf chain).map fun tip => (tip.map toJson).toList := by
  cases chain using List.reverseRecOn with
  | nil =>
      rw [TableStore.scan, h.select_nil]
      rfl
  | append_singleton init last =>
      rcases h.select_snoc hnumbered with ⟨rest, hselect⟩
      have htext : tables.selectText (blockRow last).model (blockRow last).key =
          some (toJson (BlockRecord.ofBlock last)).compact := (h.last last (by simp)).2
      rw [TableStore.scan, hselect, List.filterMap_cons, htext, TableStore.limited,
        if_pos (by decide), tipOf_snoc]
      change ([(toJson (BlockRecord.ofBlock last)).compact].mapM TableStore.decodeText) = _
      rw [List.mapM_cons, BlockRecord.decodeText_toJson]
      cases (BlockRecord.ofBlock last).reread with
      | none => rfl
      | some again => rfl

/-- The tip of the tables is the last block of the chain. -/
theorem ListedIn.run_tip? (h : ListedIn chain tables) (hnumbered : Numbered chain)
    (source : MemorySource) (now : Int64) :
    BlockRecord.tip?.run World.answer ⟨tables, source, now⟩ =
      (tipOf chain, ⟨tables, source, now⟩) := by
  have hscan : KeyedStore.scan tables (model BlockRecord)
      ⟨BlockRecord.byHeight.name, none, BlockRecord.byHeight.direction, 1, none⟩ =
        (tipOf chain).map fun tip => (tip.map toJson).toList := h.scan_eq hnumbered
  change (Program.run World.answer (Program.call (.scan (model BlockRecord)
    ⟨BlockRecord.byHeight.name, none, BlockRecord.byHeight.direction, 1, none⟩) _) _) = _
  simp only [Program.run, World.answer, hscan]
  rcases tipOf chain with e | _ | tip
  · rfl
  · rfl
  · simp only [Except.map, Option.map_some, Option.toList_some, Program.bind, List.mapM_cons,
      List.mapM_nil, RoundTrip.decode_toJson]
    rfl

end Chain

end ChainIndex
