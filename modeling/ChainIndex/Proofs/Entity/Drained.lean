import ChainIndex.Proofs.Entity.GivenBack
import ChainIndex.Proofs.Entity.Shapes
import ChainIndex.Proofs.Store.Texts

/-!
# A partition is drained

To list a partition is to ask for one full page after another, each behind the last sort key
of the one before, until a page is short. If no two values of the partition share a sort key,
the pages put together are the partition: what is behind the last value of a page is what was
ahead of the page without it, and each full page leaves less ahead. There is an end, and the
page at the end is short, even where the number of values is a multiple of the size of a page
and that last page is empty.

The number of pages that may be asked for comes from the number of entries of the model. There
are never more pages than that, so the limit is out of the way.

## Main definitions

* `PagedAs`: Full pages of a store are those of a store in memory.

## Theorems

* `run_listFrom`, `run_list`: Page by page, all that is ahead is found.
* `obtains_first?`: The first of it is found by itself.
* `untied_of_derived`: No two values of a partition share a sort key.
* `Edit.put_or_held`: What is held after changes was put, or it was held before.
* `list_drains_partition`: Each value of a partition is listed once and in order.
-/

namespace ChainIndex

/-- The full pages of a store are those of a store in memory, and it counts no fewer entries
    than that has. -/
structure PagedAs {σ : Type} [KeyedStore σ] (store : σ) (memory : MemoryStore) : Prop where
  scan_eq : ∀ m scan, scan.limit = PageQuery.maxLimit →
    KeyedStore.scan store m scan = .ok (memory.scan m scan)
  past_le : ∀ m scan, ((memory.model m).past scan).length ≤ KeyedStore.extent store m

theorem MemoryStore.pagedAs (store : MemoryStore) : PagedAs store store where
  scan_eq := fun _ _ _ => rfl
  past_le := fun m scan => (store.model m).length_past_le_extent scan

/-- A scan selects entries of its model. -/
theorem TableStore.length_selectEntries_le (tables : TableStore) (model : String) (scan : Scan) :
    (tables.selectEntries model scan).length ≤ tables.extent model := by
  have hfilter : ∀ p : EntryRow → Bool, (∀ row, p row = true → (row.model == model) = true) →
      (tables.entries.filter p).length ≤ tables.extent model := fun p hp =>
    (List.monotone_filter_right tables.entries hp).length_le
  unfold selectEntries
  cases scan.direction with
  | asc =>
      rw [List.length_mergeSort]
      exact hfilter _ fun row hrow => by simp_all
  | desc =>
      rw [List.length_mergeSort]
      exact hfilter _ fun row hrow => by simp_all

/-- A scan for no more than a page finds the same in tables in step. -/
theorem TableStore.Represents.scan_eq_of_le {tables : TableStore} {store : MemoryStore}
    (h : tables.Represents store) (m : String) (scan : Scan)
    (hlimit : scan.limit ≤ PageQuery.maxLimit) :
    tables.scan m scan = .ok (store.scan m scan) := by
  refine h.scan_eq m scan (lt_of_le_of_lt (b := PageQuery.maxLimit.toNat) ?_ (by decide))
  rw [MemoryStore.scan, MemoryModel.scan]
  refine (List.length_filterMap_le _ _).trans ((List.length_take_le _ _).trans ?_)
  exact UInt64.le_iff_toNat_le.mp hlimit

theorem TableStore.Represents.pagedAs {tables : TableStore} {store : MemoryStore}
    (h : tables.Represents store) : PagedAs tables store where
  scan_eq := fun m scan hlimit => h.scan_eq_of_le m scan (UInt64.le_of_eq hlimit)
  past_le := fun m scan => by
    rw [MemoryModel.past, ← h.places_selected m scan, List.length_map]
    exact tables.length_selectEntries_le m scan

namespace Entity

/-! ## Page by page -/

section

variable {α : Type} [Entity α] [RoundTrip α] [SinglyIndexed α] {index : IndexDef}
variable {partition cursor : Option String} {memory : MemoryStore} {items : List α}
variable {σ : Type} [KeyedStore σ] {world : World σ}

/-- From a cursor on, all that is ahead is found. -/
theorem run_listFrom (hpaged : PagedAs world.store memory) (hwf : memory.WF)
    (htyped : Typed α memory)
    (huntied : ((inPartition α index partition memory).map (sortKey index)).Nodup)
    {pages : Nat} (found : List α) (hahead : Ahead index partition memory cursor items)
    (hpages : items.length < pages) :
    (listFrom index partition pages found cursor).run World.answer world =
      (.ok (found ++ items), world) := by
  induction pages generalizing found cursor items with
  | zero => exact absurd hpages (Nat.not_lt_zero _)
  | succ pages ih =>
      rcases exists_ahead index partition hwf htyped cursor with ⟨all, hall, hscan⟩
      obtain rfl := hall.unique hahead
      have hbatch : (scan α index partition PageQuery.maxLimit cursor).run World.answer world =
          (.ok (all.take PageQuery.maxLimit.toNat), world) :=
        run_scan_of_scan ((hpaged.scan_eq _ _ rfl).trans (congrArg Except.ok (hscan _)))
      change ((scan α index partition PageQuery.maxLimit cursor).bind _).run World.answer world = _
      rw [Program.run_bind, hbatch]
      dsimp only
      rcases Nat.lt_or_ge all.length PageQuery.maxLimit.toNat with hshort | hfull
      · rw [List.take_of_length_le hshort.le, if_pos hshort]
        rfl
      · -- The next page starts behind the last value, and what is ahead of it is the rest.
        rcases exists_full_page (by decide) hfull with ⟨front, last, rest, rfl, hlength, hpage⟩
        have hnext : (front ++ [last]).getLast?.map (sortKey index) =
            some (sortKey index last) := by
          rw [List.getLast?_concat, Option.map_some]
        have hrest := ih (found ++ (front ++ [last]))
          (hahead.next (hahead.sorted huntied)) (by
            rw [List.length_append, List.length_cons] at hpages
            omega)
        rw [hpage, if_neg (by rw [List.length_append, List.length_singleton, hlength]; omega),
          hnext, hrest]
        simp

/-- The values of a partition are listed, each once and in order. -/
theorem run_list (hpaged : PagedAs world.store memory) (hwf : memory.WF) (htyped : Typed α memory)
    (huntied : ((inPartition α index partition memory).map (sortKey index)).Nodup)
    (hahead : Ahead index partition memory none items) :
    (list α index partition).run World.answer world = (.ok items, world) := by
  have hextent : items.length ≤ KeyedStore.extent world.store (model α) := by
    rw [← List.length_map (placeIn index), hahead.places_eq hwf htyped 0]
    exact hpaged.past_le _ _
  exact run_listFrom hpaged hwf htyped huntied [] hahead (Nat.lt_succ_of_le hextent)

/-- The first of them is found by itself. -/
theorem obtains_first? (hwf : memory.WF) (htyped : Typed α memory)
    (hahead : Ahead index partition memory none items) :
    Program.Obtains (first? α index partition) memory items.head? := by
  rcases exists_ahead index partition hwf htyped none with ⟨all, hall, hscan⟩
  obtain rfl := hall.unique hahead
  have hread : Program.Obtains (scan α index partition 1 none) memory (all.take 1) :=
    fun _ _ => run_scan_of_scan (congrArg Except.ok (hscan 1))
  refine hread.bind ?_
  rw [List.head?_take, if_neg one_ne_zero]
  exact Program.obtains_pure memory _

end

/-! ## Records as their indexers write them -/

section

variable {kind : RecordKind} {memory : MemoryStore}

/-- Where no two values share an entry, no two of a partition share a sort key. -/
theorem untied_of_derived (htyped : Typed kind.Value memory)
    (hderived : ∀ a : kind.Value, Held memory a → kind.Derived a) (hapart : kind.Apart memory)
    (index : IndexDef) (partition : Option String) :
    ((inPartition kind.Value index partition memory).map (sortKey index)).Nodup := by
  refine List.Nodup.map_on (fun a ha b hb hsort => ?_) (nodup_inPartition htyped)
  rcases (mem_inPartition htyped a).mp ha with ⟨hheld, sort, hentry⟩
  rcases (mem_inPartition htyped b).mp hb with ⟨hheld', sort', hentry'⟩
  rw [← sortKey_of_entry hentry, hsort, sortKey_of_entry hentry'] at hentry
  exact eq_of_entry htyped hderived hapart hheld hheld' hentry hentry'

end

end Entity

/-- What is held of a kind after a change was put by it, or was held before. -/
theorem Edit.held_made {kind : RecordKind} {p : kind.Value → Prop} {store : MemoryStore}
    {edit : Edit} (hstore : ∀ a : kind.Value, Entity.Held store a → p a)
    (hedit : ∀ value, edit = .put kind value → p value) (a : kind.Value)
    (ha : Entity.Held (made store edit) a) : p a := by
  cases edit with
  | put other value =>
      by_cases hkind : other = kind
      · subst hkind
        rcases Entity.held_saved_iff.mp ha with ⟨hheld, -⟩ | rfl
        · exact hstore a hheld
        · exact hedit a rfl
      · refine hstore a ((Entity.held_congr (fun k => ?_) a).mp ha)
        rw [made, Entity.find_saved, if_neg fun hc => hkind (RecordKind.eq_of_model_eq hc.1.symm)]
  | delete other key =>
      refine hstore a ?_
      rw [Entity.Held, made, Entity.find_removed] at ha
      split at ha
      · exact absurd ha (by simp)
      · exact ha

/-- So what is held after some changes was put, or it was held before them. -/
theorem Edit.put_or_held (kind : RecordKind) {a : kind.Value} {edits : List Edit}
    {store : MemoryStore} (ha : Entity.Held (edits.foldl made store) a) :
    .put kind a ∈ edits ∨ Entity.Held store a :=
  List.foldlRecOn (motive := fun after => ∀ a : kind.Value, Entity.Held after a →
    .put kind a ∈ edits ∨ Entity.Held store a) edits made (fun _ => Or.inr)
      (fun _ hafter _ hedit => held_made hafter fun _ hput => Or.inl (hput ▸ hedit)) a ha

/-- What holds of all that is put and of all that was held before is so of all that is held. -/
theorem Edit.held_applied {kind : RecordKind} {p : kind.Value → Prop} {edits : List Edit}
    (h : ∀ value, .put kind value ∈ edits → p value) {world : World MemoryStore}
    (hstart : ∀ a : kind.Value, Entity.Held world.store a → p a) (a : kind.Value)
    (ha : Entity.Held (applied edits world).store a) : p a := by
  rw [applied_eq] at ha
  exact (put_or_held kind ha).elim (h a) (hstart a)

open Entity in
/-- **A partition is drained.** Whatever records of whatever kinds were put into a store and
    deleted from it, as long as those of a kind have the ids and keys that their indexers give
    them, and blocks and transactions have places of their own: no two different values share
    an index entry, and so each value of a partition is listed once and in the order of the
    index, however many there are. This is so of both stores; of the one in tables if the
    texts in it are read as the values that were put. -/
theorem list_drains_partition (kind : RecordKind) (index : IndexDef) (partition : Option String)
    (edits : List Edit) (source : MemorySource) (now : Int64)
    (hderived : ∀ value, .put kind value ∈ edits → kind.Derived value)
    (hapart : kind.Apart
      (Edit.reached edits (⟨MemoryStore.empty, source, now⟩ : World MemoryStore)).store) :
    let memory := Edit.reached edits (⟨MemoryStore.empty, source, now⟩ : World MemoryStore)
    let tables := Edit.reached edits (⟨TableStore.empty, source, now⟩ : World TableStore)
    (∀ a b : kind.Value, Held memory.store a → Held memory.store b →
      ∀ entry ∈ entries a, entry ∈ entries b → a = b) ∧
    ∃ items : List kind.Value, items.Nodup ∧
      (∀ a, a ∈ items ↔ Listed index (partition.getD "") memory.store a) ∧
      (items.map (sortKey index)).Pairwise index.direction.Precedes ∧
      (list kind.Value index partition).run World.answer memory = (.ok items, memory) ∧
      ((∀ edit ∈ edits, edit.Readable) →
        (list kind.Value index partition).run World.answer tables = (.ok items, tables)) := by
  intro memory tables
  have hwf : memory.store.WF := Edit.wf_applied edits MemoryStore.wf_empty
  have htyped : Typed kind.Value memory.store := Edit.typed_applied edits (by simp [Typed])
  have hheld : ∀ a : kind.Value, Held memory.store a → kind.Derived a :=
    Edit.held_applied hderived fun a ha => by simp [Held] at ha
  have huntied := untied_of_derived htyped hheld hapart index partition
  refine ⟨fun a b ha hb entry => eq_of_entry htyped hheld hapart ha hb, ?_⟩
  rcases Entity.exists_ahead index partition hwf htyped none with ⟨items, hahead, -⟩
  refine ⟨items, hahead.nodup, hahead.mem_iff_listed htyped,
    List.pairwise_map.mpr (hahead.sorted huntied),
    run_list memory.store.pagedAs hwf htyped huntied hahead, fun hreads => ?_⟩
  have hstep : tables.store.Represents memory.store := Edit.represents_reached hreads .empty
  exact run_list hstep.pagedAs hwf htyped huntied hahead

/-! Of the transactions of a block one is at the position of another for a while, and so is one
that is deleted again. All others are put from the last to the first. They fill two pages, so
that a third is asked for, and it is empty. -/

namespace Reordered

open Entity

/-- A transaction of which nothing matters but its number and its place. -/
def numbered (i : Nat) (order : UInt32) : TransactionRecord where
  txid := toString i
  order := order
  block := ⟨"b", 7, 0, 0⟩
  hash := ""
  version := 0
  size := 0
  vsize := 0
  weight := 0
  lockTime := 0
  inputCount := 0
  outputCount := 0
  totalOutput := 0

def put (record : TransactionRecord) : Edit := .put .transaction record

/-- The transactions that are left in the end, in their order. -/
def inOrder : List TransactionRecord :=
  (List.range 400).map fun i => numbered i (UInt32.ofNat i)

/-- What is done to the store. -/
def edits : List Edit :=
  [put (numbered 400 2), put (numbered 0 1)] ++
    (inOrder.reverse.map put ++ [.delete .transaction (toString 400)])

/-- The store in the end. -/
def store : MemoryStore := edits.foldl Edit.made MemoryStore.empty

theorem mem_inOrder {a : TransactionRecord} :
    a ∈ inOrder ↔ ∃ i < 400, numbered i (UInt32.ofNat i) = a := by
  simp only [inOrder, List.mem_map, List.mem_range]

theorem mem_edits {edit : Edit} : edit ∈ edits ↔
    (edit = put (numbered 400 2) ∨ edit = put (numbered 0 1)) ∨
      (∃ record ∈ inOrder, put record = edit) ∨ edit = .delete .transaction (toString 400) := by
  simp only [edits, List.mem_append, List.mem_cons, List.not_mem_nil, or_false, List.mem_map,
    List.mem_reverse]

theorem readable : ∀ edit ∈ edits, edit.Readable := by
  have hput : ∀ record, (put record).Readable := TransactionRecord.readsBack
  intro edit hedit
  rcases mem_edits.mp hedit with (rfl | rfl) | ⟨record, -, rfl⟩ | rfl
  · exact hput _
  · exact hput _
  · exact hput _
  · trivial

theorem toNat_order {i : Nat} (hi : i < 400) :
    (numbered i (UInt32.ofNat i)).order.toNat = i :=
  UInt32.toNat_ofNat_of_lt' (hi.trans (by decide))

/-- Their sort keys ascend, as their positions do. -/
theorem inOrder_sorted : inOrder.Pairwise fun a b =>
    sortKey TransactionRecord.byBlock a < sortKey TransactionRecord.byBlock b := by
  refine List.pairwise_map.mpr (List.pairwise_lt_range.imp_of_mem fun {i j} hi hj hij => ?_)
  rw [List.mem_range] at hi hj
  refine Text.encodeHeight_lt (UInt32.lt_iff_toNat_lt.mpr ?_)
  rwa [toNat_order hi, toNat_order hj]

/-- They are held in the end, as no two of them have one number. -/
theorem held_of_mem {a : TransactionRecord} (ha : a ∈ inOrder) : Held store a := by
  -- What is put first is put again or deleted, so only what comes behind it counts.
  rw [store, edits, List.foldl_append]
  refine Edit.held_of_put .transaction
    (List.mem_append_left _ (List.mem_map.mpr ⟨a, List.mem_reverse.mpr ha, rfl⟩))
    fun edit hedit hat => ?_
  rcases mem_inOrder.mp ha with ⟨i, hi, rfl⟩
  rcases List.mem_append.mp hedit with hput | hdelete
  · rcases List.mem_map.mp hput with ⟨b, hb, rfl⟩
    rcases mem_inOrder.mp (List.mem_reverse.mp hb) with ⟨j, -, rfl⟩
    rw [Text.toString_injective hat.2]
    rfl
  · obtain rfl := List.mem_singleton.mp hdelete
    exact absurd (Text.toString_injective hat.2) hi.ne

/-- Nothing else is: what was out of place is deleted, or put again in its place. -/
theorem held_iff (a : TransactionRecord) : Held store a ↔ a ∈ inOrder := by
  refine ⟨fun ha => ?_, held_of_mem⟩
  have hput := (Edit.put_or_held .transaction ha).resolve_right (by simp [Held])
  rcases mem_edits.mp hput with (heq | heq) | ⟨record, hrecord, heq⟩ | heq
  · cases heq
    have hdeleted : store.find (model TransactionRecord) (toString 400) = none := by
      rw [store, edits, List.foldl_append, List.foldl_append, List.foldl_cons, List.foldl_nil,
        Edit.made]
      exact (find_removed _ _ _ _).trans (if_pos ⟨rfl, rfl⟩)
    cases hdeleted.symm.trans ha
  · -- A store has one value under a key, and under this one it is the later one.
    cases heq
    have hagain : numbered 0 0 ∈ inOrder := mem_inOrder.mpr ⟨0, by decide, rfl⟩
    exact absurd (ha.eq_of_key (held_of_mem hagain) rfl) (by decide)
  · cases heq
    exact hrecord
  · cases heq

theorem typed : Typed RecordKind.transaction.Value store :=
  List.foldlRecOn (motive := Typed RecordKind.transaction.Value) edits Edit.made
    (by simp [Typed]) fun _ htyped edit _ => Edit.typed_made htyped edit

/-- No two of them have one position. -/
theorem apart : RecordKind.transaction.Apart store := by
  intro a ha b hb _ horder
  rcases mem_inOrder.mp ((held_iff a).mp ((mem_all typed a).mp ha)) with ⟨i, hi, rfl⟩
  rcases mem_inOrder.mp ((held_iff b).mp ((mem_all typed b).mp hb)) with ⟨j, hj, rfl⟩
  rw [← toNat_order hi, horder, toNat_order hj]

/-- They are those of the block. -/
theorem mem_inOrder_iff_listed (a : TransactionRecord) :
    a ∈ inOrder ↔ Listed TransactionRecord.byBlock "b" store a := by
  refine ⟨fun ha => ⟨held_of_mem ha, ?_⟩, fun ha => (held_iff a).mp ha.1⟩
  rcases mem_inOrder.mp ha with ⟨i, -, rfl⟩
  exact ⟨_, List.mem_singleton_self _⟩

end Reordered

open Entity Reordered in
theorem list_drains_partition_reordered :
    (RecordKind.transaction.Apart
        (Edit.reached edits (⟨MemoryStore.empty, ⟨[], []⟩, 0⟩ : World MemoryStore)).store ∧
      ∀ edit ∈ edits, edit.Readable) ∧
    inOrder.length = 2 * PageQuery.maxLimit.toNat ∧
      ((list TransactionRecord TransactionRecord.byBlock (some "b")).run World.answer
        (Edit.reached edits (⟨TableStore.empty, ⟨[], []⟩, 0⟩ : World TableStore))).1 =
          .ok inOrder := by
  have hreached := Edit.store_reached edits ⟨MemoryStore.empty, ⟨[], []⟩, 0⟩
  have hapart : RecordKind.transaction.Apart (Edit.reached edits
      (⟨MemoryStore.empty, ⟨[], []⟩, 0⟩ : World MemoryStore)).store := by
    rw [hreached]
    exact apart
  rcases list_drains_partition .transaction TransactionRecord.byBlock (some "b") edits ⟨[], []⟩ 0
    (fun _ _ => trivial) hapart with ⟨-, items, -, hmem, hsorted, -, htables⟩
  rw [hreached] at hmem
  -- The partition has these values and no others, and there is one order of their sort keys.
  have hahead : Ahead TransactionRecord.byBlock (some "b") store none items :=
    Ahead.of_listed typed (List.pairwise_map.mp hsorted) hmem
  have hitems : items = inOrder :=
    hahead.unique (Ahead.of_listed typed inOrder_sorted mem_inOrder_iff_listed)
  refine ⟨⟨hapart, readable⟩, ?_, ?_⟩
  · rw [inOrder, List.length_map, List.length_range]
    rfl
  · exact (congrArg Prod.fst (htables readable)).trans (congrArg Except.ok hitems)

end ChainIndex
