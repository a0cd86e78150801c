import ChainIndex.Proofs.Store.Contract
import ChainIndex.Store.Keyed

/-!
# Two stores, one behaviour

The store in tables and the store in memory are kept for different reasons and built
differently. One deletes the entries of a record by its key before new ones come in, the
other takes out each place that the old entries name; one shuts out what is not past a
bound by a condition on rows and sorts what is left, the other walks places that are in
order already and drops from the front; one joins entries with records, the other looks
records up; one limits by a signed number, the other by an unsigned one. Whoever calls
them cannot tell.

The argument is a simulation. `TableStore.Represents` says when tables hold what a store in
memory holds, every put and delete keeps it, and under it every look-up and scan gives the
same. Rows are compared with places, and both lists of a scan are in the order of places
without one standing twice, so they are one list as soon as they have the same members.

A record passes through text on its way into the tables and out of them, which is no loss
for a value that reads back.

## Main definitions

* `StoreCall`, `StoreReply`: A call to a store and what is said to it.
* `KeyedStore.replies`: What a store says to a list of calls.
* `Json.ReadsBack`: The text of a value stands for the value.
* `StoreReply.Fits`: A reply is no longer than a list of values can be.
* `TableStore.Represents`: The tables hold what a store in memory holds.

## Theorems

* `Represents.put`, `Represents.delete`: A write keeps the tables in step.
* `Represents.get_eq`, `Represents.scan_eq`: Tables in step are read alike.
* `replies_of_tables`: The two stores say the same to every list of calls.
-/

namespace ChainIndex

/-- A call to a store. -/
inductive StoreCall where
  /-- Puts a record in place of one with the same key. -/
  | put (model : String) (record : Record)
  /-- Deletes a record, if it is there. -/
  | delete (model key : String)
  /-- Asks for the value under a key. -/
  | get (model key : String)
  /-- Asks for the values that a scan finds. -/
  | scan (model : String) (scan : Scan)

/-- What a store says to a call. -/
inductive StoreReply where
  /-- A write was made. -/
  | done
  /-- The value under a key, if there is one. -/
  | value (found : Except Error (Option Json))
  /-- The values that a scan found. -/
  | values (found : Except Error (List Json))
deriving DecidableEq

/-- No list of values has 2 ^ 63 of them: it would not fit into memory that is addressed by
    64 bits. -/
def StoreReply.Fits : StoreReply → Prop
  | .values (.ok found) => found.length < Nat.pow 2 63
  | _ => True

instance : DecidablePred StoreReply.Fits := fun reply =>
  match reply with
  | .values (.ok found) => inferInstanceAs (Decidable (found.length < Nat.pow 2 63))
  | .values (.error _) | .value _ | .done => inferInstanceAs (Decidable True)

/-- The text of a value stands for the value. -/
def Json.ReadsBack (value : Json) : Prop :=
  TableStore.decodeText value.compact = .ok value

instance (value : Json) : Decidable value.ReadsBack :=
  inferInstanceAs (Decidable (TableStore.decodeText value.compact = .ok value))

/-- Whatever the call puts reads back. -/
def StoreCall.Readable : StoreCall → Prop
  | .put _ record => record.value.ReadsBack
  | _ => True

instance : DecidablePred StoreCall.Readable := fun call =>
  match call with
  | .put _ record => inferInstanceAs (Decidable record.value.ReadsBack)
  | .delete .. | .get .. | .scan .. => inferInstanceAs (Decidable True)

namespace KeyedStore

variable {σ : Type} [KeyedStore σ]

/-- What a store says to a call, and the store after it. -/
def ask (store : σ) : StoreCall → StoreReply × σ
  | .put model record => (.done, put store model record)
  | .delete model key => (.done, delete store model key)
  | .get model key => (.value (get store model key), store)
  | .scan model scan => (.values (KeyedStore.scan store model scan), store)

/-- What a store says to each call of a list. -/
def replies (store : σ) : List StoreCall → List StoreReply
  | [] => []
  | call :: calls => (ask store call).1 :: replies (ask store call).2 calls

end KeyedStore

/-- Where the record of a row stands. -/
def EntryRow.place (row : EntryRow) : Place := ⟨row.sort, row.key⟩

namespace TableStore

/-! ## What the statements do -/

@[simp]
theorem selectText_deleteEntries (tables : TableStore) (model key other name : String) :
    (tables.deleteEntries model key).selectText other name = tables.selectText other name :=
  rfl

@[simp]
theorem selectText_replaceEntry (tables : TableStore) (row : EntryRow) (model key : String) :
    (tables.replaceEntry row).selectText model key = tables.selectText model key :=
  rfl

theorem selectText_deleteRecord (tables : TableStore) (model key other name : String) :
    (tables.deleteRecord model key).selectText other name =
      if other = model ∧ name = key then none else tables.selectText other name := by
  unfold selectText deleteRecord
  rw [List.find?_filter]
  by_cases heq : other = model ∧ name = key
  · rw [if_pos heq, heq.1, heq.2, Option.map_eq_none_iff, List.find?_eq_none]
    intro row _
    cases row.model == model && row.key == key <;> decide
  · -- A row that is deleted is not the one that is looked for.
    rw [if_neg heq]
    congr 2
    funext row
    by_cases hrow : row.model = other ∧ row.key = name
    · simpa [hrow] using not_and_or.mp heq
    · have hskip : (row.model == other && row.key == name) = false := by
        rw [← Bool.not_eq_true, Bool.and_eq_true, beq_iff_eq, beq_iff_eq]
        exact hrow
      rw [hskip]
      simp

theorem selectText_replaceRecord (tables : TableStore) (row : RecordRow)
    (model key : String) :
    (tables.replaceRecord row).selectText model key =
      if model = row.model ∧ key = row.key then some row.text
      else tables.selectText model key := by
  have hcleared := selectText_deleteRecord tables row.model row.key model key
  unfold selectText at hcleared ⊢
  rw [replaceRecord, List.find?_append, Option.map_or, hcleared]
  by_cases heq : model = row.model ∧ key = row.key
  · rw [if_pos heq, if_pos heq, heq.1, heq.2]
    simp
  · have hother : ¬ (row.model = model ∧ row.key = key) := by
      rw [eq_comm, @eq_comm _ row.key]
      exact heq
    rw [if_neg heq, if_neg heq, List.find?_singleton, if_neg (by simpa using hother),
      Option.map_none, Option.or_none]

theorem mem_deleteEntries (tables : TableStore) (model key : String) (row : EntryRow) :
    row ∈ (tables.deleteEntries model key).entries ↔
      row ∈ tables.entries ∧ ¬ (row.model = model ∧ row.key = key) := by
  rw [deleteEntries, List.mem_filter, Bool.not_eq_true', ← Bool.not_eq_true, Bool.and_eq_true,
    beq_iff_eq, beq_iff_eq]

theorem mem_replaceEntry (tables : TableStore) (row other : EntryRow) :
    other ∈ (tables.replaceEntry row).entries ↔ other ∈ tables.entries ∨ other = row := by
  by_cases heq : other = row
  · simp [replaceEntry, heq]
  · simp [replaceEntry, heq]

theorem nodup_replaceEntry {tables : TableStore} (h : tables.entries.Nodup) (row : EntryRow) :
    (tables.replaceEntry row).entries.Nodup := by
  refine List.nodup_append.mpr ⟨h.filter _, by simp, ?_⟩
  intro other hother row' hrow heq
  rw [heq, List.mem_singleton.mp hrow] at hother
  simp at hother

/-- The row of an entry of a record. -/
def entryRow (model key : String) (entry : IndexEntry) : EntryRow :=
  ⟨model, entry.index, entry.partition, entry.sort, key⟩

/-- Inserts the entries of a record. -/
def insertEntries (tables : TableStore) (model key : String) (entries : List IndexEntry) :
    TableStore :=
  entries.foldl (fun tables entry => tables.replaceEntry (entryRow model key entry)) tables

theorem put_eq (tables : TableStore) (model : String) (record : Record) :
    tables.put model record =
      ((tables.deleteEntries model record.key).replaceRecord
        ⟨model, record.key, record.value.compact⟩).insertEntries model record.key
          record.entries :=
  rfl

theorem records_insertEntries (model key : String) (entries : List IndexEntry) :
    ∀ tables : TableStore, (tables.insertEntries model key entries).records = tables.records := by
  induction entries with
  | nil => exact fun _ => rfl
  | cons entry rest ih => exact fun tables => ih (tables.replaceEntry (entryRow model key entry))

theorem mem_insertEntries (model key : String) (row : EntryRow) (entries : List IndexEntry) :
    ∀ tables : TableStore, row ∈ (tables.insertEntries model key entries).entries ↔
      row ∈ tables.entries ∨ ∃ entry ∈ entries, row = entryRow model key entry := by
  induction entries with
  | nil => simp [insertEntries]
  | cons entry rest ih =>
      intro tables
      rw [insertEntries, List.foldl_cons, ← insertEntries, ih, mem_replaceEntry, or_assoc]
      simp

theorem nodup_insertEntries (model key : String) (entries : List IndexEntry)
    {tables : TableStore} (h : tables.entries.Nodup) :
    (tables.insertEntries model key entries).entries.Nodup :=
  List.foldlRecOn (motive := fun tables : TableStore => tables.entries.Nodup) entries _ h
    fun _ hrows entry _ => nodup_replaceEntry hrows (entryRow model key entry)

theorem selectText_put (tables : TableStore) (model : String) (record : Record)
    (other name : String) :
    (tables.put model record).selectText other name =
      if other = model ∧ name = record.key then some record.value.compact
      else tables.selectText other name := by
  rw [put_eq, selectText, records_insertEntries, ← selectText, selectText_replaceRecord,
    selectText_deleteEntries]

/-- Having an entry's row is having the entry, under the key of the record. -/
theorem exists_entryRow_iff (model key : String) (entries : List IndexEntry) (row : EntryRow) :
    (∃ entry ∈ entries, row = entryRow model key entry) ↔
      (row.model = model ∧ row.key = key) ∧
        (⟨row.index, row.partition, row.sort⟩ : IndexEntry) ∈ entries := by
  constructor
  · rintro ⟨entry, hmem, rfl⟩
    exact ⟨⟨rfl, rfl⟩, hmem⟩
  · rintro ⟨⟨rfl, rfl⟩, hmem⟩
    exact ⟨_, hmem, rfl⟩

theorem mem_entries_put (tables : TableStore) (model : String) (record : Record)
    (row : EntryRow) :
    row ∈ (tables.put model record).entries ↔
      if row.model = model ∧ row.key = record.key then
        (⟨row.index, row.partition, row.sort⟩ : IndexEntry) ∈ record.entries
      else row ∈ tables.entries := by
  rw [put_eq, mem_insertEntries, exists_entryRow_iff,
    show row ∈ ((tables.deleteEntries model record.key).replaceRecord
        ⟨model, record.key, record.value.compact⟩).entries ↔
      row ∈ (tables.deleteEntries model record.key).entries from Iff.rfl, mem_deleteEntries]
  by_cases heq : row.model = model ∧ row.key = record.key
  · simp [heq]
  · simp [heq]

/-! ## The order of rows -/

theorem notAfter_iff (a b : EntryRow) :
    EntryRow.notAfter a b = true ↔ a.sort < b.sort ∨ a.sort = b.sort ∧ a.key ≤ b.key := by
  simp [EntryRow.notAfter]

theorem notAfter_trans (a b c : EntryRow) (hab : EntryRow.notAfter a b = true)
    (hbc : EntryRow.notAfter b c = true) : EntryRow.notAfter a c = true := by
  rw [notAfter_iff] at hab hbc ⊢
  rcases hab with hsort | ⟨heq, hkey⟩
  · rcases hbc with hsort' | ⟨heq', _⟩
    · exact Or.inl (String.lt_trans hsort hsort')
    · exact Or.inl (heq' ▸ hsort)
  · rcases hbc with hsort' | ⟨heq', hkey'⟩
    · exact Or.inl (heq ▸ hsort')
    · exact Or.inr ⟨heq.trans heq', String.le_trans hkey hkey'⟩

theorem notAfter_total (a b : EntryRow) :
    (EntryRow.notAfter a b || EntryRow.notAfter b a) = true := by
  rw [Bool.or_eq_true, notAfter_iff, notAfter_iff]
  by_cases hlt : a.sort < b.sort
  · exact Or.inl (Or.inl hlt)
  · by_cases hgt : b.sort < a.sort
    · exact Or.inr (Or.inl hgt)
    · have heq : a.sort = b.sort :=
        String.le_antisymm (String.not_lt.mp hgt) (String.not_lt.mp hlt)
      rcases String.le_total a.key b.key with hle | hge
      · exact Or.inl (Or.inr ⟨heq, hle⟩)
      · exact Or.inr (Or.inr ⟨heq.symm, hge⟩)

theorem before_of_notAfter {a b : EntryRow} (h : EntryRow.notAfter a b = true)
    (hne : a.place ≠ b.place) : Direction.asc.Before a.place b.place := by
  rw [notAfter_iff] at h
  rcases h with hsort | ⟨heq, hkey⟩
  · exact Or.inl hsort
  · refine Or.inr ⟨heq, Std.lt_of_le_of_ne hkey fun hkeys => hne ?_⟩
    exact congrArg₂ Place.mk heq hkeys

/-- Does a scan select a row? -/
def Selects (model : String) (scan : Scan) (row : EntryRow) : Prop :=
  row.model = model ∧ row.index = scan.index ∧ row.partition = scan.partitionKey ∧
    scan.admitted row.sort = true

theorem mem_selectEntries (tables : TableStore) (model : String) (scan : Scan)
    (row : EntryRow) :
    row ∈ tables.selectEntries model scan ↔ row ∈ tables.entries ∧ Selects model scan row := by
  unfold selectEntries Selects
  cases scan.direction <;> simp [List.mem_mergeSort, and_assoc]

/-- The rows that a scan selects differ in their places. -/
theorem place_ne_of_ne {model : String} {scan : Scan} {a b : EntryRow}
    (ha : Selects model scan a) (hb : Selects model scan b) (hne : a ≠ b) :
    a.place ≠ b.place := by
  intro hplace
  rcases ha with ⟨hmodel, hindex, hpartition, _⟩
  rcases hb with ⟨hmodel', hindex', hpartition', _⟩
  injection hplace with hsort hkey
  cases a
  cases b
  simp_all

/-- The rows that a scan selects are in the order of their places. -/
theorem selectEntries_pairwise {tables : TableStore} (h : tables.entries.Nodup)
    (model : String) (scan : Scan) :
    ((tables.selectEntries model scan).map EntryRow.place).Pairwise scan.direction.Before := by
  have hordered : (tables.selectEntries model scan).Pairwise fun a b =>
      a.place ≠ b.place → scan.direction.Before a.place b.place := by
    unfold selectEntries
    cases scan.direction with
    | asc =>
        exact (List.pairwise_mergeSort notAfter_trans notAfter_total _).imp before_of_notAfter
    | desc =>
        refine (List.pairwise_mergeSort (fun a b c hab hbc => notAfter_trans c b a hbc hab)
          (fun a b => notAfter_total b a) _).imp fun {a b} hnot hne => ?_
        rcases before_of_notAfter hnot hne.symm with hsort | ⟨heq, hkey⟩
        · exact Or.inl hsort
        · exact Or.inr ⟨heq.symm, hkey⟩
  have hnodup : (tables.selectEntries model scan).Nodup := by
    unfold selectEntries
    cases scan.direction
    · exact (List.mergeSort_perm _ _).nodup_iff.mpr (h.filter _)
    · exact (List.mergeSort_perm _ _).nodup_iff.mpr (h.filter _)
  refine List.pairwise_map.mpr (hordered.imp₂ (fun a b hbefore hne => hbefore hne)
    (hnodup.imp_of_mem fun ha hb hne => ?_))
  exact place_ne_of_ne ((mem_selectEntries ..).mp ha).2 ((mem_selectEntries ..).mp hb).2 hne

/-! ## Text -/

/-- Texts of values that read back are read as the values. -/
theorem mapM_decodeText {values : List Json} (h : ∀ value ∈ values, value.ReadsBack) :
    (values.map Json.compact).mapM decodeText = .ok values := by
  induction values with
  | nil => rfl
  | cons value rest ih =>
      rw [List.forall_mem_cons] at h
      have hvalue : decodeText value.compact = .ok value := h.1
      rw [List.map_cons, List.mapM_cons, hvalue, ih h.2]
      rfl

/-! ## Tables in step with a store in memory -/

/-- The tables hold what a store in memory holds: the text of each of its values, which
    reads back, and a row for each entry of its records, each row once. -/
structure Represents (tables : TableStore) (store : MemoryStore) : Prop where
  wf : store.WF
  text : ∀ model key, tables.selectText model key =
    (store.find model key).map fun stored => stored.1.compact
  readable : ∀ model key stored, store.find model key = some stored → stored.1.ReadsBack
  entry : ∀ row : EntryRow, row ∈ tables.entries ↔
    ∃ stored, store.find row.model row.key = some stored ∧
      (⟨row.index, row.partition, row.sort⟩ : IndexEntry) ∈ stored.2
  nodup : tables.entries.Nodup

namespace Represents

variable {tables : TableStore} {store : MemoryStore}

theorem empty : TableStore.empty.Represents .empty where
  wf := MemoryStore.wf_empty
  text := by simp [TableStore.empty, selectText]
  readable := by simp
  entry := by simp [TableStore.empty]
  nodup := List.nodup_nil

theorem put (h : tables.Represents store) (model : String) {record : Record}
    (hreads : record.value.ReadsBack) :
    (tables.put model record).Represents (store.put model record) where
  wf := h.wf.put model record
  text := by
    intro other key
    rw [selectText_put, MemoryStore.find_put, h.text]
    split
    · rfl
    · rfl
  readable := by
    intro other key stored hstored
    rw [MemoryStore.find_put] at hstored
    split at hstored
    · rw [← Option.some.inj hstored]
      exact hreads
    · exact h.readable other key stored hstored
  entry := by
    intro row
    rw [mem_entries_put, MemoryStore.find_put, h.entry]
    split
    · simp
    · rfl
  nodup := by
    rw [put_eq]
    exact nodup_insertEntries _ _ _ (h.nodup.filter _)

theorem delete (h : tables.Represents store) (model key : String) :
    (tables.delete model key).Represents (store.delete model key) where
  wf := h.wf.delete model key
  text := by
    intro other name
    rw [TableStore.delete, selectText_deleteRecord, selectText_deleteEntries,
      MemoryStore.find_delete, h.text]
    split
    · rfl
    · rfl
  readable := by
    intro other name stored hstored
    rw [MemoryStore.find_delete] at hstored
    split at hstored
    · cases hstored
    · exact h.readable other name stored hstored
  entry := by
    intro row
    rw [MemoryStore.find_delete, show row ∈ (tables.delete model key).entries ↔
      row ∈ (tables.deleteEntries model key).entries from Iff.rfl, mem_deleteEntries, h.entry]
    split
    · next heq => simp [heq]
    · next hne => simp [hne]
  nodup := h.nodup.filter _

/-- The same value is under a key. -/
theorem get_eq (h : tables.Represents store) (model key : String) :
    tables.get model key = .ok (store.get model key) := by
  rw [TableStore.get, h.text, MemoryStore.get, ← MemoryStore.find]
  rcases hfind : store.find model key with _ | stored
  · rfl
  · have hreads : decodeText stored.1.compact = .ok stored.1 := h.readable _ _ _ hfind
    simp only [Option.map_some, hreads]
    rfl

/-- The rows that a scan selects stand at the places that it walks past its bound. -/
theorem places_selected (h : tables.Represents store) (model : String) (scan : Scan) :
    (tables.selectEntries model scan).map EntryRow.place =
      ((store.model model).walk scan).filter fun place => scan.admitted place.sort := by
  refine Scan.owed_unique (selectEntries_pairwise h.nodup model scan)
    ((MemoryModel.walk_pairwise _ scan).filter _) fun place => ?_
  rw [List.mem_filter, MemoryModel.mem_walk, (h.wf model).mem_placesAt, List.mem_map]
  constructor
  · rintro ⟨row, hrow, rfl⟩
    rw [mem_selectEntries, h.entry] at hrow
    rcases hrow with ⟨hheld, rfl, hindex, hpartition, hadmitted⟩
    rw [hindex, hpartition] at hheld
    exact ⟨hheld, hadmitted⟩
  · rintro ⟨hheld, hadmitted⟩
    refine ⟨⟨model, scan.index, scan.partitionKey, place.sort, place.key⟩, ?_, rfl⟩
    rw [mem_selectEntries, h.entry]
    exact ⟨hheld, rfl, rfl, rfl, hadmitted⟩

/-- What a scan of the store in memory finds, before it is limited. -/
theorem exists_values (h : tables.Represents store) (model : String) (scan : Scan) :
    ∃ values : List Json, (∀ value ∈ values, value.ReadsBack) ∧
      store.scan model scan = values.take scan.limit.toNat ∧
      (tables.selectEntries model scan).filterMap
        (fun row => tables.selectText row.model row.key) = values.map Json.compact := by
  let places := ((store.model model).walk scan).filter fun place => scan.admitted place.sort
  let value : Place → Option Json := fun place => (store.find model place.key).map Prod.fst
  have hheld : ∀ place ∈ places, (value place).isSome := by
    intro place hplace
    rw [List.mem_filter, MemoryModel.mem_walk, (h.wf model).mem_placesAt] at hplace
    rcases hplace.1 with ⟨stored, hstored, _⟩
    simp [value, MemoryStore.find, hstored]
  refine ⟨places.filterMap value, fun found hfound => ?_, ?_, ?_⟩
  · rcases List.mem_filterMap.mp hfound with ⟨place, _, hplace⟩
    rcases Option.map_eq_some_iff.mp hplace with ⟨stored, hstored, rfl⟩
    exact h.readable _ _ _ hstored
  · -- No place is without its record, so the limit cuts values where it cuts places.
    rw [MemoryStore.scan, MemoryModel.scan,
      MemoryModel.past_eq_filter (MemoryModel.walk_pairwise _ scan)]
    refine List.map_injective_iff.mpr (fun _ _ => Option.some.inj) ?_
    rw [List.map_take, map_some_filterMap hheld]
    refine (map_some_filterMap fun place hplace => ?_).trans List.map_take
    exact hheld place (List.mem_of_mem_take hplace)
  · have hrows : (tables.selectEntries model scan).filterMap
        (fun row => tables.selectText row.model row.key) =
          ((tables.selectEntries model scan).map EntryRow.place).filterMap
            fun place => (value place).map Json.compact := by
      rw [List.filterMap_map]
      refine List.filterMap_congr fun row hrow => ?_
      rw [mem_selectEntries] at hrow
      rw [h.text, hrow.2.1]
      simp [value, EntryRow.place, Function.comp_def]
    rw [hrows, h.places_selected model scan, List.map_filterMap]

/-- A scan finds the same values, unless there are more than a list can hold. -/
theorem scan_eq (h : tables.Represents store) (model : String) (scan : Scan)
    (hfits : (store.scan model scan).length < Nat.pow 2 63) :
    tables.scan model scan = .ok (store.scan model scan) := by
  rcases h.exists_values model scan with ⟨values, hreads, hmemory, htables⟩
  have hlimited : limited scan.limit (values.map Json.compact) =
      (values.take scan.limit.toNat).map Json.compact := by
    unfold limited
    split
    · exact List.map_take.symm
    · next hlimit =>
        -- A negative limit cuts nothing off, and as a limit without sign it is too great to.
        rw [hmemory, List.length_take] at hfits
        rw [List.take_of_length_le (by omega)]
  rw [TableStore.scan, htables, hlimited, hmemory]
  exact mapM_decodeText fun value hvalue => hreads value (List.mem_of_mem_take hvalue)

open KeyedStore in
/-- One call is answered alike, and the tables stay in step. -/
theorem ask_eq (h : tables.Represents store) (call : StoreCall) (hreads : call.Readable)
    (hfits : (ask store call).1.Fits) :
    (ask tables call).1 = (ask store call).1 ∧
      (ask tables call).2.Represents (ask store call).2 := by
  cases call with
  | put model record => exact ⟨rfl, h.put model hreads⟩
  | delete model key => exact ⟨rfl, h.delete model key⟩
  | get model key => exact ⟨congrArg StoreReply.value (h.get_eq model key), h⟩
  | scan model scan => exact ⟨congrArg StoreReply.values (h.scan_eq model scan hfits), h⟩

open KeyedStore in
/-- Every list of calls is answered alike. -/
theorem replies_eq (calls : List StoreCall) :
    ∀ {tables : TableStore} {store : MemoryStore}, tables.Represents store →
      (∀ call ∈ calls, call.Readable) → (∀ reply ∈ replies store calls, reply.Fits) →
      replies tables calls = replies store calls := by
  induction calls with
  | nil => exact fun _ _ _ => rfl
  | cons call calls ih =>
      intro tables store h hreads hfits
      rw [List.forall_mem_cons] at hreads
      rw [replies, List.forall_mem_cons] at hfits
      rcases h.ask_eq call hreads.1 hfits.1 with ⟨hreply, hnext⟩
      rw [replies, replies, hreply, ih hnext hreads.2 hfits.2]

end Represents

end TableStore

/-- The store in tables and the store in memory say the same to every list of calls that
    starts without records. What is put has to read back from its text, and a scan that
    finds more values than a list can hold has no reply. -/
theorem replies_of_tables (calls : List StoreCall)
    (hreads : ∀ call ∈ calls, call.Readable)
    (hfits : ∀ reply ∈ KeyedStore.replies MemoryStore.empty calls, reply.Fits) :
    KeyedStore.replies TableStore.empty calls = KeyedStore.replies MemoryStore.empty calls :=
  TableStore.Represents.replies_eq calls .empty hreads hfits

/-- Two records that share a place's sort key, one of which leaves the partition, a record
    that is deleted, and scans with the greatest limit there is and with the least. -/
def StoreCall.rehearsal : List StoreCall :=
  let sorted (sort : String) : IndexEntry := ⟨"by_sort", "p", sort⟩
  let scan (direction : Direction) (limit : UInt64) (bound : Option String) : Scan :=
    ⟨"by_sort", some "p", direction, limit, bound⟩
  [ .put "m" ⟨"a", .int 1, [sorted "1"]⟩,
    .put "m" ⟨"b", .object [("n", .string "two")], [sorted "1", ⟨"by_sort", "q", "5"⟩]⟩,
    .put "m" ⟨"c", .int 3, [sorted "2"]⟩,
    .scan "m" (scan .desc 0xffffffffffffffff none),
    .scan "m" (scan .asc 2 none),
    .put "m" ⟨"b", .int 4, [⟨"by_sort", "q", "4"⟩]⟩,
    .scan "m" (scan .asc 50 none),
    .scan "m" (scan .asc 50 (some "1")),
    .delete "m" "a",
    .delete "m" "a",
    .get "m" "a",
    .get "m" "b",
    .scan "m" (scan .desc 0 none) ]

theorem replies_of_rehearsal :
    (∀ call ∈ StoreCall.rehearsal, call.Readable) ∧
      (∀ reply ∈ KeyedStore.replies MemoryStore.empty StoreCall.rehearsal, reply.Fits) ∧
      KeyedStore.replies TableStore.empty StoreCall.rehearsal =
        [.done, .done, .done,
          .values (.ok [.int 3, .object [("n", .string "two")], .int 1]),
          .values (.ok [.int 1, .object [("n", .string "two")]]),
          .done, .values (.ok [.int 1, .int 3]), .values (.ok [.int 3]),
          .done, .done, .value (.ok none), .value (.ok (some (.int 4))),
          .values (.ok [])] := by
  have hreads : ∀ call ∈ StoreCall.rehearsal, call.Readable := by decide +kernel
  have hfits : ∀ reply ∈ KeyedStore.replies MemoryStore.empty StoreCall.rehearsal,
      reply.Fits := by decide +kernel
  refine ⟨hreads, hfits, (replies_of_tables StoreCall.rehearsal hreads hfits).trans ?_⟩
  decide +kernel

end ChainIndex
