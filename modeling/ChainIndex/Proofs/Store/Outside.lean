import ChainIndex.Proofs.Program.Makes
import ChainIndex.Proofs.Store.Interchange

/-!
# The rows outside of the ledger

Two databases that differ in what their ledgers say hold the same otherwise. What is put
outside of the ledger is put into those rows, and what is read outside of the ledger is
read from them, so a program that never calls for the ledger can be run on these rows
alone, wherever the blocks come from and whatever the clock says.

What such a program may write is told from the program. A model that none of its calls
write to has the same rows before and after a run.

## Main definitions

* `TableStore.outside`: The rows of all models but the ledger.
* `TableStore.SameModel`: Two tables have the same rows of a model.

## Theorems

* `run_outside`: A program that calls for records only is run on the rows outside alone.
* `run_sameModel`: A model that is not written to keeps its rows.
-/

namespace ChainIndex

open Program

namespace TableStore

/-- The rows of all models but the ledger. -/
def outside (tables : TableStore) : TableStore where
  records := tables.records.filter fun row => row.model != ledgerModel
  entries := tables.entries.filter fun row => row.model != ledgerModel

/-- Two tables have the same rows of a model. -/
structure SameModel (model : String) (tables behind : TableStore) : Prop where
  text : ∀ key, behind.selectText model key = tables.selectText model key
  entry : ∀ row : EntryRow, row.model = model → (row ∈ behind.entries ↔ row ∈ tables.entries)

variable {tables behind after : TableStore} {model : String}

theorem SameModel.refl (model : String) (tables : TableStore) : SameModel model tables tables :=
  ⟨fun _ => rfl, fun _ _ => Iff.rfl⟩

theorem SameModel.trans (h : SameModel model tables behind)
    (hafter : SameModel model behind after) : SameModel model tables after :=
  ⟨fun key => (hafter.text key).trans (h.text key),
    fun row hrow => (hafter.entry row hrow).trans (h.entry row hrow)⟩

/-- A put to another model. -/
theorem sameModel_put (tables : TableStore) {other : String} (hne : other ≠ model)
    (record : Record) : SameModel model tables (tables.put other record) where
  text key := by rw [selectText_put, if_neg fun h => hne h.1.symm]
  entry row hrow := by
    rw [mem_entries_put, if_neg fun h => hne (h.1.symm.trans hrow)]

/-- A delete in another model. -/
theorem sameModel_delete (tables : TableStore) {other : String} (hne : other ≠ model)
    (key : String) : SameModel model tables (tables.delete other key) where
  text name := by
    rw [delete, selectText_deleteRecord, if_neg fun h => hne h.1.symm, selectText_deleteEntries]
  entry row hrow := by
    change row ∈ (tables.deleteEntries other key).entries ↔ _
    rw [mem_deleteEntries]
    exact and_iff_left fun h => hne (h.1.symm.trans hrow)

/-! ## Reading outside of the ledger -/

/-- The rows outside hold whatever is outside. -/
theorem sameModel_outside (tables : TableStore) (hmodel : model ≠ ledgerModel) :
    SameModel model tables.outside tables where
  text key := by
    unfold selectText outside
    rw [List.find?_filter]
    -- A row of this model is not of the ledger, so the filter lets it pass.
    congr 2
    funext row
    by_cases hrow : row.model = model
    · simp [hrow, hmodel, Bool.beq_eq_decide_eq]
    · simp [hrow]
  entry row hrow := by
    unfold outside
    rw [List.mem_filter, hrow]
    simp [hmodel]

theorem get_outside (tables : TableStore) (hmodel : model ≠ ledgerModel) (key : String) :
    tables.outside.get model key = tables.get model key := by
  unfold get
  rw [(tables.sameModel_outside hmodel).text]

/-- Filtering rows of a model among those that are outside is filtering them among all. -/
theorem filter_outside (hmodel : model ≠ ledgerModel) (pick : EntryRow → Bool)
    (hpick : ∀ row, pick row = true → row.model = model) (tables : TableStore) :
    tables.outside.entries.filter pick = tables.entries.filter pick := by
  unfold outside
  rw [List.filter_filter]
  refine List.filter_congr fun row _ => ?_
  by_cases hrow : pick row = true
  · simp [hrow, hpick row hrow, hmodel]
  · simp [hrow]

theorem selectEntries_outside (tables : TableStore) (hmodel : model ≠ ledgerModel) (scan : Scan) :
    tables.outside.selectEntries model scan = tables.selectEntries model scan := by
  unfold selectEntries
  rw [filter_outside hmodel]
  intro row hrow
  simp only [Bool.and_eq_true, beq_iff_eq] at hrow
  exact hrow.1.1.1

theorem scan_outside (tables : TableStore) (hmodel : model ≠ ledgerModel) (scan : Scan) :
    tables.outside.scan model scan = tables.scan model scan := by
  have hjoined : ((tables.selectEntries model scan).filterMap fun row =>
      tables.outside.selectText row.model row.key) =
        (tables.selectEntries model scan).filterMap fun row =>
          tables.selectText row.model row.key := by
    refine List.filterMap_congr fun row hrow => ?_
    rw [((mem_selectEntries ..).mp hrow).2.1, (tables.sameModel_outside hmodel).text]
  rw [TableStore.scan, TableStore.scan, selectEntries_outside tables hmodel, hjoined]

theorem extent_outside (tables : TableStore) (hmodel : model ≠ ledgerModel) :
    tables.outside.extent model = tables.extent model := by
  unfold extent
  rw [filter_outside hmodel _ fun row hrow => beq_iff_eq.mp hrow]

/-! ## Writing outside of the ledger -/

section

variable (tables : TableStore)

/-- Two ways to leave out rows come in either order. -/
theorem outside_deleteEntries (model key : String) :
    (tables.deleteEntries model key).outside = tables.outside.deleteEntries model key := by
  unfold outside deleteEntries
  rw [List.filter_comm]

theorem outside_deleteRecord (model key : String) :
    (tables.deleteRecord model key).outside = tables.outside.deleteRecord model key := by
  unfold outside deleteRecord
  rw [List.filter_comm]

theorem outside_replaceRecord {row : RecordRow} (hmodel : row.model ≠ ledgerModel) :
    (tables.replaceRecord row).outside = tables.outside.replaceRecord row := by
  unfold replaceRecord
  rw [← outside_deleteRecord]
  unfold outside
  simp [hmodel]

theorem outside_replaceEntry {row : EntryRow} (hmodel : row.model ≠ ledgerModel) :
    (tables.replaceEntry row).outside = tables.outside.replaceEntry row := by
  unfold outside replaceEntry
  rw [List.filter_append, List.filter_comm, List.filter_singleton, bne_iff_ne.mpr hmodel]
  rfl

theorem outside_insertEntries (hmodel : model ≠ ledgerModel) (key : String)
    (entries : List IndexEntry) : (tables.insertEntries model key entries).outside =
      tables.outside.insertEntries model key entries := by
  unfold insertEntries
  induction entries generalizing tables with
  | nil => rfl
  | cons entry rest ih =>
      rw [List.foldl_cons, List.foldl_cons, ih, outside_replaceEntry tables hmodel]

/-- What is put outside of the ledger is put into the rows outside. -/
theorem outside_put (hmodel : model ≠ ledgerModel) (record : Record) :
    (tables.put model record).outside = tables.outside.put model record := by
  rw [put_eq, put_eq, outside_insertEntries _ hmodel, outside_replaceRecord _ hmodel,
    outside_deleteEntries]

theorem outside_delete (model key : String) :
    (tables.delete model key).outside = tables.outside.delete model key := by
  rw [delete, delete, outside_deleteRecord, outside_deleteEntries]

omit tables in
/-- Leaving out rows of the ledger changes nothing outside of it. -/
theorem filter_ledger {ρ : Type} (modelOf keyOf : ρ → String) (key : String) (rows : List ρ) :
    (rows.filter fun row => !(modelOf row == ledgerModel && keyOf row == key)).filter
        (fun row => modelOf row != ledgerModel) =
      rows.filter fun row => modelOf row != ledgerModel := by
  rw [List.filter_filter]
  refine List.filter_congr fun row _ => ?_
  by_cases hrow : modelOf row = ledgerModel
  · simp [hrow]
  · simp [hrow]

/-- A put to the ledger, which has no entries, leaves the rows outside as they are. -/
theorem outside_put_ledger {record : Record} (hentries : record.entries = []) :
    (tables.put ledgerModel record).outside = tables.outside := by
  rw [put_eq, hentries]
  unfold insertEntries replaceRecord deleteRecord deleteEntries outside
  rw [List.foldl_nil, List.filter_append, filter_ledger, filter_ledger, List.filter_singleton]
  simp

end

/-! ## Programs -/

section

variable {α : Type} {allowed : Call → Prop} {program : Program α}

/-- A call for records is answered by the rows outside, and changes them alike. -/
theorem answer_outside {c : Call} (hrecords : c.OnRecords) (tables : TableStore)
    (source source' : MemorySource) (now now' : Int64) :
    (World.answer c ⟨tables, source, now⟩).1 = (World.answer c ⟨tables.outside, source', now'⟩).1 ∧
      (World.answer c ⟨tables, source, now⟩).2.store.outside =
        (World.answer c ⟨tables.outside, source', now'⟩).2.store := by
  rcases hrecords with ⟨model, hmodel, hne⟩
  cases c with
  | get other key =>
      rcases hmodel
      exact ⟨(tables.get_outside hne key).symm, rfl⟩
  | put other record =>
      rcases hmodel
      exact ⟨rfl, tables.outside_put hne record⟩
  | delete other key => exact ⟨rfl, tables.outside_delete other key⟩
  | scan other scan =>
      rcases hmodel
      exact ⟨(tables.scan_outside hne scan).symm, rfl⟩
  | extent other =>
      rcases hmodel
      exact ⟨congrArg Except.ok (tables.extent_outside hne).symm, rfl⟩
  | _ => simp only [Call.model?, reduceCtorEq] at hmodel

/-- A program that calls for records only is run on the rows outside of the ledger alone. -/
theorem run_outside (h : Makes allowed program) (tables : TableStore)
    (source source' : MemorySource) (now now' : Int64) :
    (program.run World.answer ⟨tables, source, now⟩).1 =
        (program.run World.answer ⟨tables.outside, source', now'⟩).1 ∧
      (program.run World.answer ⟨tables, source, now⟩).2.store.outside =
        (program.run World.answer ⟨tables.outside, source', now'⟩).2.store := by
  induction program generalizing tables source source' now now' with
  | done result => exact ⟨rfl, rfl⟩
  | call c next ih =>
      rcases h with ⟨hrecords, _, herror, hrest⟩
      -- Both runs get the same answer, so they go on with the same program.
      rcases answer_outside hrecords tables source source' now now' with ⟨hanswer, hstore⟩
      simp only [Program.run]
      rcases hleft : World.answer c ⟨tables, source, now⟩ with ⟨answer, left⟩
      rcases hright : World.answer c ⟨tables.outside, source', now'⟩ with ⟨answer', right⟩
      rw [hleft, hright] at hanswer hstore
      simp only at hanswer hstore
      subst hanswer
      cases answer with
      | error e =>
          rcases herror e with ⟨e', he'⟩
          rw [he']
          exact ⟨rfl, hstore⟩
      | ok answer =>
          have hrun := ih (.ok answer) (hrest answer) left.store left.source right.source left.now
            right.now
          rw [hstore] at hrun
          exact hrun

/-- A model that none of the calls write to keeps its rows. -/
theorem run_sameModel (h : Makes allowed program)
    (hput : ∀ other record, allowed (.put other record) → other ≠ ledgerModel → other ≠ model)
    (hdelete : ∀ other key, allowed (.delete other key) → other ≠ ledgerModel → other ≠ model)
    (world : World TableStore) :
    SameModel model world.store (program.run World.answer world).2.store := by
  induction program generalizing world with
  | done result => exact .refl _ _
  | call c next ih =>
      rcases h with ⟨hrecords, hallowed, herror, hrest⟩
      have hcall : SameModel model world.store (World.answer c world).2.store := by
        rcases hrecords with ⟨called, hcalled, hne⟩
        cases c with
        | put other record =>
            rcases hcalled
            exact sameModel_put world.store (hput _ record hallowed hne) record
        | delete other key =>
            rcases hcalled
            exact sameModel_delete world.store (hdelete _ key hallowed hne) key
        | _ => exact .refl _ _
      refine hcall.trans ?_
      simp only [Program.run]
      rcases World.answer c world with ⟨answer, behind⟩
      cases answer with
      | error e =>
          rcases herror e with ⟨e', he'⟩
          rw [he']
          exact .refl _ _
      | ok answer => exact ih _ (hrest answer) behind

/-- A program that calls for records only leaves the ledger as it is. -/
theorem run_sameLedger (h : Makes allowed program) (world : World TableStore) :
    SameModel ledgerModel world.store (program.run World.answer world).2.store :=
  run_sameModel h (fun _ _ _ hne => hne) (fun _ _ _ hne => hne) world

/-- A model that has none of the keys under which a program writes keeps its rows. -/
theorem run_sameModel_within {keys : String → String → Prop} (h : Makes (Call.Within keys) program)
    (hkeys : ∀ m k, keys m k → m ≠ model) (world : World TableStore) :
    SameModel model world.store (program.run World.answer world).2.store :=
  run_sameModel h (fun other record hallowed _ => hkeys other record.key hallowed.1)
    (fun other key hallowed _ => hkeys other key hallowed) world

end

end TableStore

end ChainIndex
