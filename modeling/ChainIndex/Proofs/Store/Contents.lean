import ChainIndex.Store.Memory
import Mathlib.Tactic.Common

/-!
# What a store in memory holds

A store in memory keeps its records and the places of its indexes side by side. All that
is ever said about a store below is said through `MemoryStore.find`: what is kept under a
key of a model, the value together with its index entries. A put and a delete are then
updates of a function, and the places follow from it.

That the places follow is the invariant `MemoryModel.WF`: a place stands in a partition
exactly if the record under its key has an entry there. It holds of the store without
records and is kept by every put and delete, so it holds of every store there is.

## Main definitions

* `Stored`: What is kept under a key.
* `MemoryStore.find`: What a store keeps under a key of a model.
* `MemoryModel.placesAt`: The places of a partition.
* `MemoryModel.Filled`: No partition is kept without a place.
* `MemoryModel.WF`, `MemoryStore.WF`: The places are those of the records.

## Theorems

* `find_put`, `find_delete`: What a put and a delete do to what is held.
* `WF.put`, `WF.delete`: A put and a delete keep the places in step.
-/

namespace ChainIndex

/-- What is kept under a key: a value and where it stands in the indexes. -/
abbrev Stored := Json × List IndexEntry

instance : Std.LawfulEqOrd Slot where
  eq_of_compare {a b} h := by
    have h' : (compareLex (compareOn Slot.index) (compareOn Slot.partition)) a b = .eq := h
    rw [compareLex_eq_eq] at h'
    rcases a with ⟨i, p⟩
    rcases b with ⟨j, q⟩
    simp only [compareOn, Std.LawfulEqOrd.compare_eq_iff_eq] at h'
    rw [h'.1, h'.2]

instance : Std.LawfulEqOrd Place where
  eq_of_compare {a b} h := by
    have h' : (compareLex (compareOn Place.sort) (compareOn Place.key)) a b = .eq := h
    rw [compareLex_eq_eq] at h'
    rcases a with ⟨s, k⟩
    rcases b with ⟨t, l⟩
    simp only [compareOn, Std.LawfulEqOrd.compare_eq_iff_eq] at h'
    rw [h'.1, h'.2]

/-- The partition that an entry stands in. -/
def IndexEntry.slot (entry : IndexEntry) : Slot := ⟨entry.index, entry.partition⟩

namespace MemoryModel

/-- The places of a partition, in order. -/
def placesAt (model : MemoryModel) (slot : Slot) : Std.TreeSet Place :=
  model.places.getD slot ∅

/-- No partition is kept without a place. -/
def Filled (places : Std.TreeMap Slot (Std.TreeSet Place)) : Prop :=
  ∀ (slot : Slot) (set : Std.TreeSet Place), places[slot]? = some set → set.isEmpty = false

/-- The places are those of the records, and no partition is kept without any. -/
structure WF (model : MemoryModel) : Prop where
  mem_placesAt : ∀ (slot : Slot) (place : Place), place ∈ model.placesAt slot ↔
    ∃ stored, model.records[place.key]? = some stored ∧
      (⟨slot.index, slot.partition, place.sort⟩ : IndexEntry) ∈ stored.2
  nonempty : ∀ (slot : Slot) (set : Std.TreeSet Place), model.places[slot]? = some set →
    set.isEmpty = false

theorem wf_empty : MemoryModel.empty.WF := by
  refine ⟨fun slot place => ?_, fun slot set h => ?_⟩
  · simp [placesAt, MemoryModel.empty]
  · simp [MemoryModel.empty] at h

/-! ## One place -/

theorem removePlace_of_none (places : Std.TreeMap Slot (Std.TreeSet Place)) (key : String)
    (entry : IndexEntry) (h : places[entry.slot]? = none) :
    removePlace places key entry = places := by
  simp only [removePlace]
  rw [show places[(⟨entry.index, entry.partition⟩ : Slot)]? = none from h]

theorem removePlace_of_some (places : Std.TreeMap Slot (Std.TreeSet Place)) (key : String)
    (entry : IndexEntry) (set : Std.TreeSet Place) (h : places[entry.slot]? = some set) :
    removePlace places key entry =
      if (set.erase ⟨entry.sort, key⟩).isEmpty then places.erase entry.slot
      else places.insert entry.slot (set.erase ⟨entry.sort, key⟩) := by
  simp only [removePlace]
  rw [show places[(⟨entry.index, entry.partition⟩ : Slot)]? = some set from h]
  rfl

theorem mem_removePlace (places : Std.TreeMap Slot (Std.TreeSet Place)) (key : String)
    (entry : IndexEntry) (slot : Slot) (place : Place) :
    place ∈ (removePlace places key entry).getD slot ∅ ↔
      place ∈ places.getD slot ∅ ∧ ¬ (entry.slot = slot ∧ place = ⟨entry.sort, key⟩) := by
  rcases hget : places[entry.slot]? with _ | set
  · -- The partition has no place at all, so there is none to take out.
    rw [removePlace_of_none places key entry hget]
    refine ⟨fun h => ⟨h, fun hc => ?_⟩, fun h => h.1⟩
    rw [← hc.1, Std.TreeMap.getD_eq_getD_getElem?, hget] at h
    simp at h
  · rw [removePlace_of_some places key entry set hget]
    by_cases hslot : entry.slot = slot
    · subst hslot
      have hold : places.getD entry.slot ∅ = set := by
        rw [Std.TreeMap.getD_eq_getD_getElem?, hget, Option.getD_some]
      rw [hold]
      by_cases hempty : (set.erase ⟨entry.sort, key⟩).isEmpty = true
      · -- It was the last place of the partition, which is gone with it.
        have hnone := Std.TreeSet.isEmpty_iff_forall_not_mem.mp hempty place
        rw [Std.TreeSet.mem_erase] at hnone
        simp only [hempty, if_true, Std.TreeMap.getD_erase_self, Std.TreeSet.not_mem_emptyc,
          false_iff, true_and, not_and, not_not]
        intro hmem
        by_contra hne
        refine hnone ⟨fun heq => hne ?_, hmem⟩
        exact (Std.LawfulEqOrd.eq_of_compare heq).symm
      · simp only [hempty, Bool.false_eq_true, if_false, Std.TreeMap.getD_insert_self,
          Std.TreeSet.mem_erase, Std.LawfulEqOrd.compare_eq_iff_eq, ne_eq, true_and]
        rw [and_comm, eq_comm]
    · -- Another partition stays as it is, whatever becomes of this one.
      have hcmp : ¬ (compare entry.slot slot = .eq) := fun hc =>
        hslot (Std.LawfulEqOrd.compare_eq_iff_eq.mp hc)
      by_cases hempty : (set.erase ⟨entry.sort, key⟩).isEmpty = true
      · simp only [hempty, if_true, Std.TreeMap.getD_erase, hcmp, if_false, hslot, false_and,
          not_false_eq_true, and_true]
      · simp only [hempty, Bool.false_eq_true, if_false, Std.TreeMap.getD_insert, hcmp, hslot,
          false_and, not_false_eq_true, and_true]

theorem filled_removePlace {places : Std.TreeMap Slot (Std.TreeSet Place)} (h : Filled places)
    (key : String) (entry : IndexEntry) : Filled (removePlace places key entry) := by
  intro slot set hset
  rcases hget : places[entry.slot]? with _ | old
  · rw [removePlace_of_none places key entry hget] at hset
    exact h slot set hset
  · rw [removePlace_of_some places key entry old hget] at hset
    by_cases hempty : (old.erase ⟨entry.sort, key⟩).isEmpty = true
    · simp only [hempty, if_true, Std.TreeMap.getElem?_erase] at hset
      split at hset
      · exact absurd hset (by simp)
      · exact h slot set hset
    · simp only [hempty, Bool.false_eq_true, if_false, Std.TreeMap.getElem?_insert] at hset
      split at hset
      · rw [← Option.some.inj hset]
        simpa only [Bool.not_eq_true] using hempty
      · exact h slot set hset

theorem mem_addPlace (places : Std.TreeMap Slot (Std.TreeSet Place)) (key : String)
    (entry : IndexEntry) (slot : Slot) (place : Place) :
    place ∈ (addPlace places key entry).getD slot ∅ ↔
      place ∈ places.getD slot ∅ ∨ (entry.slot = slot ∧ place = ⟨entry.sort, key⟩) := by
  unfold addPlace
  rw [show (⟨entry.index, entry.partition⟩ : Slot) = entry.slot from rfl]
  by_cases hslot : entry.slot = slot
  · subst hslot
    simp only [Std.TreeMap.getD_insert_self, Std.TreeSet.mem_insert,
      Std.LawfulEqOrd.compare_eq_iff_eq, true_and]
    rw [or_comm, eq_comm]
  · have hcmp : ¬ (compare entry.slot slot = .eq) := fun hc =>
      hslot (Std.LawfulEqOrd.compare_eq_iff_eq.mp hc)
    simp only [Std.TreeMap.getD_insert, hcmp, if_false, hslot, false_and, or_false]

theorem filled_addPlace {places : Std.TreeMap Slot (Std.TreeSet Place)} (h : Filled places)
    (key : String) (entry : IndexEntry) : Filled (addPlace places key entry) := by
  intro slot set hset
  simp only [addPlace, Std.TreeMap.getElem?_insert] at hset
  split at hset
  · rw [← Option.some.inj hset]
    exact Std.TreeSet.isEmpty_insert
  · exact h slot set hset

/-! ## The places of a record -/

theorem mem_foldl_removePlace (key : String) (slot : Slot) (place : Place) :
    ∀ (entries : List IndexEntry) (places : Std.TreeMap Slot (Std.TreeSet Place)),
      place ∈ (entries.foldl (fun places entry => removePlace places key entry) places).getD
          slot ∅ ↔
        place ∈ places.getD slot ∅ ∧
          ¬ ∃ entry ∈ entries, entry.slot = slot ∧ place = ⟨entry.sort, key⟩ := by
  intro entries
  induction entries with
  | nil => intro places; simp
  | cons entry rest ih =>
      intro places
      rw [List.foldl_cons, ih, mem_removePlace]
      simp only [List.mem_cons, or_and_right, exists_or, exists_eq_left, not_or]
      rw [and_assoc]

theorem mem_foldl_addPlace (key : String) (slot : Slot) (place : Place) :
    ∀ (entries : List IndexEntry) (places : Std.TreeMap Slot (Std.TreeSet Place)),
      place ∈ (entries.foldl (fun places entry => addPlace places key entry) places).getD
          slot ∅ ↔
        place ∈ places.getD slot ∅ ∨
          ∃ entry ∈ entries, entry.slot = slot ∧ place = ⟨entry.sort, key⟩ := by
  intro entries
  induction entries with
  | nil => intro places; simp
  | cons entry rest ih =>
      intro places
      rw [List.foldl_cons, ih, mem_addPlace]
      simp only [List.mem_cons, or_and_right, exists_or, exists_eq_left]
      rw [or_assoc]

/-- Having a place under `key` is having the entry that stands there. -/
theorem exists_entry_iff (key : String) (slot : Slot) (place : Place)
    (entries : List IndexEntry) :
    (∃ entry ∈ entries, entry.slot = slot ∧ place = ⟨entry.sort, key⟩) ↔
      place.key = key ∧ (⟨slot.index, slot.partition, place.sort⟩ : IndexEntry) ∈ entries := by
  constructor
  · rintro ⟨entry, hmem, rfl, rfl⟩
    exact ⟨rfl, hmem⟩
  · rintro ⟨rfl, hmem⟩
    exact ⟨_, hmem, rfl, rfl⟩

/-! ## Puts and deletes -/

theorem getElem?_delete (model : MemoryModel) (key other : String) :
    (model.delete key).records[other]? =
      if other = key then none else model.records[other]? := by
  unfold delete
  rcases hget : model.records[key]? with _ | stored
  · by_cases heq : other = key
    · rw [if_pos heq, heq, hget]
    · rw [if_neg heq]
  · simp only [Std.TreeMap.getElem?_erase, Std.LawfulEqOrd.compare_eq_iff_eq]
    by_cases heq : other = key
    · rw [if_pos heq, if_pos heq.symm]
    · rw [if_neg heq, if_neg (Ne.symm heq)]

theorem getElem?_put (model : MemoryModel) (record : Record) (other : String) :
    (model.put record).records[other]? =
      if other = record.key then some (record.value, record.entries)
      else model.records[other]? := by
  unfold put
  simp only [Std.TreeMap.getElem?_insert, Std.LawfulEqOrd.compare_eq_iff_eq, getElem?_delete]
  by_cases heq : other = record.key
  · rw [if_pos heq.symm, if_pos heq]
  · rw [if_neg (Ne.symm heq), if_neg heq, if_neg heq]

/-- After a delete the places are those that stand under another key. -/
theorem mem_placesAt_delete (model : MemoryModel) (h : model.WF) (key : String) (slot : Slot)
    (place : Place) :
    place ∈ (model.delete key).placesAt slot ↔
      place ∈ model.placesAt slot ∧ place.key ≠ key := by
  unfold delete
  rcases hget : model.records[key]? with _ | ⟨value, entries⟩
  · -- Without a record under the key no place stands under it either.
    refine ⟨fun hmem => ⟨hmem, fun heq => ?_⟩, fun hmem => hmem.1⟩
    rcases (h.mem_placesAt slot place).mp hmem with ⟨stored, hstored, _⟩
    rw [heq, hget] at hstored
    exact absurd hstored (by simp)
  · simp only [placesAt]
    rw [mem_foldl_removePlace, exists_entry_iff]
    constructor
    · rintro ⟨hmem, hnot⟩
      refine ⟨hmem, fun heq => hnot ⟨heq, ?_⟩⟩
      rcases (h.mem_placesAt slot place).mp hmem with ⟨stored, hstored, hentry⟩
      rw [heq, hget, Option.some.injEq] at hstored
      rw [← hstored] at hentry
      exact hentry
    · rintro ⟨hmem, hne⟩
      exact ⟨hmem, fun hc => hne hc.1⟩

theorem filled_delete {model : MemoryModel} (h : model.WF) (key : String) :
    Filled (model.delete key).places := by
  unfold delete
  rcases hget : model.records[key]? with _ | ⟨value, entries⟩
  · exact h.nonempty
  · refine List.foldlRecOn entries _ h.nonempty fun places hplaces entry _ => ?_
    exact filled_removePlace hplaces key entry

theorem WF.delete {model : MemoryModel} (h : model.WF) (key : String) :
    (model.delete key).WF := by
  refine ⟨fun slot place => ?_, filled_delete h key⟩
  rw [mem_placesAt_delete model h, h.mem_placesAt, getElem?_delete]
  by_cases heq : place.key = key
  · simp [heq]
  · simp [heq]

theorem WF.put {model : MemoryModel} (h : model.WF) (record : Record) :
    (model.put record).WF := by
  refine ⟨fun slot place => ?_, ?_⟩
  · -- A put is a delete, and then the places of the new record.
    have hmem : place ∈ (model.put record).placesAt slot ↔
        place ∈ (model.delete record.key).placesAt slot ∨
          place.key = record.key ∧
            (⟨slot.index, slot.partition, place.sort⟩ : IndexEntry) ∈ record.entries := by
      rw [← exists_entry_iff]
      exact mem_foldl_addPlace record.key slot place record.entries _
    rw [hmem, mem_placesAt_delete model h, h.mem_placesAt, getElem?_put]
    by_cases heq : place.key = record.key
    · simp [heq]
    · simp [heq]
  · refine List.foldlRecOn record.entries _ (filled_delete h record.key)
      fun places hplaces entry _ => ?_
    exact filled_addPlace hplaces record.key entry

end MemoryModel

namespace MemoryStore

/-- What a store keeps under a key of a model. -/
def find (store : MemoryStore) (model key : String) : Option Stored :=
  (store.model model).records[key]?

/-- Every model has the places of its records. -/
def WF (store : MemoryStore) : Prop :=
  ∀ model, (store.model model).WF

theorem model_put (store : MemoryStore) (model other : String) (record : Record) :
    (store.put model record).model other =
      if other = model then (store.model model).put record else store.model other := by
  unfold put MemoryStore.model
  rw [Std.TreeMap.getD_insert]
  by_cases heq : other = model
  · rw [if_pos heq, if_pos (Std.LawfulEqOrd.compare_eq_iff_eq.mpr heq.symm)]
  · rw [if_neg heq, if_neg fun hc => heq (Std.LawfulEqOrd.compare_eq_iff_eq.mp hc).symm]

theorem model_delete (store : MemoryStore) (model other key : String) :
    (store.delete model key).model other =
      if other = model then (store.model model).delete key else store.model other := by
  unfold delete MemoryStore.model
  rcases hget : store.models[model]? with _ | data
  · by_cases heq : other = model
    · rw [if_pos heq, heq, Std.TreeMap.getD_eq_getD_getElem?, hget]
      simp [MemoryModel.delete, MemoryModel.empty]
    · rw [if_neg heq]
  · simp only [Std.TreeMap.getD_insert]
    by_cases heq : other = model
    · rw [if_pos heq, if_pos (Std.LawfulEqOrd.compare_eq_iff_eq.mpr heq.symm),
        Std.TreeMap.getD_eq_getD_getElem?, hget, Option.getD_some]
    · rw [if_neg heq, if_neg fun hc => heq (Std.LawfulEqOrd.compare_eq_iff_eq.mp hc).symm]

@[simp]
theorem find_empty (model key : String) : MemoryStore.empty.find model key = none := by
  simp [find, MemoryStore.model, MemoryStore.empty, MemoryModel.empty]

theorem find_put (store : MemoryStore) (model other key : String) (record : Record) :
    (store.put model record).find other key =
      if other = model ∧ key = record.key then some (record.value, record.entries)
      else store.find other key := by
  unfold find
  rw [model_put]
  by_cases heq : other = model
  · subst heq
    simp only [if_true, MemoryModel.getElem?_put, true_and]
  · simp only [heq, false_and, if_false]

theorem find_delete (store : MemoryStore) (model other key erased : String) :
    (store.delete model erased).find other key =
      if other = model ∧ key = erased then none else store.find other key := by
  unfold find
  rw [model_delete]
  by_cases heq : other = model
  · subst heq
    simp only [if_true, MemoryModel.getElem?_delete, true_and]
  · simp only [heq, false_and, if_false]

theorem wf_empty : MemoryStore.empty.WF := by
  intro model
  simpa [MemoryStore.model, MemoryStore.empty] using MemoryModel.wf_empty

theorem WF.put {store : MemoryStore} (h : store.WF) (model : String) (record : Record) :
    (store.put model record).WF := by
  intro other
  rw [model_put]
  by_cases heq : other = model
  · rw [if_pos heq]
    exact (h model).put record
  · rw [if_neg heq]
    exact h other

theorem WF.delete {store : MemoryStore} (h : store.WF) (model key : String) :
    (store.delete model key).WF := by
  intro other
  rw [model_delete]
  by_cases heq : other = model
  · rw [if_pos heq]
    exact (h model).delete key
  · rw [if_neg heq]
    exact h other

end MemoryStore

end ChainIndex
