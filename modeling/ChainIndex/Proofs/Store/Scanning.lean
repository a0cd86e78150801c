import ChainIndex.Proofs.Store.Contents
import Mathlib.Data.List.Basic
import Mathlib.Data.List.TakeWhile

/-!
# What a scan finds

A scan depends on nothing but the records that have an entry in the partition it walks.
That is `scan_congr`, and it is used twice: two stores that hold the same answer every
call alike, and a look-up in one partition does not see what was written elsewhere.

`scan_newest` is the other use that is made of a scan. With a limit of one and from the
top it finds the record at the greatest place of the partition, or nothing if there is no
place at all.

## Main definitions

* `MemoryModel.Same`: Two models hold the same records and the same places.
* `MemoryModel.Greatest`: A place beyond which a partition has no other.

## Theorems

* `placesAt_congr`: Places are the same where records are.
* `scan_congr`: A scan sees only the partition it walks.
* `extent_congr`: The number of places depends on the records alone.
* `scan_newest`: The first record from the top stands at the greatest place.
-/

namespace ChainIndex

namespace MemoryModel

/-- Two models hold the same records under the same keys and have the same places in the
    same order. -/
structure Same (a b : MemoryModel) : Prop where
  records : ∀ key : String, a.records[key]? = b.records[key]?
  places : ∀ slot : Slot, (a.placesAt slot).toList = (b.placesAt slot).toList

/-- Places agree as soon as the records that have an entry there do. -/
theorem placesAt_congr {a b : MemoryModel} (ha : a.WF) (hb : b.WF) (slot : Slot)
    (h : ∀ (key : String) (stored : Stored),
      (∃ sort, (⟨slot.index, slot.partition, sort⟩ : IndexEntry) ∈ stored.2) →
        (a.records[key]? = some stored ↔ b.records[key]? = some stored)) :
    (a.placesAt slot).toList = (b.placesAt slot).toList := by
  refine Std.TreeSet.Equiv.toList_eq (Std.TreeSet.Equiv.of_forall_mem_iff fun place => ?_)
  rw [ha.mem_placesAt, hb.mem_placesAt]
  constructor
  · rintro ⟨stored, hstored, hentry⟩
    exact ⟨stored, (h place.key stored ⟨place.sort, hentry⟩).mp hstored, hentry⟩
  · rintro ⟨stored, hstored, hentry⟩
    exact ⟨stored, (h place.key stored ⟨place.sort, hentry⟩).mpr hstored, hentry⟩

theorem same_of_records {a b : MemoryModel} (ha : a.WF) (hb : b.WF)
    (h : ∀ key : String, a.records[key]? = b.records[key]?) : a.Same b := by
  refine ⟨h, fun slot => placesAt_congr ha hb slot fun key stored _ => ?_⟩
  rw [h key]

/-- A walk goes through the places of its partition, in its direction. -/
theorem walk_eq (model : MemoryModel) (scan : Scan) :
    model.walk scan = match scan.direction with
      | .asc => (model.placesAt ⟨scan.index, scan.partitionKey⟩).toList
      | .desc => (model.placesAt ⟨scan.index, scan.partitionKey⟩).toList.reverse := by
  unfold walk placesAt
  rw [Std.TreeMap.getD_eq_getD_getElem?]
  rcases hget : model.places[(⟨scan.index, scan.partitionKey⟩ : Slot)]? with _ | set
  · cases scan.direction <;> rfl
  · rfl

theorem mem_walk (model : MemoryModel) (scan : Scan) (place : Place) :
    place ∈ model.walk scan ↔ place ∈ model.placesAt ⟨scan.index, scan.partitionKey⟩ := by
  rw [walk_eq]
  cases scan.direction
  · exact Std.TreeSet.mem_toList
  · exact List.mem_reverse.trans Std.TreeSet.mem_toList

/-- A scan sees only the records that have an entry in its partition. -/
theorem scan_congr {a b : MemoryModel} (ha : a.WF) (hb : b.WF) (scan : Scan)
    (h : ∀ (key : String) (stored : Stored),
      (∃ sort, (⟨scan.index, scan.partitionKey, sort⟩ : IndexEntry) ∈ stored.2) →
        (a.records[key]? = some stored ↔ b.records[key]? = some stored)) :
    a.scan scan = b.scan scan := by
  have hwalk : a.walk scan = b.walk scan := by
    rw [walk_eq, walk_eq, placesAt_congr ha hb ⟨scan.index, scan.partitionKey⟩ h]
  unfold MemoryModel.scan
  rw [hwalk]
  refine List.filterMap_congr fun place hplace => ?_
  -- Every place that is walked is that of a record with an entry in the partition.
  have hmem : place ∈ a.placesAt ⟨scan.index, scan.partitionKey⟩ := by
    rw [← mem_walk, hwalk]
    exact (List.dropWhile_sublist _).subset (List.mem_of_mem_take hplace)
  rcases (ha.mem_placesAt _ place).mp hmem with ⟨stored, hstored, hentry⟩
  rw [hstored, (h place.key stored ⟨place.sort, hentry⟩).mp hstored]

/-- The number of places depends on the records alone. -/
theorem extent_congr {a b : MemoryModel} (ha : a.WF) (hb : b.WF) (h : a.Same b) :
    a.places.foldl (fun total _ set => total + set.size) 0
      = b.places.foldl (fun total _ set => total + set.size) 0 := by
  have hget : ∀ (m : MemoryModel), m.WF → ∀ slot : Slot,
      (m.places.map fun _ set => set.toList)[slot]?
        = if (m.placesAt slot).toList = [] then none else some (m.placesAt slot).toList := by
    intro m hm slot
    rw [Std.TreeMap.getElem?_map, placesAt, Std.TreeMap.getD_eq_getD_getElem?]
    rcases hslot : m.places[slot]? with _ | set
    · rfl
    · have hne := hm.nonempty slot set hslot
      rw [← Std.TreeSet.isEmpty_toList, List.isEmpty_eq_false_iff] at hne
      simp [hne]
  have hequiv : (a.places.map fun _ set => set.toList).toList
      = (b.places.map fun _ set => set.toList).toList := by
    refine Std.TreeMap.Equiv.toList_eq (Std.TreeMap.Equiv.of_forall_constGet?_eq fun slot => ?_)
    rw [hget a ha, hget b hb, h.places slot]
  rw [Std.TreeMap.toList_map, Std.TreeMap.toList_map] at hequiv
  have hsizes := congrArg (List.foldl (fun total p => total + p.2.length) 0) hequiv
  rw [Std.TreeMap.foldl_eq_foldl_toList, Std.TreeMap.foldl_eq_foldl_toList]
  simpa only [List.foldl_map, Std.TreeSet.length_toList] using hsizes

/-- `place` is the last of its partition. -/
def Greatest (model : MemoryModel) (slot : Slot) (place : Place) : Prop :=
  place ∈ model.placesAt slot ∧
    ∀ other, other ∈ model.placesAt slot → other = place ∨ compare other place = .lt

/-- From the top and with a limit of one, a scan finds the record at the greatest place of
    its partition, if there is any and all of them lie past the bound. -/
theorem scan_newest {model : MemoryModel} (h : model.WF) (index : String)
    (partition bound : Option String)
    (hbound : ∀ place, place ∈ model.placesAt ⟨index, partition.getD ""⟩ →
      ∀ limit, bound = some limit → place.sort < limit) :
    let scan : Scan := ⟨index, partition, .desc, 1, bound⟩
    let slot : Slot := ⟨index, scan.partitionKey⟩
    (model.scan scan = [] ∧ ∀ place, place ∉ model.placesAt slot) ∨
      ∃ place stored, model.Greatest slot place ∧ model.records[place.key]? = some stored ∧
        model.scan scan = [stored.1] := by
  intro scan slot
  have hscan : model.scan scan = ((model.placesAt slot).toList.reverse.take 1).filterMap
      fun place => (model.records[place.key]?).map Prod.fst := by
    unfold MemoryModel.scan
    have hall : (model.walk scan).dropWhile (fun place => !scan.admitted place.sort)
        = model.walk scan := by
      refine List.dropWhile_eq_self_iff.mpr fun hlength => ?_
      have hplace := (mem_walk model scan _).mp (List.getElem_mem hlength)
      cases hlimit : bound with
      | none => simp [Scan.admitted, scan, hlimit]
      | some limit => simpa [Scan.admitted, scan, hlimit] using hbound _ hplace limit hlimit
    rw [hall, walk_eq]
    rfl
  rcases List.eq_nil_or_concat (model.placesAt slot).toList with hnil | ⟨init, place, hconcat⟩
  · left
    refine ⟨by rw [hscan, hnil]; rfl, fun place hplace => ?_⟩
    rw [← Std.TreeSet.mem_toList, hnil] at hplace
    exact absurd hplace (by simp)
  · right
    rw [List.concat_eq_append] at hconcat
    have hmem : place ∈ model.placesAt slot := by
      rw [← Std.TreeSet.mem_toList, hconcat]
      simp
    rcases (h.mem_placesAt slot place).mp hmem with ⟨stored, hstored, _⟩
    refine ⟨place, stored, ⟨hmem, fun other hother => ?_⟩, hstored, ?_⟩
    · have hordered := Std.TreeSet.ordered_toList (t := model.placesAt slot)
      rw [hconcat, List.pairwise_append] at hordered
      rw [← Std.TreeSet.mem_toList, hconcat, List.mem_append, List.mem_singleton] at hother
      rcases hother with hinit | hlast
      · exact Or.inr (hordered.2.2 other hinit place (by simp))
      · exact Or.inl hlast
    · rw [hscan, hconcat]
      simp [hstored]

/-- A partition has at most one greatest place. -/
theorem greatest_unique {model : MemoryModel} {slot : Slot} {p q : Place}
    (hp : model.Greatest slot p) (hq : model.Greatest slot q) : p = q := by
  rcases hq.2 p hp.1 with heq | hlt
  · exact heq
  · rcases hp.2 q hq.1 with heq | hgt
    · exact heq.symm
    · rw [Std.OrientedOrd.eq_swap, hgt] at hlt
      exact absurd hlt (by decide)

end MemoryModel

end ChainIndex
