import ChainIndex.Proofs.Store.Scanning
import Mathlib.Data.List.Induction
import Mathlib.Data.List.TakeWhile

/-!
# The contract of a keyed sorted store

What a store owes to those who read it is said without a store: by the list of the writes
that were made. The record under a key is the one that the last write to the key put, or
none if that write was a delete. A scan is owed one value for each place that the records
of the day have in its partition past its bound, in order.

The store in memory keeps its contract. It never looks at the records to find the places
of a partition, and it passes over the bound by dropping from the front, so both halves
of the argument are needed: the places are those of the records, which is the invariant of
`MemoryModel.WF`, and they are in order, which makes the dropped ones exactly those that
the bound shuts out.

## Main definitions

* `Mutation`: A put or a delete.
* `MemoryStore.written`: The store after a list of writes.
* `Mutation.current`: The record that a list of writes leaves under a key.
* `Scan.Owed`: A place that a scan is to find after a list of writes.
* `Direction.Before`: One place comes before another.

## Theorems

* `find_written`: What a store holds is what the writes left.
* `past_eq_filter`: What is dropped ahead of the bound is what the bound shuts out.
* `owed_unique`: A scan is owed its places in one order only.
* `written_keeps_contract`: A store in memory gives what it owes.
-/

namespace ChainIndex

/-- A write to a store. -/
inductive Mutation where
  /-- Puts a record in place of one with the same key. -/
  | put (model : String) (record : Record)
  /-- Deletes a record, if it is there. -/
  | delete (model key : String)

namespace Mutation

/-- Is this key of this model written to? -/
def Hits (model key : String) : Mutation → Prop
  | .put model' record => model = model' ∧ key = record.key
  | .delete model' key' => model = model' ∧ key = key'

instance (model key : String) : DecidablePred (Hits model key) := fun write =>
  match write with
  | .put model' record => inferInstanceAs (Decidable (model = model' ∧ key = record.key))
  | .delete model' key' => inferInstanceAs (Decidable (model = model' ∧ key = key'))

/-- The record that is under the key after a write to it. -/
def record? : Mutation → Option Record
  | .put _ record => some record
  | .delete _ _ => none

/-- The record that a list of writes leaves under a key: that of the last write to it. -/
def current (writes : List Mutation) (model key : String) : Option Record :=
  (writes.reverse.find? fun write => Hits model key write).bind record?

@[simp]
theorem current_nil (model key : String) : current [] model key = none := rfl

theorem current_snoc (writes : List Mutation) (write : Mutation) (model key : String) :
    current (writes ++ [write]) model key =
      if Hits model key write then write.record? else current writes model key := by
  unfold current
  rw [List.reverse_append, List.reverse_singleton, List.singleton_append, List.find?_cons]
  by_cases hhits : Hits model key write
  · simp [hhits]
  · simp [hhits]

end Mutation

namespace MemoryStore

/-- The store after a write. -/
def write (store : MemoryStore) : Mutation → MemoryStore
  | .put model record => store.put model record
  | .delete model key => store.delete model key

/-- The store after a list of writes, the first of them made to a store without records. -/
def written (writes : List Mutation) : MemoryStore :=
  writes.foldl write .empty

theorem written_snoc (writes : List Mutation) (w : Mutation) :
    written (writes ++ [w]) = (written writes).write w := by
  rw [written, written, List.foldl_append, List.foldl_cons, List.foldl_nil]

/-- The places are those of the records after every write. -/
theorem wf_written (writes : List Mutation) : (written writes).WF := by
  refine List.foldlRecOn writes write wf_empty fun store hwf w _ => ?_
  cases w with
  | put model record => exact hwf.put model record
  | delete model key => exact hwf.delete model key

/-- What a store holds is what the writes left. -/
theorem find_written (writes : List Mutation) (model key : String) :
    (written writes).find model key =
      (Mutation.current writes model key).map fun record => (record.value, record.entries) := by
  induction writes using List.reverseRecOn with
  | nil => exact find_empty model key
  | append_singleton writes w ih =>
      rw [written_snoc, Mutation.current_snoc]
      cases w with
      | put model' record =>
          rw [write, find_put, ih]
          by_cases hhits : model = model' ∧ key = record.key
          · simp [Mutation.Hits, Mutation.record?, hhits]
          · simp only [Mutation.Hits, hhits, if_false]
      | delete model' key' =>
          rw [write, find_delete, ih]
          by_cases hhits : model = model' ∧ key = key'
          · simp [Mutation.Hits, Mutation.record?, hhits]
          · simp only [Mutation.Hits, hhits, if_false]

end MemoryStore

/-! ## What a scan is owed -/

namespace Direction

/-- One text comes before another. -/
def Precedes : Direction → String → String → Prop
  | .asc, a, b => a < b
  | .desc, a, b => b < a

/-- One place comes before another: by sort key, and by primary key where those agree. -/
def Before (direction : Direction) (p q : Place) : Prop :=
  direction.Precedes p.sort q.sort ∨ p.sort = q.sort ∧ direction.Precedes p.key q.key

theorem Precedes.trans {direction : Direction} {a b c : String}
    (hab : direction.Precedes a b) (hbc : direction.Precedes b c) : direction.Precedes a c := by
  cases direction with
  | asc => exact String.lt_trans hab hbc
  | desc => exact String.lt_trans hbc hab

theorem Precedes.irrefl (direction : Direction) (a : String) : ¬ direction.Precedes a a := by
  cases direction with
  | asc => exact String.lt_irrefl a
  | desc => exact String.lt_irrefl a

theorem Before.asymm {direction : Direction} {p q : Place} (hpq : direction.Before p q) :
    ¬ direction.Before q p := by
  intro hqp
  rcases hpq with hsort | ⟨heq, hkey⟩
  · rcases hqp with hsort' | ⟨heq', _⟩
    · exact Precedes.irrefl direction _ (hsort.trans hsort')
    · rw [heq'] at hsort
      exact Precedes.irrefl direction _ hsort
  · rcases hqp with hsort' | ⟨_, hkey'⟩
    · rw [heq] at hsort'
      exact Precedes.irrefl direction _ hsort'
    · exact Precedes.irrefl direction _ (hkey.trans hkey')

end Direction

/-- The order of places is that of a walk in ascending order. -/
theorem Place.before_of_compare {p q : Place} (h : compare p q = .lt) :
    Direction.asc.Before p q := by
  have hlex : (compareLex (compareOn Place.sort) (compareOn Place.key)) p q = .lt := h
  have hlt : ∀ a b : String, compare a b = .lt → a < b := by
    intro a b hab
    rw [show compare a b = compareOfLessAndEq a b from rfl, compareOfLessAndEq_eq_lt] at hab
    exact hab
  simp only [compareLex, compareOn, Ordering.then_eq_lt, Std.LawfulEqOrd.compare_eq_iff_eq]
    at hlex
  rcases hlex with hsort | ⟨heq, hkey⟩
  · exact Or.inl (hlt _ _ hsort)
  · exact Or.inr ⟨heq, hlt _ _ hkey⟩

namespace Scan

/-- A place that a scan is to find: a record that the writes left has an entry there, and
    the place lies strictly past the bound. -/
def Owed (scan : Scan) (model : String) (writes : List Mutation) (place : Place) : Prop :=
  (∃ record, Mutation.current writes model place.key = some record ∧
      (⟨scan.index, scan.partition.getD "", place.sort⟩ : IndexEntry) ∈ record.entries) ∧
    ∀ bound, scan.bound = some bound → scan.direction.Precedes bound place.sort

theorem admitted_iff (scan : Scan) (sort : String) :
    scan.admitted sort = true ↔
      ∀ bound, scan.bound = some bound → scan.direction.Precedes bound sort := by
  unfold admitted
  rcases hbound : scan.bound with _ | bound
  · simp
  · cases hdirection : scan.direction <;> simp [Direction.Precedes]

/-- What is past the bound has only what is past the bound behind it. -/
theorem admitted_of_before {scan : Scan} {p q : Place} (hbefore : scan.direction.Before p q)
    (h : scan.admitted p.sort = true) : scan.admitted q.sort = true := by
  rw [admitted_iff] at h ⊢
  intro bound hbound
  rcases hbefore with hsort | ⟨heq, _⟩
  · exact (h bound hbound).trans hsort
  · rw [← heq]
    exact h bound hbound

/-- A list of places in order holds each once, and there is one such list at most. -/
theorem owed_unique {direction : Direction} {ps qs : List Place}
    (hps : ps.Pairwise direction.Before) (hqs : qs.Pairwise direction.Before)
    (h : ∀ place, place ∈ ps ↔ place ∈ qs) : ps = qs := by
  have ne_of_before : ∀ {p q : Place}, direction.Before p q → p ≠ q := by
    rintro p q hpq rfl
    exact hpq.asymm hpq
  have hperm : ps.Perm qs := by
    refine (List.perm_ext_iff_of_nodup ?_ ?_).mpr h
    · exact hps.imp ne_of_before
    · exact hqs.imp ne_of_before
  refine hperm.eq_of_pairwise (fun p q _ _ hpq hqp => ?_) hps hqs
  exact absurd hqp hpq.asymm

end Scan

namespace MemoryModel

/-- A walk is in order. -/
theorem walk_pairwise (model : MemoryModel) (scan : Scan) :
    (model.walk scan).Pairwise scan.direction.Before := by
  have hasc : (model.placesAt ⟨scan.index, scan.partitionKey⟩).toList.Pairwise
      Direction.asc.Before :=
    Std.TreeSet.ordered_toList.imp Place.before_of_compare
  rw [walk_eq]
  cases scan.direction with
  | asc => exact hasc
  | desc =>
      refine List.pairwise_reverse.mpr (hasc.imp fun {p q} hbefore => ?_)
      rcases hbefore with hsort | ⟨heq, hkey⟩
      · exact Or.inl hsort
      · exact Or.inr ⟨heq.symm, hkey⟩

/-- What is dropped ahead of the bound is what the bound shuts out. -/
theorem past_eq_filter {scan : Scan} {places : List Place}
    (h : places.Pairwise scan.direction.Before) :
    places.dropWhile (fun place => !scan.admitted place.sort) =
      places.filter fun place => scan.admitted place.sort := by
  induction places with
  | nil => rfl
  | cons place rest ih =>
      rw [List.pairwise_cons] at h
      by_cases hadmitted : scan.admitted place.sort = true
      · -- From the first place past the bound on nothing is dropped.
        have hrest : ∀ q ∈ rest, scan.admitted q.sort = true := fun q hq =>
          Scan.admitted_of_before (h.1 q hq) hadmitted
        rw [List.dropWhile_cons_of_neg (by simp [hadmitted]), List.filter_eq_self.mpr]
        exact List.forall_mem_cons.mpr ⟨hadmitted, hrest⟩
      · rw [List.dropWhile_cons_of_pos (by simp [hadmitted]), ih h.2, List.filter_cons,
          if_neg hadmitted]

end MemoryModel

/-- Where every element has an image none is passed over. -/
theorem map_some_filterMap {α β : Type} {f : α → Option β} {l : List α}
    (h : ∀ a ∈ l, (f a).isSome) : (l.filterMap f).map some = l.map f := by
  induction l with
  | nil => rfl
  | cons a l ih =>
      rw [List.forall_mem_cons] at h
      rcases Option.isSome_iff_exists.mp h.1 with ⟨b, hb⟩
      rw [List.filterMap_cons_some hb, List.map_cons, List.map_cons, hb, ih h.2]

/-- A store in memory gives what it owes: under a key the value that the last write to the
    key put, if it was a put, and to a scan the values of the records at the places that it
    is owed, each place once and in order, up to the limit. -/
theorem written_keeps_contract (writes : List Mutation) (model : String) :
    (∀ key, (MemoryStore.written writes).get model key =
      (Mutation.current writes model key).map Record.value) ∧
    ∀ scan : Scan, ∃! places : List Place,
      places.Pairwise scan.direction.Before ∧
      (∀ place, place ∈ places ↔ scan.Owed model writes place) ∧
      ((MemoryStore.written writes).scan model scan).map some =
        (places.take scan.limit.toNat).map fun place =>
          (Mutation.current writes model place.key).map Record.value := by
  have hfind := MemoryStore.find_written writes model
  have hwf := MemoryStore.wf_written writes model
  have hvalue : ∀ key, (((MemoryStore.written writes).model model).records[key]?).map Prod.fst =
      (Mutation.current writes model key).map Record.value := by
    intro key
    have hkey := hfind key
    rw [MemoryStore.find] at hkey
    rw [hkey, Option.map_map]
    rfl
  refine ⟨hvalue, fun scan => ?_⟩
  let data := (MemoryStore.written writes).model model
  have hmem : ∀ place : Place, place ∈ data.walk scan ↔
      ∃ record, Mutation.current writes model place.key = some record ∧
        (⟨scan.index, scan.partitionKey, place.sort⟩ : IndexEntry) ∈ record.entries := by
    intro place
    have hkey := hfind place.key
    rw [MemoryStore.find] at hkey
    rw [MemoryModel.mem_walk, hwf.mem_placesAt, hkey]
    rcases Mutation.current writes model place.key with _ | record
    · simp
    · simp
  refine existsUnique_of_exists_of_unique ⟨(data.walk scan).filter fun place =>
    scan.admitted place.sort, (data.walk_pairwise scan).filter _, fun place => ?_, ?_⟩ ?_
  · rw [List.mem_filter, hmem, Scan.admitted_iff]
    rfl
  · have hscan : (MemoryStore.written writes).scan model scan =
        (((data.walk scan).filter fun place => scan.admitted place.sort).take
          scan.limit.toNat).filterMap fun place =>
            (Mutation.current writes model place.key).map Record.value := by
      rw [MemoryStore.scan, MemoryModel.scan, MemoryModel.past_eq_filter (data.walk_pairwise scan)]
      exact List.filterMap_congr fun place _ => hvalue place.key
    -- No place that is walked is without its record, so a page is as full as it can be.
    have hlive : ∀ place ∈ ((data.walk scan).filter fun place => scan.admitted place.sort).take
        scan.limit.toNat, ((Mutation.current writes model place.key).map Record.value).isSome := by
      intro place hplace
      have hwalked := List.mem_of_mem_filter (List.mem_of_mem_take hplace)
      rcases (hmem place).mp hwalked with ⟨record, hrecord, _⟩
      rw [hrecord]
      rfl
    rw [hscan]
    exact map_some_filterMap hlive
  · intro ps qs hps hqs
    exact Scan.owed_unique hps.1 hqs.1 fun place => (hps.2.1 place).trans (hqs.2.1 place).symm

end ChainIndex
