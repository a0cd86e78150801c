import ChainIndex.Proofs.Entity.Walk
import ChainIndex.Proofs.Store.Interchange

/-!
# What is stored is given back

A value goes into a store under its key, with an entry for each index it stands in, and
comes out again field by field. Whatever records were put and deleted before: under its key
it is read as it was, in its partitions it stands once and where its sort key says, to put
it once more changes nothing, and nothing else has changed.

Of the store in memory this follows from what it holds. The store in tables keeps texts and
rows, and reads as a store in memory does, as long as texts are read as the values that they
were made of; so what is said of it is said of the other.

## Main definitions

* `Inspectable`: A store whose index entries can be seen.
* `SameRecord`: Two stores have the same under a key.
* `GivesBack`: What a store owes to a value that is put into it.
* `ReadsAs`: A store is read like one in memory.
* `Edit.reached`: What changes make of a world.
* `Edit.At`: A change is made under a key.

## Theorems

* `ReadsAs.givesBack`: A store that is read like one in memory gives back.
* `Represents.readsAs`: Tables in step are read like the store in memory.
* `Edit.find_foldl_made`, `Edit.held_of_put`: What changes leave alone, and what they leave.
* `what_is_stored_is_given_back`: Both stores give back, whatever was done to them before.
-/

namespace ChainIndex

/-! ## What a store owes to a value -/

/-- A store whose index entries can be seen. -/
class Inspectable (σ : Type) where
  /-- The record under a key has an index entry. -/
  HasEntry : σ → String → String → IndexEntry → Prop

instance : Inspectable MemoryStore where
  HasEntry store model key entry :=
    (⟨entry.sort, key⟩ : Place) ∈ (store.model model).placesAt entry.slot

instance : Inspectable TableStore where
  HasEntry tables model key entry := TableStore.entryRow model key entry ∈ tables.entries

section

variable {σ : Type} [KeyedStore σ] [Inspectable σ]

/-- Two stores have the same under a key: a record, if any, and its index entries. -/
structure SameRecord (store after : σ) (model key : String) : Prop where
  get_eq : KeyedStore.get after model key = KeyedStore.get store model key
  entry_iff : ∀ entry, Inspectable.HasEntry after model key entry ↔
    Inspectable.HasEntry store model key entry

variable {α : Type} [Entity α]

/-- The world after a value was put into its store. -/
def World.saved (world : World σ) (a : α) : World σ :=
  ((Entity.save a).run World.answer world).2

/-- The world after the value under a key was deleted from its store. -/
def World.removed (world : World σ) (kind : RecordKind) (key : String) : World σ :=
  ((Entity.remove kind.Value key).run World.answer world).2

open Entity in
/-- What a store owes to a value that is put into it. -/
structure GivesBack (world : World σ) (a : α) : Prop where
  /-- It can be put. -/
  put : (save a).run World.answer world = (.ok (), world.saved a)
  /-- Under its key it is read as it was put. -/
  found : (find? α (key a)).run World.answer (world.saved a) = (.ok (some a), world.saved a)
  /-- A scan of a partition that it stands in finds, unless it is cut off, all records that
      stand there, and the value among them once: behind those with a lesser sort key and
      ahead of those with a greater one. -/
  listed : ∀ (index : IndexDef) (partition : Option String),
    (∃ sort, ⟨index.name, partition.getD "", sort⟩ ∈ entries a) → ∃ front back : List α,
      (∀ limit : UInt64, (front ++ a :: back).length ≤ limit.toNat →
        (scan α index partition limit none).run World.answer (world.saved a) =
          (.ok (front ++ a :: back), world.saved a)) ∧
      (∀ k sort, Inspectable.HasEntry (world.saved a).store (model α) k
          ⟨index.name, partition.getD "", sort⟩ ↔
        ∃ b ∈ front ++ a :: back, key b = k ∧ sortKey index b = sort) ∧
      a ∉ front ++ back ∧
      (∀ b ∈ front, index.direction.Before (placeIn index b) (placeIn index a)) ∧
      (∀ b ∈ back, index.direction.Before (placeIn index a) (placeIn index b))
  /-- To put it once more changes nothing. -/
  again : ∀ m k, SameRecord (world.saved a).store ((world.saved a).saved a).store m k
  /-- Nothing else has changed. -/
  elsewhere : ∀ m k, ¬ (m = model α ∧ k = key a) →
    SameRecord world.store (world.saved a).store m k

/-! ## Stores that are read alike -/

/-- A store is read like one in memory. -/
structure ReadsAs (store : σ) (memory : MemoryStore) : Prop where
  get_eq : ∀ m k, KeyedStore.get store m k = .ok (memory.get m k)
  entry_iff : ∀ m k entry, Inspectable.HasEntry store m k entry ↔
    ∃ found, memory.find m k = some found ∧ entry ∈ found.2
  scan_eq : ∀ m scan, ((memory.model m).past scan).length ≤ scan.limit.toNat →
    KeyedStore.scan store m scan = .ok (memory.scan m scan)

/-- Where what they are read like is the same, two stores have the same. -/
theorem ReadsAs.sameRecord {store after : σ} {memory behind : MemoryStore}
    (h : ReadsAs store memory) (hafter : ReadsAs after behind) {m k : String}
    (hfind : behind.find m k = memory.find m k) : SameRecord store after m k where
  get_eq := by
    rw [h.get_eq, hafter.get_eq, MemoryStore.get, MemoryStore.get]
    unfold MemoryStore.find at hfind
    rw [hfind]
  entry_iff := fun entry => by rw [h.entry_iff, hafter.entry_iff, hfind]

end

/-- A store in memory is read like itself. -/
theorem MemoryStore.WF.readsAs {store : MemoryStore} (h : store.WF) : ReadsAs store store where
  get_eq := fun _ _ => rfl
  entry_iff := fun m _ entry => (h m).mem_placesAt entry.slot _
  scan_eq := fun _ _ _ => rfl

namespace TableStore.Represents

variable {tables : TableStore} {store : MemoryStore}

/-- A scan that is not cut off finds the same values, however many there are. -/
theorem scan_eq_of_past (h : tables.Represents store) (model : String) (scan : Scan)
    (hlimit : ((store.model model).past scan).length ≤ scan.limit.toNat) :
    tables.scan model scan = .ok (store.scan model scan) := by
  rcases h.exists_values model scan with ⟨values, hreads, hmemory, htables⟩
  have hlength : values.length ≤ scan.limit.toNat := by
    have hrows := List.length_filterMap_le
      (fun row => tables.selectText row.model row.key) (tables.selectEntries model scan)
    rw [htables, List.length_map, ← List.length_map EntryRow.place,
      h.places_selected model scan] at hrows
    exact hrows.trans hlimit
  have hlimited : limited scan.limit (values.map Json.compact) = values.map Json.compact := by
    unfold limited
    split
    · exact List.take_of_length_le (by rwa [List.length_map])
    · rfl
  rw [TableStore.scan, htables, hlimited, hmemory, List.take_of_length_le hlength]
  exact mapM_decodeText hreads

theorem saved {α : Type} [Entity α] {world : World TableStore}
    (h : world.store.Represents store) {a : α} (hreads : (Entity.toJson a).ReadsBack) :
    (world.saved a).store.Represents (Entity.saved store a) :=
  h.put (Entity.model α) hreads

/-- Tables in step are read like the store in memory. -/
theorem readsAs (h : tables.Represents store) : ReadsAs tables store where
  get_eq := h.get_eq
  entry_iff := fun m k entry => h.entry (entryRow m k entry)
  scan_eq := h.scan_eq_of_past

end TableStore.Represents

/-! ## Giving back -/

namespace Entity

variable {α : Type} [Entity α] [RoundTrip α] [SinglyIndexed α] {index : IndexDef}
variable {partition : Option String} {store : MemoryStore} {items : List α}

/-- Whatever has an entry in a partition is one of its values, at its sort key. -/
theorem Ahead.exists_entry_iff (h : Ahead index partition store none items)
    (htyped : Typed α store) (k sort : String) :
    (∃ found, store.find (model α) k = some found ∧
        (⟨index.name, partition.getD "", sort⟩ : IndexEntry) ∈ found.2) ↔
      ∃ b ∈ items, key b = k ∧ sortKey index b = sort := by
  constructor
  · rintro ⟨found, hfound, hentry⟩
    rcases htyped.exists_held hfound with ⟨b, rfl, rfl, hheld⟩
    exact ⟨b, (h.mem_iff_listed htyped b).mpr ⟨hheld, sort, hentry⟩, rfl, sortKey_of_entry hentry⟩
  · rintro ⟨b, hb, rfl, rfl⟩
    rcases (h.mem_iff_listed htyped b).mp hb with ⟨hheld, sort, hentry⟩
    rw [← sortKey_of_entry hentry] at hentry
    exact ⟨stored b, hheld, hentry⟩

/-- The places that a scan has ahead of it are those of the values. -/
theorem Ahead.places_eq (h : Ahead index partition store none items) (hwf : store.WF)
    (htyped : Typed α store) (limit : UInt64) :
    items.map (placeIn index) = (store.model (model α)).past
      ⟨index.name, partition, index.direction, limit, none⟩ := by
  let scan : Scan := ⟨index.name, partition, index.direction, limit, none⟩
  have hpast : ((store.model (model α)).past scan).Pairwise index.direction.Before :=
    ((store.model (model α)).walk_pairwise scan).filter _
  refine Scan.owed_unique h.ordered hpast fun place => ?_
  rw [List.mem_map, MemoryModel.past, List.mem_filter, MemoryModel.mem_walk,
    (hwf _).mem_placesAt]
  constructor
  · rintro ⟨b, hb, rfl⟩
    exact ⟨(h.exists_entry_iff htyped _ _).mpr ⟨b, hb, rfl, rfl⟩, rfl⟩
  · rintro ⟨hfound, -⟩
    rcases (h.exists_entry_iff htyped _ _).mp hfound with ⟨b, hb, hkey, hsort⟩
    exact ⟨b, hb, by rw [placeIn, hkey, hsort]⟩

end Entity

section

open Entity

variable {σ : Type} [KeyedStore σ] {α : Type} [Entity α] [RoundTrip α]

/-- Values that a scan finds are decoded. -/
theorem run_scan_of_scan {world : World σ} {items : List α} {index : IndexDef}
    {partition bound : Option String} {limit : UInt64}
    (h : KeyedStore.scan world.store (model α)
      ⟨index.name, partition, index.direction, limit, bound⟩ = .ok (items.map toJson)) :
    (scan α index partition limit bound).run World.answer world = (.ok items, world) := by
  have hanswer : World.answer (.scan (model α)
      ⟨index.name, partition, index.direction, limit, bound⟩) world =
        (.ok (items.map toJson), world) := by
    rw [World.answer, h]
  change ((Program.request _).bind _).run World.answer world = _
  rw [Program.run_bind, Program.request, Program.run, hanswer]
  simp only [Program.run, mapM_decode]
  rfl

variable [Inspectable σ] [SinglyIndexed α]

/-- A store that is read like one in memory gives back what is put into it. -/
theorem ReadsAs.givesBack {world : World σ} {memory : MemoryStore} {a : α}
    (hbefore : ReadsAs world.store memory)
    (hafter : ReadsAs (world.saved a).store (saved memory a))
    (hagain : ReadsAs ((world.saved a).saved a).store (saved (saved memory a) a))
    (hwf : memory.WF) (htyped : Typed α memory) : GivesBack world a where
  put := rfl
  found := by
    refine Program.run_find?_of_get ?_
    have hheld := held_saved memory a
    rw [Held, MemoryStore.find] at hheld
    rw [hafter.get_eq, MemoryStore.get, hheld]
    rfl
  listed := by
    rintro index partition ⟨sort, hentry⟩
    have hwf' := wf_saved hwf a
    have htyped' := htyped.saved a
    rcases exists_ahead index partition hwf' htyped' none with ⟨items, hahead, hscan⟩
    -- The value stands in the partition, so it is one of those that the scan finds.
    have hmem : a ∈ items :=
      (hahead.mem_iff_listed htyped' a).mpr ⟨held_saved memory a, sort, hentry⟩
    rcases List.append_of_mem hmem with ⟨front, back, rfl⟩
    have hordered := hahead.ordered
    rw [List.pairwise_map, List.pairwise_append, List.pairwise_cons] at hordered
    rcases hordered with ⟨-, ⟨hback, -⟩, hfront⟩
    refine ⟨front, back, fun limit hlimit => run_scan_of_scan ?_, fun k sort => ?_, ?_,
      fun b hb => hfront b hb a List.mem_cons_self, hback⟩
    · rw [← List.length_map (placeIn index), hahead.places_eq hwf' htyped' limit] at hlimit
      rw [hafter.scan_eq _ _ hlimit, hscan, List.take_of_length_le]
      rwa [← hahead.places_eq hwf' htyped' limit, List.length_map] at hlimit
    · rw [hafter.entry_iff]
      exact hahead.exists_entry_iff htyped' k sort
    · rw [List.mem_append]
      rintro (hin | hin)
      · exact (hfront a hin a List.mem_cons_self).asymm (hfront a hin a List.mem_cons_self)
      · exact (hback a hin).asymm (hback a hin)
  again := fun m k => hafter.sameRecord hagain (by
    rw [find_saved, find_saved]
    split <;> rfl)
  elsewhere := fun m k hne => hbefore.sameRecord hafter (by rw [find_saved, if_neg hne])

end

/-! ## Stores that were changed -/

namespace Edit

/-- The world after a list of changes, whatever its store is. -/
def reached {σ : Type} [KeyedStore σ] (edits : List Edit) (world : World σ) : World σ :=
  ((edits.forM program).run World.answer world).2

/-- Changes do not fail. -/
theorem run_forM {σ : Type} [KeyedStore σ] (edits : List Edit) (world : World σ) :
    (edits.forM program).run World.answer world = (.ok ⟨⟩, reached edits world) := by
  refine Prod.ext ?_ rfl
  induction edits generalizing world with
  | nil => rfl
  | cons edit rest ih =>
      cases edit with
      | put kind value => exact ih (world.saved value)
      | delete kind erased => exact ih (world.removed kind erased)

theorem store_reached (edits : List Edit) (world : World MemoryStore) :
    (reached edits world).store = edits.foldl made world.store :=
  congrArg World.store (applied_eq edits world)

/-- Whatever the change puts is read back from its text. -/
def Readable : Edit → Prop
  | .put _ value => (Entity.toJson value).ReadsBack
  | .delete .. => True

instance : DecidablePred Readable := fun edit =>
  match edit with
  | .put _ value => inferInstanceAs (Decidable (Entity.toJson value).ReadsBack)
  | .delete .. => inferInstanceAs (Decidable True)

/-- Tables stay in step with a store in memory when both are changed. -/
theorem represents_reached {edits : List Edit} (hreads : ∀ edit ∈ edits, edit.Readable)
    {tables : World TableStore} {memory : World MemoryStore}
    (h : tables.store.Represents memory.store) :
    (reached edits tables).store.Represents (reached edits memory).store := by
  induction edits generalizing tables memory with
  | nil => exact h
  | cons edit rest ih =>
      rw [List.forall_mem_cons] at hreads
      cases edit with
      | put kind value =>
          have hput : (tables.saved value).store.Represents (memory.saved value).store :=
            h.saved hreads.1
          exact ih hreads.2 hput
      | delete kind key =>
          have hdelete : (tables.removed kind key).store.Represents
              (memory.removed kind key).store := h.delete (Entity.model kind.Value) key
          exact ih hreads.2 hdelete

/-! ### Keys that are changed -/

open Entity

/-- The change is made under this key of this model. -/
def At (m k : String) : Edit → Prop
  | .put kind value => m = model kind.Value ∧ k = key value
  | .delete kind erased => m = model kind.Value ∧ k = erased

section

variable {t : MemoryStore} {edits : List Edit} {m k : String}

theorem find_made (edit : Edit) (h : ¬ edit.At m k) : (made t edit).find m k = t.find m k := by
  cases edit with
  | put kind value => exact (find_saved t value m k).trans (if_neg h)
  | delete kind erased => exact (find_removed t erased m k).trans (if_neg h)

/-- Under a key at which nothing is changed all stays as it was. -/
theorem find_foldl_made (h : ∀ edit ∈ edits, ¬ edit.At m k) :
    (edits.foldl made t).find m k = t.find m k := by
  induction edits generalizing t with
  | nil => rfl
  | cons edit rest ih =>
      rw [List.forall_mem_cons] at h
      exact (ih h.2).trans (find_made edit h.1)

/-- What is put is held in the end, if nothing else is put under its key. -/
theorem held_of_put (kind : RecordKind) {a : kind.Value} (hput : .put kind a ∈ edits)
    (hsame : ∀ edit ∈ edits, edit.At (model kind.Value) (key a) → edit = .put kind a) :
    Held (edits.foldl made t) a := by
  induction edits generalizing t with
  | nil => cases hput
  | cons edit rest ih =>
      rw [List.forall_mem_cons] at hsame
      by_cases hlater : .put kind a ∈ rest
      · exact ih hlater hsame.2
      · -- It is put now, and its key is left alone from here on.
        obtain rfl : .put kind a = edit := (List.mem_cons.mp hput).resolve_right hlater
        have hrest : ∀ edit ∈ rest, ¬ edit.At (model kind.Value) (key a) :=
          fun edit hedit hat => hlater (hsame.2 edit hedit hat ▸ hedit)
        rw [Held, List.foldl_cons, find_foldl_made hrest]
        exact held_saved t a

end

end Edit

/-- **What is stored is given back.** Whatever records of whatever kinds were put into an
    empty store and deleted from it, a value that is put next is read under its key as it
    was, stands once in each of its partitions and where its sort key says, can be put once
    more to no effect, and leaves all else as it was. Of the store in tables this is so if
    the texts in it are read as the values that were put. -/
theorem what_is_stored_is_given_back (kind : RecordKind) (a : kind.Value) (edits : List Edit)
    (source : MemorySource) (now : Int64) :
    GivesBack (Edit.reached edits (⟨MemoryStore.empty, source, now⟩ : World MemoryStore)) a ∧
      ((∀ edit ∈ .put kind a :: edits, edit.Readable) →
        GivesBack (Edit.reached edits (⟨TableStore.empty, source, now⟩ : World TableStore)) a) := by
  let memory := Edit.reached edits (⟨MemoryStore.empty, source, now⟩ : World MemoryStore)
  have hwf : memory.store.WF := Edit.wf_applied edits MemoryStore.wf_empty
  have htyped : Entity.Typed kind.Value memory.store :=
    Edit.typed_applied edits (by simp [Entity.Typed])
  refine ⟨hwf.readsAs.givesBack (Entity.wf_saved hwf a).readsAs
    (Entity.wf_saved (Entity.wf_saved hwf a) a).readsAs hwf htyped, fun hreads => ?_⟩
  rw [List.forall_mem_cons] at hreads
  let tables := Edit.reached edits (⟨TableStore.empty, source, now⟩ : World TableStore)
  have hbefore : tables.store.Represents memory.store := Edit.represents_reached hreads.2 .empty
  have hafter : (tables.saved a).store.Represents (Entity.saved memory.store a) :=
    hbefore.saved hreads.1
  exact hbefore.readsAs.givesBack hafter.readsAs (hafter.saved hreads.1).readsAs hwf htyped

/-- The ledger of one block and of the next, and an oracle that is deleted. -/
def Edit.appointed : List Edit :=
  [.put .status (⟨"a", 0, .indexing, 9⟩ : SyncStatus),
    .put .oracle (⟨"o", "x", 255, [], ⟨"a", 0, 0, -1⟩⟩ : Oracle),
    .put .status (⟨"b", 1, .indexing, 9⟩ : SyncStatus),
    .delete .oracle "o"]

/-- A block with a fraction for its difficulty and the greatest size there is. -/
def BlockRecord.fractional : BlockRecord :=
  ⟨"b", "a", 1, 5, -4, ⟨1.5, by decide⟩, some "m", 18446744073709551615, 320, 1, "r", 1⟩

theorem given_back_behind_appointed :
    (∀ edit ∈ .put .block BlockRecord.fractional :: Edit.appointed, edit.Readable) ∧
      GivesBack (Edit.reached Edit.appointed
        (⟨TableStore.empty, ⟨[], []⟩, 0⟩ : World TableStore)) BlockRecord.fractional := by
  have hreads : ∀ edit ∈ .put .block BlockRecord.fractional :: Edit.appointed,
      edit.Readable := by decide +kernel
  exact ⟨hreads, (what_is_stored_is_given_back .block _ _ _ _).2 hreads⟩

end ChainIndex
