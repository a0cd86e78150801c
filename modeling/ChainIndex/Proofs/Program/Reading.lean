import ChainIndex.Proofs.Program.Records
import ChainIndex.Proofs.Store.Contract
import Mathlib.Algebra.Order.BigOperators.Group.List
import Mathlib.Algebra.Order.Group.Nat

/-!
# What is read from a partition

A query reads one partition of an index. So two stores that hold the same values there answer
it alike, whatever else they hold: `ReadsSame` says so of a program, and it is put together
along the program like any other of its properties. The calls of a query are scans, and of a
scan it is `scan_congr`.

All values of a partition are read page by page, and how many pages may be asked for depends
on how much the store holds elsewhere. That makes no difference, for the last page is reached
before the limit is. Each full page takes places from those that are still ahead, and there
are no more of these than the model has entries.

## Main definitions

* `MemoryModel.past`: The places that a scan has ahead of it.
* `Program.Obtains`: What a program reads from a store.
* `Program.ReadsSame`: A program reads the same from two stores.
* `Entity.Listed`: A value stands in a partition.
* `Entity.SameListed`: Two stores hold the same in a partition.
* `Entity.Kept`: A store keeps these values of a kind and no others.

## Theorems

* `length_past_le_extent`, `length_past_lt`: Why the pages come to an end.
* `readsSame_scan`, `readsSame_page`, `readsSame_first?`, `readsSame_list`: The queries.
-/

namespace ChainIndex

namespace MemoryModel

/-- The places that a scan has ahead of it: those of its partition past its bound, in order. -/
def past (model : MemoryModel) (scan : Scan) : List Place :=
  (model.walk scan).filter fun place => scan.admitted place.sort

theorem scan_eq_past (model : MemoryModel) (scan : Scan) :
    model.scan scan = ((model.past scan).take scan.limit.toNat).filterMap fun place =>
      (model.records[place.key]?).map Prod.fst := by
  rw [MemoryModel.scan, past_eq_filter (model.walk_pairwise scan), past]

/-- There are no more of them than the model has entries. -/
theorem length_past_le_extent (model : MemoryModel) (scan : Scan) :
    (model.past scan).length ≤ model.places.foldl (fun total _ set => total + set.size) 0 := by
  have hwalk : (model.walk scan).length
      ≤ model.places.foldl (fun total _ set => total + set.size) 0 := by
    rw [Std.TreeMap.foldl_eq_foldl_toList, walk]
    rcases hslot : model.places[(⟨scan.index, scan.partitionKey⟩ : Slot)]? with _ | set
    · exact Nat.zero_le _
    · have hmem := Std.TreeMap.mem_toList_iff_getElem?_eq_some.mpr hslot
      have hsum : set.size ≤ (model.places.toList.map fun p => p.2.size).sum :=
        List.le_sum_of_mem (List.mem_map.mpr ⟨_, hmem, rfl⟩)
      rw [List.sum_eq_foldl, List.foldl_map] at hsum
      cases scan.direction with
      | asc => simpa using hsum
      | desc => simpa using hsum
  exact (List.length_filter_le _ _).trans hwalk

/-- Past one of them there are fewer. -/
theorem length_past_lt (model : MemoryModel) {scan : Scan} {place : Place}
    (h : place ∈ model.past scan) :
    (model.past { scan with bound := some place.sort }).length < (model.past scan).length := by
  rcases List.mem_filter.mp h with ⟨_, hadmitted⟩
  have hnarrower : model.past { scan with bound := some place.sort }
      = (model.past scan).filter fun other =>
          ({ scan with bound := some place.sort } : Scan).admitted other.sort := by
    rw [past, past, List.filter_filter]
    refine List.filter_congr fun other _ => ?_
    -- What is past the place is past the bound that the place itself is past.
    rw [Bool.eq_iff_iff, Bool.and_eq_true, iff_self_and]
    intro hother
    rw [Scan.admitted_iff] at hother hadmitted ⊢
    exact fun bound hbound => (hadmitted bound hbound).trans (hother place.sort rfl)
  rw [hnarrower, List.length_filter_lt_length_iff_exists]
  refine ⟨place, h, fun hself => ?_⟩
  rw [Scan.admitted_iff] at hself
  exact Direction.Precedes.irrefl _ _ (hself place.sort rfl)

end MemoryModel

namespace Program

variable {α β γ : Type} {t t' : MemoryStore}

/-- The program reads `a` from the store, which it leaves as it is. -/
def Obtains (program : Program α) (t : MemoryStore) (a : α) : Prop :=
  ∀ source now, program.run World.answer ⟨t, source, now⟩ = (.ok a, ⟨t, source, now⟩)

/-- The program reads the same from two stores, and `q` is so of it. -/
def ReadsSame (t t' : MemoryStore) (q : α → Prop) (program : Program α) : Prop :=
  ∃ a, q a ∧ Obtains program t a ∧ Obtains program t' a

theorem obtains_pure (t : MemoryStore) (a : α) : Obtains (pure a) t a := fun _ _ => rfl

theorem Obtains.bind {program : Program α} {f : α → Program β} {a : α} {b : β}
    (h : Obtains program t a) (hf : Obtains (f a) t b) : Obtains (program >>= f) t b := by
  intro source now
  change (program.bind f).run World.answer _ = _
  rw [run_bind, h]
  exact hf source now

/-- A program reads one thing only. -/
theorem Obtains.unique {program : Program α} {a b : α} (h : Obtains program t a)
    (h' : Obtains program t b) : a = b := by
  have hrun := (h ⟨[], []⟩ 0).symm.trans (h' ⟨[], []⟩ 0)
  rw [Prod.mk.injEq, Except.ok.injEq] at hrun
  exact hrun.1

theorem Obtains.runs {program : Program α} {a : α} {fail : Prop} (h : Obtains program t a)
    (hquiet : Quiet program) (hwf : t.WF) :
    Runs MemoryStore.WF fail (fun value behind => behind = t ∧ value = a) program t := by
  refine (((hquiet.runs hwf).of_run (h ⟨[], []⟩ 0)).mono fun value behind _ hend => ?_).weaken
    (fun _ hmid => hmid) fun hfail => ?_
  · exact ⟨hend.2.1, (Except.ok.inj hend.1).symm⟩
  · rcases hfail with ⟨e, he⟩
    exact absurd he (by simp)

namespace ReadsSame

variable {q : α → Prop} {r : β → Prop}

theorem pure {a : α} (h : q a) : ReadsSame t t' q (Pure.pure a) :=
  ⟨a, h, obtains_pure t a, obtains_pure t' a⟩

theorem bind {program : Program α} {f : α → Program β} (h : ReadsSame t t' q program)
    (hf : ∀ a, q a → ReadsSame t t' r (f a)) : ReadsSame t t' r (program >>= f) := by
  rcases h with ⟨a, ha, hread, hread'⟩
  rcases hf a ha with ⟨b, hb, hnext, hnext'⟩
  exact ⟨b, hb, hread.bind hnext, hread'.bind hnext'⟩

theorem mono {q' : α → Prop} {program : Program α} (h : ReadsSame t t' q program)
    (hq : ∀ a, q a → q' a) : ReadsSame t t' q' program := by
  rcases h with ⟨a, ha, hread, hread'⟩
  exact ⟨a, hq a ha, hread, hread'⟩

/-- A loop over a list. -/
theorem foldlM {f : α → γ → Program α} {items : List γ} {a : α} (hstart : q a)
    (hstep : ∀ a, q a → ∀ c ∈ items, ReadsSame t t' q (f a c)) :
    ReadsSame t t' q (items.foldlM f a) := by
  induction items generalizing a with
  | nil => exact pure hstart
  | cons c rest ih =>
      exact bind (hstep a hstart c List.mem_cons_self) fun b hb =>
        ih hb fun a ha d hd => hstep a ha d (List.mem_cons_of_mem c hd)

end ReadsSame

end Program

/-! ## Partitions -/

namespace Entity

variable {α : Type} [Entity α]

/-- A value stands in a partition of an index. -/
def Listed (index : IndexDef) (partition : String) (t : MemoryStore) (a : α) : Prop :=
  Held t a ∧ ∃ sort, (⟨index.name, partition, sort⟩ : IndexEntry) ∈ entries a

variable (α) in
/-- Two stores hold the same values in a partition, and nothing there that is not a value. -/
structure SameListed (index : IndexDef) (partition : String) (t t' : MemoryStore) : Prop where
  wf : t.WF
  wf' : t'.WF
  typed : Typed α t
  typed' : Typed α t'
  listed : ∀ a : α, Listed index partition t a ↔ Listed index partition t' a

/-- The scan of a partition. -/
def scanOf (index : IndexDef) (partition : String) (limit : UInt64) (bound : Option String) :
    Scan :=
  ⟨index.name, some partition, index.direction, limit, bound⟩

section

variable {index : IndexDef} {partition : String} {t t' : MemoryStore}
variable {limit : UInt64} {bound : Option String}

theorem find_of_listed (htyped : Typed α t)
    (hlisted : ∀ a : α, Listed index partition t a → Listed index partition t' a) {k : String}
    {found : Stored}
    (hentry : ∃ sort, (⟨index.name, partition, sort⟩ : IndexEntry) ∈ found.2)
    (hfound : t.find (model α) k = some found) : t'.find (model α) k = some found := by
  rcases htyped k found hfound with ⟨a, rfl, rfl⟩
  exact (hlisted a ⟨hfound, hentry⟩).1

namespace SameListed

variable (h : SameListed α index partition t t')
include h

theorem find_iff {k : String} {found : Stored}
    (hentry : ∃ sort, (⟨index.name, partition, sort⟩ : IndexEntry) ∈ found.2) :
    t.find (model α) k = some found ↔ t'.find (model α) k = some found :=
  ⟨find_of_listed h.typed (fun a => (h.listed a).mp) hentry,
    find_of_listed h.typed' (fun a => (h.listed a).mpr) hentry⟩

/-- A scan of the partition finds the same in both. -/
theorem scan_eq : t.scan (model α) (scanOf index partition limit bound)
    = t'.scan (model α) (scanOf index partition limit bound) :=
  MemoryModel.scan_congr (h.wf _) (h.wf' _) _ fun _ _ hentry => h.find_iff hentry

/-- It has the same places ahead of it. -/
theorem past_eq : (t.model (model α)).past (scanOf index partition limit bound)
    = (t'.model (model α)).past (scanOf index partition limit bound) := by
  rw [MemoryModel.past, MemoryModel.past, MemoryModel.walk_eq, MemoryModel.walk_eq,
    MemoryModel.placesAt_congr (h.wf _) (h.wf' _) _ fun _ _ hentry => h.find_iff hentry]

end SameListed

/-- What a scan finds are values of the partition, at places that were ahead. -/
theorem listed_of_mem_scan (hwf : t.WF) (htyped : Typed α t) {value : Json}
    (h : value ∈ t.scan (model α) (scanOf index partition limit bound)) :
    ∃ a : α, value = toJson a ∧ Listed index partition t a ∧
      ∃ place ∈ (t.model (model α)).past (scanOf index partition limit bound),
        (⟨index.name, partition, place.sort⟩ : IndexEntry) ∈ entries a := by
  rw [MemoryStore.scan, MemoryModel.scan_eq_past, List.mem_filterMap] at h
  rcases h with ⟨place, hplace, hvalue⟩
  have hpast := List.mem_of_mem_take hplace
  have hwalked := (MemoryModel.mem_walk _ _ _).mp (List.mem_of_mem_filter hpast)
  rcases ((hwf _).mem_placesAt _ _).mp hwalked with ⟨found, hfound, hentry⟩
  rw [hfound, Option.map_some, Option.some.injEq] at hvalue
  rcases htyped.exists_held hfound with ⟨a, rfl, _, hheld⟩
  exact ⟨a, hvalue.symm, ⟨hheld, place.sort, hentry⟩, place, hpast, hentry⟩

variable [RoundTrip α]

/-- Values that were stored are read back. -/
theorem decode_all {values : List Json} {q : α → Prop}
    (h : ∀ value ∈ values, ∃ a : α, value = toJson a ∧ q a) :
    ∃ items : List α, values.mapM decode = .ok items ∧ values = items.map toJson ∧
      ∀ a ∈ items, q a := by
  induction values with
  | nil => exact ⟨[], rfl, rfl, by simp⟩
  | cons value rest ih =>
      rw [List.forall_mem_cons] at h
      rcases h.1 with ⟨a, rfl, ha⟩
      rcases ih h.2 with ⟨items, hitems, rfl, hall⟩
      refine ⟨a :: items, ?_, rfl, List.forall_mem_cons.mpr ⟨ha, hall⟩⟩
      rw [List.mapM_cons, RoundTrip.decode_toJson, hitems]
      rfl

end

end Entity

/-! ## Queries -/

namespace Program

open Entity

variable {α : Type} [Entity α] {index : IndexDef} {partition : String} {t t' : MemoryStore}
variable {limit : UInt64} {bound : Option String}

theorem obtains_scan {items : List α}
    (h : (t.scan (model α) (scanOf index partition limit bound)).mapM decode = .ok items) :
    Obtains (scan α index (some partition) limit bound) t items := by
  refine Obtains.bind (a := t.scan (model α) (scanOf index partition limit bound))
    (fun _ _ => rfl) fun source now => ?_
  rw [h]
  rfl

variable [RoundTrip α] (h : SameListed α index partition t t')

include h

/-- A scan reads values of the partition, and the same from both stores. -/
theorem readsSame_scan :
    ReadsSame t t' (fun items => (∀ a ∈ items, Listed index partition t a) ∧
        ∀ a ∈ items, ∃ place ∈ (t.model (model α)).past (scanOf index partition limit bound),
          (⟨index.name, partition, place.sort⟩ : IndexEntry) ∈ entries a)
      (scan α index (some partition) limit bound) := by
  rcases decode_all fun value hvalue => listed_of_mem_scan h.wf h.typed hvalue with
    ⟨items, hitems, _, hall⟩
  exact ⟨items, ⟨fun a ha => (hall a ha).1, fun a ha => (hall a ha).2⟩, obtains_scan hitems,
    obtains_scan (h.scan_eq ▸ hitems)⟩

/-- So does a query for a page. -/
theorem readsSame_page (query : PageQuery) :
    ReadsSame t t' (fun page => ∀ a ∈ page.data, Listed index partition t a)
      (page α index (some partition) query) :=
  (readsSame_scan h).bind fun _ hitems => .pure hitems.1

/-- And one for the first value. -/
theorem readsSame_first? :
    ReadsSame t t' (fun value => ∀ a ∈ value, Listed index partition t a)
      (first? α index (some partition)) :=
  (readsSame_scan h).bind fun _ hitems => .pure fun a ha => hitems.1 a (List.mem_of_mem_head? ha)

/-- As long as each page but the last takes places from those ahead, the pages come to an end
    whatever their limit is. -/
theorem readsSame_listFrom
    (hsort : ∀ (a : α) (sort : String),
      (⟨index.name, partition, sort⟩ : IndexEntry) ∈ entries a → sort = sortKey index a)
    {pages pages' : Nat} {found : List α} {bound : Option String}
    (hfound : ∀ a ∈ found, Listed index partition t a)
    (hpages : ((t.model (model α)).past
      (scanOf index partition PageQuery.maxLimit bound)).length < pages)
    (hpages' : ((t'.model (model α)).past
      (scanOf index partition PageQuery.maxLimit bound)).length < pages') :
    ∃ items : List α, (∀ a ∈ items, Listed index partition t a) ∧
      Obtains (listFrom index (some partition) pages found bound) t items ∧
      Obtains (listFrom index (some partition) pages' found bound) t' items := by
  -- Both limits go down with every page, and so do the places ahead.
  induction pages generalizing pages' found bound with
  | zero => exact absurd hpages (Nat.not_lt_zero _)
  | succ pages ih =>
      rcases Nat.exists_eq_succ_of_ne_zero (Nat.ne_zero_of_lt hpages') with ⟨pages', rfl⟩
      have hscan : ReadsSame t t' _ (scan α index (some partition) PageQuery.maxLimit bound) :=
        readsSame_scan h
      rcases hscan with ⟨batch, ⟨hlisted, hplaces⟩, hread, hread'⟩
      have hall : ∀ a ∈ found ++ batch, Listed index partition t a := fun a ha =>
        (List.mem_append.mp ha).elim (hfound a) (hlisted a)
      by_cases hshort : batch.length < PageQuery.maxLimit.toNat
      · refine ⟨found ++ batch, hall, hread.bind ?_, hread'.bind ?_⟩
        · rw [if_pos hshort]
          exact obtains_pure t _
        · rw [if_pos hshort]
          exact obtains_pure t' _
      · -- The last place of a full page is one of those ahead, and the next page starts past it.
        have hne : batch ≠ [] := fun hnil => hshort (hnil ▸ (by decide : 0 < 200))
        rcases hplaces _ (List.getLast_mem hne) with ⟨place, hplace, hentry⟩
        have hlast : batch.getLast?.map (sortKey index) = some place.sort := by
          rw [List.getLast?_eq_some_getLast hne, Option.map_some, hsort _ _ hentry]
        have hlt := MemoryModel.length_past_lt _ hplace
        have hlt' := MemoryModel.length_past_lt _ (h.past_eq ▸ hplace)
        rcases ih hall (hlt.trans_le (Nat.lt_succ_iff.mp hpages))
          (hlt'.trans_le (Nat.lt_succ_iff.mp hpages')) with ⟨items, hitems, hrest, hrest'⟩
        refine ⟨items, hitems, hread.bind ?_, hread'.bind ?_⟩
        · rw [if_neg hshort, hlast]
          exact hrest
        · rw [if_neg hshort, hlast]
          exact hrest'

/-- And one for all values. -/
theorem readsSame_list
    (hsort : ∀ (a : α) (sort : String),
      (⟨index.name, partition, sort⟩ : IndexEntry) ∈ entries a → sort = sortKey index a) :
    ReadsSame t t' (fun items => ∀ a ∈ items, Listed index partition t a)
      (list α index (some partition)) := by
  rcases readsSame_listFrom h hsort (fun _ hnil => absurd hnil List.not_mem_nil)
    (Nat.lt_succ_iff.mpr ((t.model (model α)).length_past_le_extent _))
    (Nat.lt_succ_iff.mpr ((t'.model (model α)).length_past_le_extent _)) with
    ⟨items, hitems, hread, hread'⟩
  exact ⟨items, hitems, Obtains.bind (a := t.extent (model α)) (fun _ _ => rfl) hread,
    Obtains.bind (a := t'.extent (model α)) (fun _ _ => rfl) hread'⟩

end Program

/-! ## What is held of a kind -/

namespace Entity

variable {α : Type} [Entity α]

/-- The values of a list after one more, which takes the place of one with the same key. -/
def upserted (items : List α) (a : α) : List α :=
  (items.filter fun b => key b ≠ key a) ++ [a]

theorem mem_upserted {items : List α} {a b : α} :
    b ∈ upserted items a ↔ b ∈ items ∧ key b ≠ key a ∨ b = a := by
  rw [upserted, List.mem_append, List.mem_filter, decide_eq_true_iff, List.mem_singleton]

/-- To put a value in place of itself changes nothing. -/
theorem upserted_upserted (items : List α) (a : α) :
    upserted (upserted items a) a = upserted items a := by
  simp [upserted, List.filter_filter]

/-- Of the values with the property `p` a store holds these and no others. All of them are
    `proper`, and nothing of their kind is held that is not a value. -/
structure Kept (p proper : α → Prop) (items : List α) (t : MemoryStore) : Prop where
  typed : Typed α t
  held : ∀ a, p a → (Held t a ↔ a ∈ items)
  proper : ∀ a ∈ items, proper a

namespace Kept

variable {p proper : α → Prop} {items : List α} {t t' : MemoryStore} {a : α}

theorem congr (h : Kept p proper items t)
    (hkept : ∀ k, t'.find (model α) k = t.find (model α) k) : Kept p proper items t' where
  typed := h.typed.congr hkept
  held b hb := (held_congr hkept b).trans (h.held b hb)
  proper := h.proper

variable [RoundTrip α]

/-- A value that counts is saved. -/
theorem saved (h : Kept p proper items t) (ha : proper a) :
    Kept p proper (upserted items a) (Entity.saved t a) where
  typed := h.typed.saved a
  held b hb := by
    rw [held_saved_iff, mem_upserted, h.held b hb]
  proper b hb := by
    rcases mem_upserted.mp hb with ⟨hmem, _⟩ | rfl
    · exact h.proper b hmem
    · exact ha

/-- Another one is, under a key of its own. -/
theorem saved_other (h : Kept p proper items t) (ha : ¬ p a)
    (hkey : ∀ b, proper b → key b ≠ key a) : Kept p proper items (Entity.saved t a) where
  typed := h.typed.saved a
  held b hb := by
    have hne : b ≠ a := fun heq => ha (heq ▸ hb)
    rw [held_saved_iff, h.held b hb]
    exact ⟨fun hor => (hor.resolve_right hne).1,
      fun hmem => Or.inl ⟨hmem, hkey b (h.proper b hmem)⟩⟩
  proper := h.proper

omit [RoundTrip α] in
/-- Stores that hold the same of the values in a partition. -/
theorem sameListed (h : Kept p proper items t) (h' : Kept p proper items t') (hwf : t.WF)
    (hwf' : t'.WF) {index : IndexDef} {partition : String}
    (hp : ∀ (a : α) (sort : String),
      (⟨index.name, partition, sort⟩ : IndexEntry) ∈ entries a → p a) :
    SameListed α index partition t t' where
  wf := hwf
  wf' := hwf'
  typed := h.typed
  typed' := h'.typed
  listed a := and_congr_left fun ⟨sort, hentry⟩ =>
    (h.held a (hp a sort hentry)).trans (h'.held a (hp a sort hentry)).symm

end Kept

end Entity

end ChainIndex
