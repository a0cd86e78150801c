import ChainIndex.Proofs.Entity.Kinds
import ChainIndex.Proofs.Program.Enumeration
import ChainIndex.Proofs.Program.Reading

/-!
# Walking through a partition

A reader walks through a partition a page at a time, each page starting strictly past the
last sort key of the one before, and between two of its requests records come and go. What
carries the walk is the cursor. All that was returned stands before it or at it, and all
that a later page can return stands past it, whatever happened to the record that the
cursor names. So no record that keeps its place is lost or met twice, as long as no two
records of the partition stand at one place when a page is asked for.

A page is full or it is the last. While nothing changes each full page takes its size from
what is ahead, so the number of pages is known in advance.

## Main definitions

* `Edit`: A put or a delete that is made through the records of a kind.
* `walk`: A walk through a partition with edits before each request.
* `Visit`: What a request of a walk found.
* `Entity.inPartition`: The values of a partition.
* `Direction.Past`: A sort key lies past a cursor.
* `Entity.Ahead`: The values of a partition past a cursor, in order.
* `Untied`, `Stays`: No two values share a sort key, and one keeps its own.
* `WalkedFrom`: What a walk from a cursor on keeps.

## Theorems

* `exists_ahead`, `run_page`: A page is the first of what is ahead.
* `ofScan_take`: A page is the last, or it is full and its last value is the cursor.
* `WalkedFrom.cons`: A page and a walk from its last value on are a walk.
* `Ahead.unique`, `Ahead.mem_iff_listed`: What is ahead is one list, and from the start it is all
  of a partition.
* `walkedFrom_walk`: What a walk returns, and that it is all there is.
* `walk_length`: How many pages there are while nothing changes.
* `walk_meets_each_once`: A walk loses nothing and repeats nothing.
-/

namespace ChainIndex

/-! ## Edits and walks -/

/-- A change that is made through the records of a kind. -/
inductive Edit where
  /-- A value is put. -/
  | put (kind : RecordKind) (value : kind.Value)
  /-- The value under a key is deleted. -/
  | delete (kind : RecordKind) (key : String)

/-- The program that makes the change. -/
def Edit.program : Edit → Program Unit
  | .put _ value => Entity.save value
  | .delete kind key => Entity.remove kind.Value key

/-- The world after a list of changes. -/
def Edit.applied (edits : List Edit) (world : World MemoryStore) : World MemoryStore :=
  ((edits.forM Edit.program).run World.answer world).2

/-- What a request of a walk found. -/
structure Visit (α : Type) where
  /-- The store at the time of the request. -/
  store : MemoryStore
  /-- What the request was answered with. -/
  answer : Except Error (Page α)

section

variable (α : Type) [Entity α]

/-- A walk through a partition. Before each request some changes are made, and each request
    starts behind the page before. The walk goes on as long as there is a next page and a
    round is left for it. -/
def walk (index : IndexDef) (partition : Option String) (limit : UInt64) :
    List (List Edit) → World MemoryStore → Option String → List (Visit α)
  | [], _, _ => []
  | edits :: rounds, world, cursor =>
    let before := Edit.applied edits world
    let (answer, behind) :=
      (Entity.page α index partition ⟨limit, cursor⟩).run World.answer before
    ⟨before.store, answer⟩ ::
      match answer with
      | .ok ⟨_, some next⟩ => walk index partition limit rounds behind (some next)
      | _ => []

end

namespace Visit

variable {α : Type}

/-- The values of the page, if there is one. -/
def data (visit : Visit α) : List α :=
  match visit.answer with
  | .ok page => page.data
  | .error _ => []

/-- Is the page the last? -/
def isLast (visit : Visit α) : Bool :=
  match visit.answer with
  | .ok page => page.next.isNone
  | .error _ => false

end Visit

/-- Everything that a walk returned, in the order of its pages. -/
def returned {α : Type} (visits : List (Visit α)) : List α :=
  visits.flatMap Visit.data

/-- A walk came to a page without a next one. -/
def Ended {α : Type} (visits : List (Visit α)) : Prop :=
  visits.getLast?.any Visit.isLast = true

instance {α : Type} (visits : List (Visit α)) : Decidable (Ended visits) :=
  inferInstanceAs (Decidable (_ = true))

/-- A sort key lies past a cursor; without one, every sort key does. -/
def Direction.Past (direction : Direction) (cursor : Option String) (sort : String) : Prop :=
  ∀ bound, cursor = some bound → direction.Precedes bound sort

theorem Direction.past_none (direction : Direction) (sort : String) : direction.Past none sort :=
  fun bound hbound => absurd hbound (by simp)

/-! ## The values of a partition -/

namespace Entity

variable {α : Type} [Entity α]

variable (α) in
/-- The values that stand in a partition of an index. -/
def inPartition (index : IndexDef) (partition : Option String) (store : MemoryStore) : List α :=
  (all α store).filter fun a =>
    (entries a).any fun entry =>
      entry.index == index.name && entry.partition == partition.getD ""

/-- Where a value stands in an index. -/
def placeIn (index : IndexDef) (a : α) : Place := ⟨sortKey index a, key a⟩

/-- What of a partition is past a cursor, in order. -/
structure Ahead (index : IndexDef) (partition : Option String) (store : MemoryStore)
    (cursor : Option String) (items : List α) : Prop where
  ordered : (items.map (placeIn index)).Pairwise index.direction.Before
  mem_iff : ∀ a, a ∈ items ↔ a ∈ inPartition α index partition store ∧
    index.direction.Past cursor (sortKey index a)

/-- Every entry of a value in an index is at its sort key there. -/
theorem sortKey_of_entry [SinglyIndexed α] {index : IndexDef} {a : α} {partition sort : String}
    (h : (⟨index.name, partition, sort⟩ : IndexEntry) ∈ entries a) : sortKey index a = sort := by
  have hsingle : entries a = [⟨index.name, partition, sort⟩] := by
    have hle := SinglyIndexed.length_entries_le a
    rcases hentries : entries a with _ | ⟨entry, _ | ⟨other, rest⟩⟩
    · rw [hentries] at h
      cases h
    · rw [hentries, List.mem_singleton] at h
      rw [h]
    · rw [hentries] at hle
      simp at hle
  simp [sortKey, hsingle]

section

variable [RoundTrip α] {index : IndexDef} {partition : Option String} {store : MemoryStore}

theorem mem_inPartition (h : Typed α store) (a : α) :
    a ∈ inPartition α index partition store ↔ Listed index (partition.getD "") store a := by
  rw [inPartition, List.mem_filter, mem_all h, List.any_eq_true, Listed]
  refine and_congr_right fun _ => ⟨fun ⟨entry, hentry, hmatch⟩ => ?_, fun ⟨sort, hentry⟩ => ?_⟩
  · rw [Bool.and_eq_true, beq_iff_eq, beq_iff_eq] at hmatch
    exact ⟨entry.sort, by rw [← hmatch.1, ← hmatch.2]; exact hentry⟩
  · exact ⟨_, hentry, by simp⟩

/-- Under a key there is one value. -/
theorem Held.eq_of_key {a b : α} (ha : Held store a) (hb : Held store b)
    (h : key a = key b) : a = b := by
  rw [Held, h, hb] at ha
  exact (stored_injective (Option.some.inj ha)).symm

theorem nodup_inPartition (h : Typed α store) : (inPartition α index partition store).Nodup :=
  (nodup_all h).filter _

/-- Where each element of a list is an image, the list is one of images. -/
theorem exists_map_eq {β γ : Type} {f : β → γ} {q : β → Prop} {l : List γ}
    (h : ∀ c ∈ l, ∃ b, f b = c ∧ q b) : ∃ items : List β, items.map f = l ∧ ∀ b ∈ items, q b := by
  induction l with
  | nil => exact ⟨[], rfl, by simp⟩
  | cons c rest ih =>
      rw [List.forall_mem_cons] at h
      rcases h.1 with ⟨b, rfl, hb⟩
      rcases ih h.2 with ⟨items, rfl, hall⟩
      exact ⟨b :: items, rfl, List.forall_mem_cons.mpr ⟨hb, hall⟩⟩

/-- Values that were stored are read back, all of them. -/
theorem mapM_decode (items : List α) : (items.map toJson).mapM decode = .ok items := by
  induction items with
  | nil => rfl
  | cons a rest ih =>
      rw [List.map_cons, List.mapM_cons, RoundTrip.decode_toJson, ih]
      rfl

variable [SinglyIndexed α]

variable (index partition) in
/-- A scan past a cursor finds the first of what is ahead. -/
theorem exists_ahead (hwf : store.WF) (htyped : Typed α store) (cursor : Option String) :
    ∃ items : List α, Ahead index partition store cursor items ∧ ∀ limit,
      store.scan (model α) ⟨index.name, partition, index.direction, limit, cursor⟩ =
        (items.take limit.toNat).map toJson := by
  let scan : Scan := ⟨index.name, partition, index.direction, 0, cursor⟩
  have hplaces : ∀ place ∈ (store.model (model α)).past scan, ∃ a : α,
      placeIn index a = place ∧ Listed index (partition.getD "") store a := by
    intro place hplace
    have hwalked := (MemoryModel.mem_walk _ _ _).mp (List.mem_of_mem_filter hplace)
    rcases ((hwf _).mem_placesAt _ _).mp hwalked with ⟨found, hfound, hentry⟩
    rcases htyped.exists_held hfound with ⟨a, rfl, hkey, hheld⟩
    refine ⟨a, ?_, hheld, place.sort, hentry⟩
    rw [placeIn, sortKey_of_entry hentry, ← hkey]
  rcases exists_map_eq hplaces with ⟨items, hitems, hlisted⟩
  refine ⟨items, ⟨?_, fun a => ?_⟩, fun limit => ?_⟩
  · rw [hitems]
    exact ((store.model (model α)).walk_pairwise scan).filter _
  · rw [mem_inPartition htyped]
    constructor
    · intro ha
      have hplace : placeIn index a ∈ (store.model (model α)).past scan :=
        hitems ▸ List.mem_map_of_mem ha
      exact ⟨hlisted a ha, (Scan.admitted_iff _ _).mp (List.mem_filter.mp hplace).2⟩
    · rintro ⟨⟨hheld, sort, hentry⟩, hpast⟩
      rw [← sortKey_of_entry hentry] at hentry
      have hplace : placeIn index a ∈ (store.model (model α)).past scan := by
        refine List.mem_filter.mpr ⟨?_, (Scan.admitted_iff _ _).mpr hpast⟩
        exact (MemoryModel.mem_walk _ _ _).mpr (((hwf _).mem_placesAt _ _).mpr ⟨_, hheld, hentry⟩)
      -- Under the key of that place there is one value only.
      rw [← hitems, List.mem_map] at hplace
      rcases hplace with ⟨b, hb, heq⟩
      rw [← (hlisted b hb).1.eq_of_key hheld (congrArg Place.key heq)]
      exact hb
  · have hlimited : (store.model (model α)).past
        ⟨index.name, partition, index.direction, limit, cursor⟩ = items.map (placeIn index) :=
      hitems.symm
    rw [MemoryStore.scan, MemoryModel.scan_eq_past, hlimited, ← List.map_take,
      List.filterMap_map, ← List.filterMap_eq_map]
    refine List.filterMap_congr fun a ha => ?_
    have hheld : (store.model (model α)).records[key a]? = some (stored a) :=
      (hlisted a (List.mem_of_mem_take ha)).1
    simp [placeIn, hheld, stored]

variable (index partition) in
/-- A page is the first of what is ahead, and asking for it changes nothing. -/
theorem run_page (hwf : store.WF) (htyped : Typed α store) (query : PageQuery)
    (source : MemorySource) (now : Int64) :
    ∃ items : List α, Ahead index partition store query.next items ∧
      (page α index partition query).run World.answer ⟨store, source, now⟩ =
        (.ok (Page.ofScan (items.take query.effectiveLimit.toNat) query.effectiveLimit
          (sortKey index)), ⟨store, source, now⟩) := by
  rcases exists_ahead index partition hwf htyped query.next with ⟨items, hahead, hscan⟩
  have hread : Program.Obtains (page α index partition query) store
      (Page.ofScan (items.take query.effectiveLimit.toNat) query.effectiveLimit
        (sortKey index)) := by
    refine Program.Obtains.bind ?_ (Program.obtains_pure store _)
    refine Program.Obtains.bind (a := store.scan (model α)
      ⟨index.name, partition, index.direction, query.effectiveLimit, query.next⟩)
      (fun _ _ => rfl) fun _ _ => ?_
    rw [hscan, mapM_decode]
    rfl
  exact ⟨items, hahead, hread source now⟩

omit [RoundTrip α] [SinglyIndexed α] in
/-- Where no two values of a partition share a sort key, what is ahead is in the order of
    sort keys. -/
theorem Ahead.sorted {cursor : Option String} {items : List α}
    (h : Ahead index partition store cursor items)
    (huntied : ((inPartition α index partition store).map (sortKey index)).Nodup) :
    items.Pairwise fun a b => index.direction.Precedes (sortKey index a) (sortKey index b) := by
  refine (List.pairwise_map.mp h.ordered).imp_of_mem fun {a b} ha hb hbefore => ?_
  rcases hbefore with hsort | ⟨heq, hkey⟩
  · exact hsort
  · have hsame : a = b := List.inj_on_of_nodup_map huntied ((h.mem_iff a).mp ha).1
      ((h.mem_iff b).mp hb).1 heq
    rw [hsame] at hkey
    exact absurd hkey (Direction.Precedes.irrefl _ _)

end

end Entity

/-! ## Pages -/

theorem PageQuery.effectiveLimit_pos (query : PageQuery) : 0 < query.effectiveLimit.toNat := by
  unfold effectiveLimit
  by_cases hzero : query.limit = 0
  · rw [if_pos hzero]
    decide
  · rw [if_neg hzero]
    by_cases hle : query.limit ≤ maxLimit
    · rw [if_pos hle]
      exact Nat.pos_of_ne_zero fun hc => hzero (UInt64.toNat_inj.mp hc)
    · rw [if_neg hle]
      decide

/-- Where there is enough for a full page, the page has a last item. -/
theorem exists_full_page {α : Type} {items : List α} {size : Nat} (hpos : 0 < size)
    (hfull : size ≤ items.length) : ∃ front last rest, items = front ++ last :: rest ∧
      front.length + 1 = size ∧ items.take size = front ++ [last] := by
  have hlength : (items.take size).length = size := by
    rw [List.length_take]
    omega
  rcases List.eq_nil_or_concat (items.take size) with hnil | ⟨front, last, hconcat⟩
  · rw [hnil] at hlength
    exact absurd hlength hpos.ne
  · rw [List.concat_eq_append] at hconcat
    refine ⟨front, last, items.drop size, ?_, ?_, hconcat⟩
    · conv_lhs => rw [← List.take_append_drop size items, hconcat]
      rw [List.append_assoc, List.singleton_append]
    · rw [← hlength, hconcat, List.length_append, List.length_singleton]

/-- A page of the first of some items is the last one and has them all, or it is full and its
    last item is where the next page starts. -/
theorem ofScan_take {α : Type} (items : List α) (limit : UInt64) (hpos : 0 < limit.toNat)
    (f : α → String) :
    (items.length < limit.toNat ∧ Page.ofScan (items.take limit.toNat) limit f = ⟨items, none⟩) ∨
      ∃ front last rest, items = front ++ last :: rest ∧ front.length + 1 = limit.toNat ∧
        Page.ofScan (items.take limit.toNat) limit f = ⟨front ++ [last], some (f last)⟩ := by
  rcases Nat.lt_or_ge items.length limit.toNat with hshort | hfull
  · left
    refine ⟨hshort, ?_⟩
    rw [List.take_of_length_le hshort.le, Page.ofScan, if_neg fun hc => hshort.ne hc.2]
  · right
    rcases exists_full_page hpos hfull with ⟨front, last, rest, hitems, hlength, hpage⟩
    refine ⟨front, last, rest, hitems, hlength, ?_⟩
    have hsize : (items.take limit.toNat).length = limit.toNat := by
      rw [hpage, List.length_append, List.length_singleton, hlength]
    rw [Page.ofScan, if_pos ⟨hpos, hsize⟩, hpage, List.getLast?_concat, Option.map_some]

/-! ## Rounds of a walk -/

namespace Edit

open Entity

/-- The store after a change. -/
def made (store : MemoryStore) : Edit → MemoryStore
  | .put _ value => saved store value
  | .delete kind key => removed kind.Value store key

theorem applied_eq (edits : List Edit) (world : World MemoryStore) :
    applied edits world = { world with store := edits.foldl made world.store } := by
  induction edits generalizing world with
  | nil => rfl
  | cons edit rest ih =>
      cases edit with
      | put kind value => exact ih { world with store := saved world.store value }
      | delete kind key => exact ih { world with store := removed kind.Value world.store key }

theorem wf_made {store : MemoryStore} (h : store.WF) (edit : Edit) : (made store edit).WF := by
  cases edit with
  | put kind value => exact wf_saved h value
  | delete kind key => exact wf_removed h key

/-- Whatever kind is changed, the records of each kind are values of it. -/
theorem typed_made {kind : RecordKind} {store : MemoryStore} (h : Typed kind.Value store)
    (edit : Edit) : Typed kind.Value (made store edit) := by
  cases edit with
  | put other value =>
      by_cases hkind : kind = other
      · subst hkind
        exact h.saved value
      · exact h.saved_of_ne value fun hmodel => hkind (RecordKind.eq_of_model_eq hmodel)
  | delete other key => exact h.removed key

theorem wf_applied (edits : List Edit) {world : World MemoryStore} (h : world.store.WF) :
    (applied edits world).store.WF := by
  rw [applied_eq]
  exact List.foldlRecOn edits made h fun _ hwf edit _ => wf_made hwf edit

theorem typed_applied {kind : RecordKind} (edits : List Edit) {world : World MemoryStore}
    (h : Typed kind.Value world.store) : Typed kind.Value (applied edits world).store := by
  rw [applied_eq]
  exact List.foldlRecOn (motive := fun store => Typed kind.Value store) edits made h
    fun _ htyped edit _ => typed_made htyped edit

end Edit

open Entity

theorem returned_cons {α : Type} (visit : Visit α) (visits : List (Visit α)) :
    returned (visit :: visits) = visit.data ++ returned visits :=
  List.flatMap_cons

theorem ended_cons {α : Type} {visit : Visit α} (h : visit.isLast = false)
    (visits : List (Visit α)) : Ended (visit :: visits) ↔ Ended visits := by
  unfold Ended
  rcases visits with _ | ⟨second, rest⟩
  · simp [h]
  · rw [List.getLast?_cons_cons]

section

variable {α : Type} [Entity α] {index : IndexDef} {partition : Option String}

/-- The first request of a walk finds the store after the first changes. -/
theorem store_of_head? {limit : UInt64} {edits : List Edit} {rounds : List (List Edit)}
    {world : World MemoryStore} {cursor : Option String} {visit : Visit α}
    (h : (walk α index partition limit (edits :: rounds) world cursor).head? = some visit) :
    visit.store = (Edit.applied edits world).store := by
  rw [walk, List.head?_cons] at h
  rw [← Option.some.inj h]

/-- One round of a walk. Its page is the last one, or the walk goes on behind it. -/
theorem walk_cons [RoundTrip α] [SinglyIndexed α] (index : IndexDef) (partition : Option String)
    (limit : UInt64) (edits : List Edit) (rounds : List (List Edit)) (world : World MemoryStore)
    (cursor : Option String) (hwf : (Edit.applied edits world).store.WF)
    (htyped : Typed α (Edit.applied edits world).store) :
    let before := Edit.applied edits world
    let size := (PageQuery.first limit).effectiveLimit.toNat
    ∃ items : List α, Ahead index partition before.store cursor items ∧
      ((items.length < size ∧ walk α index partition limit (edits :: rounds) world cursor =
          [⟨before.store, .ok ⟨items, none⟩⟩]) ∨
        ∃ front last rest, items = front ++ last :: rest ∧ front.length + 1 = size ∧
          walk α index partition limit (edits :: rounds) world cursor =
            ⟨before.store, .ok ⟨front ++ [last], some (sortKey index last)⟩⟩ ::
              walk α index partition limit rounds before (some (sortKey index last))) := by
  intro before size
  rcases run_page index partition hwf htyped ⟨limit, cursor⟩
    before.source before.now with ⟨items, hahead, hrun⟩
  refine ⟨items, hahead, ?_⟩
  rcases ofScan_take items _ (PageQuery.effectiveLimit_pos ⟨limit, cursor⟩) (sortKey index) with
    ⟨hshort, hpage⟩ | ⟨front, last, rest, hitems, hlength, hpage⟩
  · rw [hpage] at hrun
    refine Or.inl ⟨hshort, ?_⟩
    rw [walk, hrun]
  · rw [hpage] at hrun
    refine Or.inr ⟨front, last, rest, hitems, hlength, ?_⟩
    rw [walk, hrun]

/-! ## What a walk keeps -/

variable (α) (index partition) in
/-- At none of its requests do two values of the partition share a sort key. -/
def Untied (visits : List (Visit α)) : Prop :=
  ∀ visit ∈ visits, ((inPartition α index partition visit.store).map (sortKey index)).Nodup

instance (visits : List (Visit α)) : Decidable (Untied α index partition visits) :=
  inferInstanceAs (Decidable (∀ visit ∈ visits, List.Nodup _))

variable (index partition) in
/-- At each of its requests the partition has a value under this key and at this sort key. -/
def Stays (visits : List (Visit α)) (k sort : String) : Prop :=
  ∀ visit ∈ visits, ∃ a ∈ inPartition α index partition visit.store,
    key a = k ∧ sortKey index a = sort

instance (visits : List (Visit α)) (k sort : String) :
    Decidable (Stays index partition visits k sort) :=
  inferInstanceAs (Decidable (∀ visit ∈ visits, ∃ _ ∈ _, _ ∧ _))

variable (index partition) in
/-- What a walk from a cursor on keeps. It returns values that it found, in the order of
    their sort keys and past the cursor, and if it ended it has returned what stayed there. -/
structure WalkedFrom (cursor : Option String) (visits : List (Visit α)) : Prop where
  typed : ∀ visit ∈ visits, Typed α visit.store
  answered : ∀ visit ∈ visits, ∃ page, visit.answer = .ok page
  past : ∀ a ∈ returned visits, index.direction.Past cursor (sortKey index a)
  sorted : (returned visits).Pairwise fun a b =>
    index.direction.Precedes (sortKey index a) (sortKey index b)
  found : ∀ a ∈ returned visits, ∃ visit ∈ visits,
    a ∈ inPartition α index partition visit.store
  complete : Ended visits → ∀ k sort, Stays index partition visits k sort →
    index.direction.Past cursor sort → ∃ a ∈ returned visits, key a = k

namespace WalkedFrom

variable {cursor : Option String} {store : MemoryStore} {later : List (Visit α)}

theorem nil : WalkedFrom index partition cursor ([] : List (Visit α)) where
  typed := by simp
  answered := by simp
  past := by simp [returned]
  sorted := List.Pairwise.nil
  found := by simp [returned]
  complete := by simp [Ended]

/-- The last page has all that is ahead. -/
theorem last {items : List α} (htyped : Typed α store)
    (hahead : Ahead index partition store cursor items)
    (hsorted : items.Pairwise fun a b =>
      index.direction.Precedes (sortKey index a) (sortKey index b)) :
    WalkedFrom index partition cursor [⟨store, .ok ⟨items, none⟩⟩] := by
  have hall : returned [(⟨store, .ok ⟨items, none⟩⟩ : Visit α)] = items := List.append_nil items
  refine ⟨fun visit hvisit => ?_, fun visit hvisit => ?_, ?_, ?_, ?_,
    fun _ k sort hstays hpast => ?_⟩
  · rw [List.mem_singleton.mp hvisit]
    exact htyped
  · exact ⟨_, by rw [List.mem_singleton.mp hvisit]⟩
  · rw [hall]
    exact fun a ha => ((hahead.mem_iff a).mp ha).2
  · rw [hall]
    exact hsorted
  · rw [hall]
    exact fun a ha => ⟨_, List.mem_singleton_self _, ((hahead.mem_iff a).mp ha).1⟩
  · rcases hstays _ (List.mem_singleton_self _) with ⟨a, ha, hkey, rfl⟩
    rw [hall]
    exact ⟨a, (hahead.mem_iff a).mpr ⟨ha, hpast⟩, hkey⟩

/-- A full page has the first of what is ahead. What is behind its last value is left to the
    pages after it, whatever becomes of that value. -/
theorem cons {front rest : List α} {last : α} (htyped : Typed α store)
    (hahead : Ahead index partition store cursor (front ++ last :: rest))
    (hsorted : (front ++ last :: rest).Pairwise fun a b =>
      index.direction.Precedes (sortKey index a) (sortKey index b))
    (h : WalkedFrom index partition (some (sortKey index last)) later) :
    WalkedFrom index partition cursor
      (⟨store, .ok ⟨front ++ [last], some (sortKey index last)⟩⟩ :: later) := by
  have hpage : returned ((⟨store, .ok ⟨front ++ [last], some (sortKey index last)⟩⟩ : Visit α) ::
      later) = (front ++ [last]) ++ returned later := returned_cons _ _
  have hitems : front ++ last :: rest = (front ++ [last]) ++ rest := by simp
  rw [hitems, List.pairwise_append] at hsorted
  rcases hsorted with ⟨hfront, _, hrest⟩
  rw [hitems] at hahead
  have hlast := ((hahead.mem_iff last).mp (by simp)).2
  have hbehind : ∀ a ∈ returned later,
      index.direction.Precedes (sortKey index last) (sortKey index a) :=
    fun a ha => h.past a ha _ rfl
  refine ⟨List.forall_mem_cons.mpr ⟨htyped, h.typed⟩, ?_, fun a ha => ?_, ?_, fun a ha => ?_,
    fun hended k sort hstays hpast => ?_⟩
  · exact List.forall_mem_cons.mpr ⟨⟨_, rfl⟩, h.answered⟩
  · rw [hpage, List.mem_append] at ha
    rcases ha with hmem | hmem
    · exact ((hahead.mem_iff a).mp (List.mem_append_left rest hmem)).2
    · exact fun bound hbound => (hlast bound hbound).trans (hbehind a hmem)
  · rw [hpage]
    refine List.pairwise_append.mpr ⟨hfront, h.sorted, fun a ha b hb => ?_⟩
    rcases List.mem_append.mp ha with hmem | hmem
    · exact ((List.pairwise_append.mp hfront).2.2 a hmem last (by simp)).trans (hbehind b hb)
    · rw [List.mem_singleton.mp hmem]
      exact hbehind b hb
  · rw [hpage, List.mem_append] at ha
    rcases ha with hmem | hmem
    · exact ⟨_, List.mem_cons_self, ((hahead.mem_iff a).mp (List.mem_append_left rest hmem)).1⟩
    · rcases h.found a hmem with ⟨visit, hvisit, hlisted⟩
      exact ⟨visit, List.mem_cons_of_mem _ hvisit, hlisted⟩
  · -- What stays past the cursor is ahead now: it is on this page, or past the last value of it.
    rw [Stays, List.forall_mem_cons] at hstays
    rcases hstays with ⟨⟨a, hlisted, hkey, rfl⟩, hlater⟩
    have hmem := (hahead.mem_iff a).mpr ⟨hlisted, hpast⟩
    rw [hpage]
    rcases List.mem_append.mp hmem with hnow | hthen
    · exact ⟨a, List.mem_append_left _ hnow, hkey⟩
    · have hnext : index.direction.Past (some (sortKey index last)) (sortKey index a) := by
        intro bound hbound
        rw [← Option.some.inj hbound]
        exact hrest last (by simp) a hthen
      rcases h.complete ((ended_cons rfl later).mp hended) k _ hlater hnext with ⟨b, hb, hkeyb⟩
      exact ⟨b, List.mem_append_right _ hb, hkeyb⟩

/-- What stayed past the cursor was returned once. -/
theorem count_eq_one [RoundTrip α] {visits : List (Visit α)}
    (h : WalkedFrom index partition cursor visits) (hended : Ended visits) {k sort : String}
    (hstays : Stays index partition visits k sort) (hpast : index.direction.Past cursor sort) :
    ((returned visits).map key).count k = 1 := by
  -- Whenever a value was returned under the key, it stood at the one sort key of the key.
  have hsort : ∀ a ∈ returned visits, key a = k → sortKey index a = sort := by
    intro a ha hkey
    rcases h.found a ha with ⟨visit, hvisit, hlisted⟩
    rcases hstays visit hvisit with ⟨b, hb, hkeyb, rfl⟩
    have htyped := h.typed visit hvisit
    rw [((mem_inPartition htyped a).mp hlisted).1.eq_of_key ((mem_inPartition htyped b).mp hb).1
      (hkey.trans hkeyb.symm)]
  rcases h.complete hended k sort hstays hpast with ⟨a, ha, hkey⟩
  have hmem : a ∈ (returned visits).filter fun a => key a == k := by simp [ha, hkey]
  have hsorted := h.sorted.filter fun a => key a == k
  rw [List.count_eq_countP, List.countP_map, List.countP_eq_length_filter, Function.comp_def]
  rcases hfilter : (returned visits).filter fun a => key a == k with _ | ⟨b, _ | ⟨c, rest⟩⟩
  · rw [hfilter] at hmem
    cases hmem
  · rfl
  · have hof : ∀ d ∈ b :: c :: rest, sortKey index d = sort := by
      intro d hd
      rw [← hfilter, List.mem_filter, beq_iff_eq] at hd
      exact hsort d hd.1 hd.2
    rw [hfilter] at hsorted
    have hbc := List.rel_of_pairwise_cons hsorted (List.mem_cons_self (a := c) (l := rest))
    rw [hof b (by simp), hof c (by simp)] at hbc
    exact absurd hbc (Direction.Precedes.irrefl _ _)

end WalkedFrom

/-! ## While nothing changes -/

namespace Entity.Ahead

variable {cursor : Option String} {store : MemoryStore} {items other : List α}

theorem nodup (h : Ahead index partition store cursor items) : items.Nodup := by
  refine (List.pairwise_map.mp h.ordered).imp fun {a b} hbefore heq => ?_
  rw [heq] at hbefore
  exact hbefore.asymm hbefore

/-- What is ahead of a cursor is one list. -/
theorem unique (h : Ahead index partition store cursor items)
    (h' : Ahead index partition store cursor other) : items = other := by
  have hperm : items.Perm other :=
    (List.perm_ext_iff_of_nodup h.nodup h'.nodup).mpr fun a => by rw [h.mem_iff, h'.mem_iff]
  exact hperm.eq_of_pairwise (fun a b _ _ hab hba => absurd hba hab.asymm)
    (List.pairwise_map.mp h.ordered) (List.pairwise_map.mp h'.ordered)

/-- From the start of a partition all of it is ahead. -/
theorem mem_iff_listed [RoundTrip α] (htyped : Typed α store)
    (h : Ahead index partition store none items) (a : α) :
    a ∈ items ↔ Listed index (partition.getD "") store a := by
  rw [h.mem_iff, mem_inPartition htyped]
  exact and_iff_left (Direction.past_none _ _)

theorem length_inPartition [RoundTrip α] (htyped : Typed α store)
    (h : Ahead index partition store none items) :
    items.length = (inPartition α index partition store).length := by
  refine ((List.perm_ext_iff_of_nodup h.nodup (nodup_inPartition htyped)).mpr fun a => ?_).length_eq
  rw [h.mem_iff_listed htyped, mem_inPartition htyped]

/-- Its values are ahead in the order of their sort keys, if no two of these are the same. -/
theorem of_listed [RoundTrip α] (htyped : Typed α store)
    (hsorted : items.Pairwise fun a b =>
      index.direction.Precedes (sortKey index a) (sortKey index b))
    (hlisted : ∀ a, a ∈ items ↔ Listed index (partition.getD "") store a) :
    Ahead index partition store none items where
  ordered := List.pairwise_map.mpr (hsorted.imp fun h => Or.inl h)
  mem_iff a := by
    rw [hlisted, mem_inPartition htyped]
    exact (and_iff_left (Direction.past_none _ _)).symm

/-- Behind a full page the rest is ahead. -/
theorem next {front rest : List α} {last : α}
    (h : Ahead index partition store cursor (front ++ last :: rest))
    (hsorted : (front ++ last :: rest).Pairwise fun a b =>
      index.direction.Precedes (sortKey index a) (sortKey index b)) :
    Ahead index partition store (some (sortKey index last)) rest := by
  rw [List.pairwise_append, List.pairwise_cons] at hsorted
  rcases hsorted with ⟨_, ⟨hrest, _⟩, hfront⟩
  refine ⟨?_, fun a => ⟨fun ha => ⟨?_, ?_⟩, fun ⟨hlisted, hpast⟩ => ?_⟩⟩
  · have hordered := h.ordered
    rw [List.map_append, List.map_cons, List.pairwise_append, List.pairwise_cons] at hordered
    exact hordered.2.1.2
  · exact ((h.mem_iff a).mp (by simp [ha])).1
  · intro bound hbound
    rw [← Option.some.inj hbound]
    exact hrest a ha
  · have hlast := ((h.mem_iff last).mp (by simp)).2
    have hafter := hpast _ rfl
    have hmem : a ∈ front ++ last :: rest :=
      (h.mem_iff a).mpr ⟨hlisted, fun bound hbound => (hlast bound hbound).trans hafter⟩
    -- Neither the last value of the page nor one in front of it is past the last.
    rcases List.mem_append.mp hmem with hmem | hmem
    · exact absurd ((hfront a hmem last (by simp)).trans hafter) (Direction.Precedes.irrefl _ _)
    · rcases List.mem_cons.mp hmem with rfl | hmem
      · exact absurd hafter (Direction.Precedes.irrefl _ _)
      · exact hmem

end Entity.Ahead

end

section

variable {kind : RecordKind} (index : IndexDef) (partition : Option String) (limit : UInt64)

theorem walkedFrom_walk (rounds : List (List Edit)) : ∀ (world : World MemoryStore)
    (cursor : Option String), world.store.WF → Typed kind.Value world.store →
    Untied kind.Value index partition (walk kind.Value index partition limit rounds world cursor) →
    WalkedFrom index partition cursor
      (walk kind.Value index partition limit rounds world cursor) := by
  induction rounds with
  | nil => exact fun _ _ _ _ _ => .nil
  | cons edits rounds ih =>
      intro world cursor hwf htyped huntied
      have hwf' := Edit.wf_applied edits hwf
      have htyped' := Edit.typed_applied edits htyped
      rcases walk_cons index partition limit edits rounds world cursor hwf' htyped' with
        ⟨items, hahead, ⟨_, hwalk⟩ | ⟨front, last, rest, rfl, _, hwalk⟩⟩
      · rw [hwalk, Untied, List.forall_mem_cons] at huntied
        rw [hwalk]
        exact .last htyped' hahead (hahead.sorted huntied.1)
      · rw [hwalk, Untied, List.forall_mem_cons] at huntied
        rw [hwalk]
        exact .cons htyped' hahead (hahead.sorted huntied.1) (ih _ _ hwf' htyped' huntied.2)

/-- While nothing changes, every full page takes its size from what is ahead, and so a walk
    comes to its end after a number of pages that is known in advance. -/
theorem walk_length {rounds : List (List Edit)} (hstill : ∀ edits ∈ rounds, edits = [])
    {world : World MemoryStore} (hwf : world.store.WF) (htyped : Typed kind.Value world.store)
    (huntied : ((inPartition kind.Value index partition world.store).map (sortKey index)).Nodup) :
    ∀ {cursor : Option String} {items : List kind.Value},
    Ahead index partition world.store cursor items →
    let size := (PageQuery.first limit).effectiveLimit.toNat
    let visits := walk kind.Value index partition limit rounds world cursor
    items.length / size < rounds.length →
    visits.length = items.length / size + 1 ∧ Ended visits := by
  induction rounds with
  | nil =>
      intro cursor items _ size visits hrounds
      exact absurd hrounds (Nat.not_lt_zero _)
  | cons edits rounds ih =>
      intro cursor items hahead size visits hrounds
      rw [List.forall_mem_cons] at hstill
      rcases hstill with ⟨rfl, hstill⟩
      have hpos : 0 < size := PageQuery.effectiveLimit_pos (.first limit)
      rcases walk_cons index partition limit [] rounds world cursor hwf htyped with
        ⟨found, hfound, hwalk⟩
      rw [hahead.unique hfound] at hrounds ⊢
      rcases hwalk with ⟨hshort, hwalk⟩ | ⟨front, last, rest, rfl, hfull, hwalk⟩
      · rw [show visits = _ from hwalk, Nat.div_eq_of_lt hshort]
        exact ⟨rfl, rfl⟩
      · have hsize : (front ++ last :: rest).length = rest.length + size := by
          rw [List.length_append, List.length_cons]
          omega
        rw [hsize, Nat.add_div_right _ hpos] at hrounds ⊢
        rcases ih hstill (hfound.next (hfound.sorted huntied))
          (Nat.lt_of_succ_lt_succ hrounds) with ⟨hlength, hended⟩
        rw [show visits = _ from hwalk, List.length_cons]
        exact ⟨congrArg (· + 1) hlength, (ended_cons rfl _).mpr hended⟩

end

/-- A walk through a partition loses nothing and repeats nothing, whatever is put and deleted
    between its requests. Each request is answered; what is returned is in the order of the
    index over all pages; and if the walk ends, what was in the partition at the same sort
    key from the first request to the last has been returned once. While nothing is changed,
    the number of pages follows from the number of records. -/
theorem walk_meets_each_once (kind : RecordKind) (index : IndexDef) (partition : Option String)
    (limit : UInt64) (rounds : List (List Edit)) (source : MemorySource) (now : Int64)
    (huntied : Untied kind.Value index partition
      (walk kind.Value index partition limit rounds ⟨.empty, source, now⟩ none)) :
    let visits := walk kind.Value index partition limit rounds ⟨.empty, source, now⟩ none
    let size := (PageQuery.first limit).effectiveLimit.toNat
    (∀ visit ∈ visits, ∃ page, visit.answer = .ok page) ∧
    ((returned visits).map (sortKey index)).Pairwise index.direction.Precedes ∧
    (Ended visits → ∀ k sort, Stays index partition visits k sort →
      ((returned visits).map key).count k = 1) ∧
    ((∀ edits ∈ rounds.tail, edits = []) → ∀ visit, visits.head? = some visit →
      let n := (inPartition kind.Value index partition visit.store).length
      n / size < rounds.length → visits.length = n / size + 1 ∧ Ended visits) := by
  intro visits size
  have hempty : Typed kind.Value MemoryStore.empty := by simp [Typed]
  have hwalked := walkedFrom_walk index partition limit rounds _ none MemoryStore.wf_empty hempty
    huntied
  refine ⟨hwalked.answered, List.pairwise_map.mpr hwalked.sorted, ?_, ?_⟩
  · intro hended k sort hstays
    exact hwalked.count_eq_one hended hstays (Direction.past_none _ _)
  · intro hstill visit hvisit n hrounds
    rcases rounds with _ | ⟨first, later⟩
    · cases hvisit
    -- Once the first changes are made, the walk is one without any.
    let world := Edit.applied first ⟨.empty, source, now⟩
    have hsame : visits = walk kind.Value index partition limit ([] :: later) world none := rfl
    have hstore : visit.store = world.store := store_of_head? hvisit
    have hwf : world.store.WF := Edit.wf_applied first MemoryStore.wf_empty
    have htyped : Typed kind.Value world.store := Edit.typed_applied first hempty
    have hfirst : ((inPartition kind.Value index partition world.store).map
        (sortKey index)).Nodup := hstore ▸ huntied visit (List.mem_of_mem_head? hvisit)
    rcases exists_ahead index partition hwf htyped none with
      ⟨items, hahead, _⟩
    have hn : n = items.length := by
      rw [hahead.length_inPartition htyped, ← hstore]
    rw [hn] at hrounds ⊢
    rw [hsame]
    exact walk_length index partition limit (List.forall_mem_cons.mpr ⟨rfl, hstill⟩) hwf htyped
      hfirst hahead hrounds

/-! A reader goes through blocks from the top, two at a time. Meanwhile the block that the
cursor names is deleted, another moves to where the reader has been, and blocks are added on
either side of the cursor. -/

namespace Browsing

/-- A block of which nothing matters but where it stands. -/
def placed (hash : String) (height : UInt32) : BlockRecord where
  hash := hash
  previousHash := ""
  height := height
  time := 0
  medianTime := 0
  difficulty := default
  minter := none
  size := 0
  weight := 0
  version := 0
  merkleRoot := ""
  transactionCount := 0

/-- A block is put. -/
def put (hash : String) (height : UInt32) : Edit := .put .block (placed hash height)

/-- Four blocks. -/
def fourBlocks : List Edit := [put "a" 1, put "b" 2, put "c" 3, put "d" 4]

/-- What happens between the requests. -/
def rounds : List (List Edit) :=
  [fourBlocks, [.delete .block "c", put "e" 5, put "b" 6, put "g" 0], []]

/-- What the reader finds. -/
def visits (rounds : List (List Edit)) : List (Visit RecordKind.block.Value) :=
  walk _ BlockRecord.byHeight none 2 rounds ⟨.empty, ⟨[], []⟩, 0⟩ none

end Browsing

open Browsing in
theorem walk_meets_each_once_browsing :
    (Untied _ BlockRecord.byHeight none (visits rounds) ∧ Ended (visits rounds) ∧
      Stays BlockRecord.byHeight none (visits rounds) "a" (encodeHeight 1) ∧
      (returned (visits rounds)).map key = ["d", "c", "a", "g"] ∧
      ((returned (visits rounds)).map key).count "a" = 1) ∧
    Untied _ BlockRecord.byHeight none (visits [fourBlocks, [], []]) ∧
      (visits [fourBlocks, [], []]).length = 3 := by
  have hmoving : Untied _ BlockRecord.byHeight none (visits rounds) ∧ Ended (visits rounds) ∧
      Stays BlockRecord.byHeight none (visits rounds) "a" (encodeHeight 1) ∧
      (returned (visits rounds)).map key = ["d", "c", "a", "g"] := by decide +kernel
  have hstill : Untied _ BlockRecord.byHeight none (visits [fourBlocks, [], []]) ∧
      ((visits [fourBlocks, [], []]).head?.map fun visit =>
        (inPartition RecordKind.block.Value BlockRecord.byHeight none visit.store).length) =
          some 4 := by decide +kernel
  rcases hmoving with ⟨huntied, hended, hstays, hkeys⟩
  rcases hstill with ⟨huntied', hcount⟩
  rcases walk_meets_each_once _ _ _ _ _ _ _ huntied with ⟨_, _, honce, _⟩
  rcases walk_meets_each_once _ _ _ _ _ _ _ huntied' with ⟨_, _, _, hlength⟩
  refine ⟨⟨huntied, hended, hstays, hkeys, honce hended "a" _ hstays⟩, huntied', ?_⟩
  -- Four blocks are two full pages and an empty one.
  rcases Option.map_eq_some_iff.mp hcount with ⟨visit, hhead, hfour⟩
  have hpages := hlength (by simp) visit hhead
  rw [hfour, show (PageQuery.first 2).effectiveLimit.toNat = 2 by decide] at hpages
  exact (hpages (by decide)).1

end ChainIndex
