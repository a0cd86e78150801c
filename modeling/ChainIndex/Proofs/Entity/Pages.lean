import ChainIndex.Proofs.Entity.Drained

/-!
# All pages of a partition

To read a partition a page at a time is to ask for a page, and as long as the page names a
next one, to ask for that. The size of the pages is up to the reader. If the values of the
partition are in the strict order of their sort keys, the pages put together are the values,
and there is one page more than there are full ones.

Nothing but the answers to its queries goes into what is read. So a partition with the same
values in two stores is read alike from both, whatever is in other partitions.

## Main definitions

* `PageQuery.readAll`: Reads one page after another.
* `PagesLike`: The pages of a store are those of a store in memory.

## Theorems

* `run_readAll`: All pages have all values.
* `AnsweredAlike.readAll`: Queries that are answered alike make the same of their pages.
-/

namespace ChainIndex

/-- Reads one page after another, each behind the one before, up to the one without a next.
    At most `pages` pages are asked for. -/
def PageQuery.readAll {α : Type} (ask : PageQuery → Program (Page α)) :
    Nat → PageQuery → Program (List α)
  | 0, _ => throw (.other "the pages do not end")
  | pages + 1, query => do
    let page ← ask query
    match page.next with
    | none => return page.data
    | some next => return page.data ++ (← readAll ask pages (query.after next))

/-- The pages of a store are those of a store in memory, whatever their size. -/
def PagesLike {σ : Type} [KeyedStore σ] (store : σ) (memory : MemoryStore) : Prop :=
  ∀ m scan, scan.limit ≤ PageQuery.maxLimit →
    KeyedStore.scan store m scan = .ok (memory.scan m scan)

theorem MemoryStore.pagesLike (store : MemoryStore) : PagesLike store store :=
  fun _ _ _ => rfl

theorem TableStore.Represents.pagesLike {tables : TableStore} {store : MemoryStore}
    (h : tables.Represents store) : PagesLike tables store :=
  h.scan_eq_of_le

theorem PageQuery.effectiveLimit_le (query : PageQuery) : query.effectiveLimit ≤ maxLimit := by
  unfold effectiveLimit
  by_cases hzero : query.limit = 0
  · rw [if_pos hzero]
    decide
  · rw [if_neg hzero]
    by_cases hle : query.limit ≤ maxLimit
    · rwa [if_pos hle]
    · rw [if_neg hle]
      exact UInt64.le_refl _

namespace Entity

variable {α : Type} [Entity α] {index : IndexDef} {partition : Option String}
variable {memory : MemoryStore} {items : List α} {σ : Type} [KeyedStore σ] {world : World σ}

/-! ## What is read -/

variable [RoundTrip α] [SinglyIndexed α]

/-- A page is the first of what is ahead. -/
theorem run_page_of_ahead (hpages : PagesLike world.store memory) (hwf : memory.WF)
    (htyped : Typed α memory) {query : PageQuery}
    (hahead : Ahead index partition memory query.next items) :
    (page α index partition query).run World.answer world =
      (.ok (Page.ofScan (items.take query.effectiveLimit.toNat) query.effectiveLimit
        (sortKey index)), world) := by
  rcases exists_ahead index partition hwf htyped query.next with ⟨all, hall, hscan⟩
  obtain rfl := hall.unique hahead
  have hbatch : (scan α index partition query.effectiveLimit query.next).run World.answer world =
      (.ok (all.take query.effectiveLimit.toNat), world) := by
    refine run_scan_of_scan ((hpages _ _ query.effectiveLimit_le).trans ?_)
    exact congrArg Except.ok (hscan _)
  change ((scan α index partition query.effectiveLimit query.next).bind _).run _ world = _
  rw [Program.run_bind, hbatch]
  rfl

/-- All pages from a cursor on have all that is ahead. -/
theorem run_readAll (hpages : PagesLike world.store memory) (hwf : memory.WF)
    (htyped : Typed α memory) {pages : Nat} {query : PageQuery}
    (hahead : Ahead index partition memory query.next items)
    (hsorted : items.Pairwise fun a b =>
      index.direction.Precedes (sortKey index a) (sortKey index b))
    (hcount : items.length / query.effectiveLimit.toNat < pages) :
    (PageQuery.readAll (page α index partition) pages query).run World.answer world =
      (.ok items, world) := by
  induction pages generalizing query items with
  | zero => exact absurd hcount (Nat.not_lt_zero _)
  | succ pages ih =>
      have hpos := query.effectiveLimit_pos
      have hpage := run_page_of_ahead hpages hwf htyped hahead
      change ((page α index partition query).bind _).run World.answer world = _
      rw [Program.run_bind, hpage]
      rcases ofScan_take items _ hpos (sortKey index) with
        ⟨-, hlast⟩ | ⟨front, last, rest, rfl, hfull, hnext⟩
      · rw [hlast]
        rfl
      · -- Behind a full page the rest is ahead, and there is one page less of it.
        have hsize : (front ++ last :: rest).length = rest.length +
            query.effectiveLimit.toNat := by
          rw [List.length_append, List.length_cons]
          omega
        rw [hsize, Nat.add_div_right _ hpos] at hcount
        have hbehind : Ahead index partition memory (query.after (sortKey index last)).next rest :=
          hahead.next hsorted
        have hrest := ih hbehind (List.pairwise_cons.mp (List.pairwise_append.mp hsorted).2.1).2
          (Nat.lt_of_succ_lt_succ hcount)
        rw [hnext]
        change ((PageQuery.readAll (page α index partition) pages
          (query.after (sortKey index last))).bind _).run World.answer world = _
        rw [Program.run_bind, hrest]
        change (Except.ok (front ++ [last] ++ rest), world) = _
        rw [List.append_assoc, List.singleton_append]

end Entity

/-! ## Partitions that stay as they are -/

section

variable {α β : Type} {σ : Type} [KeyedStore σ] {before after : World σ}

/-- A query is answered alike in two worlds, and leaves both as they are. -/
def AnsweredAlike (before after : World σ) (program : Program α) : Prop :=
  ∃ result, program.run World.answer before = (result, before) ∧
    program.run World.answer after = (result, after)

namespace AnsweredAlike

theorem done (result : Except Error α) : AnsweredAlike before after (.done result) :=
  ⟨result, rfl, rfl⟩

theorem bind {program : Program α} {f : α → Program β} (h : AnsweredAlike before after program)
    (hf : ∀ a, AnsweredAlike before after (f a)) : AnsweredAlike before after (program.bind f) := by
  rcases h with ⟨result, hbefore, hafter⟩
  -- An error ends both, and both go on with the same result.
  cases result with
  | error e =>
      refine ⟨.error e, ?_, ?_⟩
      · rw [Program.run_bind, hbefore]
      · rw [Program.run_bind, hafter]
  | ok a =>
      rcases hf a with ⟨result, hnext, hnext'⟩
      refine ⟨result, ?_, ?_⟩
      · rw [Program.run_bind, hbefore]
        exact hnext
      · rw [Program.run_bind, hafter]
        exact hnext'

/-- So are all pages, if each of them is. -/
theorem readAll {ask : PageQuery → Program (Page α)}
    (h : ∀ query, AnsweredAlike before after (ask query)) (pages : Nat) (query : PageQuery) :
    AnsweredAlike before after (PageQuery.readAll ask pages query) := by
  induction pages generalizing query with
  | zero => exact done _
  | succ pages ih =>
      refine (h query).bind fun page => ?_
      cases page.next with
      | none => exact done _
      | some next => exact (ih (query.after next)).bind fun _ => done _

/-- A page is, if the scan for it finds the same. -/
theorem page [Entity α] {index : IndexDef} {partition : Option String}
    {memory memory' : MemoryStore} (hpages : PagesLike before.store memory)
    (hpages' : PagesLike after.store memory')
    (hscan : ∀ limit bound,
      memory.scan (Entity.model α) ⟨index.name, partition, index.direction, limit, bound⟩ =
        memory'.scan (Entity.model α) ⟨index.name, partition, index.direction, limit, bound⟩)
    (query : PageQuery) : AnsweredAlike before after (Entity.page α index partition query) := by
  refine bind (bind ⟨.ok (memory.scan (Entity.model α)
    ⟨index.name, partition, index.direction, query.effectiveLimit, query.next⟩), ?_, ?_⟩
    fun _ => done _) fun _ => done _
  · exact congrArg (·, before) (hpages _ _ query.effectiveLimit_le)
  · rw [hscan]
    exact congrArg (·, after) (hpages' _ _ query.effectiveLimit_le)

end AnsweredAlike

end

end ChainIndex
