import ChainIndex.Proofs.Entity.Pages

/-!
# Blocks by height

The block at a height and the block of the greatest height are looked up with a scan for one
record from the top, below a height or without a bound. What stands there is the first block
ahead of the scan, so the look-ups rest on the order of sort keys being that of heights, and
on a block that was put again having left the place where it was.

A height is looked up below the next one. The next one is not there if the height is the
greatest there is, and then there is no bound. If there is no block at the height, the scan
finds one further down, or none, and it is not the one.

## Main definitions

* `Edit.blocks`: The blocks that changes leave.
* `LooksUp`: The look-ups find the blocks that are there.
* `Moved`: A block is looked up where it was put last, and not where it was.

## Theorems

* `held_reached_iff`: A store holds the blocks that the changes leave.
* `HoldsBlocks.run_scan`: What a scan for one block finds.
* `HoldsBlocks.looksUp`: Look-ups find what a store holds.
* `lookups_find_exactly`: The look-ups are exact, whatever was done to the store before.
-/

namespace ChainIndex

/-! ## The blocks that changes leave -/

namespace Entity

variable {α : Type} [Entity α] {t : MemoryStore} {items : List α}

theorem held_saved_iff_of_held [RoundTrip α] (h : ∀ b : α, Held t b ↔ b ∈ items) (a b : α) :
    Held (saved t a) b ↔ b ∈ upserted items a := by
  rw [held_saved_iff, mem_upserted, h]

theorem held_removed_iff_of_held (h : ∀ b : α, Held t b ↔ b ∈ items) (k : String) (b : α) :
    Held (removed α t k) b ↔ b ∈ items.filter fun b => key b ≠ k := by
  rw [List.mem_filter, decide_eq_true_iff, ← h, Held, find_removed]
  by_cases hkey : key b = k
  · simp [hkey]
  · rw [if_neg fun hc => hkey hc.2]
    exact (and_iff_left hkey).symm

end Entity

namespace Edit

/-- The blocks after a change. One that is put takes the place of what had its hash. -/
def onBlocks (blocks : List BlockRecord) : Edit → List BlockRecord
  | .put .block b => Entity.upserted blocks b
  | .delete .block hash => blocks.filter fun b => b.hash ≠ hash
  | _ => blocks

/-- The blocks that changes leave where there were none. -/
def blocks (edits : List Edit) : List BlockRecord :=
  edits.foldl onBlocks []

/-- A change is one of the blocks, or it leaves them as they are. -/
theorem held_made_iff {t : MemoryStore} {items : List BlockRecord}
    (h : ∀ b : BlockRecord, Entity.Held t b ↔ b ∈ items) (edit : Edit) (b : BlockRecord) :
    Entity.Held (made t edit) b ↔ b ∈ onBlocks items edit := by
  cases edit with
  | put kind value =>
      by_cases hkind : kind = .block
      · subst hkind
        exact Entity.held_saved_iff_of_held h value b
      · have hother : onBlocks items (.put kind value) = items := by
          cases kind <;> first | rfl | exact absurd rfl hkind
        rw [hother, ← h]
        exact Entity.held_congr (fun k => find_made (.put kind value) fun hat =>
          hkind (RecordKind.eq_of_model_eq hat.1.symm)) b
  | delete kind hash =>
      by_cases hkind : kind = .block
      · subst hkind
        exact Entity.held_removed_iff_of_held h hash b
      · have hother : onBlocks items (.delete kind hash) = items := by
          cases kind <;> first | rfl | exact absurd rfl hkind
        rw [hother, ← h]
        exact Entity.held_congr (fun k => find_made (.delete kind hash) fun hat =>
          hkind (RecordKind.eq_of_model_eq hat.1.symm)) b

/-- A store holds the blocks that the changes leave, and no others. -/
theorem held_reached_iff (edits : List Edit) (source : MemorySource) (now : Int64)
    (b : BlockRecord) :
    Entity.Held (reached edits (⟨.empty, source, now⟩ : World MemoryStore)).store b ↔
      b ∈ blocks edits := by
  have hall : ∀ (t : MemoryStore) (items : List BlockRecord),
      (∀ b : BlockRecord, Entity.Held t b ↔ b ∈ items) → ∀ b : BlockRecord,
        Entity.Held (edits.foldl made t) b ↔ b ∈ edits.foldl onBlocks items := by
    induction edits with
    | nil => exact fun _ _ h => h
    | cons edit rest ih => exact fun t items h => ih _ _ (held_made_iff h edit)
  rw [store_reached]
  exact hall _ _ (fun b => by simp [Entity.Held]) b

end Edit

/-! ## Looking up -/

section

variable {σ : Type} [KeyedStore σ]

/-- The look-ups find the blocks that are there. They do not fail, they find one only if it is
    there, and nothing only if nothing is there. -/
structure LooksUp (world : World σ) (blocks : List BlockRecord) : Prop where
  /-- The block of greatest height. -/
  tip : ∃ top, BlockRecord.tip?.run World.answer world = (.ok top, world) ∧
    (top = none ↔ blocks = []) ∧
    ∀ b, top = some b ↔ b ∈ blocks ∧ ∀ c ∈ blocks, c.height ≤ b.height
  /-- The block at a height, whatever the height. -/
  atHeight : ∀ height, ∃ found,
    (BlockRecord.atHeight? height).run World.answer world = (.ok found, world) ∧
      (found = none ↔ ∀ b ∈ blocks, b.height ≠ height) ∧
      ∀ b, found = some b ↔ b ∈ blocks ∧ b.height = height

/-- A block that was at one height is looked up at another, and no longer where it was. -/
structure Moved (world : World σ) (old moved : BlockRecord) (others : List BlockRecord) :
    Prop where
  left : (BlockRecord.atHeight? old.height).run World.answer world = (.ok none, world)
  arrived : (BlockRecord.atHeight? moved.height).run World.answer world = (.ok (some moved), world)
  tip : ∃ top, BlockRecord.tip?.run World.answer world = (.ok (some top), world) ∧
    top ∈ moved :: others ∧ ∀ b ∈ moved :: others, b.height ≤ top.height

end

instance : SinglyIndexed BlockRecord := ⟨fun _ => Nat.le_refl 1⟩

namespace BlockRecord

open Entity

variable {memory : MemoryStore} {bound : Option String} {items : List BlockRecord}

theorem sortKey_byHeight (b : BlockRecord) : sortKey byHeight b = encodeHeight b.height :=
  sortKey_of_entry (List.mem_singleton_self _)

/-- Ahead of a scan stand the blocks past its bound. -/
theorem mem_ahead_iff (htyped : Typed BlockRecord memory)
    (h : Ahead byHeight none memory bound items) (b : BlockRecord) :
    b ∈ items ↔ Held memory b ∧ Direction.desc.Past bound (encodeHeight b.height) := by
  rw [h.mem_iff, mem_inPartition htyped, sortKey_byHeight]
  refine and_congr_left fun _ => ⟨And.left, fun hheld => ⟨hheld, encodeHeight b.height, ?_⟩⟩
  exact List.mem_singleton_self _

/-- The first block is one of the highest. -/
theorem height_le_of_ahead {top : BlockRecord}
    (h : Ahead byHeight none memory bound (top :: items)) (b : BlockRecord)
    (hb : b ∈ top :: items) : b.height ≤ top.height := by
  rcases List.mem_cons.mp hb with rfl | hrest
  · exact UInt32.le_refl _
  · have hordered := h.ordered
    rw [List.map_cons, List.pairwise_cons] at hordered
    rcases hordered.1 _ (List.mem_map_of_mem hrest) with hlt | ⟨heq, -⟩
    · have hlt : sortKey byHeight b < sortKey byHeight top := hlt
      rw [sortKey_byHeight, sortKey_byHeight, Text.encodeHeight_lt_iff] at hlt
      exact UInt32.le_of_lt hlt
    · have heq : sortKey byHeight top = sortKey byHeight b := heq
      rw [sortKey_byHeight, sortKey_byHeight] at heq
      rw [Text.encodeHeight_injective heq]
      exact UInt32.le_refl _

/-- Where the search for a height starts. Past it are the blocks that are no higher. -/
theorem past_iff (height other : UInt32) :
    Direction.desc.Past
        (if height = UInt32.ofNat (UInt32.size - 1) then none else some (encodeHeight (height + 1)))
        (encodeHeight other) ↔ other ≤ height := by
  by_cases hgreatest : height = UInt32.ofNat (UInt32.size - 1)
  · rw [if_pos hgreatest]
    refine ⟨fun _ => ?_, fun _ => Direction.past_none _ _⟩
    rw [hgreatest, UInt32.le_iff_toNat_le]
    have hlt := other.toNat_lt
    rw [show (UInt32.ofNat (UInt32.size - 1)).toNat = 4294967295 from rfl]
    omega
  · rw [if_neg hgreatest]
    have hne : height.toNat ≠ 4294967295 := fun hc => hgreatest (UInt32.toNat_inj.mp hc)
    have hlt := height.toNat_lt
    have hnext : (height + 1).toNat = height.toNat + 1 := by
      rw [UInt32.toNat_add, UInt32.toNat_one]
      omega
    have hpast : Direction.desc.Past (some (encodeHeight (height + 1))) (encodeHeight other) ↔
        other < height + 1 := by
      rw [← Text.encodeHeight_lt_iff]
      exact ⟨fun h => h _ rfl, fun h bound hbound => Option.some.inj hbound ▸ h⟩
    rw [hpast, UInt32.lt_iff_toNat_lt, UInt32.le_iff_toNat_le, hnext]
    omega

end BlockRecord

/-- The pages of a store are those of one in memory that holds these blocks. -/
structure HoldsBlocks {σ : Type} [KeyedStore σ] (store : σ) (memory : MemoryStore)
    (blocks : List BlockRecord) : Prop where
  pages : PagesLike store memory
  wf : memory.WF
  typed : Entity.Typed BlockRecord memory
  held : ∀ b : BlockRecord, Entity.Held memory b ↔ b ∈ blocks

namespace HoldsBlocks

open Entity BlockRecord

variable {σ : Type} [KeyedStore σ] {world : World σ} {memory : MemoryStore}
variable {blocks : List BlockRecord}

/-- A scan for one block finds the first of what is ahead. -/
theorem run_scan (h : HoldsBlocks world.store memory blocks) (bound : Option String) :
    ∃ items : List BlockRecord,
      (∀ b, b ∈ items ↔ b ∈ blocks ∧ Direction.desc.Past bound (encodeHeight b.height)) ∧
      (∀ top rest, items = top :: rest → ∀ b ∈ items, b.height ≤ top.height) ∧
      (scan BlockRecord byHeight none 1 bound).run World.answer world =
        (.ok (items.take 1), world) := by
  have hone : (1 : UInt64) ≤ PageQuery.maxLimit := by decide
  rcases Entity.exists_ahead byHeight none h.wf h.typed bound with ⟨items, hahead, hscan⟩
  refine ⟨items, fun b => ?_, fun top rest hitems b hb => ?_,
    run_scan_of_scan ((h.pages _ _ hone).trans (congrArg Except.ok (hscan 1)))⟩
  · rw [mem_ahead_iff h.typed hahead, h.held]
  · subst hitems
    exact height_le_of_ahead hahead b hb

/-- Look-ups find what a store holds, if no two blocks have one height. -/
theorem looksUp (h : HoldsBlocks world.store memory blocks)
    (hheights : (blocks.map BlockRecord.height).Nodup) : LooksUp world blocks := by
  have hapart : ∀ a ∈ blocks, ∀ b ∈ blocks, a.height = b.height → a = b := by
    intro a ha b hb heq
    exact List.inj_on_of_nodup_map hheights ha hb heq
  constructor
  · rcases h.run_scan none with ⟨items, hmem, hhighest, hrun⟩
    have hall : ∀ b, b ∈ items ↔ b ∈ blocks := by
      intro b
      rw [hmem]
      exact and_iff_left (Direction.past_none _ _)
    have htip : BlockRecord.tip?.run World.answer world = (.ok items.head?, world) := by
      change ((scan BlockRecord byHeight none 1 none).bind _).run World.answer world = _
      rw [Program.run_bind, hrun]
      dsimp only
      rw [List.head?_take, if_neg one_ne_zero]
      rfl
    refine ⟨items.head?, htip, ?_, fun b => ?_⟩
    · rw [List.head?_eq_none_iff, List.eq_nil_iff_forall_not_mem, List.eq_nil_iff_forall_not_mem]
      exact forall_congr' fun b => not_congr (hall b)
    · cases items with
      | nil => simp [← hall]
      | cons top rest =>
          rw [List.head?_cons, Option.some.injEq]
          constructor
          · rintro rfl
            refine ⟨(hall top).mp List.mem_cons_self, fun c hc => ?_⟩
            exact hhighest top rest rfl c ((hall c).mpr hc)
          · rintro ⟨hb, hgreatest⟩
            have htop := (hall top).mp List.mem_cons_self
            refine hapart top htop b hb (UInt32.le_antisymm (hgreatest top htop) ?_)
            exact hhighest top rest rfl b ((hall b).mpr hb)
  · intro height
    rcases h.run_scan (if height = UInt32.ofNat (UInt32.size - 1) then none
      else some (encodeHeight (height + 1))) with ⟨items, hmem, hhighest, hrun⟩
    let found := (items.take 1).find? fun b => b.height == height
    have hfound : (atHeight? height).run World.answer world = (.ok found, world) := by
      change ((scan BlockRecord byHeight none 1 _).bind _).run World.answer world = _
      rw [Program.run_bind, hrun]
      rfl
    have hsome : ∀ b, found = some b ↔ b ∈ blocks ∧ b.height = height := by
      intro b
      constructor
      · intro heq
        have hin := List.mem_of_mem_take (List.mem_of_find?_eq_some heq)
        exact ⟨((hmem b).mp hin).1, by simpa using List.find?_some heq⟩
      · rintro ⟨hb, hheight⟩
        have hin := (hmem b).mpr ⟨hb, (past_iff height b.height).mpr (hheight ▸ UInt32.le_refl _)⟩
        -- The first block ahead is no higher than the height, and no lower than the block.
        rcases items with _ | ⟨top, rest⟩
        · cases hin
        · have htop := (hmem top).mp List.mem_cons_self
          have hle := (past_iff height top.height).mp htop.2
          have heq : top.height = b.height := by
            refine UInt32.le_antisymm (hheight ▸ hle) ?_
            exact hhighest top rest rfl b hin
          obtain rfl := hapart top htop.1 b hb heq
          simp [found, hheight]
    refine ⟨found, hfound, ?_, hsome⟩
    rw [Option.eq_none_iff_forall_ne_some]
    simp only [ne_eq, hsome, not_and]

end HoldsBlocks

/-! ## Stores that were changed -/

namespace HoldsBlocks

variable {memory : MemoryStore} {blocks : List BlockRecord}

/-- After changes a store in memory holds the blocks that they leave. -/
theorem reached (edits : List Edit) (source : MemorySource) (now : Int64) :
    let memory := Edit.reached edits (⟨.empty, source, now⟩ : World MemoryStore)
    HoldsBlocks memory.store memory.store (Edit.blocks edits) where
  pages := MemoryStore.pagesLike _
  wf := Edit.wf_applied edits MemoryStore.wf_empty
  typed := by
    have htyped : Entity.Typed RecordKind.block.Value
        (Edit.reached edits (⟨.empty, source, now⟩ : World MemoryStore)).store :=
      Edit.typed_applied edits (by simp [Entity.Typed])
    exact htyped
  held := Edit.held_reached_iff edits source now

theorem saved (h : HoldsBlocks memory memory blocks) (b : BlockRecord) :
    HoldsBlocks (Entity.saved memory b) (Entity.saved memory b) (Entity.upserted blocks b) where
  pages := MemoryStore.pagesLike _
  wf := Entity.wf_saved h.wf b
  typed := h.typed.saved b
  held := Entity.held_saved_iff_of_held h.held b

/-- So do tables in step with it. -/
theorem of_represents {tables : TableStore} (h : HoldsBlocks memory memory blocks)
    (hstep : tables.Represents memory) : HoldsBlocks tables memory blocks where
  pages := hstep.pagesLike
  wf := h.wf
  typed := h.typed
  held := h.held

end HoldsBlocks

/-- What is looked up when a block was put at another height. -/
theorem LooksUp.moved {σ : Type} [KeyedStore σ] {world : World σ} {old moved : BlockRecord}
    {others : List BlockRecord} (h : LooksUp world (others ++ [moved]))
    (hleft : ∀ b ∈ others ++ [moved], b.height ≠ old.height) : Moved world old moved others := by
  have hmem : ∀ b, b ∈ moved :: others ↔ b ∈ others ++ [moved] := by
    intro b
    rw [List.mem_cons, List.mem_append, List.mem_singleton, or_comm]
  constructor
  · rcases h.atHeight old.height with ⟨found, hrun, hnone, -⟩
    rwa [hnone.mpr hleft] at hrun
  · rcases h.atHeight moved.height with ⟨found, hrun, -, hsome⟩
    rwa [(hsome moved).mpr ⟨(hmem moved).mp List.mem_cons_self, rfl⟩] at hrun
  · rcases h.tip with ⟨top, hrun, hnone, hsome⟩
    rcases top with _ | top
    · exact absurd (hnone.mp rfl) (by simp)
    · rcases (hsome top).mp rfl with ⟨htop, hgreatest⟩
      exact ⟨top, hrun, (hmem top).mpr htop, fun b hb => hgreatest b ((hmem b).mp hb)⟩

/-- **Look-ups by height are exact.** Whatever records of whatever kinds were put into an empty
    store and deleted from it, as long as no two of the blocks that are left have one height:
    the look-up of the tip finds the block of greatest height, and nothing only if there is no
    block; that of a height finds the block at the height, and nothing only if there is none,
    whatever the height and whatever lies around it. A block that is put again at another
    height is found there and not where it was, and counts for the tip by its new height. This
    is so of both stores; of the one in tables if the texts in it are read as the values that
    were put. -/
theorem lookups_find_exactly (edits : List Edit) (source : MemorySource) (now : Int64)
    (hheights : ((Edit.blocks edits).map BlockRecord.height).Nodup) :
    let memory := Edit.reached edits (⟨MemoryStore.empty, source, now⟩ : World MemoryStore)
    let tables := Edit.reached edits (⟨TableStore.empty, source, now⟩ : World TableStore)
    (LooksUp memory (Edit.blocks edits) ∧
      ((∀ edit ∈ edits, edit.Readable) → LooksUp tables (Edit.blocks edits))) ∧
    ∀ old ∈ Edit.blocks edits, ∀ moved : BlockRecord,
      let others := (Edit.blocks edits).filter fun b => b.hash ≠ old.hash
      moved.hash = old.hash → moved.height ≠ old.height →
      (∀ b ∈ others, b.height ≠ moved.height) →
        Moved (memory.saved moved) old moved others ∧
        ((∀ edit ∈ .put .block moved :: edits, edit.Readable) →
          Moved (tables.saved moved) old moved others) := by
  intro memory tables
  have hmemory := HoldsBlocks.reached edits source now
  have hstep : (∀ edit ∈ edits, edit.Readable) → tables.store.Represents memory.store :=
    fun hreads => Edit.represents_reached hreads .empty
  refine ⟨⟨hmemory.looksUp hheights, fun hreads =>
    (hmemory.of_represents (hstep hreads)).looksUp hheights⟩, ?_⟩
  intro old hold moved others hhash hne hfree
  have hafter := hmemory.saved moved
  have hblocks : Entity.upserted (Edit.blocks edits) moved = others ++ [moved] := by
    rw [Entity.upserted, show Entity.key moved = old.hash from hhash]
    rfl
  rw [hblocks] at hafter
  have hheights' : ((others ++ [moved]).map BlockRecord.height).Nodup := by
    rw [List.map_append, List.map_singleton]
    refine List.Nodup.append (hheights.sublist (List.filter_sublist.map _))
      (List.nodup_singleton _) (List.disjoint_singleton.mpr fun hmem => ?_)
    rcases List.mem_map.mp hmem with ⟨b, hb, heq⟩
    exact hfree b hb heq
  -- No block is left at the old height: the only one was the one that was moved.
  have hleft : ∀ b ∈ others ++ [moved], b.height ≠ old.height := by
    intro b hb heq
    rcases List.mem_append.mp hb with hb | hb
    · rcases List.mem_filter.mp hb with ⟨hb, hother⟩
      rw [List.inj_on_of_nodup_map hheights hb hold heq] at hother
      simp at hother
    · exact hne (List.mem_singleton.mp hb ▸ heq)
  have hlooks : LooksUp (memory.saved moved) (others ++ [moved]) := hafter.looksUp hheights'
  refine ⟨hlooks.moved hleft, fun hreads => ?_⟩
  rw [List.forall_mem_cons] at hreads
  have hstep' : (tables.saved moved).store.Represents (Entity.saved memory.store moved) :=
    (hstep hreads.2).saved hreads.1
  exact ((hafter.of_represents hstep').looksUp hheights').moved hleft

/-! The greatest height there is, the least, and two blocks that are at one height for a while.
The block at the greatest height then moves down. -/

namespace Relocated

open Browsing in
/-- What is done to the store. -/
def edits : List Edit :=
  [put "a" 0, put "b" 4294967295, put "c" 9, put "d" 9, .delete .block "c"]

/-- Where the block moves. -/
def moved : BlockRecord := Browsing.placed "b" 4

end Relocated

open Relocated in
theorem lookups_find_exactly_relocated :
    (((Edit.blocks edits).map BlockRecord.height).Nodup ∧
      (Edit.blocks edits).map BlockRecord.hash = ["a", "b", "d"] ∧
      ∀ edit ∈ .put .block moved :: edits, edit.Readable) ∧
    let tables := Edit.reached edits (⟨TableStore.empty, ⟨[], []⟩, 0⟩ : World TableStore)
    LooksUp tables (Edit.blocks edits) ∧
      Moved (tables.saved moved) (Browsing.placed "b" 4294967295) moved
        [Browsing.placed "a" 0, Browsing.placed "d" 9] := by
  have hblocks : ((Edit.blocks edits).map BlockRecord.height).Nodup ∧
      (Edit.blocks edits).map BlockRecord.hash = ["a", "b", "d"] := by decide +kernel
  have hreads : ∀ edit ∈ .put .block moved :: edits, edit.Readable := by
    have hdifficulty : (default : FiniteFloat).reread = some default := by decide +kernel
    have hplaced : ∀ hash height, (Entity.toJson (Browsing.placed hash height)).ReadsBack :=
      fun _ _ => BlockRecord.readsBack_of_difficulty hdifficulty
    have hput : ∀ hash height, (Browsing.put hash height).Readable := hplaced
    exact List.forall_mem_cons.mpr ⟨hput _ _, List.forall_mem_cons.mpr ⟨hput _ _,
      List.forall_mem_cons.mpr ⟨hput _ _, List.forall_mem_cons.mpr ⟨hput _ _,
        List.forall_mem_cons.mpr ⟨hput _ _, List.forall_mem_singleton.mpr trivial⟩⟩⟩⟩⟩
  rcases lookups_find_exactly edits ⟨[], []⟩ 0 hblocks.1 with ⟨⟨-, hlooks⟩, hmoved⟩
  refine ⟨⟨hblocks.1, hblocks.2, hreads⟩, hlooks (List.forall_mem_cons.mp hreads).2, ?_⟩
  exact (hmoved (Browsing.placed "b" 4294967295) (by decide +kernel) moved rfl (by decide)
    (by decide +kernel)).2 hreads

end ChainIndex
