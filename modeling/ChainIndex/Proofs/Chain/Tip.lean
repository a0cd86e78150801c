import ChainIndex.Proofs.Chain.Built

/-!
# The tip

The tip of a store is the block of greatest height in it. Heights are kept in a sort key of
fixed width, so the order of the keys is the order of the heights, and in a store that is
built from a chain the tip is the last block of the chain.

## Theorems

* `Built.record_place`: The places of the block records.
* `Built.runs_tip?`: The tip of a store that is built from a chain.
-/

namespace ChainIndex

open Entity Program Chain

/-- Where a block record stands among the records by height. -/
def BlockRecord.place (block : Block) : Place :=
  ⟨encodeHeight block.height, block.hash⟩

namespace Built

variable {chain : List Block} {t : MemoryStore}

/-- The places of the block records are those of the blocks of the chain. -/
theorem record_place (h : Built chain t) (place : Place) :
    place ∈ (t.model (model BlockRecord)).placesAt ⟨BlockRecord.byHeight.name, ""⟩ ↔
      ∃ block ∈ chain, place = BlockRecord.place block := by
  rw [(h.coherent.wf _).mem_placesAt]
  constructor
  · rintro ⟨found, hfound, hentry⟩
    rcases (h.blocks place.key found).mp hfound with ⟨block, hmem, hkey, rfl⟩
    refine ⟨block, hmem, ?_⟩
    rcases place with ⟨sort, k⟩
    simp only at hkey hentry
    simp only [stored, Entity.entries, List.mem_singleton, IndexEntry.mk.injEq,
      IndexEntry.unpartitioned] at hentry
    rw [BlockRecord.place, hkey, hentry.2.2]
    rfl
  · rintro ⟨block, hmem, rfl⟩
    refine ⟨stored (BlockRecord.ofBlock block), (h.blocks _ _).mpr ⟨block, hmem, rfl, rfl⟩, ?_⟩
    simp [stored, Entity.entries, BlockRecord.place, BlockRecord.ofBlock,
      IndexEntry.unpartitioned]

/-- The record of the last block stands at the greatest place. -/
theorem greatest_last {block : Block} (h : Built (chain ++ [block]) t)
    (hnumbered : Numbered (chain ++ [block])) :
    (t.model (model BlockRecord)).Greatest ⟨BlockRecord.byHeight.name, ""⟩
      (BlockRecord.place block) := by
  refine ⟨(h.record_place _).mpr ⟨block, by simp, rfl⟩, fun place hplace => ?_⟩
  rcases (h.record_place place).mp hplace with ⟨other, hmem, rfl⟩
  rcases List.mem_append.mp hmem with hbefore | hlast
  · right
    -- Heights are written so that their texts stand in the order of the heights.
    refine Place.compare_of_lt (Text.encodeHeight_lt ?_)
    rw [UInt32.lt_iff_toNat_lt, hnumbered.height_last]
    exact hnumbered.of_snoc.height_lt hbefore
  · exact Or.inl (by rw [List.mem_singleton.mp hlast])

/-- The tip is the last block of the chain. -/
theorem runs_tip? (h : Built chain t) (hnumbered : Numbered chain) :
    Runs (fun behind => behind = t) False
      (fun tip _ => tip = chain.getLast?.map BlockRecord.ofBlock) BlockRecord.tip? t := by
  refine runs_first? h.coherent.wf rfl rfl (fun hnone => ?_) fun place found hgreatest hfound => ?_
  · cases chain using List.reverseRecOn with
    | nil => rfl
    | append_singleton init block =>
        exact absurd ((h.record_place _).mpr ⟨block, by simp, rfl⟩) (hnone _)
  · rcases (h.blocks place.key found).mp hfound with ⟨block, hmem, hkey, rfl⟩
    refine ⟨BlockRecord.ofBlock block, rfl, ?_⟩
    cases chain using List.reverseRecOn with
    | nil => exact absurd hmem List.not_mem_nil
    | append_singleton init last =>
        -- The place that was found is the greatest one, and so that of the last block.
        have hplace := MemoryModel.greatest_unique hgreatest (h.greatest_last hnumbered)
        have hlast := (h.blocks last.hash _).mpr ⟨last, by simp, rfl, rfl⟩
        rw [hplace] at hfound
        change t.find (model BlockRecord) last.hash = _ at hfound
        rw [hlast, Option.some.injEq] at hfound
        rw [List.getLast?_append, List.getLast?_singleton, Option.some_or, Option.map_some,
          stored_injective hfound]

end Built

end ChainIndex
