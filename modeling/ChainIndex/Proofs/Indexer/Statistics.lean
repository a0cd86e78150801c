import ChainIndex.Proofs.Indexer.Recount
import ChainIndex.Proofs.Text.Keys

/-!
# The statistics at the end of a block

The totals that a block ends with start from the newest statistics strictly below its height.
Where all statistics are below that height these are the newest there are, and nothing is in
the way of those of the block. So the hook that writes them does not fail, whatever the block.

## Main definitions

* `MasternodeTotals.ofBlock`: The totals that a block ends with.
* `MasternodeStats.Newest`: The statistics at the greatest height.

## Theorems

* `masternodeStats_apply`: The hook in two steps, the totals and the write.
* `exists_newest`: There are newest statistics, or none at all.
* `runs_before?`: They are what a block starts from.
* `runs_storeStats`, `reverts_storeStats`: The write, and how it is taken back.
-/

namespace ChainIndex

open Entity Program MemoryStore

/-- The totals that a block ends with. -/
def MasternodeTotals.ofBlock (block : Block) : Program MasternodeTotals :=
  MasternodeStats.before? block.height >>= fun previous =>
    block.ops.foldlM (fun totals (tx, op) => totals.afterOp tx op)
      (MasternodeTotals.start previous)

/-- The hook computes the totals and then writes them. -/
theorem masternodeStats_apply (block : Block) :
    Indexer.masternodeStats.hook .apply .blockEnd block =
      (MasternodeTotals.ofBlock block >>= fun totals =>
        if totals.changed then (totals.toStats block).store else pure ()) := by
  rw [MasternodeTotals.ofBlock, LawfulMonad.bind_assoc]
  rfl

/-! ## The newest statistics -/

namespace MasternodeStats

/-- The statistics at the greatest height, if there are any. -/
def Newest (t : MemoryStore) : Option MasternodeStats → Prop
  | none => ∀ stats : MasternodeStats, ¬ Held t stats
  | some stats => Held t stats ∧
      ∀ other : MasternodeStats, Held t other → other.height ≤ stats.height

/-- Where statistics stand. -/
def place (stats : MasternodeStats) : Place :=
  ⟨encodeHeight stats.height, keyAt stats.height⟩

variable {t after : MemoryStore} {stats : MasternodeStats}

theorem keyAt_injective {m n : UInt32} (h : keyAt m = keyAt n) : m = n :=
  UInt32.toNat_inj.mp (Text.toString_injective h)

theorem place_of_mem (hwf : t.WF) (htyped : Typed MasternodeStats t) {place : Place}
    (h : place ∈ (t.model (model MasternodeStats)).placesAt ⟨byHeight.name, ""⟩) :
    ∃ stats : MasternodeStats, Held t stats ∧ place = stats.place := by
  rcases ((hwf _).mem_placesAt _ _).mp h with ⟨found, hfound, hentry⟩
  rcases htyped.exists_held hfound with ⟨stats, rfl, hk, hheld⟩
  refine ⟨stats, hheld, ?_⟩
  simp only [stored, Entity.entries, IndexEntry.unpartitioned, List.mem_singleton,
    IndexEntry.mk.injEq] at hentry
  rcases place with ⟨sort, k⟩
  simp only at hk hentry
  rw [MasternodeStats.place, hk, hentry.2.2]
  rfl

theorem mem_placesAt (hwf : t.WF) (h : Held t stats) :
    stats.place ∈ (t.model (model MasternodeStats)).placesAt ⟨byHeight.name, ""⟩ := by
  refine ((hwf _).mem_placesAt _ _).mpr ⟨stored stats, h, ?_⟩
  simp [stored, Entity.entries, IndexEntry.unpartitioned, place]

/-- The statistics at the greatest place are the newest. -/
theorem newest_of_greatest (hwf : t.WF) (hheld : Held t stats)
    (h : (t.model (model MasternodeStats)).Greatest ⟨byHeight.name, ""⟩ stats.place) :
    Newest t (some stats) := by
  refine ⟨hheld, fun other hother => ?_⟩
  by_contra hc
  have hlt := Place.compare_of_lt (p := stats.place) (q := other.place)
    (Text.encodeHeight_lt (UInt32.not_le.mp hc))
  rcases h.2 other.place (mem_placesAt hwf hother) with heq | hgt
  · rw [heq, Std.ReflOrd.compare_self] at hlt
    exact absurd hlt (by decide)
  · rw [Std.OrientedOrd.eq_swap, hgt] at hlt
    exact absurd hlt (by decide)

theorem Newest.congr {previous : Option MasternodeStats} (h : Newest t previous)
    (hagree : after.Agree [model MasternodeStats] t) : Newest after previous := by
  have hheld : ∀ stats : MasternodeStats, Held after stats ↔ Held t stats :=
    held_congr (hagree _ (by simp))
  cases previous with
  | none => exact fun stats hstats => h stats ((hheld stats).mp hstats)
  | some stats =>
      exact ⟨(hheld stats).mpr h.1, fun other hother => h.2 other ((hheld other).mp hother)⟩

/-- There are newest statistics, or none at all. -/
theorem exists_newest (hwf : t.WF) (htyped : Typed MasternodeStats t) :
    ∃ previous, Newest t previous := by
  rcases MemoryModel.scan_newest (hwf (model MasternodeStats)) byHeight.name none none (by simp)
    with ⟨_, hno⟩ | ⟨place, _, hgreatest, _⟩
  · exact ⟨none, fun stats hheld => hno _ (mem_placesAt hwf hheld)⟩
  · rcases place_of_mem hwf htyped hgreatest.1 with ⟨stats, hheld, rfl⟩
    exact ⟨some stats, newest_of_greatest hwf hheld hgreatest⟩

/-- They are what a block starts from. -/
theorem runs_before? (hwf : t.WF) (htyped : Typed MasternodeStats t) {height : UInt32}
    (hbelow : ∀ stats : MasternodeStats, Held t stats → stats.height < height) :
    Runs MemoryStore.WF False (fun previous behind => behind = t ∧ Newest t previous)
      (before? height) t := by
  refine runs_bind (runs_scan_newest (q := fun previous _ => Newest t previous) hwf rfl hwf
    (fun place hplace limit hlimit => ?_) (fun hno => ?_) fun place found hgreatest hfound => ?_) ?_
  · rcases place_of_mem hwf htyped hplace with ⟨stats, hheld, rfl⟩
    rw [← Option.some.inj hlimit]
    exact Text.encodeHeight_lt (hbelow stats hheld)
  · exact fun stats hheld => hno _ (mem_placesAt hwf hheld)
  · rcases place_of_mem hwf htyped hgreatest.1 with ⟨stats, hheld, rfl⟩
    rw [show stats.place.key = key stats from rfl, hheld, Option.some.injEq] at hfound
    exact ⟨stats, hfound.symm, newest_of_greatest hwf hheld hgreatest⟩
  · rintro values behind hbehind ⟨rfl, hnewest⟩
    exact runs_pure hbehind ⟨rfl, hnewest⟩

/-! ## Writing and deleting -/

/-- Nothing refuses statistics where there are none. -/
theorem runs_storeStats (hwf : t.WF)
    (hfree : t.find (model MasternodeStats) (keyAt stats.height) = none) :
    Runs MemoryStore.WF False (fun _ behind => behind = saved t stats) stats.store t := by
  refine runs_bind (runs_find_free hwf hfree) ?_
  rintro value behind hbehind ⟨rfl, rfl⟩
  exact runs_save_wf hbehind stats

/-- Undoing the block deletes the statistics that it has written. -/
theorem reverts_storeStats {block : Block} (hheight : stats.height = block.height)
    (hhash : stats.block.hash = block.hash)
    (hfree : t.find (model MasternodeStats) (keyAt stats.height) = none) :
    Reverts nodeModels (discard block) (saved t stats) t := by
  intro start hwf hagree
  have hfound := hagree (model MasternodeStats) (by simp [nodeModels]) (keyAt block.height)
  rw [find_saved, if_pos ⟨rfl, by rw [← hheight]; rfl⟩] at hfound
  refine runs_bind (runs_find_held hwf hfound) ?_
  rintro value behind hbehind ⟨rfl, rfl⟩
  simp only [if_pos hhash]
  rw [← hheight]
  exact Reverts.of_free (a := stats) hfree behind hbehind hagree

/-- Where it has written none there is nothing to delete. -/
theorem reverts_noStats {block : Block}
    (hfree : t.find (model MasternodeStats) (keyAt block.height) = none) :
    Reverts nodeModels (discard block) t t := by
  intro start hwf hagree
  refine runs_bind (runs_find_free hwf ((hagree _ (by simp [nodeModels]) _).trans hfree)) ?_
  rintro value behind hbehind ⟨rfl, rfl⟩
  exact runs_pure hbehind hagree

end MasternodeStats

end ChainIndex
