import ChainIndex.Proofs.Chain.Refused
import ChainIndex.Proofs.Follower.Attempts
import ChainIndex.Proofs.Follower.Hooks
import ChainIndex.Proofs.Indexer.Unapplied

/-!
# Blocks of another branch

A follower may be told to undo any block that the source serves, and the block need not be one
that was ever applied: a block of another branch, at a height at which another one is stored.
Undoing it changes nothing but the ledger if the block is apart from what is stored, and only
then. It takes no more than a pair that both blocks feed for the aggregate of the stored one to
be deleted, since aggregates are found by pair and height; the statistics at that height, which
are compared with the block first, are left alone.

## Main definitions

* `Stocked`: What a store holds of the transactions and the blocks of a chain.

## Theorems

* `stocked_of_build`: Indexing a chain keeps its transactions, and no statistics of others.
* `run_invalidate_ok`: What a follower does when it undoes a block.
* `unapplied_leaves_unchanged_iff`: When undoing such a block changes nothing.
* `unapplied_rival_deletes_aggregate`: A block that does change something.
-/

namespace ChainIndex

open Entity Program Chain MemoryStore

/-! ## What is held of a chain -/

/-- The store holds the transactions of the chain, and its statistics are those of blocks of
    the chain. -/
structure Stocked (chain : List Block) (t : MemoryStore) : Prop where
  listed : ∀ txid ∈ txids chain, t.find (model TransactionRecord) txid ≠ none
  typed : Typed MasternodeStats t
  stats : ∀ stats : MasternodeStats, Held t stats → ∃ block ∈ chain, stats.block.hash = block.hash

theorem Stocked.alike {chain : List Block} {t after : MemoryStore} (h : Stocked chain t)
    (halike : t.Alike after) : Stocked chain after := by
  have hstats : ∀ k, after.find (model MasternodeStats) k = t.find (model MasternodeStats) k :=
    fun k => (halike.find _ k (by decide)).symm
  refine ⟨fun txid htxid => ?_, h.typed.congr hstats, fun stats hheld => ?_⟩
  · rw [← halike.find _ _ (by decide)]
    exact h.listed txid htxid
  · exact h.stats stats ((held_congr hstats stats).mp hheld)

/-- Indexing one more block keeps what is held of the others. -/
theorem Stocked.snoc {symbol : String} {chain : List Block} {block : Block}
    {before t : MemoryStore} (h : Stocked chain before) (hlegible : before.Legible)
    (hbuilt : Built chain before) (hclean : Clean (chain ++ [block]))
    (hrun : ((Registry.full symbol).applyBlock block).run World.answer ⟨before, ⟨[], []⟩, 0⟩
      = (.ok (), ⟨t, ⟨[], []⟩, 0⟩)) : t.Legible ∧ Stocked (chain ++ [block]) t := by
  rcases (runs_applying symbol block hlegible).post_of_run hrun with
    ⟨⟨hkept, _⟩, last, hsame, hlists, rfl⟩
  have happlied := ((hbuilt.runs_applyBlock symbol hclean).post_of_run hrun).2.1
  refine ⟨hkept, fun txid htxid => ?_, hkept.stats, fun stats hheld => ?_⟩
  · rw [find_saved, if_neg (by simp [Entity.model])]
    rw [txids_snoc, List.mem_append] at htxid
    rcases htxid with hbefore | hblock
    · -- The block writes under the ids of its own transactions only.
      rw [hsame]
      · exact h.listed txid hbefore
      · rintro (hderived | ⟨_, tx, htx, rfl⟩ | ⟨hm, _⟩)
        · exact hderived (by decide)
        · exact hclean.txid_not_mem htx hbefore
        · exact absurd hm (by decide)
    · rcases List.mem_map.mp hblock with ⟨tx, htx, rfl⟩
      rcases List.getElem?_of_mem htx with ⟨position, hget⟩
      rw [(hlists hclean.regular.distinct position tx hget).record]
      simp
  · -- Statistics that were not held before are those of the block.
    rcases happlied.between.fits _ _ _ Recorded.model_ne_ledger hheld with hold | ⟨_, _, hfits⟩
    · rcases h.stats stats hold with ⟨other, hother, hhash⟩
      exact ⟨other, List.mem_append_left _ hother, hhash⟩
    · rcases hfits rfl with ⟨stats', hstored, hhash⟩
      exact ⟨block, List.mem_concat_self, stored_injective hstored ▸ hhash⟩

/-- So it is of every chain that can be indexed. -/
theorem stocked_of_build {symbol : String} {chain : List Block} {t : MemoryStore}
    (hclean : Clean chain) (h : build symbol chain = .ok t) : t.Legible ∧ Stocked chain t := by
  induction chain using List.reverseRecOn generalizing t with
  | nil =>
      rw [build_nil, Except.ok.injEq] at h
      subst h
      exact ⟨legible_empty, by simp [txids], legible_empty.stats, by simp [Held]⟩
  | append_singleton chain block ih =>
      rcases (build_snoc symbol chain block t).mp h with ⟨before, hbefore, hrun⟩
      rcases ih hclean.of_snoc hbefore with ⟨hlegible, hstocked⟩
      exact hstocked.snoc hlegible (built_of_build hclean.of_snoc hbefore) hclean hrun

namespace Mirrors

variable {symbol : String} {chain : List Block} {store : MemoryStore}

theorem stocked (h : Mirrors symbol chain store) (hclean : Clean chain) : Stocked chain store := by
  rcases h.replay with ⟨replayed, hbuild, halike⟩
  exact (stocked_of_build hclean hbuild).2.alike halike

/-- A transaction that is not stored is not on the chain, and nothing is kept for it. -/
theorem unknown (h : Mirrors symbol chain store) (hclean : Clean chain) {txid : String}
    (hdash : Text.DashFree txid) (hnative : txid ≠ Token.nativeId)
    (hunlisted : store.find (model TransactionRecord) txid = none) : Unknown store txid :=
  (h.built hclean).unknown hclean hdash hnative
    fun hmem => (h.stocked hclean).listed txid hmem hunlisted

end Mirrors

/-! ## Undoing by hash and height -/

theorem run_write (hash : String) (height : UInt32) (phase : SyncPhase)
    (world : World MemoryStore) :
    (SyncStatus.write hash height phase).run World.answer world
      = (.ok (), { world with
          store := saved world.store (⟨hash, height, phase, world.now⟩ : SyncStatus) }) :=
  rfl

/-- Hooks that are run between two notes in the ledger end as they would by themselves. -/
theorem run_recorded (block : Block) (before after : SyncPhase) (hooks : Program Unit)
    (world : World MemoryStore) :
    (Follower.recorded block before after hooks).run World.answer world =
      match hooks.run World.answer { world with
          store := saved world.store (⟨block.hash, block.height, before, world.now⟩ : SyncStatus) }
        with
      | (.ok (), world) => (SyncStatus.write block.hash block.height after).run World.answer world
      | (.error e, world) => (.error e,
          ((SyncStatus.write block.hash block.height .error).run World.answer world).2) := by
  change (Program.bind (SyncStatus.write block.hash block.height before) fun _ =>
    Program.bind hooks.attempt _).run World.answer world = _
  rw [Program.run_bind, run_write]
  simp only [Program.run_bind, Program.run_attempt]
  rcases hooks.run World.answer _ with ⟨error | _, world⟩
  · rfl
  · rfl

/-- A follower that has undone a block has run its hooks between two notes in the ledger. -/
theorem run_invalidate_ok {follower : Follower} {block : Block} {store : MemoryStore}
    {source : MemorySource} {now : Int64} {behind : World MemoryStore}
    (hserved : source.block block.hash = .ok block)
    (hrun : (follower.invalidate block.hash block.height).run World.answer ⟨store, source, now⟩
      = (.ok (), behind)) :
    ∃ last, (follower.registry.undoBlock block).run World.answer
        ⟨saved store (⟨block.hash, block.height, .invalidating, now⟩ : SyncStatus), source, now⟩
        = (.ok (), ⟨last, source, now⟩) ∧
      behind.store = saved last (⟨block.hash, block.height, .invalidated, now⟩ : SyncStatus) := by
  have hblock : (Program.request (.block block.hash)).run World.answer ⟨store, source, now⟩
      = (.ok block, ⟨store, source, now⟩) := by
    rw [← hserved]
    rfl
  change (Program.bind (Program.request (.block block.hash)) fun found =>
    if found.height = block.height then follower.undoBlock found
    else throw (.consistency (.heightMismatch block.hash found.height block.height))).run
      World.answer ⟨store, source, now⟩ = (.ok (), behind) at hrun
  rw [Program.run_bind, hblock] at hrun
  simp only [if_pos, Follower.undoBlock, run_recorded] at hrun
  -- The hooks change neither the source nor the clock, and if they fail so does the whole.
  have hkept := run_world (follower.registry.undoBlock block)
    ⟨saved store (⟨block.hash, block.height, .invalidating, now⟩ : SyncStatus), source, now⟩
  rcases hhooks : (follower.registry.undoBlock block).run World.answer
    ⟨saved store (⟨block.hash, block.height, .invalidating, now⟩ : SyncStatus), source, now⟩ with
    ⟨error | _, last⟩
  · rw [hhooks] at hrun
    exact absurd (congrArg Prod.fst hrun) (by simp)
  · rw [hhooks] at hrun hkept
    rcases last with ⟨last, source', now'⟩
    rcases hkept with ⟨rfl, rfl⟩
    exact ⟨last, rfl, (congrArg (fun outcome => outcome.2.store) hrun).symm⟩

/-- Undoing a block that is not on the chain changes no records exactly if the block is apart
    from what is stored: every oracle it updates or removes is there, or is one of its own, no
    masternode it resigns is resigned, none of its transactions is stored, no pair it feeds has
    an aggregate at its height, and it is no first block where there is one. This takes no
    account of whether the block is valid on a chain of its own, nor of what the ledger says. -/
theorem unapplied_leaves_unchanged_iff (symbol : String) (chain parents : List Block)
    (block : Block) (store : MemoryStore) (hclean : Clean chain)
    (hmirrors : Mirrors symbol chain store) (hbranch : Clean (parents ++ [block]))
    (hnew : ∀ other ∈ chain, other.hash ≠ block.hash) (source : MemorySource) (now : Int64)
    (hserved : source.block block.hash = .ok block) (behind : World MemoryStore)
    (hrun : ((Follower.ofRegistry (Registry.standard symbol)).invalidate block.hash
      block.height).run World.answer ⟨store, source, now⟩ = (.ok (), behind)) :
    (∀ model, model ≠ ledgerModel → (behind.store.model model).Same (store.model model)) ↔
      Apart store block := by
  rcases run_invalidate_ok hserved hrun with ⟨last, hundone, hbehind⟩
  -- The notes in the ledger change no records.
  have hstart := hmirrors.saved_status ⟨block.hash, block.height, .invalidating, now⟩
  have hbuilt := hmirrors.built hclean
  have hnoted := hstart.built hclean
  constructor
  · intro hsame
    have hkept : ∀ m k, m ≠ ledgerModel → last.find m k = store.find m k := fun m k hm => by
      rw [← find_saved_status last _ k hm, ← hbehind]
      exact (hsame m hm).records k
    -- Undoing has left its traces and has cleared the names. If nothing has changed, it was so
    -- before.
    have htraces := (runs_traces symbol hbranch.regular
      (.start hstart.wf hnoted.coherent.snapshots hnoted.nodes)).post_of_run hundone
    have hcleared := (runs_cleared symbol block hstart.wf).post_of_run hundone
    exact ⟨harmless_of_unchanged htraces.2 (alike_of_find htraces.2.wf hmirrors.wf hkept),
      hcleared.2.congr fun m k hm => (hkept m k hm).symm⟩
  · intro hapart
    have hstocked := hmirrors.stocked hclean
    have hunknown : ∀ tx ∈ block.transactions, Unknown store tx.txid := fun tx htx =>
      hmirrors.unknown hclean (hbranch.dashFree_last htx)
        (hbranch.notNative _ (mem_txids List.mem_concat_self htx)) (hapart.transactions tx htx)
    have hrecord : store.find (model BlockRecord) block.hash = none := by
      refine hbuilt.find_eq_none (by decide) fun hc => ?_
      rcases origin_block.mp hc with ⟨other, hother, hhash⟩
      exact hnew other hother hhash.symm
    have hstats : ∀ stats : MasternodeStats, Held store stats →
        stats.block.hash ≠ block.hash := by
      intro stats hheld hhash
      rcases hstocked.stats stats hheld with ⟨other, hother, heq⟩
      exact hnew other hother (heq.symm.trans hhash)
    rcases (runs_undo_unapplied symbol hbuilt.coherent hbuilt.nodes hstocked.typed hunknown hrecord
      hstats hapart (.of_alike hstart.wf
        (alike_saved_status hmirrors.wf _).symm)).post_of_run hundone with ⟨hwf, hunchanged⟩
    intro model hmodel
    rw [hbehind]
    exact ((alike_saved_status hwf _).symm.trans
      (alike_of_find hwf hmirrors.wf hunchanged.find)) model hmodel

/-- A block that appoints an oracle for a pair. -/
def Block.pairing : Block :=
  .holding "a" "" 0 [.carrying "o" .appointOracle
    [("ownerAddress", .string "x"), ("weightage", .int 1),
      ("priceFeeds", .array [(⟨"T", "C"⟩ : PricePair).toJson])]]

/-- A block behind it in which the oracle publishes a price of the pair. -/
def Block.quoting (hash txid : String) (amount : Int) : Block :=
  .holding hash "a" 1 [.carrying txid .setOracleData
    [("oracleId", .string "o"), ("timestamp", .int 0),
      ("tokenPrices", .array [.object [("token", .string "T"), ("prices", .array [
        .object [("currency", .string "C"), ("amount", .int amount)]])]])]]

namespace Block.rival

/-- The chain that is stored. -/
def chain : List Block := [pairing, quoting "b" "p" 3]

/-- The block of another branch, which goes on from the same block with another price. -/
def other : Block := quoting "c" "q" 4

/-- The world in which the chain has been indexed. -/
def indexed : World MemoryStore :=
  ((chain.forM (Registry.full "DFI").applyBlock).run World.answer (World.ofSource ⟨[], []⟩)).2

/-- The store of a follower at rest with the chain. -/
def resting : MemoryStore := saved indexed.store (⟨"b", 1, .indexed, 0⟩ : SyncStatus)

/-- A source that has switched from the other branch. -/
def source : MemorySource := (MemorySource.ofChain [pairing, other]).setChain chain

/-- The world in which the other block has been undone. -/
def behind : World MemoryStore :=
  (((Follower.ofRegistry (Registry.standard "DFI")).invalidate other.hash other.height).run
    World.answer ⟨resting, source, 0⟩).2

theorem clean : Clean chain :=
  ⟨numbered_of_map (by decide), by decide, by decide, by decide, by decide, by decide⟩

theorem clean_branch : Clean ([pairing] ++ [other]) :=
  ⟨numbered_of_map (by decide), by decide, by decide, by decide, by decide, by decide⟩

theorem mirrors : Mirrors "DFI" chain resting := by
  have hbuild : build "DFI" chain = .ok indexed.store :=
    build_of_run (Prod.ext (by decide +kernel) rfl)
  have hwf := (built_of_build clean hbuild).coherent.wf
  exact Mirrors.saved_status ⟨hwf, indexed.store, hbuild, .refl _⟩ _

theorem valid_branch : ∃ branch, build "DFI" ([pairing] ++ [other]) = .ok branch :=
  ⟨_, build_of_run (Prod.ext (by decide +kernel) rfl)⟩

theorem new : ∀ block ∈ chain, block.hash ≠ other.hash := by
  decide

theorem served : source.block other.hash = .ok other := rfl

theorem undone : ((Follower.ofRegistry (Registry.standard "DFI")).invalidate other.hash
    other.height).run World.answer ⟨resting, source, 0⟩ = (.ok (), behind) :=
  Prod.ext (by decide +kernel) (by rw [behind])

end Block.rival

open Block.rival

/-- Whether undoing the other block changes anything is a matter of its being apart. -/
theorem unapplied_leaves_unchanged_iff_rival :
    (∀ model, model ≠ ledgerModel → (behind.store.model model).Same (resting.model model)) ↔
      Apart resting other :=
  unapplied_leaves_unchanged_iff "DFI" chain [.pairing] other resting clean mirrors clean_branch
    new source 0 served behind undone

/-- A block that is valid on its own branch is undone while another one is stored at its
    height, and the aggregate of the stored one is gone. -/
theorem unapplied_rival_deletes_aggregate :
    Clean chain ∧ Mirrors "DFI" chain resting ∧ resting.AtRest ∧
      Clean ([.pairing] ++ [other]) ∧
      (∃ branch, build "DFI" ([.pairing] ++ [other]) = .ok branch) ∧
      (∀ block ∈ chain, block.hash ≠ other.hash) ∧ source.block other.hash = .ok other ∧
      ((Follower.ofRegistry (Registry.standard "DFI")).invalidate other.hash other.height).run
        World.answer ⟨resting, source, 0⟩ = (.ok (), behind) ∧
      ¬ ∀ model, model ≠ ledgerModel → (behind.store.model model).Same (resting.model model) := by
  refine ⟨clean, mirrors, atRest_saved _ rfl, clean_branch, valid_branch, new, served, undone,
    fun hsame => ?_⟩
  -- The key of the aggregate names the pair and the height, and no block.
  have hthere : (resting.find (model PriceAggregate) "T-C-1").isNone = false := by
    decide +kernel
  have hgone : (behind.store.find (model PriceAggregate) "T-C-1").isNone = true := by
    decide +kernel
  have hfind := (hsame (model PriceAggregate) (by decide)).records "T-C-1"
  change behind.store.find (model PriceAggregate) "T-C-1"
    = resting.find (model PriceAggregate) "T-C-1" at hfind
  rw [hfind, hthere] at hgone
  exact absurd hgone (by decide)

end ChainIndex
