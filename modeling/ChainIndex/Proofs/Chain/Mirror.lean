import ChainIndex.Proofs.Chain.Interrupted

/-!
# Mirrors of a chain

A store mirrors a chain when it holds the records that replaying the chain leaves. What is
assumed of the blocks that a source serves is said once, for all the chains that can be made
of them: `Serves`. Under it a mirror of a chain becomes a mirror of the chain with one more
block when the block is applied, and a mirror of the chain without its last block when that
block is undone, from wherever the attempt before was left.

## Main definitions

* `Chain.Linked`: A chain of served blocks.
* `Serves`: What is assumed of the blocks that are served.
* `Mirrors`: The store holds what replaying the chain leaves.

## Theorems

* `Serves.clean`: A chain of served blocks is clean.
* `Mirrors.runs_applyBlock`: Applying the next block.
* `Mirrors.runs_undoBlock`: Undoing it.
* `Mirrors.last`: A mirror has its last block applied.
-/

namespace ChainIndex

open Entity Program Chain

/-- A chain of served blocks: each has its position as its height, and goes on from the one
    before it. -/
structure Chain.Linked (served : String → Option Block) (chain : List Block) : Prop where
  numbered : Numbered chain
  served : ∀ block ∈ chain, served block.hash = some block
  linked : ∀ (i : Nat) (parent block : Block), chain[i]? = some parent →
    chain[i + 1]? = some block → block.previousHash = parent.hash

/-- What is assumed of the blocks that are served: one block for each hash, none with more
    transactions than positions can count, and along every chain of them fewer blocks than
    there are heights, distinct ids without hyphens, no masternode that is resigned twice, and
    no block that cannot be indexed. -/
structure Serves (symbol : String) (served : String → Option Block) : Prop where
  hash : ∀ hash block, served hash = some block → block.hash = hash
  fits : ∀ hash block, served hash = some block → block.transactions.length ≤ UInt32.size
  short : ∀ chain, Linked served chain → chain.length < UInt32.size
  distinct : ∀ chain, Linked served chain → (txids chain).Nodup
  dashFree : ∀ chain, Linked served chain → ∀ txid ∈ txids chain, Text.DashFree txid
  notNative : ∀ chain, Linked served chain → ∀ txid ∈ txids chain, txid ≠ Token.nativeId
  resigns : ∀ chain block, Linked served (chain ++ [block]) → ∀ p ∈ block.ops, ∀ id,
    p.2.resigned = some id → ∀ earlier ∈ chain, ∀ q ∈ earlier.ops, q.2.resigned ≠ some id
  indexes : ∀ chain, Linked served chain → ∃ store, build symbol chain = .ok store

/-- The store holds the records that replaying the chain leaves. -/
structure Mirrors (symbol : String) (chain : List Block) (store : MemoryStore) : Prop where
  wf : store.WF
  replay : ∃ replayed, build symbol chain = .ok replayed ∧ replayed.Alike store

namespace Chain.Linked

variable {served : String → Option Block} {chain : List Block} {block : Block}

theorem nil : Linked served [] where
  numbered i block hget := by simp at hget
  served block hmem := absurd hmem List.not_mem_nil
  linked i parent block hget := by simp at hget

theorem of_snoc (h : Linked served (chain ++ [block])) : Linked served chain where
  numbered := h.numbered.of_snoc
  served other hmem := h.served other (List.mem_append_left _ hmem)
  linked i parent other hparent hother := by
    refine h.linked i parent other ?_ ?_
    · rw [List.getElem?_append_left (List.getElem?_eq_some_iff.mp hparent).1, hparent]
    · rw [List.getElem?_append_left (List.getElem?_eq_some_iff.mp hother).1, hother]

theorem served_last (h : Linked served (chain ++ [block])) : served block.hash = some block :=
  h.served block (List.mem_concat_self)

/-- A block that goes on from a chain makes it longer. -/
theorem snoc (h : Linked served chain) (hserved : served block.hash = some block)
    (hheight : block.height.toNat = chain.length)
    (hparent : ∀ parent, chain.getLast? = some parent → block.previousHash = parent.hash) :
    Linked served (chain ++ [block]) where
  numbered i other hget := by
    rcases lt_or_ge i chain.length with hlt | hge
    · rw [List.getElem?_append_left hlt] at hget
      exact h.numbered i other hget
    · rw [List.getElem?_append_right hge, List.getElem?_singleton] at hget
      split at hget
      · rw [← Option.some.inj hget, hheight]
        omega
      · exact absurd hget (by simp)
  served other hmem := by
    rcases List.mem_append.mp hmem with hbefore | hlast
    · exact h.served other hbefore
    · rw [List.mem_singleton.mp hlast]
      exact hserved
  linked i parent other hget hother := by
    have hlength := (List.getElem?_eq_some_iff.mp hother).1
    rw [List.length_append, List.length_singleton] at hlength
    have hi : i < chain.length := by omega
    rw [List.getElem?_append_left hi] at hget
    rcases lt_or_ge (i + 1) chain.length with hlt | hge
    · rw [List.getElem?_append_left hlt] at hother
      exact h.linked i parent other hget hother
    · rw [List.getElem?_append_right hge, List.getElem?_singleton] at hother
      split at hother
      · rw [← Option.some.inj hother]
        refine hparent parent ?_
        rw [List.getLast?_eq_getElem?, show chain.length - 1 = i by omega, hget]
      · exact absurd hother (by simp)

/-- A block that follows on the last one of a chain makes it longer, unless the chain takes all
    heights. -/
theorem snoc_of_follows {tip : Block} (h : Linked served (chain ++ [tip]))
    (hshort : (chain ++ [tip]).length < UInt32.size) (hserved : served block.hash = some block)
    (hfollows : block.follows tip.hash tip.height = true) :
    Linked served (chain ++ [tip] ++ [block]) := by
  rcases Block.follows_iff.mp hfollows with ⟨hheight, hprevious⟩
  -- A height that starts again would not be the position of the block.
  refine h.snoc hserved ?_ fun parent hparent => ?_
  · rw [hheight, h.numbered.height_above hshort]
  · rw [List.getLast?_concat, Option.some.injEq] at hparent
    rw [hprevious, hparent]

end Chain.Linked

namespace Serves

variable {symbol : String} {served : String → Option Block} {chain : List Block}

/-- A chain of served blocks is clean. Its hashes are distinct since there is one block for
    each hash, and its position is its height. -/
theorem clean (h : Serves symbol served) (hlinked : Linked served chain) : Clean chain where
  numbered := hlinked.numbered
  hashes := by
    rw [List.nodup_iff_getElem?_ne_getElem?]
    intro i j hij hj heq
    rw [List.length_map] at hj
    have hi := hij.trans hj
    rw [List.getElem?_map, List.getElem?_map, List.getElem?_eq_getElem hi,
      List.getElem?_eq_getElem hj, Option.map_some, Option.map_some, Option.some.injEq] at heq
    -- One hash means one block, and one block has one height.
    have hblocks : chain[i] = chain[j] := by
      rw [← Option.some.injEq, ← hlinked.served _ (List.getElem_mem hi), heq,
        hlinked.served _ (List.getElem_mem hj)]
    have hheight := hlinked.numbered i chain[i] (List.getElem?_eq_getElem hi)
    rw [hblocks, hlinked.numbered j chain[j] (List.getElem?_eq_getElem hj)] at hheight
    omega
  distinct := h.distinct chain hlinked
  dashFree := h.dashFree chain hlinked
  notNative := h.notNative chain hlinked
  fits block hmem := h.fits _ block (hlinked.served block hmem)

end Serves

/-- A source that serves some branches and nothing else: what is assumed of all chains may be
    checked on the branches. -/
theorem Serves.of_branches {symbol : String} {served : String → Option Block}
    (branches : List (List Block))
    (hhash : ∀ hash block, served hash = some block → block.hash = hash)
    (hbranches : ∀ chain, Linked served chain → ∃ full ∈ branches, chain <+: full)
    (hfits : ∀ full ∈ branches, ∀ block ∈ full, block.transactions.length ≤ UInt32.size)
    (hmem : ∀ hash block, served hash = some block → ∃ full ∈ branches, block ∈ full)
    (hshort : ∀ full ∈ branches, full.length < UInt32.size)
    (hdistinct : ∀ full ∈ branches, (txids full).Nodup)
    (hdashFree : ∀ full ∈ branches, ∀ txid ∈ txids full, Text.DashFree txid)
    (hnotNative : ∀ full ∈ branches, ∀ txid ∈ txids full, txid ≠ Token.nativeId)
    (hresigns : ∀ full ∈ branches, ∀ block ∈ full, ∀ p ∈ block.ops, p.2.resigned = none)
    (hindexes : ∀ full ∈ branches, ∃ store, build symbol full = .ok store) :
    Serves symbol served where
  hash := hhash
  fits hash block h := by
    rcases hmem hash block h with ⟨full, hfull, hblock⟩
    exact hfits full hfull block hblock
  short chain hlinked := by
    rcases hbranches chain hlinked with ⟨full, hfull, hbranch⟩
    exact hbranch.length_le.trans_lt (hshort full hfull)
  distinct chain hlinked := by
    rcases hbranches chain hlinked with ⟨full, hfull, rest, rfl⟩
    have hnodup := hdistinct _ hfull
    rw [txids, List.flatMap_append] at hnodup
    exact (List.nodup_append.mp hnodup).1
  dashFree chain hlinked txid htxid := by
    rcases hbranches chain hlinked with ⟨full, hfull, rest, rfl⟩
    refine hdashFree _ hfull txid ?_
    rw [txids, List.flatMap_append]
    exact List.mem_append_left _ htxid
  notNative chain hlinked txid htxid := by
    rcases hbranches chain hlinked with ⟨full, hfull, rest, rfl⟩
    refine hnotNative _ hfull txid ?_
    rw [txids, List.flatMap_append]
    exact List.mem_append_left _ htxid
  resigns chain block hlinked p hp id hid := by
    rcases hbranches _ hlinked with ⟨full, hfull, rest, rfl⟩
    rw [hresigns _ hfull block (by simp) p hp] at hid
    exact absurd hid (by simp)
  indexes chain hlinked := by
    rcases hbranches chain hlinked with ⟨full, hfull, rest, rfl⟩
    rcases hindexes _ hfull with ⟨store, hstore⟩
    exact build_of_append hstore

namespace Mirrors

variable {symbol : String} {served : String → Option Block} {chain : List Block} {block : Block}
variable {base store other : MemoryStore}

theorem empty : Mirrors symbol [] .empty :=
  ⟨MemoryStore.wf_empty, .empty, build_nil symbol, .refl _⟩

/-- A store that holds the same records mirrors the same chain. -/
theorem alike (h : Mirrors symbol chain store) (hwf : other.WF) (halike : store.Alike other) :
    Mirrors symbol chain other := by
  rcases h.replay with ⟨replayed, hbuild, hsame⟩
  exact ⟨hwf, replayed, hbuild, hsame.trans halike⟩

theorem built (h : Mirrors symbol chain store) (hclean : Clean chain) : Built chain store := by
  rcases h.replay with ⟨replayed, hbuild, hsame⟩
  exact (built_of_build hclean hbuild).alike h.wf hsame

/-- Applying the next block to a mirror ends without error, and with a mirror. -/
theorem run_applyBlock (h : Mirrors symbol chain store) (hserves : Serves symbol served)
    (hlinked : Linked served (chain ++ [block])) :
    ∃ last, ((Registry.full symbol).applyBlock block).run World.answer ⟨store, ⟨[], []⟩, 0⟩
      = (.ok (), ⟨last, ⟨[], []⟩, 0⟩) ∧ Mirrors symbol (chain ++ [block]) last := by
  have hclean := hserves.clean hlinked
  -- The chain with the block can be replayed, so the block is applied to the replay of the chain.
  rcases h.replay with ⟨replayed, hbuild, hsame⟩
  rcases hserves.indexes _ hlinked with ⟨after, hafter⟩
  rcases (build_snoc symbol chain block after).mp hafter with ⟨before, hbefore, hrun⟩
  rw [hbuild, Except.ok.injEq] at hbefore
  subst hbefore
  have hbuilt := built_of_build hclean.of_snoc hbuild
  -- A mirror is not told apart from that replay.
  rcases runs_alike (hbuilt.runs_applyBlock symbol hclean) hsame hbuilt.coherent.wf h.wf
    ⟨[], []⟩ 0 with ⟨result, behind, last, hbehind, hlast, hlike, hwf, _⟩
  rw [hrun, Prod.mk.injEq, World.mk.injEq] at hbehind
  rcases hbehind with ⟨rfl, rfl, _⟩
  exact ⟨last, hlast, hwf, after, hafter, hlike⟩

/-- Applying the next block to a mirror makes a mirror of the chain with it. -/
theorem runs_applyBlock (h : Mirrors symbol chain store) (hserves : Serves symbol served)
    (hlinked : Linked served (chain ++ [block])) :
    Runs (Between store block (BlockKeys block) block.ops) False
      (fun _ behind => Mirrors symbol (chain ++ [block]) behind)
      ((Registry.full symbol).applyBlock block) store := by
  rcases h.run_applyBlock hserves hlinked with ⟨last, hrun, hlast⟩
  have hclean := hserves.clean hlinked
  have hruns := (h.built hclean.of_snoc).runs_applyBlock symbol hclean
  refine ((hruns.of_run hrun).mono fun _ behind _ hend => ?_).weaken (fun _ hmid => hmid) ?_
  · rw [hend.2.1]
    exact hlast
  · rintro ⟨e, he⟩
    exact absurd he (by simp)

/-- Undoing a block that was being applied to a mirror, or undone from the one with it, makes
    that mirror again. -/
theorem runs_undoBlock (h : Mirrors symbol chain base) (hserves : Serves symbol served)
    (hlinked : Linked served (chain ++ [block]))
    (hbetween : Between base block (BlockKeys block) block.ops store) :
    Runs (Between base block (BlockKeys block) block.ops) False
      (fun _ behind => Mirrors symbol chain behind)
      ((Registry.full symbol).undoBlock block) store := by
  have hclean := hserves.clean hlinked
  have hbuilt := h.built hclean.of_snoc
  rcases h.run_applyBlock hserves hlinked with ⟨last, hrun, _⟩
  have happlies := applied_of_run symbol hbuilt hclean (congrArg Prod.fst hrun)
  have hresigns : ResignsUnresigned base block := by
    intro p hp id hid node hnode
    refine (Masternode.unresigned_eq_iff node).mp ?_
    -- A masternode that is resigned was resigned by a block of the chain.
    by_contra hne
    rcases hbuilt.resigned id node hnode hne with ⟨earlier, hmem, q, hq, hresigned⟩
    exact hserves.resigns chain block hlinked p hp id hid earlier hmem q hq hresigned
  refine (runs_undo_built symbol hbuilt hclean happlies hresigns hbetween).mono ?_
  intro _ behind hmid halike
  exact h.alike hmid.wf halike.symm

/-- A mirror has its last block applied, to a mirror of the chain without it. -/
theorem last (h : Mirrors symbol (chain ++ [block]) store) (hclean : Clean (chain ++ [block])) :
    ∃ base, Mirrors symbol chain base ∧
      Between base block (BlockKeys block) block.ops store := by
  rcases h.replay with ⟨replayed, hbuild, hsame⟩
  rcases (build_snoc symbol chain block replayed).mp hbuild with ⟨before, hbefore, hrun⟩
  have hbuilt := built_of_build hclean.of_snoc hbefore
  have hmid := ((hbuilt.runs_applyBlock symbol hclean).post_of_run hrun).1
  exact ⟨before, ⟨hbuilt.coherent.wf, before, hbefore, .refl _⟩, hmid.alike_behind h.wf hsame⟩

end Mirrors

end ChainIndex
