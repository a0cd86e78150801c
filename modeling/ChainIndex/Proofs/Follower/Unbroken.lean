import ChainIndex.Proofs.Follower.WriteAhead

/-!
# Readers see an unbroken chain

Readers look at the store while the follower writes to it, so what they may rely on has to hold
after every single write. At no point of any history is there a gap among the stored blocks or
are there two at one height; each goes on from the one below it, and the transactions and
outputs of each are all there.

That is so because the record of a block is the last thing that applying it writes and the
first that undoing it removes, and because an attempt is only ever on the tip or on the block
behind it. Two kinds of store are met: one that holds a chain with no attempt open, and one on
whose ledger an attempt is open, which holds the chain with or without the block of the
attempt. The hooks of the block may do with its own transactions what they like, for their ids
are those of no other block of the chain. Nothing is assumed about whether the blocks can be
indexed.

## Main definitions

* `Keeps`: The store holds the blocks of a chain, each with all of its transactions.
* `Instant`: A store at any point of a history.
* `Unbroken`: What a reader may rely on.

## Theorems

* `Keeps.applying`, `Keeps.undoing`: What the hooks of a block keep.
* `instant_work`: Working on a block that is due.
* `readers_see_unbroken_chain`: Every store that is met is unbroken.
-/

namespace ChainIndex

open Entity Program Chain MemoryStore

/-- The store holds the records of exactly the blocks of a chain, and of each all of its
    transactions and their outputs. -/
structure Keeps (served : String → Option Block) (chain : List Block) (store : MemoryStore) :
    Prop where
  linked : Linked served chain
  holds : Holds store chain
  lists : ∀ block ∈ chain, Lists store block

/-- A store at any point: it keeps a chain with no attempt open, or the ledger names an attempt
    on a block and the store keeps the chain with the block or without it. -/
def Instant (served : String → Option Block) (store : MemoryStore) : Prop :=
  (∃ chain, Keeps served chain store ∧ store.AtRest) ∨
    ∃ init block, Linked served (init ++ [block]) ∧ store.Attempting block ∧
      (Keeps served init store ∨ Keeps served (init ++ [block]) store)

/-- What a reader may rely on: every block record is one of a served block, no two of them have
    one height, each but the first goes on from one right below it, and each has all of its
    transactions and outputs in the store. -/
structure Unbroken (served : String → Option Block) (store : MemoryStore) : Prop where
  records : ∀ k found, store.find (model BlockRecord) k = some found →
    ∃ record : BlockRecord, found = stored record ∧ k = record.hash
  distinct : ∀ record other, store.HasBlock record → store.HasBlock other →
    record.height = other.height → record = other
  goesOn : ∀ record, store.HasBlock record → record.height ≠ 0 →
    ∃ below, store.HasBlock below ∧ below.height.toNat + 1 = record.height.toNat ∧
      record.previousHash = below.hash
  complete : ∀ record, store.HasBlock record → ∃ block, served record.hash = some block ∧
    record = BlockRecord.ofBlock block ∧ Lists store block

section

variable {served : String → Option Block} {symbol : String} {chain init : List Block}
variable {block : Block} {store behind : MemoryStore}

theorem Keeps.hasBlock (h : Keeps served chain store) (hmem : block ∈ chain) :
    store.HasBlock (BlockRecord.ofBlock block) :=
  (h.holds _ _).mpr ⟨block, hmem, rfl, rfl⟩

/-- A block record that is held is that of a block of the chain. -/
theorem Keeps.mem_of_hasBlock (h : Keeps served chain store) {record : BlockRecord}
    (hrecord : store.HasBlock record) : ∃ block ∈ chain, record = BlockRecord.ofBlock block := by
  rcases (h.holds _ _).mp hrecord with ⟨block, hmem, _, hstored⟩
  exact ⟨block, hmem, stored_injective hstored⟩

/-- The ledger is no part of what is kept. -/
theorem Keeps.saved_status (h : Keeps served chain store) (status : SyncStatus) :
    Keeps served chain (saved store status) where
  linked := h.linked
  holds k found := by
    rw [find_saved_status _ _ _ Recorded.model_ne_ledger]
    exact h.holds k found
  lists other hmem := by
    have hsame : SameOutside (fun m _ => m = ledgerModel) store (saved store status) :=
      fun _ k hm => find_saved_status store status k hm
    refine (h.lists other hmem).of_same hsame ?_
    rintro m k (⟨rfl, _⟩ | ⟨rfl, _⟩)
    · exact Recorded.model_ne_ledger
    · exact Recorded.model_ne_ledger

/-- Neither are block records part of what is listed. -/
theorem Lists.of_blocks (h : Lists store block)
    (hsame : SameOutside (fun m _ => m = model BlockRecord) store behind) : Lists behind block :=
  h.of_same hsame fun _ _ hk => BodyKeys.ne_block (Or.inr hk)

/-- Blocks with one hash are one block. -/
theorem Chain.Linked.hash_ne_last (h : Linked served (init ++ [block])) {other : Block}
    (hmem : other ∈ init) : other.hash ≠ block.hash := by
  intro hhash
  have hsame : other = block := by
    rw [← Option.some.injEq, ← h.of_snoc.served other hmem, hhash, h.served_last]
  have hlt := h.of_snoc.numbered.height_lt hmem
  rw [hsame, h.numbered.height_last] at hlt
  exact absurd hlt (lt_irrefl _)

/-- What the body of the block behind a chain is written under, is none of what the chain
    lists. -/
theorem not_bodyKeys_of_linked
    (hdistinct : ∀ chain, Linked served chain → (txids chain).Nodup)
    (h : Linked served (init ++ [block])) {other : Block} (hmem : other ∈ init) (m k : String)
    (hkey : ListingKeys other m k) : ¬ BodyKeys block m k := by
  have hnodup := hdistinct _ h
  rw [txids_snoc, List.nodup_append] at hnodup
  have hids : ∀ tx ∈ other.transactions, ∀ tx' ∈ block.transactions, tx.txid ≠ tx'.txid :=
    fun tx htx tx' htx' => hnodup.2.2 _ (mem_txids hmem htx) _ (List.mem_map_of_mem htx')
  rintro (hderived | hbody)
  · exact hkey.not_derived hderived
  · rcases hkey with ⟨rfl, tx, htx, rfl⟩ | ⟨rfl, tx, htx, output, _, rfl⟩
    · rcases hbody with ⟨_, tx', htx', hk⟩ | ⟨hm, _⟩
      · exact hids tx htx tx' htx' hk
      · exact absurd hm (by decide)
    · rcases hbody with ⟨hm, _⟩ | ⟨_, tx', htx', output', _, hk⟩
      · exact absurd hm (by decide)
      · exact hids tx htx tx' htx' (OutputRecord.idOf_injective hk).1

section Hooks

variable (hdistinct : ∀ chain, Linked served chain → (txids chain).Nodup)
  (hlinked : Linked served (init ++ [block]))
include hdistinct hlinked

/-- A chain is kept while the body of the block behind it is written or taken back. -/
theorem Keeps.of_same (h : Keeps served init store)
    (hsame : SameOutside (BodyKeys block) store behind) : Keeps served init behind where
  linked := h.linked
  holds k found := by
    rw [hsame _ _ fun hk => hk.ne_block rfl]
    exact h.holds k found
  lists other hmem :=
    (h.lists other hmem).of_same hsame (not_bodyKeys_of_linked hdistinct hlinked hmem)

omit hdistinct in
/-- With its transactions listed, the record of a block makes the chain one longer. -/
theorem Keeps.snoc (h : Keeps served init store) (hlists : Lists store block) :
    Keeps served (init ++ [block]) (saved store (BlockRecord.ofBlock block)) where
  linked := hlinked
  holds k found := by
    rw [find_saved]
    by_cases hk : k = block.hash
    · rw [if_pos ⟨rfl, hk⟩]
      constructor
      · intro hfound
        exact ⟨block, List.mem_concat_self, hk, (Option.some.inj hfound).symm⟩
      · rintro ⟨other, hmem, hhash, rfl⟩
        rcases List.mem_append.mp hmem with hbefore | hlast
        · exact absurd (hhash.symm.trans hk) (hlinked.hash_ne_last hbefore)
        · rw [List.mem_singleton.mp hlast]
    · rw [if_neg fun hc => hk hc.2, h.holds]
      constructor
      · rintro ⟨other, hmem, hrest⟩
        exact ⟨other, List.mem_append_left _ hmem, hrest⟩
      · rintro ⟨other, hmem, hhash, hfound⟩
        rcases List.mem_append.mp hmem with hbefore | hlast
        · exact ⟨other, hbefore, hhash, hfound⟩
        · exact absurd (List.mem_singleton.mp hlast ▸ hhash) hk
  lists other hmem := by
    have hsame := SameOutside.saved (.refl (fun m _ => m = model BlockRecord) store)
      (BlockRecord.ofBlock block) rfl
    rcases List.mem_append.mp hmem with hbefore | hlast
    · exact (h.lists other hbefore).of_blocks hsame
    · rw [List.mem_singleton.mp hlast]
      exact hlists.of_blocks hsame

omit hdistinct in
/-- Without its record the block is no longer part of the chain, whether it was before or
    not. -/
theorem Keeps.removed (h : Keeps served init store ∨ Keeps served (init ++ [block]) store) :
    Keeps served init (removed BlockRecord store block.hash) where
  linked := hlinked.of_snoc
  holds k found := by
    rw [find_removed]
    by_cases hk : k = block.hash
    · rw [if_pos ⟨rfl, hk⟩]
      constructor
      · intro hfound
        exact absurd hfound (by simp)
      · rintro ⟨other, hmem, hhash, _⟩
        exact absurd (hhash.symm.trans hk) (hlinked.hash_ne_last hmem)
    · rw [if_neg fun hc => hk hc.2]
      rcases h with hinit | hfull
      · exact hinit.holds k found
      · rw [hfull.holds]
        constructor
        · rintro ⟨other, hmem, hhash, hfound⟩
          rcases List.mem_append.mp hmem with hbefore | hlast
          · exact ⟨other, hbefore, hhash, hfound⟩
          · exact absurd (List.mem_singleton.mp hlast ▸ hhash) hk
        · rintro ⟨other, hmem, hrest⟩
          exact ⟨other, List.mem_append_left _ hmem, hrest⟩
  lists other hmem := by
    have hlists : Lists store other := by
      rcases h with hinit | hfull
      · exact hinit.lists other hmem
      · exact hfull.lists other (List.mem_append_left _ hmem)
    exact hlists.of_blocks (.removed (.refl _ store) rfl)

/-- What applying the block behind a chain keeps: the chain, and from the last write on the
    chain with the block. -/
theorem Keeps.applying (h : Keeps served init store) (happlying : Applying store block behind) :
    Keeps served init behind ∨ Keeps served (init ++ [block]) behind := by
  rcases happlying with hsame | ⟨last, hsame, hlists, rfl⟩
  · exact Or.inl (h.of_same hdistinct hlinked hsame)
  · have hnodup := hdistinct _ hlinked
    rw [txids_snoc, List.nodup_append] at hnodup
    exact Or.inr ((h.of_same hdistinct hlinked hsame).snoc hlinked
      (hlists hnodup.2.1))

/-- What undoing it keeps: from the first write on the chain without the block. -/
theorem Keeps.undoing (h : Keeps served init store ∨ Keeps served (init ++ [block]) store)
    (hundoing : Undoing store block behind) :
    Keeps served init behind ∨ Keeps served (init ++ [block]) behind := by
  rcases hundoing with rfl | hsame
  · exact h
  · exact Or.inl ((Keeps.removed hlinked h).of_same hdistinct hlinked hsame)

end Hooks

/-! ## Working on a block -/

theorem Instant.opened (hlinked : Linked served (init ++ [block])) (hopen : store.Attempting block)
    (h : Keeps served init store ∨ Keeps served (init ++ [block]) store) : Instant served store :=
  Or.inr ⟨init, block, hlinked, hopen, h⟩

theorem Instant.closed (h : Keeps served chain store) (status : SyncStatus)
    (hphase : status.phase.isTerminal = true) : Instant served (saved store status) :=
  Or.inl ⟨chain, h.saved_status status, atRest_saved status hphase⟩

/-- A store at rest keeps a chain. -/
theorem Instant.rest (h : Instant served store) (hrest : store.AtRest) :
    ∃ chain, Keeps served chain store := by
  rcases h with ⟨chain, hkeeps, _⟩ | ⟨init, block, _, hopen, _⟩
  · exact ⟨chain, hkeeps⟩
  · exact absurd hrest hopen.not_atRest

/-- The tip of a store is the last block of the chain that it keeps. -/
theorem Keeps.tip (h : Keeps served chain store) {tip : BlockRecord} (htip : store.IsTip tip) :
    ∃ init last, chain = init ++ [last] ∧ tip = BlockRecord.ofBlock last := by
  rcases h.mem_of_hasBlock htip.here with ⟨block, hmem, rfl⟩
  cases chain using List.reverseRecOn with
  | nil => exact absurd hmem List.not_mem_nil
  | append_singleton init last =>
      refine ⟨init, last, rfl, ?_⟩
      -- Every block ahead of the last one is lower.
      rcases List.mem_append.mp hmem with hbefore | hlast
      · have hle := UInt32.le_iff_toNat_le.mp (htip.highest _ (h.hasBlock List.mem_concat_self))
        have hlt := h.linked.of_snoc.numbered.height_lt hbefore
        have hlast := h.linked.numbered.height_last
        change last.height.toNat ≤ block.height.toNat at hle
        omega
      · rw [List.mem_singleton.mp hlast]

/-- A block that is due is the one behind the chain that the store keeps, or the last of it. -/
theorem Due.linked {phase : Phase} (h : Due phase block store)
    (hshort : ∀ chain, Linked served chain → chain.length < UInt32.size)
    (hinstant : Instant served store) (hserved : served block.hash = some block) :
    ∃ init, Linked served (init ++ [block]) ∧
      (Keeps served init store ∨ phase = .undo ∧ Keeps served (init ++ [block]) store) := by
  cases h with
  | first hrest hnone hheight =>
      rcases hinstant.rest hrest with ⟨chain, hkeeps⟩
      have hchain : chain = [] := List.eq_nil_iff_forall_not_mem.mpr fun other hmem =>
        hnone _ (hkeeps.hasBlock hmem)
      subst hchain
      exact ⟨[], Linked.nil.snoc hserved (by rw [hheight]; rfl) (by simp), Or.inl hkeeps⟩
  | next hrest htip hfollows =>
      rcases hinstant.rest hrest with ⟨chain, hkeeps⟩
      rcases hkeeps.tip htip with ⟨init, last, rfl, rfl⟩
      have hlonger := hkeeps.linked.snoc_of_follows (hshort _ hkeeps.linked) hserved hfollows
      exact ⟨init ++ [last], hlonger, Or.inl hkeeps⟩
  | tip hrest htip hhash _ =>
      rcases hinstant.rest hrest with ⟨chain, hkeeps⟩
      rcases hkeeps.tip htip with ⟨init, last, rfl, rfl⟩
      have hlast : block = last := by
        rw [← Option.some.injEq, ← hserved, hhash]
        exact hkeeps.linked.served_last
      subst hlast
      exact ⟨init, hkeeps.linked, Or.inr ⟨rfl, hkeeps⟩⟩
  | opened hopen =>
      rcases hinstant with ⟨_, _, hrest⟩ | ⟨init, other, hlinked, hother, hkeeps⟩
      · exact absurd hrest hopen.not_atRest
      · -- The ledger names one block only.
        rcases hopen with ⟨status, hstatus, hhash, _⟩
        rcases hother with ⟨status', hstatus', hhash', _⟩
        have hsame := noted_injective hstatus hstatus'
        rw [Option.some.injEq] at hsame
        have hblock : block = other := by
          rw [← Option.some.injEq, ← hserved, ← hlinked.served_last, ← hhash, hsame, hhash']
        subst hblock
        exact ⟨init, hlinked, hkeeps.imp_right fun h => ⟨rfl, h⟩⟩

/-- Working on a block that is due. -/
theorem instant_work (hdistinct : ∀ chain, Linked served chain → (txids chain).Nodup)
    (hshort : ∀ chain, Linked served chain → chain.length < UInt32.size)
    {env : Surroundings} {phase : Phase} (hlegible : store.Legible)
    (hinstant : Instant served store) (hdue : Due phase block store)
    (hserved : served block.hash = some block) :
    Always env (Instant served) (fun _ _ => True)
      ((Follower.standard symbol).work phase block) store := by
  rcases hdue.linked hshort hinstant hserved with ⟨init, hlinked, hkeeps⟩
  refine (always_work_of_runs (Instant served)
    (fun behind => Keeps served init behind ∨ Keeps served (init ++ [block]) behind)
    (fun behind => ∃ chain, Keeps served chain behind) True hinstant
    (fun behind h hopen => .opened hlinked hopen h)
    (fun behind status h => h.imp (·.saved_status status) (·.saved_status status))
    (fun behind now _ h => ?_) fun now => ?_).mono fun _ _ _ _ => trivial
  · rcases h with ⟨chain, h⟩
    exact .closed h _ phase.ended_terminal
  · have hlegible := hlegible.saved_status ⟨block.hash, block.height, phase.during, now⟩
    cases phase with
    | apply =>
        rcases hkeeps with hkeeps | ⟨hphase, _⟩
        · have hkeeps := hkeeps.saved_status ⟨block.hash, block.height, .indexing, now⟩
          refine ((runs_applying symbol block hlegible).mono fun _ behind hmid hend => ?_).weaken
            (fun behind hmid => hkeeps.applying hdistinct hlinked hmid.2) id
          rcases hkeeps.applying hdistinct hlinked (Or.inr hend) with h | h
          · exact ⟨_, h⟩
          · exact ⟨_, h⟩
        · exact absurd hphase (by decide)
    | undo =>
        have hkeeps := (hkeeps.imp_right And.right).imp
          (·.saved_status ⟨block.hash, block.height, .invalidating, now⟩)
          (·.saved_status ⟨block.hash, block.height, .invalidating, now⟩)
        refine ((runs_undoing symbol block hlegible).mono fun _ behind hmid hsame => ?_).weaken
          (fun behind hmid => Keeps.undoing hdistinct hlinked hkeeps hmid.2) id
        exact ⟨init, (Keeps.removed hlinked hkeeps).of_same hdistinct hlinked hsame⟩

/-! ## Every point of every history -/

theorem instant_empty : Instant served .empty := by
  refine Or.inl ⟨[], ⟨.nil, fun k found => ?_, fun _ hmem => absurd hmem List.not_mem_nil⟩,
    none, find_empty _ _, by simp⟩
  rw [find_empty]
  constructor
  · intro h
    exact absurd h (by simp)
  · rintro ⟨_, hmem, _⟩
    exact absurd hmem List.not_mem_nil

/-- A store that keeps a chain is unbroken. -/
theorem Keeps.unbroken (h : Keeps served chain store) : Unbroken served store where
  records k found hfound := by
    rcases (h.holds k found).mp hfound with ⟨block, _, rfl, rfl⟩
    exact ⟨BlockRecord.ofBlock block, rfl, rfl⟩
  distinct record other hrecord hother hheight := by
    rcases h.mem_of_hasBlock hrecord with ⟨a, ha, rfl⟩
    rcases h.mem_of_hasBlock hother with ⟨b, hb, rfl⟩
    rcases List.getElem?_of_mem ha with ⟨i, hi⟩
    rcases List.getElem?_of_mem hb with ⟨j, hj⟩
    -- A block stands at its height in the chain.
    have hij : i = j := by
      rw [← h.linked.numbered i a hi, ← h.linked.numbered j b hj]
      exact congrArg UInt32.toNat hheight
    subst hij
    rw [hi, Option.some.injEq] at hj
    rw [hj]
  goesOn record hrecord hheight := by
    rcases h.mem_of_hasBlock hrecord with ⟨block, hmem, rfl⟩
    rcases List.getElem?_of_mem hmem with ⟨i, hi⟩
    have hnumber := h.linked.numbered i block hi
    cases i with
    | zero => exact absurd (UInt32.toNat_inj.mp (hnumber.trans UInt32.toNat_zero.symm)) hheight
    | succ i =>
        have hlt : i < chain.length := by
          have := (List.getElem?_eq_some_iff.mp hi).1
          omega
        have hbelow := List.getElem?_eq_getElem hlt
        refine ⟨BlockRecord.ofBlock chain[i], h.hasBlock (List.getElem_mem hlt), ?_, ?_⟩
        · change chain[i].height.toNat + 1 = block.height.toNat
          rw [h.linked.numbered i _ hbelow, hnumber]
        · exact h.linked.linked i _ block hbelow hi
  complete record hrecord := by
    rcases h.mem_of_hasBlock hrecord with ⟨block, hmem, rfl⟩
    exact ⟨block, h.linked.served block hmem, rfl, h.lists block hmem⟩

end

/-- After every single write, whatever fails, wherever the follower is stopped and started
    again, and whenever the source replaces its best chain: the stored blocks are at distinct
    heights without a gap, each goes on from the one below it, and all transactions and outputs
    of each are stored. All that is assumed is that there is one block for each hash, and that
    along a chain of blocks the ids of the transactions are distinct and the heights do not run
    out. -/
theorem readers_see_unbroken_chain (symbol : String) (served : String → Option Block)
    (hdistinct : ∀ chain, Linked served chain → (txids chain).Nodup)
    (hshort : ∀ chain, Linked served chain → chain.length < UInt32.size) (store : MemoryStore)
    (hreachable : Reachable served (.standard symbol) store) : Unbroken served store := by
  suffices hall : store.Legible ∧ Instant served store by
    rcases hall.2 with ⟨chain, hkeeps, _⟩ | ⟨_, _, _, _, hkeeps | hkeeps⟩
    · exact hkeeps.unbroken
    · exact hkeeps.unbroken
    · exact hkeeps.unbroken
  induction hreachable with
  | empty => exact ⟨legible_empty, instant_empty⟩
  | step _ hreaches ih =>
      refine ((orderly_step ih.1).always ih.1 (Instant served) ih.2 ?_).reaches hreaches
      rintro phase block behind hlegible hinstant hdue ⟨source, hsource, hblock⟩
      exact instant_work hdistinct hshort hlegible hinstant hdue (hsource _ _ hblock)

namespace Fork

/-- The source when its best chain has the right branch instead of the left one. -/
def switched : MemorySource := source.setChain [root, right]

/-- The store in the midst of the step that undoes the left branch: the oracle is still the one
    that its block has written. -/
def halfway : MemoryStore :=
  ((Follower.standard "DFI").step.after 10 (⟨second, switched, 0⟩ : World MemoryStore)).2.store

theorem reachable_halfway : Reachable served (.standard "DFI") halfway := by
  have hsource : (Surroundings.adverse served).source switched :=
    fun hash block => served_of_block (by simp [switched, source, MemorySource.setChain])
  exact reachable_second.step (reaches_after 10 (Follower.standard "DFI").step hsource 0)

end Fork

/-- While the left branch is undone its block is no longer there, and the one below it still is.
    A transaction of a block that is gone may be left. -/
theorem readers_see_unbroken_chain_fork :
    Unbroken Fork.served Fork.halfway ∧
      Fork.halfway.Noted (some ⟨"a", 1, .invalidating, 0⟩) ∧
      Fork.halfway.find (model BlockRecord) "a" = none ∧
      Fork.halfway.HasBlock (BlockRecord.ofBlock Fork.root) ∧
      Fork.halfway.find (model TransactionRecord) "u" ≠ none := by
  refine ⟨readers_see_unbroken_chain "DFI" Fork.served Fork.serves.distinct Fork.serves.short
    Fork.halfway Fork.reachable_halfway, ?_, by decide +kernel, ?_, by decide +kernel⟩
  · unfold Noted
    decide +kernel
  · unfold HasBlock
    decide +kernel

end ChainIndex
