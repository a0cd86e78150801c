import ChainIndex.Proofs.Entity.Walk
import ChainIndex.Proofs.Indexer.Retract
import ChainIndex.Proofs.Indexer.Statistics

/-!
# What undoing gives back of masternodes

A creation is taken back by deleting the masternode, and that is exact, since its id is that of
the transaction. A resignation is taken back by clearing it. That is exact only where there
was none: whatever the masternode said of an earlier resignation is gone once it is resigned
again, and undoing does not bring it back.

So nothing else is lost, and that much is lost in every case. `NodesNear` says it of all stores
that are met on the way there and back. While operations that create masternodes are pending
nothing is said of these. Any other masternode is as it was before the block but for its
resignation, as it was altogether if no operation resigns it, and not resigned once an operation
that resigns it has been undone.

## Main definitions

* `NodesNear`: What masternodes are like while a block is applied or undone.

## Theorems

* `NodesNear.runs_apply`, `NodesNear.runs_undo`: Applying and undoing an operation.
* `NodesNear.held_iff`, `NodesNear.agree_iff`: What is given back in the end, and when it is all.
* `runs_statistics_back`: The statistics of a block are taken back, whatever they say.
-/

namespace ChainIndex

open Entity Program MemoryStore

/-- Of the masternodes of a store `base` another one holds those that no pending operation
    creates, and no others. Each is as in `base` but for its resignation; it is not resigned if
    that has been cleared, and it is as in `base` altogether unless it was touched. -/
structure NodesNear (base : MemoryStore) (pending : List (Transaction × DecodedOp))
    (touched cleared : List String) (t : MemoryStore) : Prop where
  typed : Typed Masternode t
  absent : ∀ id, ¬ ErasesNode pending id → base.find (model Masternode) id = none →
    t.find (model Masternode) id = none
  near : ∀ node : Masternode, Held base node → ¬ ErasesNode pending node.id →
    ∃ now : Masternode, Held t now ∧ now.unresigned = node.unresigned ∧
      (node.id ∈ cleared → now.unresigned = now) ∧ (node.id ∉ touched → now = node)

section

variable {base t after : MemoryStore} {init pending : List (Transaction × DecodedOp)}
variable {touched cleared : List String} {tx : Transaction} {op : DecodedOp} {block : Block}

theorem id_of_unresigned {a b : Masternode} (h : a.unresigned = b.unresigned) : a.id = b.id :=
  show a.unresigned.id = b.unresigned.id from congrArg Masternode.id h

theorem mem_resignedBy {ops : List (Transaction × DecodedOp)} {id : String} :
    id ∈ resignedBy ops ↔ ∃ q ∈ ops, q.2.resigned = some id :=
  List.mem_filterMap

theorem erasesNode_snoc {id : String} : ErasesNode (init ++ [(tx, op)]) id ↔
    ErasesNode init id ∨ op.tag = .createMasternode ∧ id = tx.txid := by
  simp only [ErasesNode, List.mem_append, List.mem_singleton, or_and_right, exists_or,
    exists_eq_left]

namespace NodesNear

/-- Before a block is applied. -/
theorem start (h : Typed Masternode base) : NodesNear base [] [] [] base where
  typed := h
  absent _ _ hnone := hnone
  near node hnode _ := ⟨node, hnode, rfl, by simp, fun _ => rfl⟩

/-- Once no operation is pending, the store may be asked less. -/
theorem congr (h : NodesNear base pending touched cleared t)
    (hagree : after.Agree [model Masternode] t) : NodesNear base pending touched cleared after := by
  have hfind := hagree (model Masternode) (by simp)
  refine ⟨h.typed.congr hfind, fun id herases hnone => (hfind id).trans (h.absent id herases hnone),
    fun node hnode herases => ?_⟩
  rcases h.near node hnode herases with ⟨now, hnow, hrest⟩
  exact ⟨now, (held_congr hfind now).mpr hnow, hrest⟩

/-- What is pending, touched or cleared may be said in another way. -/
theorem mono {pending' : List (Transaction × DecodedOp)} {touched' cleared' : List String}
    (h : NodesNear base pending touched cleared t)
    (hpending : ∀ id, ErasesNode pending id → ErasesNode pending' id)
    (htouched : ∀ id ∈ touched, id ∈ touched') (hcleared : ∀ id ∈ cleared', id ∈ cleared) :
    NodesNear base pending' touched' cleared' t where
  typed := h.typed
  absent id herases := h.absent id fun hc => herases (hpending id hc)
  near node hnode herases := by
    rcases h.near node hnode fun hc => herases (hpending _ hc) with
      ⟨now, hnow, hsame, hclear, htouch⟩
    exact ⟨now, hnow, hsame, fun hid => hclear (hcleared _ hid),
      fun hid => htouch fun hc => hid (htouched _ hc)⟩

/-- A masternode is created. -/
theorem created (h : NodesNear base init touched cleared t) {node : Masternode}
    (hid : node.id = tx.txid) (htag : op.tag = .createMasternode) :
    NodesNear base (init ++ [(tx, op)]) touched cleared (saved t node) where
  typed := h.typed.saved node
  absent id herases hnone := by
    rw [erasesNode_snoc, not_or, not_and] at herases
    rw [find_saved, if_neg fun hc => herases.2 htag (hc.2.trans hid)]
    exact h.absent id herases.1 hnone
  near other hother herases := by
    rw [erasesNode_snoc, not_or, not_and] at herases
    rcases h.near other hother herases.1 with ⟨now, hnow, hrest⟩
    refine ⟨now, held_saved_iff.mpr (.inl ⟨hnow, fun hk => herases.2 htag ?_⟩), hrest⟩
    exact (id_of_unresigned hrest.1).symm.trans ((show now.id = node.id from hk).trans hid)

/-- A masternode that is there gets or loses a resignation. -/
theorem changed (h : NodesNear base pending touched cleared t) {node later : Masternode}
    (hheld : Held t node) (hsame : later.unresigned = node.unresigned)
    (htouched : node.id ∈ touched)
    (hcleared : node.id ∈ cleared → later.unresigned = later) :
    NodesNear base pending touched cleared (saved t later) where
  typed := h.typed.saved later
  absent id herases hnone := by
    have hfree := h.absent id herases hnone
    rw [find_saved, if_neg fun hc => ?_]
    · exact hfree
    · rw [show id = node.id from hc.2.trans (id_of_unresigned hsame)] at hfree
      exact absurd ((show t.find (model Masternode) node.id = _ from hheld).symm.trans hfree)
        (by simp)
  near other hother herases := by
    rcases h.near other hother herases with ⟨now, hnow, hnear, hclear, htouch⟩
    by_cases hid : other.id = node.id
    · have hnode : now = node := hnow.eq_of_key hheld ((id_of_unresigned hnear).trans hid)
      exact ⟨later, held_saved t later, hsame.trans (hnode ▸ hnear),
        fun hc => hcleared (hid ▸ hc), fun hc => absurd (hid ▸ htouched) hc⟩
    · refine ⟨now, held_saved_iff.mpr (.inl ⟨hnow, fun hk => hid ?_⟩), hnear, hclear, htouch⟩
      exact (id_of_unresigned hnear).symm.trans
        ((show now.id = later.id from hk).trans (id_of_unresigned hsame))

/-- A masternode that is there is from before, or an operation that is pending has created it. -/
theorem found (h : NodesNear base pending touched cleared t) {node : Masternode}
    (hheld : Held t node) :
    base.find (model Masternode) node.id ≠ none ∨ ErasesNode pending node.id := by
  by_contra hnone
  rw [not_or, not_not] at hnone
  rw [Held, show key node = node.id from rfl, h.absent _ hnone.2 hnone.1] at hheld
  exact absurd hheld (by simp)

/-- The resignation of a masternode that is there is cleared. -/
theorem clear (h : NodesNear base pending touched cleared t) {node : Masternode}
    (hheld : Held t node) (htouched : node.id ∈ touched) :
    NodesNear base pending touched (node.id :: cleared) (saved t node.unresigned) := by
  have hsaved : NodesNear base pending touched cleared (saved t node.unresigned) :=
    h.changed hheld rfl htouched fun _ => rfl
  refine ⟨hsaved.typed, hsaved.absent, fun other hother herases => ?_⟩
  rcases hsaved.near other hother herases with ⟨now, hnow, hsame, hclear, htouch⟩
  refine ⟨now, hnow, hsame, fun hc => ?_, htouch⟩
  rcases List.mem_cons.mp hc with hfirst | hrest
  · have hnode : now = node.unresigned := hnow.eq_of_key (held_saved t node.unresigned)
      ((id_of_unresigned hsame).trans hfirst)
    rw [hnode]
    rfl
  · exact hclear hrest

/-- Where there is no masternode, there is no resignation to clear. -/
theorem clear_absent (h : NodesNear base pending touched cleared t) {id : String}
    (hnone : t.find (model Masternode) id = none) :
    NodesNear base pending touched (id :: cleared) t := by
  refine ⟨h.typed, h.absent, fun node hnode herases => ?_⟩
  rcases h.near node hnode herases with ⟨now, hnow, hsame, hclear, htouch⟩
  refine ⟨now, hnow, hsame, fun hc => hclear ((List.mem_cons.mp hc).resolve_left ?_), htouch⟩
  rintro rfl
  rw [Held, show key now = node.id from id_of_unresigned hsame, hnone] at hnow
  exact absurd hnow (by simp)

/-- A masternode that an operation has created is deleted. -/
theorem uncreated (h : NodesNear base (init ++ [(tx, op)]) touched cleared t)
    (hfree : base.find (model Masternode) tx.txid = none) :
    NodesNear base init touched cleared (removed Masternode t tx.txid) where
  typed := h.typed.removed tx.txid
  absent id herases hnone := by
    rw [find_removed]
    by_cases hk : id = tx.txid
    · exact if_pos ⟨rfl, hk⟩
    · rw [if_neg fun hc => hk hc.2]
      exact h.absent id (fun hc => (erasesNode_snoc.mp hc).elim herases fun hc => hk hc.2) hnone
  near node hnode herases := by
    have hne : node.id ≠ tx.txid := fun hid => by
      rw [Held, show key node = tx.txid from hid, hfree] at hnode
      exact absurd hnode (by simp)
    rcases h.near node hnode fun hc => (erasesNode_snoc.mp hc).elim herases fun hc => hne hc.2 with
      ⟨now, hnow, hrest⟩
    refine ⟨now, ?_, hrest⟩
    rw [Held, find_removed, if_neg fun hc => hne ?_]
    · exact hnow
    · exact (id_of_unresigned hrest.1).symm.trans hc.2

/-! ## Operations -/

theorem runs_create (h : NodesNear base init touched cleared t)
    (htag : op.tag = .createMasternode) (hwf : t.WF) :
    Runs MemoryStore.WF True
      (fun _ behind => NodesNear base (init ++ [(tx, op)]) touched cleared behind)
      (Indexer.createMasternode.hook .apply (.transaction tx op) block) t := by
  refine runs_bind (runs_ofExcept_ok hwf) ?_
  rintro data behind - ⟨rfl, -⟩
  refine runs_bind (runs_ofExcept_ok hwf) ?_
  rintro ⟨script, locked⟩ again - ⟨rfl, -⟩
  refine (runs_save_wf hwf _).mono ?_
  rintro _ last - rfl
  exact h.created rfl htag

/-- The masternode that is resigned was found. -/
theorem runs_resign (h : NodesNear base init touched [] t) (htag : op.tag = .resignMasternode)
    (htouched : ∀ id, op.resigned = some id → id ∈ touched) (hwf : t.WF) :
    Runs MemoryStore.WF True
      (fun _ behind => NodesNear base init touched [] behind ∧
        ∀ id, op.resigned = some id → base.find (model Masternode) id ≠ none ∨ ErasesNode init id)
      (Indexer.resignMasternode.hook .apply (.transaction tx op) block) t := by
  refine runs_bind (runs_ofExcept_ok hwf) ?_
  rintro data behind - ⟨rfl, hdata⟩
  have hresigned := DecodedOp.resigned_of_decode htag hdata
  refine runs_bind (q := fun node after => after = behind ∧ node.id = data.nodeId ∧
    Held behind node) (runs_require hwf (fun _ => trivial) fun found hfound => ?_) ?_
  · rcases h.typed.exists_held hfound with ⟨node, rfl, hk, hheld⟩
    exact ⟨node, rfl, rfl, hk.symm, hheld⟩
  rintro node again - ⟨rfl, hid, hheld⟩
  refine (runs_save_wf hwf _).mono ?_
  rintro _ last - rfl
  rw [← hid] at hresigned
  refine ⟨h.changed hheld rfl (htouched _ hresigned) (by simp), fun other hother => ?_⟩
  rw [← Option.some.inj (hresigned.symm.trans hother)]
  exact h.found hheld

/-- Undoing it clears the resignation, if the masternode is there. -/
theorem runs_unresign (h : NodesNear base init touched cleared t)
    (htag : op.tag = .resignMasternode)
    (htouched : ∀ id, op.resigned = some id → id ∈ touched) (hwf : t.WF) :
    Runs MemoryStore.WF True
      (fun _ behind => NodesNear base init touched (op.resigned.toList ++ cleared) behind)
      (Indexer.resignMasternode.hook .undo (.transaction tx op) block) t := by
  refine runs_bind (runs_ofExcept_ok hwf) ?_
  rintro data behind - ⟨rfl, hdata⟩
  have hresigned := DecodedOp.resigned_of_decode htag hdata
  have hmem := htouched _ hresigned
  rw [hresigned, Option.toList_some, List.singleton_append]
  refine runs_bind (q := fun value after => after = behind ∧
    ((value = none ∧ behind.find (model Masternode) data.nodeId = none) ∨
      ∃ node : Masternode, value = some node ∧ node.id = data.nodeId ∧ Held behind node))
    (runs_find? hwf (fun hnone => ⟨rfl, .inl ⟨rfl, hnone⟩⟩) fun found hfound => ?_) ?_
  · rcases h.typed.exists_held hfound with ⟨node, rfl, hk, hheld⟩
    exact ⟨node, rfl, rfl, .inr ⟨node, rfl, hk.symm, hheld⟩⟩
  rintro value again - ⟨rfl, ⟨rfl, hnone⟩ | ⟨node, rfl, hid, hheld⟩⟩
  · simp only
    split
    · exact runs_pure hwf (h.clear_absent hnone)
    · exact runs_throw hwf trivial
  · refine (runs_save_wf hwf _).mono ?_
    rintro _ last - rfl
    rw [← hid] at hmem ⊢
    exact h.clear hheld hmem

/-- Applying an operation. One that resigns a masternode has found it. -/
theorem runs_apply (symbol : String) (h : NodesNear base init (resignedBy init) [] t)
    (hwf : t.WF) :
    Runs MemoryStore.WF True
      (fun _ behind =>
        NodesNear base (init ++ [(tx, op)]) (resignedBy (init ++ [(tx, op)])) [] behind ∧
          ∀ id, op.resigned = some id →
            base.find (model Masternode) id ≠ none ∨ ErasesNode init id)
      ((Indexer.ofTag symbol op.tag).hook .apply (.transaction tx op) block) t := by
  have hmore : NodesNear base init (resignedBy (init ++ [(tx, op)])) [] t :=
    h.mono (fun _ hid => hid) (fun id hid => by
      rw [resignedBy_snoc]
      exact List.mem_append_left _ hid) (by simp)
  have hpending : ∀ {behind : MemoryStore},
      NodesNear base init (resignedBy (init ++ [(tx, op)])) [] behind →
        NodesNear base (init ++ [(tx, op)]) (resignedBy (init ++ [(tx, op)])) [] behind :=
    fun hbehind => hbehind.mono (fun id hid => erasesNode_snoc.mpr (.inl hid))
      (fun _ hmem => hmem) fun _ hmem => hmem
  by_cases hcreate : op.tag = .createMasternode
  · have hnone : op.resigned = none := DecodedOp.resigned_of_ne (by simp [hcreate])
    rw [hcreate]
    exact (hmore.runs_create hcreate hwf).mono fun _ _ _ hbehind => ⟨hbehind, by simp [hnone]⟩
  by_cases hresign : op.tag = .resignMasternode
  · rw [hresign]
    refine (hmore.runs_resign hresign (fun id hid => ?_) hwf).mono
      fun _ _ _ hbehind => ⟨hpending hbehind.1, hbehind.2⟩
    rw [resignedBy_snoc, hid]
    simp
  · have hnone : op.resigned = none := DecodedOp.resigned_of_ne hresign
    exact ((makes_operation_of_tag symbol block tx op .apply).agrees
      (show ∀ m ∈ [model Masternode], m ∉ op.tag.models by
        revert hcreate hresign; cases op.tag <;> decide) hwf).mono
      fun _ _ _ hagree => ⟨hpending (hmore.congr hagree), by simp [hnone]⟩

/-- Undoing an operation clears the resignation that it has made, and deletes what it has
    created. -/
theorem runs_undo (symbol : String) (h : NodesNear base (init ++ [(tx, op)]) touched cleared t)
    (hwf : t.WF) (hfree : base.find (model Masternode) tx.txid = none)
    (htouched : ∀ id, op.resigned = some id → id ∈ touched) :
    Runs MemoryStore.WF True
      (fun _ behind => NodesNear base init touched (op.resigned.toList ++ cleared) behind)
      ((Indexer.ofTag symbol op.tag).hook .undo (.transaction tx op) block) t := by
  by_cases hcreate : op.tag = .createMasternode
  · rw [DecodedOp.resigned_of_ne (by simp [hcreate]), hcreate]
    refine (runs_remove_wf hwf tx.txid).mono ?_
    rintro _ behind - rfl
    exact h.uncreated hfree
  -- Any other operation has created nothing, so nothing pends on it.
  have hless : NodesNear base init touched cleared t :=
    h.mono (fun id hid => (erasesNode_snoc.mp hid).resolve_right fun hc => hcreate hc.1)
      (fun _ hmem => hmem) fun _ hmem => hmem
  by_cases hresign : op.tag = .resignMasternode
  · rw [hresign]
    exact hless.runs_unresign hresign htouched hwf
  · rw [DecodedOp.resigned_of_ne hresign]
    exact ((makes_operation_of_tag symbol block tx op .undo).agrees
      (show ∀ m ∈ [model Masternode], m ∉ op.tag.models by
        revert hcreate hresign; cases op.tag <;> decide) hwf).mono
      fun _ _ _ hagree => hless.congr hagree

/-- When all operations have been undone, the masternodes are those of before, but those that
    were resigned meanwhile are not resigned. -/
theorem held_iff (h : NodesNear base [] touched touched t) (htyped : Typed Masternode base)
    {node : Masternode} : Held t node ↔ ∃ was : Masternode, Held base was ∧
      node = if was.id ∈ touched then was.unresigned else was := by
  have hpending : ∀ id, ¬ ErasesNode [] id := fun id => by simp [ErasesNode]
  have hback : ∀ was : Masternode, Held base was →
      Held t (if was.id ∈ touched then was.unresigned else was) := by
    intro was hwas
    rcases h.near was hwas (hpending _) with ⟨now, hnow, hsame, hclear, htouch⟩
    split
    · next hmem => rwa [← hsame, hclear hmem]
    · next hmem => rwa [← htouch hmem]
  constructor
  · intro hnode
    rcases hfound : base.find (model Masternode) node.id with _ | found
    · rw [Held, show key node = node.id from rfl, h.absent _ (hpending _) hfound] at hnode
      exact absurd hnode (by simp)
    · rcases htyped.exists_held hfound with ⟨was, rfl, hid, hwas⟩
      refine ⟨was, hwas, hnode.eq_of_key (hback was hwas) ?_⟩
      split <;> exact hid
  · rintro ⟨was, hwas, rfl⟩
    exact hback was hwas

/-- So they are given back exactly if none of those that were resigned had been resigned
    before. -/
theorem agree_iff (h : NodesNear base [] touched touched t) (htyped : Typed Masternode base) :
    t.Agree [model Masternode] base ↔
      ∀ node : Masternode, Held base node → node.id ∈ touched → node.unresigned = node := by
  constructor
  · intro hagree node hnode hmem
    have hleft := (h.held_iff htyped).mpr ⟨node, hnode, rfl⟩
    rw [if_pos hmem] at hleft
    exact ((held_congr (hagree _ (by simp)) _).mp hleft).eq_of_key hnode rfl
  · intro hall m hm k
    rw [List.mem_singleton.mp hm]
    rcases hfound : base.find (model Masternode) k with _ | found
    · exact h.absent k (by simp [ErasesNode]) hfound
    · rcases htyped.exists_held hfound with ⟨node, rfl, rfl, hnode⟩
      refine (h.held_iff htyped).mpr ⟨node, hnode, ?_⟩
      split
      · next hmem => exact (hall node hnode hmem).symm
      · rfl

end NodesNear

/-! ## Statistics -/

theorem quiet_ofBlock (block : Block) : Quiet (MasternodeTotals.ofBlock block) :=
  quiet_bind (quiet_before? block.height) fun _ =>
    quiet_foldlM _ _ fun totals p => quiet_afterOp p.1 p.2 totals

/-- The statistics of a block are written under its height if at all, and are taken back,
    whatever they say. -/
theorem runs_statistics_back (hwf : t.WF)
    (hfree : t.find (model MasternodeStats) (MasternodeStats.keyAt block.height) = none) :
    Runs MemoryStore.WF True
      (fun _ after => (∀ k, k ≠ MasternodeStats.keyAt block.height →
          after.find (model MasternodeStats) k = t.find (model MasternodeStats) k) ∧
        Reverts nodeModels (MasternodeStats.discard block) after t)
      (Indexer.masternodeStats.hook .apply .blockEnd block) t := by
  rw [masternodeStats_apply]
  refine runs_bind ((quiet_ofBlock block).runs hwf) ?_
  rintro totals behind - rfl
  by_cases hchanged : totals.changed = true
  · rw [if_pos hchanged]
    refine ((MasternodeStats.runs_storeStats hwf hfree).weaken (fun _ hmid => hmid)
      False.elim).mono ?_
    rintro _ after - rfl
    refine ⟨fun k hk => ?_, MasternodeStats.reverts_storeStats rfl rfl hfree⟩
    rw [find_saved, if_neg fun hc => hk hc.2]
  · rw [if_neg hchanged]
    exact runs_pure hwf ⟨fun _ _ => rfl, MasternodeStats.reverts_noStats hfree⟩

end

end ChainIndex
