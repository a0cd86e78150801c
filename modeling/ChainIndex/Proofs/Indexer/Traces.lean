import ChainIndex.Proofs.Indexer.Dispatch
import ChainIndex.Proofs.Indexer.Restore
import ChainIndex.Proofs.Chain.Positions

/-!
# What undoing leaves behind

Undoing an operation does not ask whether it was ever applied. An update or a removal that
is undone leaves the oracle in the store, whether or not it was there before, and a
resignation that is undone leaves the masternode without one. Both can be seen at the end of
undoing the block, from whatever store that was started. Only a pending appointment takes an
oracle away again, and such an appointment stands earlier in the block.

So a block whose undoing changes nothing is harmless: the converse of what is proved about
undoing a harmless block.

## Main definitions

* `Revives`: Undoing the operation leaves an oracle in the store for good.
* `Traces`: What undoing has left behind so far.

## Theorems

* `runs_trace`: Undoing one more operation leaves its trace.
* `runs_traces`: Undoing a block leaves the traces of its operations.
-/

namespace ChainIndex

open Entity Program

/-- Undoing the operation leaves the oracle in the store, and no operation ahead appoints
    it. -/
def Revives (block : Block) (p : Transaction × DecodedOp) (id : String) : Prop :=
  p.2.restored = some id ∧ block.createsBefore .appointOracle id p.1.txid = false

/-- What undoing has left behind: these oracles are there, and these masternodes are not
    resigned. -/
structure Traces (live cleared : String → Prop) (t : MemoryStore) : Prop where
  wf : t.WF
  snapshots : Typed OracleSnapshot t
  nodes : Typed Masternode t
  live : ∀ id, live id → t.find (model Oracle) id ≠ none
  cleared : ∀ id (node : Masternode), cleared id →
    t.find (model Masternode) id = some (stored node) → node.unresigned = node

section

variable {live cleared : String → Prop} {t : MemoryStore} {block : Block}
variable {tx : Transaction} {op : DecodedOp}

namespace Traces

/-- Nothing has been left behind yet. -/
theorem start (hwf : t.WF) (hsnapshots : Typed OracleSnapshot t) (hnodes : Typed Masternode t) :
    Traces (fun _ => False) (fun _ => False) t :=
  ⟨hwf, hsnapshots, hnodes, fun _ hid => absurd hid id, fun _ _ hid => absurd hid id⟩

/-- Fewer traces may be asked for. -/
theorem mono {live' cleared' : String → Prop} (h : Traces live cleared t)
    (hlive : ∀ id, live' id → live id) (hcleared : ∀ id, cleared' id → cleared id) :
    Traces live' cleared' t :=
  ⟨h.wf, h.snapshots, h.nodes, fun id hid => h.live id (hlive id hid),
    fun id node hid => h.cleared id node (hcleared id hid)⟩

theorem removed {α : Type} [Entity α] [Recorded α] (h : Traces live cleared t) (k : String)
    (hlive : model α = model Oracle → ¬ live k) : Traces live cleared (removed α t k) where
  wf := wf_removed h.wf k
  snapshots := h.snapshots.removed k
  nodes := h.nodes.removed k
  live id hid := by
    rw [find_removed]
    by_cases hk : model Oracle = model α ∧ id = k
    · exact absurd (hk.2 ▸ hid) (hlive hk.1.symm)
    · rw [if_neg hk]
      exact h.live id hid
  cleared id node hid hnode := by
    rw [find_removed] at hnode
    split at hnode
    · exact absurd hnode (by simp)
    · exact h.cleared id node hid hnode

theorem saved_membership (h : Traces live cleared t) (membership : Membership) :
    Traces live cleared (saved t membership) where
  wf := wf_saved h.wf membership
  snapshots := h.snapshots.saved_of_ne membership (by decide)
  nodes := h.nodes.saved_of_ne membership (by decide)
  live id hid := by
    rw [find_saved, if_neg (by simp [Entity.model])]
    exact h.live id hid
  cleared id node hid hnode := by
    rw [find_saved, if_neg (by simp [Entity.model])] at hnode
    exact h.cleared id node hid hnode

theorem saved_oracle (h : Traces live cleared t) (oracle : Oracle) :
    Traces (fun id => live id ∨ id = oracle.id) cleared (saved t oracle) where
  wf := wf_saved h.wf oracle
  snapshots := h.snapshots.saved_of_ne oracle (by decide)
  nodes := h.nodes.saved_of_ne oracle (by decide)
  live id hid := by
    rw [find_saved]
    by_cases hk : model Oracle = model Oracle ∧ id = key oracle
    · rw [if_pos hk]
      simp
    · rw [if_neg hk]
      exact h.live id (hid.resolve_right fun hc => hk ⟨rfl, hc⟩)
  cleared id node hid hnode := by
    rw [find_saved, if_neg (by simp [Entity.model])] at hnode
    exact h.cleared id node hid hnode

theorem saved_unresigned (h : Traces live cleared t) (node : Masternode) :
    Traces live (fun id => cleared id ∨ id = node.id) (saved t node.unresigned) where
  wf := wf_saved h.wf node.unresigned
  snapshots := h.snapshots.saved_of_ne node.unresigned (by decide)
  nodes := h.nodes.saved node.unresigned
  live id hid := by
    rw [find_saved, if_neg (by simp [Entity.model])]
    exact h.live id hid
  cleared id other hid hother := by
    rw [find_saved] at hother
    by_cases hk : model Masternode = model Masternode ∧ id = key node.unresigned
    · rw [if_pos hk, Option.some.injEq] at hother
      rw [← stored_injective hother]
      rfl
    · rw [if_neg hk] at hother
      exact h.cleared id other (hid.resolve_right fun hc => hk ⟨rfl, hc⟩) hother

end Traces

/-! ## Operations -/

/-- A removal in a model other than that of oracles leaves the traces. -/
theorem runs_removed_traces {α : Type} [Entity α] [Recorded α] (h : Traces live cleared t)
    (k : String) (hmodel : model α ≠ model Oracle) :
    Runs (fun _ => True) True (fun _ behind => Traces live cleared behind) (remove α k) t :=
  runs_remove trivial trivial (h.removed k fun hc => absurd hc hmodel)

theorem runs_eraseMemberships_traces (h : Traces live cleared t) (id : String)
    (pairs : List PricePair) :
    Runs (fun _ => True) True (fun _ behind => Traces live cleared behind)
      (Oracle.eraseMemberships id pairs) t :=
  runs_forM_keeps (Traces live cleared) pairs trivial h fun _ _ _ _ hbehind =>
    runs_removed_traces hbehind _ (by simp [Entity.model])

/-- An oracle that is brought back is there, unless there is no snapshot left to bring it
    back from. -/
theorem runs_restore_traces (h : Traces live cleared t) (id : String) :
    Runs (fun _ => True) True
      (fun _ behind => Traces (fun other => live other ∨
        (other = id ∧ block.createsBefore .appointOracle id tx.txid = false)) cleared behind)
      (Oracle.restore id block tx) t := by
  refine runs_bind (q := fun value behind => behind = t ∧
    ∀ s, value = some s → s.oracleId = id) ?_ ?_
  · refine runs_first? h.wf rfl trivial (fun _ => ⟨rfl, by simp⟩) ?_
    intro place found hgreatest hfound
    rcases OracleSnapshot.place_of_mem h.wf h.snapshots hgreatest.1 with ⟨s, hs, hsid, rfl⟩
    rw [show s.place.key = s.id from rfl, hs, Option.some.injEq] at hfound
    exact ⟨s, hfound.symm, rfl, fun s' hs' => Option.some.inj hs' ▸ hsid⟩
  · rintro value behind - ⟨rfl, hvalue⟩
    cases value with
    | none =>
        by_cases hcreates : block.createsBefore .appointOracle id tx.txid = true
        · simp only [if_pos hcreates]
          refine runs_pure trivial (h.mono (fun other hother => ?_) fun _ hid => hid)
          exact hother.resolve_right fun hc => by simp [hcreates] at hc
        · -- Without a snapshot and without an appointment ahead there is an error.
          simp only [if_neg hcreates]
          exact runs_throw trivial trivial
    | some s =>
        refine runs_bind (q := fun _ after =>
          Traces (fun other => live other ∨ other = id) cleared after)
          (runs_save trivial trivial ?_) ?_
        · exact hvalue s rfl ▸ h.saved_oracle s.toOracle
        · intro _ after _ hafter
          refine (runs_forM_keeps (Traces (fun other => live other ∨ other = id) cleared) _
            trivial hafter fun pair _ last _ hlast => ?_).mono fun _ last _ hlast => ?_
          · exact runs_save trivial trivial (hlast.saved_membership _)
          · exact hlast.mono (fun other hother => hother.imp_right And.left) fun _ hid => hid

/-- Undoing one more operation leaves its trace, and those there were. -/
theorem runs_trace (symbol : String) (h : Traces live cleared t)
    (hspares : op.tag = .appointOracle → ¬ live tx.txid) :
    Runs (fun _ => True) True
      (fun _ behind => Traces (fun id => live id ∨ Revives block (tx, op) id)
        (fun id => cleared id ∨ op.resigned = some id) behind)
      ((Indexer.ofTag symbol op.tag).hook .undo (.transaction tx op) block) t := by
  -- What neither brings an oracle back nor clears a masternode.
  have hplain : op.restored = none → op.resigned = none → ∀ {behind : MemoryStore},
      Traces live cleared behind →
      Traces (fun id => live id ∨ Revives block (tx, op) id)
        (fun id => cleared id ∨ op.resigned = some id) behind := by
    intro hrestored hresigned behind hbehind
    exact hbehind.mono
      (fun id hid => hid.resolve_right fun hc => by simp [Revives, hrestored] at hc)
      fun id hid => hid.resolve_right fun hc => by simp [hresigned] at hc
  cases htag : op.tag with
  | createToken =>
      refine (runs_removed_traces h tx.txid (by simp [Entity.model])).mono fun _ _ _ => ?_
      exact hplain (DecodedOp.restored_of_ne (by simp [htag]) (by simp [htag]))
        (DecodedOp.resigned_of_ne (by simp [htag]))
  | createMasternode =>
      refine (runs_removed_traces h tx.txid (by simp [Entity.model])).mono fun _ _ _ => ?_
      exact hplain (DecodedOp.restored_of_ne (by simp [htag]) (by simp [htag]))
        (DecodedOp.resigned_of_ne (by simp [htag]))
  | setOracleData =>
      refine runs_bind (q := fun _ behind => Traces live cleared behind)
        (runs_ofExcept trivial (fun _ _ => h) fun _ _ => trivial) fun data behind _ hbehind => ?_
      refine (runs_forM_keeps (Traces live cleared) data.feeds trivial hbehind
        fun feed _ _ _ hafter => runs_removed_traces hafter _ (by simp [Entity.model])).mono
        fun _ _ _ => ?_
      exact hplain (DecodedOp.restored_of_ne (by simp [htag]) (by simp [htag]))
        (DecodedOp.resigned_of_ne (by simp [htag]))
  | appointOracle =>
      refine runs_bind (q := fun _ behind => Traces live cleared behind)
        (runs_ofExcept trivial (fun _ _ => h) fun _ _ => trivial) fun data behind _ hbehind => ?_
      refine runs_bind (runs_removed_traces hbehind _ (by simp [Entity.model]))
        fun _ behind _ hbehind => ?_
      refine runs_bind (runs_eraseMemberships_traces hbehind tx.txid data.priceFeeds)
        fun _ behind _ hbehind => ?_
      refine runs_remove trivial trivial (hplain ?_ ?_ (hbehind.removed tx.txid fun _ =>
        hspares htag))
      · exact DecodedOp.restored_of_ne (by simp [htag]) (by simp [htag])
      · exact DecodedOp.resigned_of_ne (by simp [htag])
  | updateOracle =>
      refine runs_bind (q := fun data behind => Traces live cleared behind ∧
        op.restored = some data.oracleId) (runs_ofExcept trivial (fun data hdata =>
          ⟨h, DecodedOp.restored_of_updateOracle htag hdata⟩) fun _ _ => trivial) ?_
      rintro data behind - ⟨hbehind, hid⟩
      refine runs_bind (runs_removed_traces hbehind _ (by simp [Entity.model]))
        fun _ behind _ hbehind => ?_
      refine runs_bind (runs_eraseMemberships_traces hbehind data.oracleId data.priceFeeds)
        fun _ behind _ hbehind => ?_
      refine (runs_restore_traces hbehind data.oracleId).mono fun _ _ _ hlast => ?_
      refine hlast.mono (fun id hlive => hlive.imp_right fun hrevives => ?_) fun id hcleared =>
        hcleared.resolve_right fun hc => by simp [DecodedOp.resigned_of_ne, htag] at hc
      have heq : id = data.oracleId := Option.some.inj (hrevives.1.symm.trans hid)
      exact ⟨heq, heq ▸ hrevives.2⟩
  -- A removal has written nothing, so there is nothing to take back first.
  | removeOracle =>
      refine runs_bind (q := fun data behind => Traces live cleared behind ∧
        op.restored = some data.oracleId) (runs_ofExcept trivial (fun data hdata =>
          ⟨h, DecodedOp.restored_of_removeOracle htag hdata⟩) fun _ _ => trivial) ?_
      rintro data behind - ⟨hbehind, hid⟩
      refine (runs_restore_traces hbehind data.oracleId).mono fun _ _ _ hlast => ?_
      refine hlast.mono (fun id hlive => hlive.imp_right fun hrevives => ?_) fun id hcleared =>
        hcleared.resolve_right fun hc => by simp [DecodedOp.resigned_of_ne, htag] at hc
      have heq : id = data.oracleId := Option.some.inj (hrevives.1.symm.trans hid)
      exact ⟨heq, heq ▸ hrevives.2⟩
  | resignMasternode =>
      have hrestored : op.restored = none :=
        DecodedOp.restored_of_ne (by simp [htag]) (by simp [htag])
      refine runs_bind (q := fun data behind => behind = t ∧
        op.resigned = some data.nodeId) (runs_ofExcept trivial (fun data hdata =>
          ⟨rfl, DecodedOp.resigned_of_decode htag hdata⟩) fun _ _ => trivial) ?_
      rintro data behind - ⟨rfl, hid⟩
      have hcleared : ∀ id, op.resigned = some id → id = data.nodeId :=
        fun id hc => Option.some.inj (hc.symm.trans hid)
      refine runs_bind (q := fun value after => after = behind ∧
        ((value = none ∧ behind.find (model Masternode) data.nodeId = none) ∨
          ∃ node, value = some node ∧ node.id = data.nodeId))
        (runs_find? trivial (fun hnone => ⟨rfl, Or.inl ⟨rfl, hnone⟩⟩) fun found hfound => ?_) ?_
      · rcases h.nodes _ found hfound with ⟨node, rfl, hk⟩
        exact ⟨node, rfl, rfl, Or.inr ⟨node, rfl, hk.symm⟩⟩
      rintro value after - ⟨rfl, ⟨rfl, hnone⟩ | ⟨node, rfl, hnode⟩⟩
      · -- There is no masternode to clear, and that is a trace as well.
        by_cases hcreates : block.createsBefore .createMasternode data.nodeId tx.txid = true
        · simp only [if_pos hcreates]
          refine runs_pure trivial ⟨h.wf, h.snapshots, h.nodes, fun id hlive => ?_,
            fun id node hid' hfound => ?_⟩
          · exact h.live id (hlive.resolve_right fun hc => by simp [Revives, hrestored] at hc)
          · rcases hid' with hbefore | hnew
            · exact h.cleared id node hbefore hfound
            · rw [hcleared id hnew, hnone] at hfound
              exact absurd hfound (by simp)
        · simp only [if_neg hcreates]
          exact runs_throw trivial trivial
      · refine runs_save trivial trivial ((h.saved_unresigned node).mono (fun id hlive => ?_)
          fun id hid' => hid'.imp_right fun hnew => (hcleared id hnew).trans hnode.symm)
        exact hlive.resolve_right fun hc => by simp [Revives, hrestored] at hc

/-! ## The block -/

/-- Undoing a block leaves the traces of all its operations. -/
theorem runs_traces (symbol : String) (hregular : block.Regular)
    (h : Traces (fun _ => False) (fun _ => False) t) :
    Runs (fun _ => True) True
      (fun _ behind => Traces (fun id => ∃ p ∈ block.ops, Revives block p id)
        (fun id => ∃ p ∈ block.ops, p.2.resigned = some id) behind)
      ((Registry.full symbol).undoBlock block) t := by
  rw [Registry.undoBlock_full]
  refine runs_bind (runs_removed_traces h block.hash (by simp [Entity.model]))
    fun _ behind _ hbehind => ?_
  -- The statistics and the aggregates.
  refine runs_bind (q := fun _ after => Traces (fun _ => False) (fun _ => False) after) ?_ ?_
  · refine runs_bind (q := fun _ after => Traces (fun _ => False) (fun _ => False) after)
      ((quiet_find? MasternodeStats (MasternodeStats.keyAt block.height)).runs trivial |>.mono
        fun _ _ _ heq => heq ▸ hbehind) fun value after _ hafter => ?_
    cases value with
    | none => exact runs_pure trivial hafter
    | some stats =>
        by_cases hhash : stats.block.hash = block.hash
        · simp only [if_pos hhash]
          exact runs_removed_traces hafter _ (by simp [Entity.model])
        · simp only [if_neg hhash]
          exact runs_pure trivial hafter
  intro _ behind _ hbehind
  refine runs_bind (q := fun _ after => Traces (fun _ => False) (fun _ => False) after) ?_ ?_
  · refine runs_bind (q := fun _ after => Traces (fun _ => False) (fun _ => False) after)
      (runs_ofExcept trivial (fun _ _ => hbehind) fun _ _ => trivial) fun pairs after _ hafter => ?_
    exact runs_forM_keeps (Traces (fun _ => False) (fun _ => False)) _ trivial hafter
      fun pair _ _ _ hlast => runs_removed_traces hlast _ (by simp [Entity.model])
  intro _ behind _ hbehind
  -- The operations, from the last. What one of them revives no operation ahead takes away.
  refine runs_bind (runs_forM (fun done _ after => Traces
    (fun id => ∃ p ∈ done, Revives block p id) (fun id => ∃ p ∈ done, p.2.resigned = some id)
    after) block.ops.reverse trivial (hbehind.mono (by simp) (by simp)) ?_) ?_
  · rintro done ⟨tx, op⟩ rest after hitems _ hafter
    have hops : block.ops = rest.reverse ++ (tx, op) :: done.reverse := by
      rw [← List.reverse_reverse block.ops, ← hitems]
      simp
    refine (runs_trace symbol hafter ?_).mono fun _ last _ hlast => hlast.mono ?_ ?_
    · -- An appointment that is still pending stands ahead of everything undone so far.
      rintro htag ⟨p, hp, hrevives⟩
      rcases List.append_of_mem (List.mem_reverse.mpr hp) with ⟨front, back, hsplit⟩
      have hahead : block.ops = (rest.reverse ++ (tx, op) :: front) ++ p :: back := by
        rw [hops, hsplit, List.append_assoc, List.cons_append]
      have hcreates := Block.createsBefore_of_mem hregular hahead
        (List.mem_append_right _ List.mem_cons_self) htag rfl
      rw [hrevives.2] at hcreates
      exact absurd hcreates (by simp)
    · rintro id ⟨p, hp, hrevives⟩
      rcases List.mem_append.mp hp with hdone | hlast
      · exact Or.inl ⟨p, hdone, hrevives⟩
      · exact Or.inr (List.mem_singleton.mp hlast ▸ hrevives)
    · rintro id ⟨p, hp, hresigned⟩
      rcases List.mem_append.mp hp with hdone | hlast
      · exact Or.inl ⟨p, hdone, hresigned⟩
      · rw [List.mem_singleton.mp hlast] at hresigned
        exact Or.inr hresigned
  intro _ behind _ hbehind
  have hall : Traces (fun id => ∃ p ∈ block.ops, Revives block p id)
      (fun id => ∃ p ∈ block.ops, p.2.resigned = some id) behind := by
    simpa only [List.mem_reverse] using hbehind
  -- The transactions, and the native token.
  refine runs_bind (runs_forM_keeps (Traces (fun id => ∃ p ∈ block.ops, Revives block p id)
    (fun id => ∃ p ∈ block.ops, p.2.resigned = some id)) _ trivial hall
    fun tx _ after _ hafter => ?_) fun _ behind _ hbehind => ?_
  · refine runs_bind (runs_removed_traces hafter _ (by simp [Entity.model]))
      fun _ after _ hafter => ?_
    exact runs_forM_keeps (Traces _ _) _ trivial hafter
      fun output _ _ _ hlast => runs_removed_traces hlast _ (by simp [Entity.model])
  · by_cases hheight : block.height = 0
    · rw [if_pos hheight]
      exact runs_removed_traces hbehind _ (by simp [Entity.model])
    · rw [if_neg hheight]
      exact runs_pure trivial hbehind

end

end ChainIndex
