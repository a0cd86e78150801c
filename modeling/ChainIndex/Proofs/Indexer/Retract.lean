import ChainIndex.Proofs.Follower.Legible
import ChainIndex.Proofs.Indexer.Undo

/-!
# When a block can be undone

Undoing an operation reads its payload again. Undoing an update or a removal also looks for a
snapshot of the oracle, and undoing a resignation for the masternode. Where there is none it
must be that an operation ahead in the block creates what is named; otherwise undoing fails,
whether or not the operation was ever applied.

The operations are undone from the last one, and each takes away what it would have written.
So what one of them finds is what the store held at the start, less what those behind it erase:
`Remains`. Nothing that undoing looks for is ever written by it, which is why a block that
cannot be undone stays one that cannot be.

This is about any block and any store that can be read, and it tells exactly when undoing
fails. That undoing gives back what was there before is another matter.

## Main definitions

* `ErasesSnapshot`, `ErasesNode`: What undoing operations takes away.
* `FindsOracle`, `FindsNode`: Undoing an operation finds what it looks for.
* `Retracts`: Undoing an operation does not fail when those behind it have been undone.
* `Retractable`: Undoing a block does not fail.
* `Remains`: What undoing has left of snapshots and masternodes.

## Theorems

* `Remains.retractable`: What is left is no easier to undo.
* `runs_retract`: Undoing an operation.
* `runs_retractStandard`, `runs_retractBlock`: Undoing a block fails if and only if it is not
  retractable.
-/

namespace ChainIndex

open Entity Program MemoryStore

/-- Undoing the operations takes away the snapshot under this key. -/
def ErasesSnapshot (block : Block) (ops : List (Transaction × DecodedOp)) (k : String) : Prop :=
  ∃ q ∈ ops, ∃ oracle, block.written q.1 q.2 = some oracle ∧
    k = OracleSnapshot.idOf oracle.id block.height q.1.txid

/-- Undoing the operations takes away the masternode with this id. -/
def ErasesNode (ops : List (Transaction × DecodedOp)) (id : String) : Prop :=
  ∃ q ∈ ops, q.2.tag = .createMasternode ∧ id = q.1.txid

/-- When an operation is undone there is a snapshot of the oracle, or an operation ahead of it
    appoints the oracle. -/
def FindsOracle (store : MemoryStore) (block : Block) (p : Transaction × DecodedOp)
    (behind : List (Transaction × DecodedOp)) (id : String) : Prop :=
  (∃ s : OracleSnapshot, s.oracleId = id ∧
      store.find (model OracleSnapshot) s.id = some (stored s) ∧
      ¬ ErasesSnapshot block (p :: behind) s.id) ∨
    block.createsBefore .appointOracle id p.1.txid = true

/-- When an operation is undone the masternode is there, or an operation ahead of it creates the
    masternode. -/
def FindsNode (store : MemoryStore) (block : Block) (p : Transaction × DecodedOp)
    (behind : List (Transaction × DecodedOp)) (id : String) : Prop :=
  (store.find (model Masternode) id ≠ none ∧ ¬ ErasesNode behind id) ∨
    block.createsBefore .createMasternode id p.1.txid = true

/-- Undoing an operation does not fail when those behind it have been undone: its payload can be
    read, and what it looks for is found. -/
structure Retracts (store : MemoryStore) (block : Block) (p : Transaction × DecodedOp)
    (behind : List (Transaction × DecodedOp)) : Prop where
  readable : p.2.Readable
  oracle : ∀ id, p.2.restored = some id → FindsOracle store block p behind id
  node : ∀ id, p.2.resigned = some id → FindsNode store block p behind id

/-- Undoing the block does not fail, since undoing none of its operations does. -/
def Retractable (store : MemoryStore) (block : Block) : Prop :=
  ∀ ahead p behind, block.ops = ahead ++ p :: behind → Retracts store block p behind

theorem Retractable.readable {store : MemoryStore} {block : Block} (h : Retractable store block) :
    ∀ p ∈ block.ops, p.2.Readable := by
  intro p hp
  rcases List.append_of_mem hp with ⟨ahead, behind, hops⟩
  exact (h ahead p behind hops).readable

/-- A block that can be read, and that brings back and resigns nothing but what it creates
    itself, is retractable whatever the store holds. -/
theorem retractable_of_own {block : Block} (hreadable : ∀ p ∈ block.ops, p.2.Readable)
    (horacle : ∀ p ∈ block.ops, ∀ id, p.2.restored = some id →
      block.createsBefore .appointOracle id p.1.txid = true)
    (hnode : ∀ p ∈ block.ops, ∀ id, p.2.resigned = some id →
      block.createsBefore .createMasternode id p.1.txid = true) (store : MemoryStore) :
    Retractable store block := by
  intro ahead p behind hops
  have hp : p ∈ block.ops := hops ▸ List.mem_append_right _ List.mem_cons_self
  exact ⟨hreadable p hp, fun id hid => Or.inr (horacle p hp id hid),
    fun id hid => Or.inr (hnode p hp id hid)⟩

/-- What is left of the snapshots and the masternodes of a store when operations of the block
    have been undone. -/
structure Remains (start : MemoryStore) (block : Block) (undone : List (Transaction × DecodedOp))
    (t : MemoryStore) : Prop where
  legible : t.Legible
  snapshots : ∀ k found, t.find (model OracleSnapshot) k = some found ↔
    start.find (model OracleSnapshot) k = some found ∧ ¬ ErasesSnapshot block undone k
  nodes : ∀ id, t.find (model Masternode) id ≠ none ↔
    start.find (model Masternode) id ≠ none ∧ ¬ ErasesNode undone id

/-- A store that may be met while the block is undone. -/
def Remaining (start : MemoryStore) (block : Block) (t : MemoryStore) : Prop :=
  ∃ undone, Remains start block undone t

section

variable {start t : MemoryStore} {block : Block}
variable {ahead undone : List (Transaction × DecodedOp)} {p : Transaction × DecodedOp}

/-! ## What is left -/

namespace Remains

theorem self (h : start.Legible) : Remains start block [] start where
  legible := h
  snapshots k found := by simp [ErasesSnapshot]
  nodes id := by simp [ErasesNode]

theorem remaining (h : Remains start block undone t) : Remaining start block t :=
  ⟨undone, h⟩

/-- What holds the same snapshots and masternodes has as much left. -/
theorem congr {after : MemoryStore} (h : Remains start block undone t) (hlegible : after.Legible)
    (hsnapshots : ∀ k, after.find (model OracleSnapshot) k = t.find (model OracleSnapshot) k)
    (hnodes : ∀ id, after.find (model Masternode) id ≠ none ↔ t.find (model Masternode) id ≠ none) :
    Remains start block undone after where
  legible := hlegible
  snapshots k found := by rw [hsnapshots, h.snapshots]
  nodes id := by rw [hnodes, h.nodes]

theorem saved_status (h : Remains start block undone t) (status : SyncStatus) :
    Remains start block undone (saved t status) :=
  h.congr (h.legible.saved_status status)
    (fun k => find_saved_status t status k Recorded.model_ne_ledger)
    fun id => by rw [find_saved_status t status id Recorded.model_ne_ledger]

theorem saved {α : Type} [Entity α] [Recorded α] [Whole α] (h : Remains start block undone t)
    (a : α) (hsnapshot : model OracleSnapshot ≠ model α) (hnode : model Masternode ≠ model α) :
    Remains start block undone (saved t a) := by
  refine h.congr (h.legible.saved a) (fun k => ?_) fun id => ?_
  · rw [find_saved, if_neg fun hc => hsnapshot hc.1]
  · rw [find_saved, if_neg fun hc => hnode hc.1]

theorem removed {α : Type} [Entity α] [Recorded α] (h : Remains start block undone t) (k : String)
    (hsnapshot : model OracleSnapshot ≠ model α) (hnode : model Masternode ≠ model α) :
    Remains start block undone (removed α t k) := by
  refine h.congr (h.legible.removed k) (fun k' => ?_) fun id => ?_
  · rw [find_removed, if_neg fun hc => hsnapshot hc.1]
  · rw [find_removed, if_neg fun hc => hnode hc.1]

/-- A masternode that is there may be written again. -/
theorem saved_node (h : Remains start block undone t) {node : Masternode}
    (hthere : t.find (model Masternode) node.id ≠ none) :
    Remains start block undone (Entity.saved t node) := by
  refine h.congr (h.legible.saved node)
    (fun k => by rw [find_saved, if_neg (by simp [Entity.model])]) fun id => ?_
  rw [find_saved]
  by_cases hk : model Masternode = model Masternode ∧ id = key node
  · rw [if_pos hk]
    exact iff_of_true (by simp) (hk.2 ▸ hthere)
  · rw [if_neg hk]

/-- Nothing is taken away by an operation that writes no snapshot and creates no masternode. -/
theorem skip (h : Remains start block undone t) (hwritten : block.written p.1 p.2 = none)
    (htag : p.2.tag ≠ .createMasternode) : Remains start block (p :: undone) t where
  legible := h.legible
  snapshots k found := by
    rw [h.snapshots, ErasesSnapshot, ErasesSnapshot, List.exists_mem_cons_iff]
    simp [hwritten]
  nodes id := by
    rw [h.nodes, ErasesNode, ErasesNode, List.exists_mem_cons_iff]
    simp [htag]

/-- The snapshot of an appointment or an update is taken away. -/
theorem unwritten (h : Remains start block undone t) {oracle : Oracle}
    (hwritten : block.written p.1 p.2 = some oracle) (htag : p.2.tag ≠ .createMasternode) :
    Remains start block (p :: undone)
      (Entity.removed OracleSnapshot t
        (OracleSnapshot.idOf oracle.id block.height p.1.txid)) where
  legible := h.legible.removed _
  snapshots k found := by
    rw [find_removed, ErasesSnapshot, List.exists_mem_cons_iff]
    by_cases hk : k = OracleSnapshot.idOf oracle.id block.height p.1.txid
    · rw [if_pos ⟨rfl, hk⟩]
      simp [hwritten, hk]
    · rw [if_neg fun hc => hk hc.2, h.snapshots, ErasesSnapshot]
      simp [hwritten, hk]
  nodes id := by
    rw [find_removed, if_neg (by simp [Entity.model]), h.nodes, ErasesNode, ErasesNode,
      List.exists_mem_cons_iff]
    simp [htag]

/-- The masternode that an operation creates is taken away. -/
theorem uncreated (h : Remains start block undone t) (htag : p.2.tag = .createMasternode) :
    Remains start block (p :: undone) (Entity.removed Masternode t p.1.txid) where
  legible := h.legible.removed _
  snapshots k found := by
    rw [find_removed, if_neg (by simp [Entity.model]), h.snapshots, ErasesSnapshot,
      ErasesSnapshot, List.exists_mem_cons_iff,
      Block.written_of_ne (by simp [htag]) (by simp [htag])]
    simp
  nodes id := by
    rw [find_removed, ErasesNode, List.exists_mem_cons_iff]
    by_cases hk : id = p.1.txid
    · rw [if_pos ⟨rfl, hk⟩]
      simp [htag, hk]
    · rw [if_neg fun hc => hk hc.2, h.nodes, ErasesNode]
      simp [hk]

end Remains

/-- What is left is no easier to undo. -/
theorem Remaining.retractable (h : Remaining start block t) (hretractable : Retractable t block) :
    Retractable start block := by
  rcases h with ⟨undone, h⟩
  intro ahead p behind hops
  rcases hretractable ahead p behind hops with ⟨hreadable, horacle, hnode⟩
  refine ⟨hreadable, fun id hid => ?_, fun id hid => ?_⟩
  · exact (horacle id hid).imp_left fun ⟨s, hs, hfound, herases⟩ =>
      ⟨s, hs, ((h.snapshots _ _).mp hfound).1, herases⟩
  · exact (hnode id hid).imp_left fun ⟨hthere, herases⟩ =>
      ⟨((h.nodes id).mp hthere).1, herases⟩

/-! ## Operations -/

/-- A save that takes nothing away. -/
theorem runs_saved_remains {α : Type} [Entity α] [Recorded α] [Whole α]
    (h : Remains start block undone t) (a : α) {fail : Prop}
    (hsnapshot : model OracleSnapshot ≠ model α) (hnode : model Masternode ≠ model α) :
    Runs (Remaining start block) fail (fun _ behind => Remains start block undone behind)
      (save a) t :=
  runs_save h.remaining (h.saved a hsnapshot hnode).remaining (h.saved a hsnapshot hnode)

/-- A removal of something else. -/
theorem runs_removed_remains {α : Type} [Entity α] [Recorded α]
    (h : Remains start block undone t) (k : String) {fail : Prop}
    (hsnapshot : model OracleSnapshot ≠ model α) (hnode : model Masternode ≠ model α) :
    Runs (Remaining start block) fail (fun _ behind => Remains start block undone behind)
      (remove α k) t :=
  runs_remove h.remaining (h.removed k hsnapshot hnode).remaining (h.removed k hsnapshot hnode)

theorem runs_eraseMemberships_remains (h : Remains start block undone t) (id : String)
    (pairs : List PricePair) {fail : Prop} :
    Runs (Remaining start block) fail (fun _ behind => Remains start block undone behind)
      (Oracle.eraseMemberships id pairs) t :=
  runs_forM_keeps (Remains start block undone) pairs h.remaining h fun _ _ _ _ hbehind =>
    runs_removed_remains hbehind _ (by decide) (by decide)

section

variable {tx : Transaction} {op : DecodedOp}

/-- What an appointment or an update has written is taken back. -/
theorem runs_unwrite_remains (h : Remains start block undone t) {oracle : Oracle}
    (hwritten : block.written tx op = some oracle) (htag : op.tag ≠ .createMasternode)
    {fail : Prop} :
    Runs (Remaining start block) fail
      (fun _ behind => Remains start block ((tx, op) :: undone) behind)
      (Entity.remove OracleSnapshot (OracleSnapshot.idOf oracle.id block.height tx.txid) >>=
        fun _ => Oracle.eraseMemberships oracle.id oracle.priceFeeds) t := by
  have hgone := h.unwritten (p := (tx, op)) hwritten htag
  exact runs_bind (runs_remove h.remaining hgone.remaining hgone)
    fun _ after _ hafter => runs_eraseMemberships_remains hafter _ _

variable (hops : block.ops = ahead ++ (tx, op) :: undone)
include hops

/-- A payload that cannot be read is one that undoing the block fails at. -/
theorem runs_decode_retracts {α : Type} {read : Json.Reader α}
    (h : Remains start block undone t)
    (hreadable : op.Readable ↔ ∃ data, read op.payload = .ok data) :
    Runs (Remaining start block) (¬ Retractable start block)
      (fun data behind => behind = t ∧ decodePayload read tx op = .ok data ∧ op.Readable)
      (Program.ofExcept (decodePayload read tx op)) t :=
  runs_ofExcept h.remaining
    (fun data hdata => ⟨rfl, hdata, hreadable.mpr ⟨data, read_of_decode hdata⟩⟩)
    fun _ he hretractable =>
      not_readable he (hreadable.mp (hretractable ahead _ undone hops).readable)

/-- Bringing an oracle back fails when there is nothing to bring it back from. -/
theorem runs_restore_retracts (h : Remains start block ((tx, op) :: undone) t) {id : String}
    (hid : op.restored = some id) :
    Runs (Remaining start block) (¬ Retractable start block)
      (fun _ behind => Remains start block ((tx, op) :: undone) behind ∧
        FindsOracle start block (tx, op) undone id)
      (Oracle.restore id block tx) t := by
  refine runs_bind (q := fun value behind => behind = t ∧
    ((value = none ∧ (FindsOracle start block (tx, op) undone id →
        block.createsBefore .appointOracle id tx.txid = true)) ∨
      ∃ s, value = some s ∧ FindsOracle start block (tx, op) undone id))
    (runs_first? h.legible.wf rfl h.remaining (fun hempty => ⟨rfl, Or.inl ⟨rfl, ?_⟩⟩) ?_) ?_
  · -- A snapshot that is not erased would still be there.
    refine fun hfinds => hfinds.resolve_left ?_
    rintro ⟨s, rfl, hfound, herases⟩
    exact hempty _ (OracleSnapshot.mem_placesAt h.legible.wf
      ((h.snapshots _ _).mpr ⟨hfound, herases⟩))
  · intro place found hgreatest hfound
    rcases OracleSnapshot.place_of_mem h.legible.wf h.legible.snapshots hgreatest.1 with
      ⟨s, hs, hsid, rfl⟩
    rw [show s.place.key = s.id from rfl, hs, Option.some.injEq] at hfound
    have hkept := (h.snapshots _ _).mp hs
    exact ⟨s, hfound.symm, rfl, Or.inr ⟨s, rfl, Or.inl ⟨s, hsid, hkept.1, hkept.2⟩⟩⟩
  rintro value behind - ⟨rfl, ⟨rfl, hcreated⟩ | ⟨s, rfl, hfinds⟩⟩
  · by_cases hcreates : block.createsBefore .appointOracle id tx.txid = true
    · simp only [if_pos hcreates]
      exact runs_pure h.remaining ⟨h, Or.inr hcreates⟩
    · simp only [if_neg hcreates]
      exact runs_throw h.remaining fun hretractable =>
        hcreates (hcreated ((hretractable ahead _ undone hops).oracle id hid))
  · refine runs_bind (runs_saved_remains h s.toOracle (by decide) (by decide)) ?_
    intro _ after _ hafter
    exact (runs_forM_keeps (Remains start block ((tx, op) :: undone)) s.toOracle.priceFeeds
      hafter.remaining hafter fun pair _ last _ hlast =>
        runs_saved_remains hlast _ (by decide) (by decide)).mono
      fun _ _ _ hlast => ⟨hlast, hfinds⟩

/-- Clearing a resignation fails when there is no masternode to clear it of. -/
theorem runs_undo_resign_retracts (h : Remains start block undone t)
    (htag : op.tag = .resignMasternode) :
    Runs (Remaining start block) (¬ Retractable start block)
      (fun _ behind => Remains start block ((tx, op) :: undone) behind ∧ op.Readable ∧
        ∀ id, op.resigned = some id → FindsNode start block (tx, op) undone id)
      (Indexer.resignMasternode.hook .undo (.transaction tx op) block) t := by
  have hskip : ∀ {after : MemoryStore}, Remains start block undone after →
      Remains start block ((tx, op) :: undone) after := fun hafter =>
    hafter.skip (Block.written_of_ne (by simp [htag]) (by simp [htag])) (by simp [htag])
  refine runs_bind (runs_decode_retracts hops h (by rw [DecodedOp.Readable, htag])) ?_
  rintro data behind - ⟨rfl, hdata, hreadable⟩
  have hid := DecodedOp.resigned_of_decode htag hdata
  have honly : ∀ {id : String}, op.resigned = some id → id = data.nodeId := fun hother =>
    Option.some.inj (hother.symm.trans hid)
  refine runs_bind (q := fun value after => after = behind ∧
    ((value = none ∧ behind.find (model Masternode) data.nodeId = none) ∨
      ∃ node : Masternode, value = some node ∧ node.id = data.nodeId ∧
        behind.find (model Masternode) data.nodeId ≠ none))
    (runs_find? h.remaining (fun hnone => ⟨rfl, Or.inl ⟨rfl, hnone⟩⟩) fun found hfound => ?_) ?_
  · rcases h.legible.nodes _ found hfound with ⟨node, rfl, hk⟩
    exact ⟨node, rfl, rfl, Or.inr ⟨node, rfl, hk.symm, by simp [hfound]⟩⟩
  rintro value after - ⟨rfl, ⟨rfl, hnone⟩ | ⟨node, rfl, hnode, hthere⟩⟩
  · by_cases hcreates : block.createsBefore .createMasternode data.nodeId tx.txid = true
    · simp only [if_pos hcreates]
      exact runs_pure h.remaining ⟨hskip h, hreadable, fun id hother =>
        honly hother ▸ Or.inr hcreates⟩
    · simp only [if_neg hcreates]
      refine runs_throw h.remaining fun hretractable => ?_
      -- A masternode that is not erased would still be there.
      rcases (hretractable ahead _ undone hops).node _ hid with hfinds | hc
      · exact (h.nodes _).mpr hfinds hnone
      · exact hcreates hc
  · have hsaved : Remains start block undone
        (Entity.saved after ({ node with resignHeight := none, resignTx := none } : Masternode)) :=
      h.saved_node (hnode ▸ hthere)
    exact runs_save h.remaining hsaved.remaining ⟨hskip hsaved, hreadable, fun id hother =>
      honly hother ▸ Or.inl ((h.nodes _).mp hthere)⟩

/-- Undoing an operation fails only if it does not retract, and takes away what it would have
    written. -/
theorem runs_retract (symbol : String) (h : Remains start block undone t) :
    Runs (Remaining start block) (¬ Retractable start block)
      (fun _ behind => Remains start block ((tx, op) :: undone) behind ∧
        Retracts start block (tx, op) undone)
      ((Indexer.ofTag symbol op.tag).hook .undo (.transaction tx op) block) t := by
  -- What neither brings an oracle back nor clears a resignation finds what it looks for.
  have hplain : op.tag ≠ .updateOracle → op.tag ≠ .removeOracle → op.tag ≠ .resignMasternode →
      op.Readable → Retracts start block (tx, op) undone := by
    intro hupdate hremove hresign hreadable
    have hrestored := DecodedOp.restored_of_ne hupdate hremove
    have hresigned := DecodedOp.resigned_of_ne hresign
    exact ⟨hreadable, by simp [hrestored], by simp [hresigned]⟩
  cases htag : op.tag with
  | createToken =>
      refine (runs_removed_remains h tx.txid (by decide) (by decide)).mono fun _ behind _ hbehind =>
        ⟨hbehind.skip (Block.written_of_ne (by simp [htag]) (by simp [htag])) (by simp [htag]), ?_⟩
      exact hplain (by simp [htag]) (by simp [htag]) (by simp [htag])
        (by simp [DecodedOp.Readable, htag])
  | createMasternode =>
      have hgone := h.uncreated (p := (tx, op)) htag
      refine runs_remove h.remaining hgone.remaining ⟨hgone, ?_⟩
      exact hplain (by simp [htag]) (by simp [htag]) (by simp [htag])
        (by simp [DecodedOp.Readable, htag])
  | setOracleData =>
      refine runs_bind (runs_decode_retracts hops h (by rw [DecodedOp.Readable, htag])) ?_
      rintro data behind - ⟨rfl, _, hreadable⟩
      refine (runs_forM_keeps (Remains start block undone) data.feeds h.remaining h
        fun feed _ after _ hafter => runs_removed_remains hafter _ (by decide) (by decide)).mono
        fun _ after _ hafter => ⟨?_, ?_⟩
      · exact hafter.skip (Block.written_of_ne (by simp [htag]) (by simp [htag])) (by simp [htag])
      · exact hplain (by simp [htag]) (by simp [htag]) (by simp [htag]) hreadable
  | appointOracle =>
      refine runs_bind (runs_decode_retracts hops h (by rw [DecodedOp.Readable, htag])) ?_
      rintro data behind - ⟨rfl, hdata, hreadable⟩
      have hwritten : block.written tx op = some (data.toOracle tx.txid block) :=
        Block.written_of_appointOracle htag hdata
      rw [← LawfulMonad.bind_assoc]
      refine runs_bind (runs_unwrite_remains h hwritten (by simp [htag])) fun _ after _ hafter => ?_
      refine (runs_removed_remains hafter _ (by decide) (by decide)).mono
        fun _ last _ hlast => ⟨hlast, ?_⟩
      exact hplain (by simp [htag]) (by simp [htag]) (by simp [htag]) hreadable
  | updateOracle =>
      have hresigned : op.resigned = none := DecodedOp.resigned_of_ne (by simp [htag])
      refine runs_bind (runs_decode_retracts hops h (by rw [DecodedOp.Readable, htag])) ?_
      rintro data behind - ⟨rfl, hdata, hreadable⟩
      have hid := DecodedOp.restored_of_updateOracle htag hdata
      have hwritten : block.written tx op = some (data.toOracle block) :=
        Block.written_of_updateOracle htag hdata
      rw [← LawfulMonad.bind_assoc]
      refine runs_bind (runs_unwrite_remains h hwritten (by simp [htag])) fun _ after _ hafter => ?_
      refine (runs_restore_retracts hops hafter hid).mono fun _ last _ hlast =>
        ⟨hlast.1, hreadable, fun id hother => ?_, by simp [hresigned]⟩
      exact Option.some.inj (hid.symm.trans hother) ▸ hlast.2
  -- A removal has written nothing, so there is nothing to take back first.
  | removeOracle =>
      have hresigned : op.resigned = none := DecodedOp.resigned_of_ne (by simp [htag])
      refine runs_bind (runs_decode_retracts hops h (by rw [DecodedOp.Readable, htag])) ?_
      rintro data behind - ⟨rfl, hdata, hreadable⟩
      have hid := DecodedOp.restored_of_removeOracle htag hdata
      have hskip := h.skip (p := (tx, op)) (Block.written_of_ne (by simp [htag]) (by simp [htag]))
        (by simp [htag])
      refine (runs_restore_retracts hops hskip hid).mono fun _ last _ hlast =>
        ⟨hlast.1, hreadable, fun id hother => ?_, by simp [hresigned]⟩
      exact Option.some.inj (hid.symm.trans hother) ▸ hlast.2
  | resignMasternode =>
      have hrestored : op.restored = none :=
        DecodedOp.restored_of_ne (by simp [htag]) (by simp [htag])
      exact (runs_undo_resign_retracts hops h htag).mono fun _ _ _ hlast =>
        ⟨hlast.1, hlast.2.1, by simp [hrestored], hlast.2.2⟩

end

/-! ## The block -/

/-- The statistics of the block, if they are there. -/
theorem runs_discard_remains (h : Remains start block undone t) {fail : Prop} :
    Runs (Remaining start block) fail (fun _ behind => Remains start block undone behind)
      (MasternodeStats.discard block) t := by
  refine runs_bind (q := fun _ behind => behind = t)
    (runs_find? h.remaining (fun _ => rfl) fun found hfound => ?_) ?_
  · rcases h.legible.stats _ found hfound with ⟨stats, rfl, _⟩
    exact ⟨stats, rfl, rfl⟩
  rintro value behind - rfl
  cases value with
  | none => exact runs_pure h.remaining h
  | some stats =>
      by_cases hhash : stats.block.hash = block.hash
      · simp only [if_pos hhash]
        exact runs_removed_remains h _ (by decide) (by decide)
      · simp only [if_neg hhash]
        exact runs_pure h.remaining h

/-- The aggregates of the block, once it is known which pairs it feeds. -/
theorem runs_aggregates_remains (h : Remains start block undone t) :
    Runs (Remaining start block) (¬ Retractable start block)
      (fun _ behind => Remains start block undone behind)
      (Indexer.setOracleData.hook .undo .blockEnd block) t := by
  refine runs_bind (q := fun _ behind => behind = t)
    (runs_ofExcept h.remaining (fun _ _ => rfl) fun e he hretractable => ?_) ?_
  · rcases fedPairs_of_readable hretractable.readable with ⟨pairs, hpairs⟩
    exact absurd (he.symm.trans hpairs) (by simp)
  · rintro pairs behind - rfl
    exact runs_forM_keeps (Remains start block undone) _ h.remaining h
      fun pair _ _ _ hafter => runs_removed_remains hafter _ (by decide) (by decide)

theorem runs_eraseTransaction_remains (h : Remains start block undone t) (tx : Transaction)
    {fail : Prop} :
    Runs (Remaining start block) fail (fun _ behind => Remains start block undone behind)
      (eraseTransaction tx) t :=
  runs_bind (runs_removed_remains h tx.txid (by decide) (by decide)) fun _ _ _ hbehind =>
    runs_forM_keeps (Remains start block undone) _ hbehind.remaining hbehind
      fun _ _ _ _ hafter => runs_removed_remains hafter _ (by decide) (by decide)

/-- With the standard indexers undoing a block comes to its end if it is retractable, and fails
    if it is not. -/
theorem runs_retractStandard (symbol : String) (h : Remains start block [] t) :
    Runs (Remaining start block) (¬ Retractable start block)
      (fun _ _ => Retractable start block) ((Registry.standard symbol).undoBlock block) t := by
  rw [Registry.undoBlock_standard]
  refine runs_bind (runs_discard_remains h) fun _ behind _ hbehind => ?_
  refine runs_bind (runs_aggregates_remains hbehind) fun _ behind hmid hbehind => ?_
  -- The operations, from the last. All those behind one have been undone before it.
  refine runs_bind (runs_forM (fun done _ after => Remains start block done.reverse after ∧
      ∀ ahead p behind, done.reverse = ahead ++ p :: behind → Retracts start block p behind)
    block.ops.reverse hmid ⟨hbehind, by simp⟩ ?_) ?_
  · rintro done ⟨tx, op⟩ rest after hitems _ ⟨hafter, hdone⟩
    have hops : block.ops = rest.reverse ++ (tx, op) :: done.reverse := by
      rw [← List.reverse_reverse block.ops, ← hitems]
      simp
    refine (runs_retract hops symbol hafter).mono fun _ last _ hlast => ?_
    rw [List.reverse_append, List.reverse_singleton, List.singleton_append]
    refine ⟨hlast.1, fun ahead p behind hsplit => ?_⟩
    rcases List.cons_eq_append_iff.mp hsplit with ⟨_, heq⟩ | ⟨front, _, hsplit⟩
    · rw [List.cons.injEq] at heq
      rw [heq.1, heq.2]
      exact hlast.2
    · exact hdone front p behind hsplit
  rintro _ behind hmid ⟨hbehind, hall⟩
  rw [List.reverse_reverse] at hbehind hall
  refine runs_bind (runs_forM_keeps (Remains start block block.ops) _ hmid hbehind
    fun tx _ _ _ hafter => runs_eraseTransaction_remains hafter tx) fun _ last _ hlast => ?_
  by_cases hheight : block.height = 0
  · rw [if_pos hheight]
    exact (runs_removed_remains hlast _ (by decide) (by decide)).mono fun _ _ _ _ => hall
  · rw [if_neg hheight]
    exact runs_pure hlast.remaining hall

/-- So it does with the record of the block, which is deleted first. -/
theorem runs_retractBlock (symbol : String) (h : Remains start block [] t) :
    Runs (Remaining start block) (¬ Retractable start block)
      (fun _ _ => Retractable start block) ((Registry.full symbol).undoBlock block) t := by
  rw [Registry.undoBlock_blocks]
  exact runs_bind (runs_removed_remains h block.hash (by decide) (by decide))
    fun _ _ _ hbehind => runs_retractStandard symbol hbehind

end

end ChainIndex
