import ChainIndex.Proofs.Indexer.Dispatch
import ChainIndex.Proofs.Indexer.Restore

/-!
# Undoing a block

Undoing a harmless block from any store between `base` and the block gives `base` back. The
operations are undone from the last to the first, and each of them settles what it alone
touches; what an earlier operation touches too is left for that one.

Most hooks only delete keys that `base` does not have. A masternode that was resigned is
written again without its resignation, which is how `base` has it unless it was resigned
there already. Oracles are brought back.

That undoing does not fail is a matter of its own: the payloads have to be readable and the
masternodes have to be there.

## Main definitions

* `DecodedOp.Readable`: Undoing can read the payload.
* `Undoable`: Undoing does not fail.

## Theorems

* `runs_undoOp`: Undoing the last pending operation settles it.
* `runs_undoBlock`: Undoing a block leaves nothing open.
-/

namespace ChainIndex

open Entity Program

/-- Undoing can read the payload, if it reads it at all. -/
def DecodedOp.Readable (op : DecodedOp) : Prop :=
  match op.tag with
  | .createToken => True
  | .appointOracle => ∃ data, AppointOracle.read op.payload = .ok data
  | .updateOracle => ∃ data, UpdateOracle.read op.payload = .ok data
  | .removeOracle => ∃ data, RemoveOracle.read op.payload = .ok data
  | .setOracleData => ∃ data, SetOracleData.read op.payload = .ok data
  | .createMasternode => True
  | .resignMasternode => ∃ data, ResignMasternode.read op.payload = .ok data

/-- Undoing the block does not fail: every payload it reads is readable, and every
    masternode that is resigned is there or created earlier in the block. -/
structure Undoable (base : MemoryStore) (block : Block) : Prop where
  readable : ∀ p ∈ block.ops, p.2.Readable
  nodes : ∀ p ∈ block.ops, ∀ id, p.2.resigned = some id →
    base.find (model Masternode) id ≠ none ∨
      block.createsBefore .createMasternode id p.1.txid = true

theorem not_readable {α : Type} {read : Json.Reader α} {tx : Transaction} {op : DecodedOp}
    {e : Error} (h : decodePayload read tx op = .error e) :
    ¬ ∃ data, read op.payload = .ok data := by
  rintro ⟨data, hread⟩
  rw [decodePayload, hread] at h
  exact absurd h (by simp)

section

variable {base : MemoryStore} {block : Block} {opened : String → String → Prop}
variable {init rest : List (Transaction × DecodedOp)} {tx : Transaction} {op : DecodedOp}
variable {t : MemoryStore}

/-- An operation whose payload cannot be read makes the block one that cannot be undone. -/
theorem not_undoable (hops : block.ops = init ++ (tx, op) :: rest) (h : ¬ op.Readable) :
    ¬ Undoable base block :=
  fun hundoable => h (hundoable.readable _ (mem_ops_of_eq hops))

/-! ## Operations -/

theorem runs_undo_createToken (hfresh : Fresh base block)
    (hops : block.ops = init ++ (tx, op) :: rest)
    (h : Between base block opened (init ++ [(tx, op)]) t) (htag : op.tag = .createToken)
    {fail : Prop} :
    Runs (Between base block opened (init ++ [(tx, op)])) fail
      (fun _ behind => Between base block opened init behind) (Entity.remove Token tx.txid) t := by
  have htx := Block.mem_transactions_of_mem_ops (mem_ops_of_eq hops)
  have hremoved : Between base block opened (init ++ [(tx, op)]) (removed Token t tx.txid) :=
    h.removed tx.txid (Or.inr (touches_last ((touches_of_createToken htag).mpr ⟨rfl, rfl⟩)))
      (by simp [Entity.model])
  refine runs_remove h hremoved (hremoved.settle (fun m k hm htouches hfree => ?_) ?_ ?_)
  · rcases (touches_of_createToken htag).mp htouches with ⟨rfl, rfl⟩
    rw [find_removed, if_pos ⟨rfl, rfl⟩, hfresh.token tx htx]
  · simp [Block.written_of_ne, htag]
  · simp [htag]

theorem runs_undo_createMasternode (hfresh : Fresh base block)
    (hops : block.ops = init ++ (tx, op) :: rest)
    (h : Between base block opened (init ++ [(tx, op)]) t) (htag : op.tag = .createMasternode)
    {fail : Prop} :
    Runs (Between base block opened (init ++ [(tx, op)])) fail
      (fun _ behind => Between base block opened init behind)
      (Entity.remove Masternode tx.txid) t := by
  have htx := Block.mem_transactions_of_mem_ops (mem_ops_of_eq hops)
  have hremoved : Between base block opened (init ++ [(tx, op)]) (removed Masternode t tx.txid) :=
    h.removed tx.txid (Or.inr (touches_last ((touches_of_createMasternode htag).mpr ⟨rfl, rfl⟩)))
      fun _ => hfresh.node tx htx
  refine runs_remove h hremoved (hremoved.settle (fun m k hm htouches hfree => ?_) ?_ ?_)
  · rcases (touches_of_createMasternode htag).mp htouches with ⟨rfl, rfl⟩
    rw [find_removed, if_pos ⟨rfl, rfl⟩, hfresh.node tx htx]
  · simp [Block.written_of_ne, htag]
  · intro _
    rw [find_removed, if_pos ⟨rfl, rfl⟩]

theorem runs_undo_setOracleData (hfresh : Fresh base block)
    (hops : block.ops = init ++ (tx, op) :: rest)
    (h : Between base block opened (init ++ [(tx, op)]) t) (htag : op.tag = .setOracleData) :
    Runs (Between base block opened (init ++ [(tx, op)])) (¬ Undoable base block)
      (fun _ behind => Between base block opened init behind)
      (Indexer.setOracleData.hook .undo (.transaction tx op) block) t := by
  have htx := Block.mem_transactions_of_mem_ops (mem_ops_of_eq hops)
  refine runs_bind (q := fun data behind => behind = t ∧ op.published = some data)
    (runs_ofExcept h (fun data hdata => ⟨rfl, DecodedOp.data?_of_decode htag hdata⟩) ?_) ?_
  · intro e he
    exact not_undoable hops (by rw [DecodedOp.Readable, htag]; exact not_readable he)
  · rintro data behind - ⟨rfl, hdata⟩
    have htouches : ∀ feed ∈ data.feeds, ∃ p ∈ init ++ [(tx, op)],
        Touches base block p.1 p.2 (model PriceFeed)
          (PriceFeed.idOf feed.1 data.oracleId tx.txid) := fun feed hfeed =>
      touches_last ((touches_of_setOracleData htag).mpr ⟨rfl, data, hdata, feed, hfeed, rfl⟩)
    refine runs_removeAll PriceFeed data.feeds
      (fun feed => PriceFeed.idOf feed.1 data.oracleId tx.txid) h ?_ ?_
    · exact fun feed hfeed behind hbehind =>
        hbehind.removed _ (Or.inr (htouches feed hfeed)) (by simp [Entity.model])
    · intro hgone
      refine hgone.settle (fun m k hm htouched hfree => ?_) ?_ ?_
      · rcases (touches_of_setOracleData htag).mp htouched with
          ⟨rfl, data', hdata', feed, hfeed, rfl⟩
        rw [hdata, Option.some.injEq] at hdata'
        subst hdata'
        rw [find_removedAll, if_pos ⟨rfl, List.mem_map_of_mem hfeed⟩, hfresh.feed tx htx]
      · simp [Block.written_of_ne, htag]
      · simp [htag]

theorem runs_undo_resignMasternode (hnodes : Typed Masternode base)
    (hharmless : Harmless base block)
    (hops : block.ops = init ++ (tx, op) :: rest)
    (h : Between base block opened (init ++ [(tx, op)]) t) (htag : op.tag = .resignMasternode) :
    Runs (Between base block opened (init ++ [(tx, op)])) (¬ Undoable base block)
      (fun _ behind => Between base block opened init behind)
      (Indexer.resignMasternode.hook .undo (.transaction tx op) block) t := by
  have hwritten : block.written tx op = none :=
    Block.written_of_ne (by simp [htag]) (by simp [htag])
  refine runs_bind (q := fun data behind => behind = t ∧ op.resigned = some data.nodeId)
    (runs_ofExcept h (fun data hdata => ⟨rfl, DecodedOp.resigned_of_decode htag hdata⟩) ?_) ?_
  · intro e he
    exact not_undoable hops (by rw [DecodedOp.Readable, htag]; exact not_readable he)
  rintro data behind - ⟨rfl, hresigned⟩
  refine runs_bind (q := fun value after => after = behind ∧
    ((value = none ∧ behind.find (model Masternode) data.nodeId = none) ∨
      ∃ node, value = some node ∧ node.id = data.nodeId ∧
        AdmitsNode base (init ++ [(tx, op)]) node)) (runs_find? h ?_ ?_) ?_
  · exact fun hnone => ⟨rfl, Or.inl ⟨rfl, hnone⟩⟩
  · intro found hfound
    rcases h.admitted hnodes hfound with ⟨node, hstored, hadmitted⟩
    exact ⟨node, hstored, rfl, Or.inr ⟨node, rfl, hadmitted⟩⟩
  rintro value after - ⟨rfl, ⟨rfl, hnone⟩ | ⟨node, rfl, hid, hadmitted⟩⟩
  · by_cases hcreates : block.createsBefore .createMasternode data.nodeId tx.txid = true
    · -- The creation that is still pending touches the masternode.
      rw [if_pos hcreates]
      refine runs_pure h (h.settle (fun m k hm htouches hfree => ?_) (by simp [hwritten])
        (by simp [htag]))
      rcases (touches_of_resignMasternode htag).mp htouches with ⟨rfl, hk⟩
      rw [hresigned, Option.some.injEq] at hk
      subst hk
      rcases Block.mem_of_createsBefore hops hcreates with ⟨q, hq, hqtag, hqid⟩
      exact absurd ((touches_of_createMasternode hqtag).mpr ⟨rfl, hqid.symm⟩) (hfree q hq)
    · rw [if_neg hcreates]
      refine runs_throw h fun hundoable => ?_
      -- A masternode of `base` is never deleted while the block is about.
      rcases hundoable.nodes _ (mem_ops_of_eq hops) data.nodeId hresigned with hthere | hc
      · exact h.nodes _ hthere hnone
      · exact hcreates hc
  · have htouches : Touches base block tx op (model Masternode) (key node.unresigned) :=
      (touches_of_resignMasternode htag).mpr ⟨rfl, hresigned.trans (congrArg some hid.symm)⟩
    have hsaved : Between base block opened (init ++ [(tx, op)])
        (Entity.saved after node.unresigned) := by
      refine h.saved node.unresigned (Or.inr (touches_last htouches))
        ⟨by simp [Entity.model], fun _ => ⟨node.unresigned, rfl, rfl, ?_⟩, by simp [Entity.model]⟩
      exact hadmitted
    refine runs_save h hsaved (hsaved.settle (fun m k hm htouched hfree => ?_) (by simp [hwritten])
      (by simp [htag]))
    rcases (touches_of_resignMasternode htag).mp htouched with ⟨rfl, hk⟩
    rw [hresigned, Option.some.injEq] at hk
    subst hk
    rw [find_saved, if_pos ⟨rfl, hid.symm⟩]
    rcases hadmitted with ⟨before, hbefore, hsame⟩ | ⟨p, hp, hptag, hpid⟩
    · -- In `base` it is not resigned, so clearing it gives it back as it was.
      rw [hid] at hbefore
      rw [hbefore, hsame,
        hharmless.nodes _ (mem_ops_of_eq hops) data.nodeId hresigned before hbefore]
    · -- An earlier operation creates it, and will delete it.
      rcases List.mem_append.mp hp with hinit | hlast
      · refine absurd ((touches_of_createMasternode hptag).mpr ⟨rfl, ?_⟩) (hfree p hinit)
        rw [hpid, hid]
      · rw [List.mem_singleton.mp hlast, htag] at hptag
        exact absurd hptag (by simp)

/-- The snapshot and the memberships that an operation has written are taken back. -/
theorem runs_unwrite
    (h : Between base block opened (init ++ [(tx, op)]) t) {oracle : Oracle}
    (hwritten : block.written tx op = some oracle) {fail : Prop} :
    Runs (Between base block opened (init ++ [(tx, op)])) fail
      (fun _ behind => behind.find (model OracleSnapshot)
          (OracleSnapshot.idOf oracle.id block.height tx.txid) = none ∧
        ∀ pair ∈ oracle.priceFeeds,
          behind.find (model Membership) (Membership.idOf pair oracle.id) = none)
      (Entity.remove OracleSnapshot (OracleSnapshot.idOf oracle.id block.height tx.txid) >>=
        fun _ => Oracle.eraseMemberships oracle.id oracle.priceFeeds) t := by
  have hnamed := (named_of_written hwritten).1
  have hremoved : Between base block opened (init ++ [(tx, op)])
      (removed OracleSnapshot t (OracleSnapshot.idOf oracle.id block.height tx.txid)) := by
    refine h.removed _ (Or.inr (touches_last ((touches_of_named hnamed).mpr ?_)))
      (by simp [Entity.model])
    exact Or.inr (Or.inl ⟨rfl, oracle, hwritten, rfl⟩)
  refine runs_bind (q := fun _ behind => behind =
      removed OracleSnapshot t (OracleSnapshot.idOf oracle.id block.height tx.txid))
    (runs_remove h hremoved rfl) ?_
  rintro _ behind hbehind rfl
  refine runs_removeAll Membership oracle.priceFeeds
    (fun pair => Membership.idOf pair oracle.id) hbehind (fun pair hpair after hafter => ?_)
    fun _ => ⟨?_, fun pair hpair => ?_⟩
  · refine hafter.removed _ (Or.inr (touches_last ((touches_of_named hnamed).mpr ?_)))
      (by simp [Entity.model])
    exact Or.inr (Or.inr ⟨rfl, _, pair, hnamed, rfl, Or.inl ⟨oracle, hwritten, hpair⟩⟩)
  · rw [find_removedAll, if_neg (by simp [Entity.model]), find_removed, if_pos ⟨rfl, rfl⟩]
  · rw [find_removedAll, if_pos ⟨rfl, List.mem_map_of_mem hpair⟩]

theorem runs_undo_appointOracle (hfresh : Fresh base block)
    (hops : block.ops = init ++ (tx, op) :: rest)
    (h : Between base block opened (init ++ [(tx, op)]) t) (htag : op.tag = .appointOracle) :
    Runs (Between base block opened (init ++ [(tx, op)])) (¬ Undoable base block)
      (fun _ behind => Between base block opened init behind)
      (Indexer.appointOracle.hook .undo (.transaction tx op) block) t := by
  have htx := Block.mem_transactions_of_mem_ops (mem_ops_of_eq hops)
  have hnamed : op.named tx = some tx.txid := if_pos htag
  refine runs_bind (q := fun data behind => behind = t ∧
      block.written tx op = some (data.toOracle tx.txid block))
    (runs_ofExcept h (fun data hdata => ⟨rfl, Block.written_of_appointOracle htag hdata⟩) ?_) ?_
  · intro e he
    exact not_undoable hops (by rw [DecodedOp.Readable, htag]; exact not_readable he)
  rintro data behind - ⟨rfl, hwritten⟩
  -- The snapshot and the memberships go first, and then the oracle itself.
  rw [← LawfulMonad.bind_assoc]
  refine runs_bind (runs_unwrite h hwritten) ?_
  rintro _ after hafter ⟨hsnapshot, hmemberships⟩
  have hremoved : Between base block opened (init ++ [(tx, op)]) (removed Oracle after tx.txid) :=
    hafter.removed _ (Or.inr (touches_last ((touches_of_named hnamed).mpr (Or.inl ⟨rfl, rfl⟩))))
      (by simp [Entity.model])
  refine runs_remove hafter hremoved (hremoved.settle (fun m k hm htouched hfree => ?_) ?_ ?_)
  · rcases (touches_of_named hnamed).mp htouched with ⟨rfl, rfl⟩ | ⟨rfl, oracle, hw, rfl⟩ |
      ⟨rfl, id, pair, hid, rfl, hpair⟩
    · rw [find_removed, if_pos ⟨rfl, rfl⟩, hfresh.oracle tx htx]
    · rw [hwritten, Option.some.injEq] at hw
      subst hw
      rw [find_removed, if_neg (by simp [Entity.model]), hsnapshot, hfresh.snapshot tx htx]
    · rw [hnamed, Option.some.injEq] at hid
      subst hid
      rw [find_removed, if_neg (by simp [Entity.model]), hfresh.membership tx htx]
      rcases hpair with ⟨oracle, hw, hmem⟩ | ⟨oracle, hlive, _⟩
      · rw [hwritten, Option.some.injEq] at hw
        subst hw
        exact hmemberships pair hmem
      · rw [hfresh.oracle tx htx] at hlive
        exact absurd hlive (by simp)
  · intro oracle hw
    rw [hwritten, Option.some.injEq] at hw
    subst hw
    rw [find_removed, if_neg (by simp [Entity.model])]
    exact hsnapshot
  · simp [htag]

theorem runs_undo_updateOracle (hbase : Coherent base) (hfresh : Fresh base block)
    (hharmless : Harmless base block) (hopened : ∀ m k, opened m k → BlockKeys block m k)
    (hops : block.ops = init ++ (tx, op) :: rest)
    (h : Between base block opened (init ++ [(tx, op)]) t) (htag : op.tag = .updateOracle) :
    Runs (Between base block opened (init ++ [(tx, op)])) (¬ Undoable base block)
      (fun _ behind => Between base block opened init behind)
      (Indexer.updateOracle.hook .undo (.transaction tx op) block) t := by
  refine runs_bind (q := fun data behind => behind = t ∧
      block.written tx op = some (data.toOracle block) ∧ op.restored = some data.oracleId)
    (runs_ofExcept h (fun data hdata => ⟨rfl, Block.written_of_updateOracle htag hdata,
      DecodedOp.restored_of_updateOracle htag hdata⟩) ?_) ?_
  · intro e he
    exact not_undoable hops (by rw [DecodedOp.Readable, htag]; exact not_readable he)
  rintro data behind - ⟨rfl, hwritten, hid⟩
  -- What the update has written goes first, and then the oracle is brought back.
  rw [← LawfulMonad.bind_assoc]
  refine runs_bind (runs_unwrite h hwritten) ?_
  rintro _ after hafter ⟨hsnapshot, hmemberships⟩
  refine runs_restore hbase hfresh hharmless hopened hops hafter hid ?_ ?_
  · intro oracle hw
    rw [hwritten, Option.some.injEq] at hw
    subst hw
    exact hsnapshot
  · intro oracle pair hw hpair
    rw [hwritten, Option.some.injEq] at hw
    subst hw
    exact hmemberships pair hpair

theorem runs_undo_removeOracle (hbase : Coherent base) (hfresh : Fresh base block)
    (hharmless : Harmless base block) (hopened : ∀ m k, opened m k → BlockKeys block m k)
    (hops : block.ops = init ++ (tx, op) :: rest)
    (h : Between base block opened (init ++ [(tx, op)]) t) (htag : op.tag = .removeOracle) :
    Runs (Between base block opened (init ++ [(tx, op)])) (¬ Undoable base block)
      (fun _ behind => Between base block opened init behind)
      (Indexer.removeOracle.hook .undo (.transaction tx op) block) t := by
  have hwritten : block.written tx op = none :=
    Block.written_of_ne (by simp [htag]) (by simp [htag])
  refine runs_bind (q := fun data behind => behind = t ∧ op.restored = some data.oracleId)
    (runs_ofExcept h (fun data hdata => ⟨rfl, DecodedOp.restored_of_removeOracle htag hdata⟩)
      ?_) ?_
  · intro e he
    exact not_undoable hops (by rw [DecodedOp.Readable, htag]; exact not_readable he)
  rintro data behind - ⟨rfl, hid⟩
  exact runs_restore hbase hfresh hharmless hopened hops h hid (by simp [hwritten])
    (by simp [hwritten])

/-- Undoing the last pending operation settles it. -/
theorem runs_undoOp (symbol : String) (hbase : Coherent base) (hnodes : Typed Masternode base)
    (hfresh : Fresh base block) (hharmless : Harmless base block)
    (hopened : ∀ m k, opened m k → BlockKeys block m k)
    (hops : block.ops = init ++ (tx, op) :: rest)
    (h : Between base block opened (init ++ [(tx, op)]) t) :
    Runs (Between base block opened (init ++ [(tx, op)])) (¬ Undoable base block)
      (fun _ behind => Between base block opened init behind)
      ((Indexer.ofTag symbol op.tag).hook .undo (.transaction tx op) block) t := by
  cases htag : op.tag with
  | createToken => exact runs_undo_createToken hfresh hops h htag
  | appointOracle => exact runs_undo_appointOracle hfresh hops h htag
  | updateOracle => exact runs_undo_updateOracle hbase hfresh hharmless hopened hops h htag
  | removeOracle => exact runs_undo_removeOracle hbase hfresh hharmless hopened hops h htag
  | setOracleData => exact runs_undo_setOracleData hfresh hops h htag
  | createMasternode => exact runs_undo_createMasternode hfresh hops h htag
  | resignMasternode => exact runs_undo_resignMasternode hnodes hharmless hops h htag

/-! ## The block as such -/

/-- The keys of a block as such, apart from those of some models. -/
def BlockKeysBut (block : Block) (closed : List String) (m k : String) : Prop :=
  BlockKeys block m k ∧ m ∉ closed

/-- A model is closed when nothing of the block is left in it. -/
theorem Between.close_model {closed : List String} {ops : List (Transaction × DecodedOp)}
    (h : Between base block (BlockKeysBut block closed) ops t) (hfresh : Fresh base block)
    (m : String) (hgone : ∀ k, BlockKeys block m k → t.find m k = none) :
    Between base block (BlockKeysBut block (m :: closed)) ops t := by
  refine h.close (fun m' k hm' hkey hclosed hfree => ?_) h.fits
  rcases hkey with ⟨hblock, hopen⟩ | ⟨p, hp, htouches⟩
  · -- Of the keys that are closed now, those of `m` are the only ones that were open.
    by_cases heq : m' = m
    · subst heq
      rw [hgone k hblock, hfresh.keys m' k hblock]
    · exact absurd ⟨hblock, by simp [heq, hopen]⟩ hclosed
  · exact absurd htouches (hfree p hp)

/-- The statistics of the block are deleted, if they are there. -/
theorem runs_discard {mid : MemoryStore → Prop} {fail : Prop} (hfresh : Fresh base block)
    {closed : List String} {ops : List (Transaction × DecodedOp)}
    (hclosed : model MasternodeStats ∉ closed)
    (h : Between base block (BlockKeysBut block closed) ops t)
    (hmid : ∀ behind, Between base block (BlockKeysBut block closed) ops behind → mid behind) :
    Runs mid fail (fun _ behind =>
        Between base block (BlockKeysBut block (model MasternodeStats :: closed)) ops behind)
      (MasternodeStats.discard block) t := by
  have hkey : BlockKeys block (model MasternodeStats) (MasternodeStats.keyAt block.height) :=
    Or.inr (Or.inl ⟨rfl, rfl⟩)
  have honly : ∀ k, BlockKeys block (model MasternodeStats) k →
      k = MasternodeStats.keyAt block.height := fun k hk => by
    simpa [BlockKeys, Entity.model] using hk
  refine runs_bind (q := fun value behind => behind = t ∧
    ((value = none ∧ t.find (model MasternodeStats) (MasternodeStats.keyAt block.height) = none) ∨
      ∃ stats, value = some stats ∧ stats.block.hash = block.hash))
    (runs_find? (hmid t h) (fun hnone => ⟨rfl, Or.inl ⟨rfl, hnone⟩⟩) ?_) ?_
  · intro found hfound
    rcases h.own_stats hfresh hfound with ⟨stats, hstored, hhash⟩
    exact ⟨stats, hstored, rfl, Or.inr ⟨stats, rfl, hhash⟩⟩
  rintro value behind - ⟨rfl, ⟨rfl, hnone⟩ | ⟨stats, rfl, hhash⟩⟩
  · exact runs_pure (hmid behind h) (h.close_model hfresh _ fun k hk => honly k hk ▸ hnone)
  · have hremoved : Between base block (BlockKeysBut block closed) ops
        (removed MasternodeStats behind (MasternodeStats.keyAt block.height)) :=
      h.removed _ (Or.inl ⟨hkey, hclosed⟩) (by simp [Entity.model])
    simp only [if_pos hhash]
    refine runs_remove (hmid behind h) (hmid _ hremoved) (hremoved.close_model hfresh _ ?_)
    intro k hk
    rw [honly k hk, find_removed, if_pos ⟨rfl, rfl⟩]

/-- The pairs that a block feeds can be told when its payloads can be read. -/
theorem fedPairs_of_readable (h : ∀ p ∈ block.ops, p.2.Readable) :
    ∃ pairs, fedPairs block = .ok pairs := by
  -- The payloads are read one after another, so the induction is on the publications.
  have hall : ∀ publications : List (Transaction × DecodedOp),
      (∀ p ∈ publications, p.2.tag = .setOracleData ∧ p.2.Readable) →
      ∃ fed, publications.mapM (fun p => do
        let data ← decodePayload SetOracleData.read p.1 p.2
        return data.feeds.map Prod.fst) = Except.ok fed := by
    intro publications
    induction publications with
    | nil => exact fun _ => ⟨[], rfl⟩
    | cons p others ih =>
        intro hreadable
        rcases ih fun q hq => hreadable q (List.mem_cons_of_mem p hq) with ⟨fed, hfed⟩
        rcases hreadable p List.mem_cons_self with ⟨htag, hp⟩
        rw [DecodedOp.Readable, htag] at hp
        rcases hp with ⟨data, hdata⟩
        refine ⟨data.feeds.map Prod.fst :: fed, ?_⟩
        rw [List.mapM_cons, hfed, decodePayload, hdata]
        rfl
  rcases hall (block.ops.filter fun p => p.2.tag == .setOracleData) (fun p hp => by
    rw [List.mem_filter] at hp
    exact ⟨by simpa using hp.2, h p hp.1⟩) with ⟨fed, hfed⟩
  refine ⟨PricePair.distinct fed.flatten, ?_⟩
  unfold fedPairs
  exact congrArg (fun result => result >>= fun fed => .ok (PricePair.distinct fed.flatten)) hfed

/-- The aggregates of the block are deleted. -/
theorem runs_undo_aggregates {mid : MemoryStore → Prop} (hfresh : Fresh base block)
    {closed : List String} {ops : List (Transaction × DecodedOp)}
    (hclosed : model PriceAggregate ∉ closed)
    (h : Between base block (BlockKeysBut block closed) ops t)
    (hmid : ∀ behind, Between base block (BlockKeysBut block closed) ops behind → mid behind) :
    Runs mid (¬ Undoable base block) (fun _ behind =>
        Between base block (BlockKeysBut block (model PriceAggregate :: closed)) ops behind)
      (Indexer.setOracleData.hook .undo .blockEnd block) t := by
  refine runs_bind (q := fun pairs behind => behind = t ∧ fedPairs block = .ok pairs)
    (runs_ofExcept (hmid t h) (fun pairs hpairs => ⟨rfl, hpairs⟩) fun e he hundoable => ?_) ?_
  · rcases fedPairs_of_readable hundoable.readable with ⟨pairs, hpairs⟩
    rw [he] at hpairs
    exact absurd hpairs (by simp)
  rintro pairs behind - ⟨rfl, hpairs⟩
  have hkeep : ∀ pair ∈ pairs.reverse, ∀ after,
      Between base block (BlockKeysBut block closed) ops after →
      Between base block (BlockKeysBut block closed) ops
        (removed PriceAggregate after (PriceAggregate.idOf pair block.height)) := by
    intro pair hpair after hafter
    refine hafter.removed _ (Or.inl ⟨?_, hclosed⟩) (by simp [Entity.model])
    exact Or.inr (Or.inr (Or.inl ⟨rfl, pairs, hpairs, pair, List.mem_reverse.mp hpair, rfl⟩))
  refine Runs.weaken (runs_removeAll PriceAggregate pairs.reverse
    (fun pair => PriceAggregate.idOf pair block.height) h hkeep
    fun hgone => hgone.close_model hfresh _ fun k hk => ?_) hmid id
  have hk' : ∃ pairs, fedPairs block = .ok pairs ∧
      ∃ pair ∈ pairs, k = PriceAggregate.idOf pair block.height := by
    simpa [BlockKeys, Entity.model] using hk
  rcases hk' with ⟨pairs', hpairs', pair, hpair, rfl⟩
  rw [hpairs, Except.ok.injEq] at hpairs'
  subst hpairs'
  rw [find_removedAll, if_pos ⟨rfl, List.mem_map_of_mem (List.mem_reverse.mpr hpair)⟩]

/-- A transaction is deleted with its outputs. -/
theorem runs_eraseTransaction {closed : List String} {ops : List (Transaction × DecodedOp)}
    {fail : Prop} (hclosed : model TransactionRecord ∉ closed ∧ model OutputRecord ∉ closed)
    (htx : tx ∈ block.transactions)
    (h : Between base block (BlockKeysBut block closed) ops t) :
    Runs (Between base block (BlockKeysBut block closed) ops) fail
      (fun _ behind => (∀ m k, t.find m k = none → behind.find m k = none) ∧
        behind.find (model TransactionRecord) tx.txid = none ∧
        ∀ output ∈ tx.outputs,
          behind.find (model OutputRecord) (OutputRecord.idOf tx.txid output.n) = none)
      (eraseTransaction tx) t := by
  have hremoved : Between base block (BlockKeysBut block closed) ops
      (removed TransactionRecord t tx.txid) := by
    refine h.removed _ (Or.inl ⟨?_, hclosed.1⟩) (by simp [Entity.model])
    exact Or.inr (Or.inr (Or.inr (Or.inl ⟨rfl, tx, htx, rfl⟩)))
  refine runs_bind (q := fun _ behind => behind = removed TransactionRecord t tx.txid)
    (runs_remove h hremoved rfl) ?_
  rintro _ behind hbehind rfl
  refine runs_removeAll OutputRecord tx.outputs.reverse
    (fun output => OutputRecord.idOf tx.txid output.n) hbehind
    (fun output houtput after hafter => ?_)
    fun _ => ⟨fun m k hnone => ?_, ?_, fun output houtput => ?_⟩
  · refine hafter.removed _ (Or.inl ⟨?_, hclosed.2⟩) (by simp [Entity.model])
    exact Or.inr (Or.inr (Or.inr (Or.inr (Or.inl
      ⟨rfl, tx, htx, output, List.mem_reverse.mp houtput, rfl⟩))))
  · rw [find_removedAll, find_removed, hnone]
    simp
  · rw [find_removedAll, if_neg (by simp [Entity.model]), find_removed, if_pos ⟨rfl, rfl⟩]
  · rw [find_removedAll, if_pos ⟨rfl, List.mem_map_of_mem (List.mem_reverse.mpr houtput)⟩]

/-- Undoing a harmless block from any store between leaves nothing open. -/
theorem runs_undoBlock (symbol : String) (hbase : Coherent base)
    (hnodes : Typed Masternode base) (hfresh : Fresh base block)
    (hharmless : Harmless base block) (h : Between base block (BlockKeys block) block.ops t) :
    Runs (Between base block (BlockKeys block) block.ops) (¬ Undoable base block)
      (fun _ behind => Between base block (fun _ _ => False) [] behind)
      ((Registry.full symbol).undoBlock block) t := by
  have hmid : ∀ {closed : List String} {ops : List (Transaction × DecodedOp)},
      (∀ p ∈ ops, p ∈ block.ops) → ∀ behind,
      Between base block (BlockKeysBut block closed) ops behind →
      Between base block (BlockKeys block) block.ops behind :=
    fun hops _ hbehind => hbehind.mono (fun _ _ hkey => hkey.1) hops
  have hstart : Between base block (BlockKeysBut block []) block.ops t :=
    h.mono (fun _ _ hkey => ⟨hkey, List.not_mem_nil⟩) fun _ hp => hp
  rw [Registry.undoBlock_full]
  -- The record of the block.
  refine runs_bind (q := fun _ behind =>
    Between base block (BlockKeysBut block [model BlockRecord]) block.ops behind) ?_ ?_
  · have hremoved : Between base block (BlockKeysBut block []) block.ops
        (removed BlockRecord t block.hash) :=
      hstart.removed _ (Or.inl ⟨Or.inl ⟨rfl, rfl⟩, List.not_mem_nil⟩) (by simp [Entity.model])
    refine runs_remove h (hmid (fun _ hp => hp) _ hremoved) (hremoved.close_model hfresh _ ?_)
    intro k hk
    have hk' : k = block.hash := by simpa [BlockKeys, Entity.model] using hk
    rw [hk', find_removed, if_pos ⟨rfl, rfl⟩]
  intro _ behind _ hbehind
  -- The statistics and the aggregates.
  refine runs_bind (runs_discard hfresh (by simp [Entity.model]) hbehind
    (hmid fun _ hp => hp)) ?_
  intro _ behind _ hbehind
  refine runs_bind (runs_undo_aggregates hfresh (by simp [Entity.model]) hbehind
    (hmid fun _ hp => hp)) ?_
  intro _ behind hbelow hbehind
  -- The operations, from the last.
  refine runs_bind (runs_forM (fun _ rest after => Between base block (BlockKeysBut block
    [model PriceAggregate, model MasternodeStats, model BlockRecord]) rest.reverse after)
    block.ops.reverse hbelow (by rwa [List.reverse_reverse]) ?_) ?_
  · intro done p rest after hitems _ hafter
    rw [List.reverse_cons] at hafter
    have hops : block.ops = rest.reverse ++ p :: done.reverse := by
      rw [← List.reverse_reverse block.ops, ← hitems]
      simp
    exact (runs_undoOp symbol hbase hnodes hfresh hharmless (fun _ _ hkey => hkey.1) hops
      hafter).weaken (hmid (mem_last_ops hops)) id
  intro _ behind hbelow hbehind
  -- The transactions.
  refine runs_bind (runs_forM (fun done _ after =>
    Between base block (BlockKeysBut block
        [model PriceAggregate, model MasternodeStats, model BlockRecord]) [] after ∧
      ∀ tx ∈ done, after.find (model TransactionRecord) tx.txid = none ∧
        ∀ output ∈ tx.outputs,
          after.find (model OutputRecord) (OutputRecord.idOf tx.txid output.n) = none)
    block.transactions.reverse hbelow ⟨hbehind, by simp⟩ ?_) ?_
  · rintro done tx rest after hitems _ ⟨hafter, hdone⟩
    have htx : tx ∈ block.transactions := by
      rw [← List.mem_reverse, ← hitems]
      simp
    refine ((runs_eraseTransaction (by simp [Entity.model]) htx hafter).mono
      fun _ last hlast hgone => ⟨hlast, ?_⟩).weaken (hmid fun _ hp => absurd hp List.not_mem_nil) id
    -- What has been deleted before stays deleted.
    intro tx' htx'
    rcases List.mem_append.mp htx' with hbefore | hlast'
    · exact ⟨hgone.1 _ _ (hdone tx' hbefore).1,
        fun output houtput => hgone.1 _ _ ((hdone tx' hbefore).2 output houtput)⟩
    · rw [List.mem_singleton.mp hlast']
      exact hgone.2
  rintro _ behind hbelow ⟨hbehind, hgone⟩
  have hclosed : Between base block (BlockKeysBut block [model OutputRecord,
      model TransactionRecord, model PriceAggregate, model MasternodeStats, model BlockRecord])
      [] behind := by
    refine (hbehind.close_model hfresh _ fun k hk => ?_).close_model hfresh _ fun k hk => ?_
    · have hk' : ∃ tx ∈ block.transactions, k = tx.txid := by
        simpa [BlockKeys, Entity.model] using hk
      rcases hk' with ⟨tx, htx, rfl⟩
      exact (hgone tx (List.mem_reverse.mpr htx)).1
    · have hk' : ∃ tx ∈ block.transactions, ∃ output ∈ tx.outputs,
          k = OutputRecord.idOf tx.txid output.n := by
        simpa [BlockKeys, Entity.model] using hk
      rcases hk' with ⟨tx, htx, output, houtput, rfl⟩
      exact (hgone tx (List.mem_reverse.mpr htx)).2 output houtput
  -- The native token is all that may be left.
  have honly : ∀ m k, BlockKeysBut block [model OutputRecord, model TransactionRecord,
      model PriceAggregate, model MasternodeStats, model BlockRecord] m k →
      m = model Token ∧ block.height = 0 ∧ k = Token.nativeId := by
    rintro m k ⟨hkey, hopen⟩
    simp only [List.mem_cons, List.not_mem_nil, or_false, not_or] at hopen
    rcases hkey with ⟨hm, _⟩ | ⟨hm, _⟩ | ⟨hm, _⟩ | ⟨hm, _⟩ | ⟨hm, _⟩ | hnative
    · exact absurd hm hopen.2.2.2.2
    · exact absurd hm hopen.2.2.2.1
    · exact absurd hm hopen.2.2.1
    · exact absurd hm hopen.2.1
    · exact absurd hm hopen.1
    · exact hnative
  by_cases hheight : block.height = 0
  · rw [if_pos hheight]
    have hkey : BlockKeys block (model Token) Token.nativeId :=
      Or.inr (Or.inr (Or.inr (Or.inr (Or.inr ⟨rfl, hheight, rfl⟩))))
    have hremoved := hclosed.removed (α := Token) Token.nativeId
      (Or.inl ⟨hkey, by simp [Entity.model]⟩) (by simp [Entity.model])
    refine runs_remove hbelow (hmid (fun _ hp => absurd hp List.not_mem_nil) _ hremoved)
      (hremoved.close (fun m k hm hopen _ _ => ?_) hremoved.fits)
    rcases hopen with hopen | ⟨p, hp, _⟩
    · rcases honly m k hopen with ⟨rfl, _, rfl⟩
      rw [find_removed, if_pos ⟨rfl, rfl⟩, hfresh.keys _ _ hkey]
    · exact absurd hp List.not_mem_nil
  · rw [if_neg hheight]
    refine runs_pure hbelow (hclosed.close (fun m k hm hopen _ _ => ?_) hclosed.fits)
    rcases hopen with hopen | ⟨p, hp, _⟩
    · exact absurd (honly m k hopen).2.1 hheight
    · exact absurd hp List.not_mem_nil

end

end ChainIndex
