import ChainIndex.Proofs.Indexer.Coherence
import ChainIndex.Proofs.Indexer.Footprint

/-!
# Bringing an oracle back

Undoing an update or a removal brings the oracle back as its newest snapshot shows it. As
long as an earlier operation of the block is about the oracle it does not matter which
snapshot that is: the operation will be undone, too, and touches everything that is written
here. When none is left, the snapshots of the oracle are those of `base`, and since `base`
is coherent the newest of them shows the oracle as `base` has it.

That takes an oracle that is in `base`, or one that the block itself appoints. Of any other
oracle there may be snapshots left from before it was removed, and bringing it back would
change `base`. A block is `Harmless` to `base` if it names no such oracle, and no masternode
that is resigned already.

## Main definitions

* `Harmless`: Undoing leaves what is named as it was.

## Theorems

* `Between.snapshot_kept`: The snapshots of `base` stay as they are.
* `runs_latest`: What the newest snapshot says while a block is undone.
* `restored_membership`: The memberships of an oracle that is brought back.
* `runs_restore`: Bringing an oracle back settles the operation.
-/

namespace ChainIndex

open Entity Program

/-- Undoing the block leaves what it names as it was: every oracle it updates or removes is
    there or appointed earlier in the block, and no masternode it resigns is resigned. -/
structure Harmless (base : MemoryStore) (block : Block) : Prop where
  oracles : ∀ p ∈ block.ops, ∀ id, p.2.restored = some id →
    base.find (model Oracle) id ≠ none ∨ block.createsBefore .appointOracle id p.1.txid = true
  nodes : ∀ p ∈ block.ops, ∀ id, p.2.resigned = some id → ∀ node : Masternode,
    base.find (model Masternode) id = some (stored node) → node.unresigned = node

section

variable {base : MemoryStore} {block : Block} {opened : String → String → Prop}
variable {init rest : List (Transaction × DecodedOp)} {tx : Transaction} {op : DecodedOp}
variable {t : MemoryStore} {fail : Prop}

/-! ## Snapshots between two stores -/

theorem Between.typed {ops : List (Transaction × DecodedOp)}
    (h : Between base block opened ops t) (hbase : Coherent base) : Typed OracleSnapshot t := by
  intro k found hfound
  rcases h.fits _ k found Recorded.model_ne_ledger hfound with hkept | ⟨hleaves, _, _⟩
  · exact hbase.snapshots k found hkept
  · rcases hleaves rfl with ⟨s, hs, hk, _⟩
    exact ⟨s, hs, hk⟩

/-- The snapshots of `base` stay as they are: a block only ever touches its own. -/
theorem Between.snapshot_kept {ops : List (Transaction × DecodedOp)}
    (h : Between base block opened ops t) (hfresh : Fresh base block)
    (hopened : ∀ m k, opened m k → BlockKeys block m k) (hops : ∀ p ∈ ops, p ∈ block.ops)
    {k : String} {found : Stored}
    (hfound : base.find (model OracleSnapshot) k = some found) :
    t.find (model OracleSnapshot) k = some found := by
  rw [h.frame _ k Recorded.model_ne_ledger, hfound]
  · -- No key of the block as such is in `base`.
    intro hc
    rw [hfresh.keys _ k (hopened _ k hc)] at hfound
    exact absurd hfound (by simp)
  · -- Nor is a snapshot of one of its operations.
    intro p hp hc
    have hk : ∃ oracle, block.written p.1 p.2 = some oracle ∧
        k = OracleSnapshot.idOf oracle.id block.height p.1.txid := by
      simpa [Touches, Entity.model] using hc
    rcases hk with ⟨oracle, _, rfl⟩
    rw [hfresh.snapshot p.1 (Block.mem_transactions_of_mem_ops (hops p hp))] at hfound
    exact absurd hfound (by simp)

/-- A snapshot of `base` that is the newest in a store between is the newest in `base`. -/
theorem Between.greatest_base {ops : List (Transaction × DecodedOp)}
    (h : Between base block opened ops t) (hbase : Coherent base) (hfresh : Fresh base block)
    (hopened : ∀ m k, opened m k → BlockKeys block m k) (hops : ∀ p ∈ ops, p ∈ block.ops)
    {s : OracleSnapshot} (hs : base.find (model OracleSnapshot) s.id = some (stored s))
    (hgreatest : (t.model (model OracleSnapshot)).Greatest
      ⟨OracleSnapshot.byOracle.name, s.oracleId⟩ s.place) :
    (base.model (model OracleSnapshot)).Greatest
      ⟨OracleSnapshot.byOracle.name, s.oracleId⟩ s.place := by
  refine ⟨OracleSnapshot.mem_placesAt hbase.wf hs, fun place hplace => hgreatest.2 place ?_⟩
  rcases ((hbase.wf _).mem_placesAt _ place).mp hplace with ⟨found, hfound, hentry⟩
  exact ((h.wf _).mem_placesAt _ place).mpr
    ⟨found, h.snapshot_kept hfresh hopened hops hfound, hentry⟩

/-! ## Oracles -/

theorem mem_last_ops (hops : block.ops = init ++ (tx, op) :: rest) :
    ∀ p ∈ init ++ [(tx, op)], p ∈ block.ops := by
  intro p hp
  rw [hops]
  rcases List.mem_append.mp hp with hinit | hlast
  · exact List.mem_append_left _ hinit
  · rw [List.mem_singleton.mp hlast]
    exact List.mem_append_right _ List.mem_cons_self

theorem mem_ops_of_eq (hops : block.ops = init ++ (tx, op) :: rest) : (tx, op) ∈ block.ops :=
  hops ▸ List.mem_append_right _ List.mem_cons_self

/-- An operation on an oracle of which `base` does not know is about one that the block
    itself appoints. -/
theorem Harmless.appointed (hharmless : Harmless base block)
    (hops : block.ops = init ++ (tx, op) :: rest) {id : String} (hid : op.restored = some id)
    (hnone : base.find (model Oracle) id = none) :
    ∃ q ∈ init, q.1 ∈ block.transactions ∧ q.1.txid = id ∧ q.2.named q.1 = some id := by
  rcases hharmless.oracles _ (mem_ops_of_eq hops) id hid with hlive | hcreates
  · exact absurd hnone hlive
  · rcases Block.mem_of_createsBefore hops hcreates with ⟨q, hq, htag, htxid⟩
    refine ⟨q, hq, Block.mem_transactions_of_mem_ops ?_, htxid, ?_⟩
    · exact hops ▸ List.mem_append_left _ hq
    · rw [DecodedOp.named, if_pos htag, htxid]

theorem dashFree_of_restored (hbase : Coherent base) (hfresh : Fresh base block)
    (hharmless : Harmless base block) (hops : block.ops = init ++ (tx, op) :: rest)
    {id : String} (hid : op.restored = some id) : Text.DashFree id := by
  rcases hlive : base.find (model Oracle) id with _ | found
  · rcases hharmless.appointed hops hid hlive with ⟨q, _, htx, rfl, _⟩
    exact hfresh.dashFree q.1 htx
  · rcases hbase.oracle_typed hlive with ⟨_, _, _, hdash⟩
    exact hdash

/-- A membership that no pending operation touches is not in `base`, unless it is one that
    the oracle has there. -/
theorem base_membership_eq (hbase : Coherent base) {id k : String} {pair : PricePair}
    (hdash : Text.DashFree id) (hk : k = Membership.idOf pair id) {value : Option Stored}
    (hnone : base.find (model Oracle) id = none → value = none)
    (hlive : ∀ oracle : Oracle, base.find (model Oracle) id = some (stored oracle) →
      value = lastStored (Membership.ofAll oracle) k) :
    value = base.find (model Membership) k := by
  rcases hfound : base.find (model Membership) k with _ | found
  · rcases horacle : base.find (model Oracle) id with _ | stored
    · exact hnone horacle
    · rcases hbase.oracle_typed horacle with ⟨oracle, rfl, _, _⟩
      rw [hlive oracle horacle]
      rcases hlast : lastStored (Membership.ofAll oracle) k with _ | last
      · rfl
      · rw [(hbase.memberships k last).mpr ⟨id, oracle, horacle, hlast⟩] at hfound
        exact absurd hfound (by simp)
  · rcases hbase.membership_of_key hdash hk hfound with ⟨oracle, horacle, _, hlast⟩
    rw [hlive oracle horacle, hlast]

/-- What the newest snapshot of an oracle says while an operation on it is undone. -/
theorem runs_latest (hbase : Coherent base) (hfresh : Fresh base block)
    (hharmless : Harmless base block) (hopened : ∀ m k, opened m k → BlockKeys block m k)
    (hops : block.ops = init ++ (tx, op) :: rest)
    (h : Between base block opened (init ++ [(tx, op)]) t) {id : String}
    (hid : op.restored = some id)
    (hsnapshot : ∀ oracle, block.written tx op = some oracle →
      t.find (model OracleSnapshot) (OracleSnapshot.idOf oracle.id block.height tx.txid)
        = none) :
    Runs (Between base block opened (init ++ [(tx, op)])) fail
      (fun value behind => behind = t ∧
        ((value = none ∧ block.createsBefore .appointOracle id tx.txid = true) ∨
          ∃ s, value = some s ∧ s.oracleId = id ∧
            (base.find (model Oracle) id = some (stored s.toOracle) ∨
              ∃ p ∈ init, block.written p.1 p.2 = some s.toOracle)))
      (OracleSnapshot.latest? id) t := by
  have hmem := mem_last_ops hops
  refine runs_first? h.wf rfl h (fun hempty => ⟨rfl, Or.inl ⟨rfl, ?_⟩⟩) ?_
  · -- An oracle of `base` has a snapshot there, so it must be one of the block.
    rcases hharmless.oracles _ (mem_ops_of_eq hops) id hid with hlive | hcreates
    · rcases hfound : base.find (model Oracle) id with _ | found
      · exact absurd hfound hlive
      · rcases hbase.oracles id found hfound with ⟨s, _, rfl, _, hlatest⟩
        have hkept := h.snapshot_kept hfresh hopened hmem hlatest.here
        exact absurd (OracleSnapshot.mem_placesAt h.wf hkept) (hempty _)
    · exact hcreates
  · intro place found hgreatest hfound
    rcases OracleSnapshot.place_of_mem h.wf (h.typed hbase) hgreatest.1 with ⟨s, hs, hsid, rfl⟩
    rw [show s.place.key = s.id from rfl, hs, Option.some.injEq] at hfound
    refine ⟨s, hfound.symm, rfl, Or.inr ⟨s, rfl, hsid, ?_⟩⟩
    rcases h.fits _ _ _ Recorded.model_ne_ledger hs with hkept | ⟨hleaves, _, _⟩
    · -- A snapshot of `base` that is the newest here is the newest there.
      left
      rcases hlive : base.find (model Oracle) id with _ | live
      · -- An oracle that the block appoints has no snapshot in `base`.
        rcases hharmless.appointed hops hid hlive with ⟨q, _, htx, htxid, _⟩
        exact absurd (hsid.trans htxid.symm) (hfresh.history s.id s hkept q.1 htx)
      · rcases hbase.oracles id live hlive with ⟨newest, rfl, hnid, _, hlatest⟩
        have hbelow := h.greatest_base hbase hfresh hopened hmem hkept (hsid ▸ hgreatest)
        have habove := hlatest.greatest hbase.wf hbase.snapshots
        rw [hnid] at habove
        rw [hsid] at hbelow
        have hids : newest.id = s.id :=
          congrArg Place.key (MemoryModel.greatest_unique habove hbelow)
        have hstored := hlatest.here
        rw [hids, hkept, Option.some.injEq] at hstored
        rw [stored_injective hstored]
    · -- A snapshot of the block is that of an operation that is still pending.
      right
      rcases hleaves rfl with ⟨s', heq, hk, tx', op', oracle, order, hp, hwritten, _, rfl⟩
      rw [stored_injective heq]
      rcases List.mem_append.mp hp with hinit | hlast
      · exact ⟨(tx', op'), hinit, hwritten⟩
      · rw [List.mem_singleton, Prod.mk.injEq] at hlast
        rcases hlast with ⟨rfl, rfl⟩
        have hblock := (named_of_written hwritten).2
        have hkey : s.id = OracleSnapshot.idOf oracle.id block.height tx'.txid := by
          rw [hk, OracleSnapshot.ofOracle, hblock]
          rfl
        rw [hkey, hsnapshot oracle hwritten] at hs
        exact absurd hs (by simp)

theorem lastStored_ne_none {oracle : Oracle} {pair : PricePair} {k : String}
    (hpair : pair ∈ oracle.priceFeeds) (hk : k = Membership.idOf pair oracle.id) :
    lastStored (Membership.ofAll oracle) k ≠ none := fun hc =>
  (lastStored_eq_none_iff _ _).mp hc _ (List.mem_map_of_mem hpair) hk

/-- The memberships of an oracle that is brought back are those of `base`, unless a pending
    operation touches them. -/
theorem restored_membership (hbase : Coherent base) {id : String} (hdash : Text.DashFree id)
    {s : OracleSnapshot} (hsid : s.oracleId = id)
    (hshows : base.find (model Oracle) id = some (stored s.toOracle) ∨
      ∃ p ∈ init, block.written p.1 p.2 = some s.toOracle)
    (herased : ∀ oracle pair, block.written tx op = some oracle → pair ∈ oracle.priceFeeds →
      t.find (model Membership) (Membership.idOf pair id) = none)
    {pair : PricePair}
    (hpair : (∃ oracle, block.written tx op = some oracle ∧ pair ∈ oracle.priceFeeds) ∨
      ∃ oracle : Oracle, base.find (model Oracle) id = some (stored oracle) ∧
        pair ∈ oracle.priceFeeds)
    (hfree : ∀ p ∈ init,
      ¬ Touches base block p.1 p.2 (model Membership) (Membership.idOf pair id)) :
    (lastStored (Membership.ofAll s.toOracle) (Membership.idOf pair id)).or
        (t.find (model Membership) (Membership.idOf pair id))
      = base.find (model Membership) (Membership.idOf pair id) := by
  rcases hshows with hlive | ⟨p, hp, hwritten⟩
  · refine base_membership_eq hbase hdash rfl (fun hnone => ?_) fun oracle horacle => ?_
    · rw [hlive] at hnone
      exact absurd hnone (by simp)
    · rw [hlive, Option.some.injEq] at horacle
      have heq := stored_injective horacle
      subst heq
      rcases hlast : lastStored (Membership.ofAll s.toOracle) (Membership.idOf pair id) with
        _ | last
      · -- The pair is not one of `base`, so it was written by the operation and is gone.
        rcases hpair with ⟨oracle, hw, hmem⟩ | ⟨oracle, hbefore, hmem⟩
        · rw [herased oracle pair hw hmem]
          rfl
        · rw [hlive, Option.some.injEq] at hbefore
          rw [← stored_injective hbefore] at hmem
          refine absurd hlast (lastStored_ne_none hmem ?_)
          rw [← hsid]
          rfl
      · rfl
  · -- No membership of what a pending operation writes, and none of `base`, is settled here.
    have hpnamed : p.2.named p.1 = some id := hsid ▸ (named_of_written hwritten).1
    have hforeign : ∀ oracle : Oracle, (block.written p.1 p.2 = some oracle ∨
        base.find (model Oracle) id = some (stored oracle)) → ∀ pair' ∈ oracle.priceFeeds,
        Membership.idOf pair id ≠ Membership.idOf pair' id := by
      intro oracle horacle pair' hmem hk
      refine hfree p hp ((touches_of_named hpnamed).mpr (Or.inr (Or.inr ⟨rfl, ?_⟩)))
      exact ⟨id, pair', hpnamed, hk,
        horacle.imp (fun hw => ⟨oracle, hw, hmem⟩) fun hlive => ⟨oracle, hlive, hmem⟩⟩
    have hlast : lastStored (Membership.ofAll s.toOracle) (Membership.idOf pair id) = none := by
      rcases hlast : lastStored (Membership.ofAll s.toOracle) (Membership.idOf pair id) with
        _ | last
      · rfl
      · rcases Membership.key_of_lastStored hlast with ⟨pair', hmem, hk⟩
        rw [show s.toOracle.id = id from hsid] at hk
        exact absurd hk (hforeign _ (Or.inl hwritten) pair' hmem)
    have hgone : t.find (model Membership) (Membership.idOf pair id) = none := by
      rcases hpair with ⟨oracle, hw, hmem⟩ | ⟨oracle, hlive, hmem⟩
      · exact herased oracle pair hw hmem
      · exact absurd rfl (hforeign oracle (Or.inr hlive) pair hmem)
    rw [hlast, hgone]
    refine base_membership_eq hbase hdash rfl (fun _ => rfl) fun oracle horacle => ?_
    rcases hlast' : lastStored (Membership.ofAll oracle) (Membership.idOf pair id) with _ | last
    · rfl
    · rcases hbase.oracle_typed horacle with ⟨oracle', heq, hoid, _⟩
      rw [← stored_injective heq] at hoid
      rcases Membership.key_of_lastStored hlast' with ⟨pair', hmem, hk⟩
      rw [hoid] at hk
      exact absurd hk (hforeign oracle (Or.inr horacle) pair' hmem)

/-- Bringing an oracle back settles the operation, once its own snapshot and the
    memberships it wrote are gone. -/
theorem runs_restore (hbase : Coherent base) (hfresh : Fresh base block)
    (hharmless : Harmless base block) (hopened : ∀ m k, opened m k → BlockKeys block m k)
    (hops : block.ops = init ++ (tx, op) :: rest)
    (h : Between base block opened (init ++ [(tx, op)]) t) {id : String}
    (hid : op.restored = some id)
    (hsnapshot : ∀ oracle, block.written tx op = some oracle →
      t.find (model OracleSnapshot) (OracleSnapshot.idOf oracle.id block.height tx.txid) = none)
    (herased : ∀ oracle pair, block.written tx op = some oracle → pair ∈ oracle.priceFeeds →
      t.find (model Membership) (Membership.idOf pair id) = none) :
    Runs (Between base block opened (init ++ [(tx, op)])) fail
      (fun _ behind => Between base block opened init behind)
      (Oracle.restore id block tx) t := by
  have hdash := dashFree_of_restored hbase hfresh hharmless hops hid
  have hnamed : op.named tx = some id := named_of_restored hid
  have hcreate : op.tag ≠ .createMasternode := fun hc => by
    rw [DecodedOp.restored_of_ne (by simp [hc]) (by simp [hc])] at hid
    exact absurd hid (by simp)
  refine runs_bind (runs_latest hbase hfresh hharmless hopened hops h hid hsnapshot) ?_
  rintro value behind - ⟨rfl, ⟨rfl, hcreates⟩ | ⟨s, rfl, hsid, hshows⟩⟩
  · -- Nothing to bring back: the appointment that is still pending touches the oracle.
    rw [if_pos hcreates]
    refine runs_pure h (h.settle (fun m k hm htouches hfree => ?_) hsnapshot
      fun hc => absurd hc hcreate)
    rcases Block.mem_of_createsBefore hops hcreates with ⟨q, hq, htag, rfl⟩
    have htx := Block.mem_transactions_of_mem_ops
      (show q ∈ block.ops from hops ▸ List.mem_append_left _ hq)
    have hqnamed : q.2.named q.1 = some q.1.txid := by rw [DecodedOp.named, if_pos htag]
    rcases (touches_of_named hnamed).mp htouches with ⟨rfl, rfl⟩ | ⟨rfl, oracle, hw, rfl⟩ |
      ⟨rfl, id', pair, hid', rfl, hpair⟩
    · -- The appointment ahead touches the oracle, so it is not settled here.
      exact absurd ((touches_of_named hqnamed).mpr (Or.inl ⟨rfl, rfl⟩)) (hfree q hq)
    · rw [hsnapshot oracle hw, hfresh.snapshot tx
        (Block.mem_transactions_of_mem_ops (mem_ops_of_eq hops))]
    · rw [hnamed, Option.some.injEq] at hid'
      subst hid'
      rw [hfresh.membership q.1 htx]
      rcases hpair with ⟨oracle, hw, hpair⟩ | ⟨oracle, hlive, _⟩
      · exact herased oracle pair hw hpair
      · rw [hfresh.oracle q.1 htx] at hlive
        exact absurd hlive (by simp)
  · -- The oracle that is brought back is in `base` so, or written by a pending operation.
    have htouched : ∀ pair ∈ s.priceFeeds, ∃ p ∈ init ++ [(tx, op)],
        Touches base block p.1 p.2 (model Membership) (Membership.idOf pair s.oracleId) := by
      intro pair hpair
      rcases hshows with hlive | ⟨p, hp, hwritten⟩
      · refine touches_last ((touches_of_named hnamed).mpr (Or.inr (Or.inr ⟨rfl, ?_⟩)))
        exact ⟨id, pair, hnamed, by rw [hsid], Or.inr ⟨s.toOracle, hlive, hpair⟩⟩
      · refine ⟨p, List.mem_append_left _ hp, ?_⟩
        have hpnamed := (named_of_written hwritten).1
        refine (touches_of_named hpnamed).mpr (Or.inr (Or.inr ⟨rfl, ?_⟩))
        exact ⟨_, pair, hpnamed, rfl, Or.inl ⟨s.toOracle, hwritten, hpair⟩⟩
    have hsaved : Between base block opened (init ++ [(tx, op)])
        (Entity.saved behind s.toOracle) := by
      refine h.saved s.toOracle (Or.inr (touches_last ?_)) (by simp [Fits, Entity.model])
      exact (touches_of_named hnamed).mpr (Or.inl ⟨rfl, hsid.symm⟩)
    have hkeep : ∀ pair ∈ s.toOracle.priceFeeds, ∀ behind,
        Between base block opened (init ++ [(tx, op)]) behind →
        Between base block opened (init ++ [(tx, op)])
          (Entity.saved behind (Membership.ofOracle s.toOracle pair)) :=
      fun pair hpair behind hbehind => hbehind.saved _ (Or.inr (htouched pair hpair))
        (by simp [Fits, Entity.model])
    refine runs_bind (q := fun _ after => after = Entity.saved behind s.toOracle)
      (runs_save h hsaved rfl) ?_
    rintro _ after hafter rfl
    refine runs_saveAll _ _ hafter hkeep fun hlast => ?_
    refine hlast.settle (fun m k hm htouches hfree => ?_) ?_ ?_
    · rcases (touches_of_named hnamed).mp htouches with ⟨rfl, rfl⟩ | ⟨rfl, oracle, hw, rfl⟩ |
        ⟨rfl, id', pair, hid', rfl, hpair⟩
      · rcases hshows with hlive | ⟨p, hp, hwritten⟩
        · rw [find_savedAll, if_neg (by decide), find_saved, if_pos ⟨rfl, hsid.symm⟩, hlive]
        · have hpnamed := (named_of_written hwritten).1
          exact absurd ((touches_of_named hpnamed).mpr (Or.inl ⟨rfl, hsid⟩)) (hfree p hp)
      · rw [find_savedAll, if_neg (by decide), find_saved, if_neg (by simp [Entity.model]),
          hsnapshot oracle hw, hfresh.snapshot tx
            (Block.mem_transactions_of_mem_ops (mem_ops_of_eq hops))]
      · rw [hnamed, Option.some.injEq] at hid'
        subst hid'
        rw [find_savedAll, if_pos rfl, find_saved, if_neg (by simp [Entity.model])]
        exact restored_membership hbase hdash hsid hshows herased hpair hfree
    · intro oracle hw
      rw [find_savedAll, if_neg (by decide), find_saved, if_neg (by simp [Entity.model])]
      exact hsnapshot oracle hw
    · exact fun hc => absurd hc hcreate

end

end ChainIndex
