import ChainIndex.Proofs.Indexer.ApplyOp
import ChainIndex.Proofs.Indexer.Reverts

/-!
# Operations on oracles are taken back

Three hooks write what is told of oracles and three take it back. An appointment is taken back
by deleting what it has written, since none of that was there before. An update and a removal
have overwritten or deleted something, and nothing of it is kept with the operation: it is the
newest snapshot that says what the oracle was, and the memberships are written again from
there. So what these two need is that the store was coherent before.

The old memberships and the new ones may overlap. Whatever was erased or written under a key
of the oracle, the memberships of the former oracle are written over it, and the rest of what
the operation has written is erased first.

## Theorems

* `runs_latest_of`: The newest snapshot of an oracle is the one that is found.
* `runs_restored`: A coherent store says again what it said of an oracle.
* `reverts_appointOracle`, `reverts_updateOracle`, `reverts_removeOracle`: The three operations.
-/

namespace ChainIndex

open Entity Program MemoryStore

section

variable {t w : MemoryStore} {fail : Prop}

/-! ## Writes in a store that is in order -/

theorem runs_eraseMemberships_wf (hwf : t.WF) (id : String) (pairs : List PricePair) :
    Runs MemoryStore.WF fail
      (fun _ behind => behind = removedAll Membership t
        (pairs.map fun pair => Membership.idOf pair id))
      (Oracle.eraseMemberships id pairs) t :=
  runs_removeAll Membership pairs (fun pair => Membership.idOf pair id) hwf
    (fun _ _ _ hbehind => wf_removed hbehind _) fun _ => rfl

theorem runs_writeMemberships_wf (hwf : t.WF) (oracle : Oracle) :
    Runs MemoryStore.WF fail (fun _ behind => behind = savedAll t (Membership.ofAll oracle))
      oracle.writeMemberships t :=
  runs_saveAll oracle.priceFeeds (Membership.ofOracle oracle) hwf
    (fun _ _ _ hbehind => wf_saved hbehind _) fun _ => rfl

theorem runs_write_wf (hwf : t.WF) (oracle : Oracle) (block : Block) (tx : Transaction) :
    Runs MemoryStore.WF True
      (fun _ behind => ∃ order, orderIn block tx = .ok order ∧
        behind = writtenStore t oracle tx.txid order)
      (oracle.write block tx) t := by
  refine runs_bind (runs_ofExcept_ok hwf) ?_
  rintro order behind - ⟨rfl, horder⟩
  refine runs_bind (runs_save_wf hwf oracle) ?_
  rintro _ after hafter rfl
  refine runs_bind (runs_writeMemberships_wf hafter oracle) ?_
  rintro _ last hlast rfl
  exact runs_save hlast (wf_saved hlast _) ⟨order, horder, rfl⟩

/-! ## Bringing an oracle back -/

/-- The newest snapshot of an oracle is the one that is found. -/
theorem runs_latest_of (hwf : w.WF) (htyped : Typed OracleSnapshot w) {s : OracleSnapshot}
    (hlatest : OracleSnapshot.Latest w s) :
    Runs MemoryStore.WF fail (fun value behind => behind = w ∧ value = some s)
      (OracleSnapshot.latest? s.oracleId) w := by
  refine runs_first? hwf rfl hwf (fun hempty => ?_) fun place found hgreatest hfound => ?_
  · exact absurd (OracleSnapshot.mem_placesAt hwf hlatest.here) (hempty _)
  · have hplace := MemoryModel.greatest_unique hgreatest (hlatest.greatest hwf htyped)
    subst hplace
    have hhere := hlatest.here
    rw [show s.place.key = s.id from rfl, hhere, Option.some.injEq] at hfound
    exact ⟨s, hfound.symm, rfl, rfl⟩

section

variable {id : String} {previous : Oracle}
variable (h : Coherent t) (hlive : t.find (model Oracle) id = some (stored previous))

include h hlive

/-- The memberships of an oracle are there. -/
theorem Coherent.membership_of_last {k : String} {found : Stored}
    (hlast : lastStored (Membership.ofAll previous) k = some found) :
    t.find (model Membership) k = some found :=
  (h.memberships k found).mpr ⟨id, previous, hlive, hlast⟩

/-- No others of its keys are. -/
theorem Coherent.no_membership {k : String} {pair : PricePair} (hk : k = Membership.idOf pair id)
    (hlast : lastStored (Membership.ofAll previous) k = none) :
    t.find (model Membership) k = none := by
  rcases h.oracle_typed hlive with ⟨oracle, _, _, hdash⟩
  rcases hfound : t.find (model Membership) k with _ | found
  · rfl
  · rcases h.membership_of_key hdash hk hfound with ⟨oracle', horacle, _, hkept⟩
    rw [hlive, Option.some.injEq] at horacle
    rw [stored_injective horacle, hkept] at hlast
    exact absurd hlast (by simp)

/-- A coherent store says again what it said of an oracle, once the oracle is brought back:
    its snapshots have to be as they were, the other oracles as well, and of its memberships
    any number may be missing. -/
theorem runs_restored (block : Block) (tx : Transaction) (hwf : w.WF)
    (hsnapshots : ∀ k, w.find (model OracleSnapshot) k = t.find (model OracleSnapshot) k)
    (horacles : ∀ k, k ≠ id → w.find (model Oracle) k = t.find (model Oracle) k)
    {erased : List String} (hown : ∀ k ∈ erased, ∃ pair, k = Membership.idOf pair id)
    (hmemberships : ∀ k, w.find (model Membership) k =
      if k ∈ erased then none else t.find (model Membership) k) :
    Runs MemoryStore.WF True (fun _ behind => behind.Agree oracleModels t)
      (Oracle.restore id block tx) w := by
  rcases h.oracles id _ hlive with ⟨s, heq, rfl, _, hlatest⟩
  have hprevious := stored_injective heq
  subst hprevious
  have htyped : Typed OracleSnapshot w := h.snapshots.congr hsnapshots
  have hhere : OracleSnapshot.Latest w s :=
    ⟨(hsnapshots s.id).trans hlatest.here, fun s' hs' =>
      hlatest.newest s' (hsnapshots s'.id ▸ hs')⟩
  -- The newest snapshot shows the oracle as it was.
  refine runs_bind (runs_latest_of hwf htyped hhere) ?_
  rintro value behind - ⟨rfl, rfl⟩
  refine runs_bind (runs_save_wf hwf s.toOracle) ?_
  rintro _ after hafter rfl
  refine (runs_writeMemberships_wf hafter s.toOracle).mono ?_
  rintro _ last - rfl m hm k
  rw [find_savedAll, find_saved]
  simp only [oracleModels, List.mem_cons, List.not_mem_nil, or_false] at hm
  rcases hm with rfl | rfl | rfl
  · rw [if_neg (by decide), if_neg (by simp [Entity.model]), hsnapshots]
  · rw [if_neg (by decide)]
    by_cases hk : k = s.oracleId
    · rw [if_pos ⟨rfl, hk⟩, hk, hlive]
    · rw [if_neg fun hc => hk hc.2, horacles k hk]
  · -- What the oracle had is written again, and no other key of the oracle was held.
    rw [if_pos rfl, if_neg (by simp [Entity.model]), hmemberships]
    rcases hlast : lastStored (Membership.ofAll s.toOracle) k with _ | found
    · rw [Option.none_or]
      by_cases hk : k ∈ erased
      · rcases hown k hk with ⟨pair, hpair⟩
        rw [if_pos hk, h.no_membership hlive hpair hlast]
      · rw [if_neg hk]
    · rw [Option.some_or, h.membership_of_last hlive hlast]

end

/-! ## The three operations -/

variable {block : Block} {tx : Transaction} {op : DecodedOp} {order : UInt32}

/-- What is left of an oracle that was written when its snapshot and its memberships are erased:
    the oracle itself, and the gaps where its memberships and the `former` ones were. -/
structure Unwritten (t : MemoryStore) (oracle : Oracle) (former : List String)
    (w : MemoryStore) : Prop where
  wf : w.WF
  snapshots : ∀ k, w.find (model OracleSnapshot) k = t.find (model OracleSnapshot) k
  oracles : ∀ k, k ≠ oracle.id → w.find (model Oracle) k = t.find (model Oracle) k
  memberships : ∀ k, w.find (model Membership) k =
    if k ∈ (oracle.priceFeeds.map fun pair => Membership.idOf pair oracle.id) ++ former
      then none else t.find (model Membership) k

/-- Erasing what an appointment or an update has written but for the oracle itself. -/
theorem runs_unwritten {oracle : Oracle} {former : List String} {start : MemoryStore}
    (hwf : start.WF) (hwritten : block.written tx op = some oracle)
    (hfree : t.find (model OracleSnapshot)
      (OracleSnapshot.idOf oracle.id block.height tx.txid) = none)
    (hagree : start.Agree oracleModels
      (writtenStore (removedAll Membership t former) oracle tx.txid order)) :
    Runs MemoryStore.WF True (fun _ behind => Unwritten t oracle former behind)
      (Entity.remove OracleSnapshot (OracleSnapshot.idOf oracle.id block.height tx.txid) >>=
        fun _ => Oracle.eraseMemberships oracle.id oracle.priceFeeds) start := by
  refine runs_bind (runs_remove_wf hwf _) ?_
  rintro _ after hafter rfl
  refine (runs_eraseMemberships_wf hafter oracle.id oracle.priceFeeds).mono ?_
  rintro _ last hlast rfl
  refine ⟨hlast, fun k => ?_, fun k hk => ?_, fun k => ?_⟩
  · rw [find_removedAll, if_neg (by simp [Entity.model]), find_removed,
      hagree _ (by simp [oracleModels]), find_written_snapshot, written_id hwritten]
    by_cases hk : k = OracleSnapshot.idOf oracle.id block.height tx.txid
    · rw [if_pos ⟨rfl, hk⟩, hk, hfree]
    · rw [if_neg fun hc => hk hc.2, if_neg hk]
  · rw [find_removedAll, if_neg (by simp [Entity.model]), find_removed,
      if_neg (by simp [Entity.model]), hagree _ (by simp [oracleModels]), find_written_oracle,
      if_neg hk]
  · rw [find_removedAll, find_removed, if_neg (by simp [Entity.model]) (c := _ = _ ∧ k = _),
      hagree _ (by simp [oracleModels]), find_written_membership]
    simp only [List.mem_append, true_and]
    by_cases hk : k ∈ oracle.priceFeeds.map fun pair => Membership.idOf pair oracle.id
    · rw [if_pos hk, if_pos (Or.inl hk)]
    · -- Under every other key the oracle has written nothing.
      have hnone : lastStored (Membership.ofAll oracle) k = none := by
        rcases hlast' : lastStored (Membership.ofAll oracle) k with _ | found
        · rfl
        · rcases Membership.key_of_lastStored hlast' with ⟨pair, hpair, hkey⟩
          exact absurd (List.mem_map.mpr ⟨pair, hpair, hkey.symm⟩) hk
      rw [if_neg hk, hnone, Option.none_or]
      simp only [hk, false_or]

/-- An appointment is taken back where nothing of the oracle was there before. -/
theorem reverts_appointOracle {data : AppointOracle} (htag : op.tag = .appointOracle)
    (hdata : decodePayload AppointOracle.read tx op = .ok data)
    (hsnapshot : t.find (model OracleSnapshot)
      (OracleSnapshot.idOf tx.txid block.height tx.txid) = none)
    (horacle : t.find (model Oracle) tx.txid = none)
    (hmembers : ∀ pair, t.find (model Membership) (Membership.idOf pair tx.txid) = none) :
    Reverts oracleModels (Indexer.appointOracle.hook .undo (.transaction tx op) block)
      (writtenStore (removedAll Membership t []) (data.toOracle tx.txid block) tx.txid order)
      t := by
  intro start hwf hagree
  have hwritten : block.written tx op = some (data.toOracle tx.txid block) :=
    Block.written_of_appointOracle htag hdata
  refine runs_bind (runs_ofExcept_eq hdata hwf) ?_
  rintro data' behind - ⟨rfl, rfl⟩
  have hunwritten := runs_unwritten hwf hwritten hsnapshot hagree
  rw [← LawfulMonad.bind_assoc]
  -- The oracle goes last, and nothing is brought back.
  refine runs_bind hunwritten fun _ w _ hw => ?_
  refine runs_remove hw.wf (wf_removed hw.wf _) fun m hm k => ?_
  rw [find_removed]
  simp only [oracleModels, List.mem_cons, List.not_mem_nil, or_false] at hm
  rcases hm with rfl | rfl | rfl
  · rw [if_neg (by simp [Entity.model]), hw.snapshots]
  · by_cases hk : k = tx.txid
    · rw [if_pos ⟨rfl, hk⟩, hk, horacle]
    · rw [if_neg fun hc => hk hc.2, hw.oracles k hk]
  · rw [if_neg (by simp [Entity.model]), hw.memberships]
    split
    · next hk =>
      rw [List.append_nil] at hk
      rcases List.mem_map.mp hk with ⟨pair, _, rfl⟩
      exact (hmembers pair).symm
    · rfl

/-- An update is taken back where the store was coherent before. -/
theorem reverts_updateOracle {data : UpdateOracle} {previous : Oracle} {former : List String}
    (htag : op.tag = .updateOracle) (hdata : decodePayload UpdateOracle.read tx op = .ok data)
    (h : Coherent t) (hlive : t.find (model Oracle) data.oracleId = some (stored previous))
    (hsnapshot : t.find (model OracleSnapshot)
      (OracleSnapshot.idOf data.oracleId block.height tx.txid) = none)
    (hformer : ∀ k ∈ former, ∃ pair, k = Membership.idOf pair data.oracleId) :
    Reverts oracleModels (Indexer.updateOracle.hook .undo (.transaction tx op) block)
      (writtenStore (removedAll Membership t former) (data.toOracle block) tx.txid order) t := by
  intro start hwf hagree
  have hwritten : block.written tx op = some (data.toOracle block) :=
    Block.written_of_updateOracle htag hdata
  refine runs_bind (runs_ofExcept_eq hdata hwf) ?_
  rintro data' behind - ⟨rfl, rfl⟩
  have hunwritten := runs_unwritten hwf hwritten hsnapshot hagree
  rw [← LawfulMonad.bind_assoc]
  -- Without the snapshot of the update the one before it is the newest again.
  refine runs_bind hunwritten fun _ w _ hw => ?_
  refine runs_restored h hlive block tx hw.wf hw.snapshots hw.oracles (fun k hk => ?_)
    hw.memberships
  rcases List.mem_append.mp hk with hown | hbefore
  · rcases List.mem_map.mp hown with ⟨pair, _, rfl⟩
    exact ⟨pair, rfl⟩
  · exact hformer k hbefore

/-- So is a removal. -/
theorem reverts_removeOracle {data : RemoveOracle} {previous : Oracle} {former : List String}
    (hdata : decodePayload RemoveOracle.read tx op = .ok data)
    (h : Coherent t) (hlive : t.find (model Oracle) data.oracleId = some (stored previous))
    (hformer : ∀ k ∈ former, ∃ pair, k = Membership.idOf pair data.oracleId) :
    Reverts oracleModels (Indexer.removeOracle.hook .undo (.transaction tx op) block)
      (removed Oracle (removedAll Membership t former) data.oracleId) t := by
  intro start hwf hagree
  refine runs_bind (runs_ofExcept_eq hdata hwf) ?_
  rintro data' behind - ⟨rfl, rfl⟩
  refine runs_restored h hlive block tx hwf (fun k => ?_) (fun k hk => ?_) hformer fun k => ?_
  · rw [hagree _ (by simp [oracleModels]), find_erased_snapshot]
  · rw [hagree _ (by simp [oracleModels]), find_erased_oracle, if_neg hk]
  · rw [hagree _ (by simp [oracleModels]), find_erased_membership]

end

end ChainIndex
