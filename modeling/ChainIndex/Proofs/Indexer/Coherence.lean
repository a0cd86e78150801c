import ChainIndex.Proofs.Program.Records
import ChainIndex.Proofs.Text.Keys
import ChainIndex.Indexer.Standard

/-!
# Oracles, snapshots and memberships say the same

Undoing an update brings an oracle back as its newest snapshot shows it. That this is the
oracle as it was before is not about the update at all. It is about the store: the newest
snapshot of every oracle shows the oracle as it is, and the memberships there are those
that the oracles would write. `Coherent` says so, and it is what every operation on oracles
keeps, at the end of its hook if not within.

A snapshot is newer than another one by the height of its block, and within a block by the
position of its transaction. The scan for the newest one compares sort keys, which comes to
the same.

## Main definitions

* `OracleSnapshot.Earlier`: One snapshot comes before another.
* `OracleSnapshot.Latest`: The newest snapshot of its oracle.
* `Membership.ofAll`: The memberships of an oracle.
* `Coherent`: Oracles, snapshots and memberships say the same.

## Theorems

* `Latest.greatest`: The newest snapshot stands at the greatest place.
* `latest_put`, `Latest.of_other`: What another snapshot changes about it.
* `Coherent.kept_iff`: The memberships that are left when those of an oracle are erased.
* `Coherent.write`, `Coherent.erase`: What keeps a store coherent.
-/

namespace ChainIndex

open Entity

namespace OracleSnapshot

/-- One snapshot comes before another: by height, then by position. -/
def Earlier (s s' : OracleSnapshot) : Prop :=
  s.block.height < s'.block.height ∨ s.block.height = s'.block.height ∧ s.order < s'.order

/-- Where a snapshot stands among those of its oracle. -/
def place (s : OracleSnapshot) : Place :=
  ⟨encodeHeight s.block.height ++ "-" ++ encodeHeight s.order ++ "-" ++ s.txid, s.id⟩

/-- The newest snapshot of its oracle. -/
structure Latest (t : MemoryStore) (s : OracleSnapshot) : Prop where
  here : t.find (model OracleSnapshot) s.id = some (stored s)
  newest : ∀ s' : OracleSnapshot, t.find (model OracleSnapshot) s'.id = some (stored s') →
    s'.oracleId = s.oracleId → s' = s ∨ s'.Earlier s

theorem place_of_mem {t : MemoryStore} (hwf : t.WF) (htyped : Typed OracleSnapshot t) {id : String}
    {place : Place}
    (h : place ∈ (t.model (model OracleSnapshot)).placesAt ⟨byOracle.name, id⟩) :
    ∃ s : OracleSnapshot, t.find (model OracleSnapshot) s.id = some (stored s) ∧
      s.oracleId = id ∧ place = s.place := by
  rcases ((hwf _).mem_placesAt _ _).mp h with ⟨found, hfound, hentry⟩
  rcases htyped place.key found hfound with ⟨s, rfl, hk⟩
  change place.key = s.id at hk
  simp only [stored, Entity.entries, List.mem_singleton, IndexEntry.mk.injEq] at hentry
  refine ⟨s, hk ▸ hfound, hentry.2.1.symm, ?_⟩
  rcases place with ⟨sort, k⟩
  simp only at hk hentry
  rw [OracleSnapshot.place, hk, hentry.2.2]

theorem mem_placesAt {t : MemoryStore} (hwf : t.WF) {s : OracleSnapshot}
    (h : t.find (model OracleSnapshot) s.id = some (stored s)) :
    s.place ∈ (t.model (model OracleSnapshot)).placesAt ⟨byOracle.name, s.oracleId⟩ := by
  refine ((hwf _).mem_placesAt _ _).mpr ⟨stored s, h, ?_⟩
  simp [stored, Entity.entries, OracleSnapshot.place]

/-- The newest snapshot stands at the greatest place of its partition. -/
theorem Latest.greatest {t : MemoryStore} {s : OracleSnapshot} (h : Latest t s) (hwf : t.WF)
    (htyped : Typed OracleSnapshot t) :
    (t.model (model OracleSnapshot)).Greatest ⟨byOracle.name, s.oracleId⟩ s.place := by
  refine ⟨mem_placesAt hwf h.here, fun place hplace => ?_⟩
  rcases place_of_mem hwf htyped hplace with ⟨s', hs', hid, rfl⟩
  rcases h.newest s' hs' hid with rfl | hearlier
  · exact Or.inl rfl
  · exact Or.inr (Place.compare_of_lt (Text.sortKey_lt hearlier _ _))

section

variable {t after : MemoryStore} {s snapshot : OracleSnapshot}
variable (hput : ∀ k, after.find (model OracleSnapshot) k =
  if k = snapshot.id then some (stored snapshot) else t.find (model OracleSnapshot) k)

include hput

/-- A snapshot that is put where every other one of its oracle comes before it. -/
theorem latest_put (hnewest : ∀ s : OracleSnapshot,
      t.find (model OracleSnapshot) s.id = some (stored s) →
        s.oracleId = snapshot.oracleId → s.Earlier snapshot) : Latest after snapshot := by
  refine ⟨by rw [hput, if_pos rfl], fun s hs hsame => ?_⟩
  rw [hput] at hs
  by_cases hkey : s.id = snapshot.id
  · rw [if_pos hkey, Option.some.injEq] at hs
    exact Or.inl (stored_injective hs.symm)
  · rw [if_neg hkey] at hs
    exact Or.inr (hnewest s hs hsame)

/-- A snapshot under a free key does not count for any oracle but its own. -/
theorem Latest.of_other (h : Latest t s)
    (hfree : t.find (model OracleSnapshot) snapshot.id = none)
    (hother : s.oracleId ≠ snapshot.oracleId) : Latest after s := by
  have hne : s.id ≠ snapshot.id := by
    intro heq
    have hhere := h.here
    rw [heq, hfree] at hhere
    exact absurd hhere (by simp)
  refine ⟨by rw [hput, if_neg hne, h.here], fun s' hs' hsame => ?_⟩
  rw [hput] at hs'
  by_cases hkey : s'.id = snapshot.id
  · rw [if_pos hkey, Option.some.injEq] at hs'
    rw [← stored_injective hs'] at hsame
    exact absurd hsame.symm hother
  · rw [if_neg hkey] at hs'
    exact h.newest s' hs' hsame

end

end OracleSnapshot

open OracleSnapshot

/-- The memberships of an oracle, in the order in which they are written. -/
def Membership.ofAll (oracle : Oracle) : List Membership :=
  oracle.priceFeeds.map (Membership.ofOracle oracle)

/-- What an oracle writes as a membership is under a key of its own. -/
theorem Membership.key_of_lastStored {oracle : Oracle} {k : String} {found : Stored}
    (h : lastStored (ofAll oracle) k = some found) :
    ∃ pair ∈ oracle.priceFeeds, k = idOf pair oracle.id := by
  rcases lastStored_mem h with ⟨member, hmem, hk, _⟩
  rcases List.mem_map.mp hmem with ⟨pair, hpair, rfl⟩
  exact ⟨pair, hpair, hk⟩

/-- Oracles, snapshots and memberships say the same. -/
structure Coherent (t : MemoryStore) : Prop where
  wf : t.WF
  snapshots : Typed OracleSnapshot t
  oracles : ∀ id found, t.find (model Oracle) id = some found →
    ∃ s : OracleSnapshot, found = stored s.toOracle ∧ s.oracleId = id ∧ Text.DashFree id ∧
      Latest t s
  memberships : ∀ k found, t.find (model Membership) k = some found ↔
    ∃ id oracle, t.find (model Oracle) id = some (stored oracle) ∧
      lastStored (Membership.ofAll oracle) k = some found

namespace Coherent

variable {t after : MemoryStore}

theorem oracle_typed (h : Coherent t) {id : String} {found : Stored}
    (hfound : t.find (model Oracle) id = some found) :
    ∃ oracle : Oracle, found = stored oracle ∧ oracle.id = id ∧ Text.DashFree id := by
  rcases h.oracles id found hfound with ⟨s, rfl, hid, hdash, _⟩
  exact ⟨s.toOracle, rfl, hid, hdash⟩

/-- What an oracle has as a membership is under a key that ends in its id. -/
theorem key_of_oracle (h : Coherent t) {id k : String} {oracle : Oracle} {found : Stored}
    (horacle : t.find (model Oracle) id = some (stored oracle))
    (hlast : lastStored (Membership.ofAll oracle) k = some found) :
    oracle.id = id ∧ Text.DashFree id ∧
      ∃ pair ∈ oracle.priceFeeds, k = Membership.idOf pair id := by
  rcases h.oracle_typed horacle with ⟨oracle', heq, hid, hdash⟩
  rw [← stored_injective heq] at hid
  exact ⟨hid, hdash, hid ▸ Membership.key_of_lastStored hlast⟩

/-- No other oracle has a membership under a key of this one. -/
theorem key_foreign (h : Coherent t) {own id k : String} {other : Oracle} {found : Stored}
    (hdash : Text.DashFree own) (hother : t.find (model Oracle) id = some (stored other))
    (hlast : lastStored (Membership.ofAll other) k = some found) (hne : id ≠ own)
    (pair : PricePair) : k ≠ Membership.idOf pair own := by
  intro hk
  rcases h.key_of_oracle hother hlast with ⟨_, hdash', pair', _, hk'⟩
  exact hne (Text.append_dash_injective hdash' hdash (hk'.symm.trans hk)).2

/-- A membership that is held belongs to the oracle at the end of its key. -/
theorem membership_of_key (h : Coherent t) {k id : String} {pair : PricePair} {found : Stored}
    (hdash : Text.DashFree id) (hk : k = Membership.idOf pair id)
    (hfound : t.find (model Membership) k = some found) :
    ∃ oracle : Oracle, t.find (model Oracle) id = some (stored oracle) ∧ oracle.id = id ∧
      lastStored (Membership.ofAll oracle) k = some found := by
  rcases (h.memberships k found).mp hfound with ⟨id', oracle, horacle, hlast⟩
  rcases h.key_of_oracle horacle hlast with ⟨hid, hdash', pair', _, hk'⟩
  have hids := (Text.append_dash_injective hdash hdash' (hk.symm.trans hk')).2
  exact ⟨oracle, hids ▸ horacle, hid.trans hids.symm, hlast⟩

/-- When the memberships of an oracle are erased, those of the other oracles are left. -/
theorem kept_iff (h : Coherent t) {own : String} {erased : List String}
    (hdash : Text.DashFree own)
    (hown : ∀ k ∈ erased, ∃ pair, k = Membership.idOf pair own)
    (hformer : ∀ former : Oracle, t.find (model Oracle) own = some (stored former) →
      ∀ pair ∈ former.priceFeeds, Membership.idOf pair own ∈ erased)
    (k : String) (found : Stored) :
    (if k ∈ erased then none else t.find (model Membership) k) = some found ↔
      ∃ id other, id ≠ own ∧ t.find (model Oracle) id = some (stored other) ∧
        lastStored (Membership.ofAll other) k = some found := by
  constructor
  · intro hfound
    by_cases hmem : k ∈ erased
    · rw [if_pos hmem] at hfound
      exact absurd hfound (by simp)
    · rw [if_neg hmem] at hfound
      rcases (h.memberships k found).mp hfound with ⟨id, other, hother, hlast⟩
      refine ⟨id, other, fun hid => ?_, hother, hlast⟩
      -- Every membership that the oracle itself had has been erased.
      subst hid
      rcases h.key_of_oracle hother hlast with ⟨_, _, pair, hpair, rfl⟩
      exact hmem (hformer other hother pair hpair)
  · rintro ⟨id, other, hne, hother, hlast⟩
    have hkept : k ∉ erased := fun hmem => by
      rcases hown k hmem with ⟨pair, hk⟩
      exact h.key_foreign hdash hother hlast hne pair hk
    rw [if_neg hkept]
    exact (h.memberships k found).mpr ⟨id, other, hother, hlast⟩

/-- A store that holds the same of oracles is as coherent. -/
theorem congr (h : Coherent t) (hwf : after.WF)
    (hsnapshots : ∀ k, after.find (model OracleSnapshot) k = t.find (model OracleSnapshot) k)
    (horacles : ∀ k, after.find (model Oracle) k = t.find (model Oracle) k)
    (hmemberships : ∀ k, after.find (model Membership) k = t.find (model Membership) k) :
    Coherent after := by
  refine ⟨hwf, fun k found hfound => ?_, fun id found hfound => ?_, fun k found => ?_⟩
  · exact h.snapshots k found (hsnapshots k ▸ hfound)
  · rcases h.oracles id found (horacles id ▸ hfound) with ⟨s, hs, hid, hdash, hlatest⟩
    refine ⟨s, hs, hid, hdash, (hsnapshots s.id).trans hlatest.here, fun s' hs' => ?_⟩
    exact hlatest.newest s' (hsnapshots s'.id ▸ hs')
  · rw [hmemberships, h.memberships]
    simp only [horacles]

/-- An oracle that is written with its memberships and a snapshot newer than every other,
    after the memberships it had are gone. -/
theorem write (h : Coherent t) (oracle : Oracle) (snapshot : OracleSnapshot)
    (erased : List String) (hwf : after.WF) (hdash : Text.DashFree oracle.id)
    (hshows : snapshot.toOracle = oracle)
    (hfree : t.find (model OracleSnapshot) snapshot.id = none)
    (hnewest : ∀ s : OracleSnapshot, t.find (model OracleSnapshot) s.id = some (stored s) →
      s.oracleId = oracle.id → s.Earlier snapshot)
    (hown : ∀ k ∈ erased, ∃ pair, k = Membership.idOf pair oracle.id)
    (hformer : ∀ former : Oracle, t.find (model Oracle) oracle.id = some (stored former) →
      ∀ pair ∈ former.priceFeeds, Membership.idOf pair oracle.id ∈ erased)
    (hsnapshots : ∀ k, after.find (model OracleSnapshot) k =
      if k = snapshot.id then some (stored snapshot) else t.find (model OracleSnapshot) k)
    (horacles : ∀ k, after.find (model Oracle) k =
      if k = oracle.id then some (stored oracle) else t.find (model Oracle) k)
    (hmemberships : ∀ k, after.find (model Membership) k =
      (lastStored (Membership.ofAll oracle) k).or
        (if k ∈ erased then none else t.find (model Membership) k)) :
    Coherent after := by
  have hid : snapshot.oracleId = oracle.id := congrArg Oracle.id hshows
  refine ⟨hwf, fun k found hfound => ?_, fun id found hfound => ?_, fun k found => ?_⟩
  · rw [hsnapshots] at hfound
    by_cases hk : k = snapshot.id
    · rw [if_pos hk, Option.some.injEq] at hfound
      exact ⟨snapshot, hfound.symm, hk⟩
    · rw [if_neg hk] at hfound
      exact h.snapshots k found hfound
  · rw [horacles] at hfound
    by_cases hk : id = oracle.id
    · rw [if_pos hk, Option.some.injEq] at hfound
      refine ⟨snapshot, by rw [hshows, hfound], hid.trans hk.symm, hk ▸ hdash, ?_⟩
      exact latest_put hsnapshots fun s hs hsame => hnewest s hs (hsame.trans hid)
    · -- The snapshots of any other oracle are those that were there.
      rw [if_neg hk] at hfound
      rcases h.oracles id found hfound with ⟨s, hs, hsid, hdash', hlatest⟩
      exact ⟨s, hs, hsid, hdash', hlatest.of_other hsnapshots hfree fun hsame =>
        hk (hsid.symm.trans (hsame.trans hid))⟩
  · rw [hmemberships, Option.or_eq_some_iff, h.kept_iff hdash hown hformer]
    simp only [horacles]
    constructor
    · rintro (hlast | ⟨_, id, other, hne, hother, hlast⟩)
      · exact ⟨oracle.id, oracle, if_pos rfl, hlast⟩
      · exact ⟨id, other, (if_neg hne).trans hother, hlast⟩
    · rintro ⟨id, other, hother, hlast⟩
      by_cases hk : id = oracle.id
      · rw [if_pos hk, Option.some.injEq] at hother
        exact Or.inl (stored_injective hother ▸ hlast)
      · -- The oracle writes nothing under a key of another one.
        rw [if_neg hk] at hother
        refine Or.inr ⟨Option.eq_none_iff_forall_ne_some.mpr fun written hwritten => ?_,
          id, other, hk, hother, hlast⟩
        rcases Membership.key_of_lastStored hwritten with ⟨pair, _, hkey⟩
        exact h.key_foreign hdash hother hlast hk pair hkey

/-- An oracle that is taken away with its memberships. Its snapshots stay. -/
theorem erase (h : Coherent t) (oracle : Oracle) (erased : List String) (hwf : after.WF)
    (hdash : Text.DashFree oracle.id)
    (hown : ∀ k ∈ erased, ∃ pair, k = Membership.idOf pair oracle.id)
    (hformer : ∀ former : Oracle, t.find (model Oracle) oracle.id = some (stored former) →
      ∀ pair ∈ former.priceFeeds, Membership.idOf pair oracle.id ∈ erased)
    (hsnapshots : ∀ k, after.find (model OracleSnapshot) k = t.find (model OracleSnapshot) k)
    (horacles : ∀ k, after.find (model Oracle) k =
      if k = oracle.id then none else t.find (model Oracle) k)
    (hmemberships : ∀ k, after.find (model Membership) k =
      if k ∈ erased then none else t.find (model Membership) k) :
    Coherent after := by
  refine ⟨hwf, fun k found hfound => ?_, fun id found hfound => ?_, fun k found => ?_⟩
  · exact h.snapshots k found (hsnapshots k ▸ hfound)
  · rw [horacles] at hfound
    by_cases hk : id = oracle.id
    · rw [if_pos hk] at hfound
      exact absurd hfound (by simp)
    · rw [if_neg hk] at hfound
      rcases h.oracles id found hfound with ⟨s, hs, hid, hdash', hlatest⟩
      refine ⟨s, hs, hid, hdash', (hsnapshots s.id).trans hlatest.here, fun s' hs' => ?_⟩
      exact hlatest.newest s' (hsnapshots s'.id ▸ hs')
  · rw [hmemberships, h.kept_iff hdash hown hformer]
    simp only [horacles]
    constructor
    · rintro ⟨id, other, hne, hother, hlast⟩
      exact ⟨id, other, (if_neg hne).trans hother, hlast⟩
    · rintro ⟨id, other, hother, hlast⟩
      by_cases hk : id = oracle.id
      · rw [if_pos hk] at hother
        exact absurd hother (by simp)
      · rw [if_neg hk] at hother
        exact ⟨id, other, hk, hother, hlast⟩

end Coherent

end ChainIndex
