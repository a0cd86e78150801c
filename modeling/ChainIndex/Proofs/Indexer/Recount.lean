import ChainIndex.Proofs.Indexer.Footprint
import ChainIndex.Proofs.Indexer.Reverts
import ChainIndex.Proofs.Program.Enumeration
import Mathlib.Algebra.GroupWithZero.Nat
import Mathlib.Algebra.Order.BigOperators.Group.List
import Mathlib.Algebra.Order.Group.Nat

/-!
# Totals are a recount

The statistics of masternodes are never counted afresh. A block takes over the totals of the
statistics before it and adds what its own operations create and resign. That the totals are
what a count over all masternodes would give is `Recount`, and it is kept by each operation
together with the table itself: a creation adds a masternode that is not resigned, a
resignation resigns one that was not.

The totals are computed at the end of the block, when all operations are done, and what a
resignation takes off is read from the masternode as it then is. Nothing that happens to a
masternode changes what it locks, so `Tallied` says of the operations done so far what adding
them up comes to on any later store.

## Main definitions

* `resignedBy`, `lockedBy`: What operations resign, and what they lock.
* `Masternode.enabled`: The masternodes that are not resigned.
* `MasternodeTotals.Recount`: Totals are those of a count.
* `NodesFrom`: The masternodes of a store come from some operations.
* `Tally`: What adding up operations comes to, and that it is a recount.
* `NodeStep`: What an operation does to masternodes and is taken back.

## Theorems

* `Recount.created`, `Recount.resigned`: What a creation and a resignation change.
* `Recount.exact`: A recount fits into the words that it is kept in.
* `runs_nodeStep`: Any operation.
-/

namespace ChainIndex

open Entity Program MemoryStore

/-! ## What operations do to masternodes -/

namespace DecodedOp

/-- The operation creates or resigns a masternode. -/
def Moves (op : DecodedOp) : Prop :=
  op.tag = .createMasternode ∨ op.tag = .resignMasternode

/-- What the masternode locks that an operation creates. -/
def locks (tx : Transaction) (op : DecodedOp) : Option UInt64 :=
  if op.tag = .createMasternode then (collateralOf tx op).toOption.map Prod.snd else none

end DecodedOp

/-- The masternodes that operations resign. -/
def resignedBy (ops : List (Transaction × DecodedOp)) : List String :=
  ops.filterMap fun p => p.2.resigned

/-- What the masternodes lock that operations create. -/
def lockedBy (ops : List (Transaction × DecodedOp)) : List UInt64 :=
  ops.filterMap fun p => p.2.locks p.1

section

variable (ops : List (Transaction × DecodedOp)) {tx : Transaction} {op : DecodedOp}

theorem resignedBy_snoc :
    resignedBy (ops ++ [(tx, op)]) = resignedBy ops ++ op.resigned.toList := by
  cases hop : op.resigned with
  | none => simp [resignedBy, hop]
  | some id => simp [resignedBy, hop]

theorem lockedBy_snoc : lockedBy (ops ++ [(tx, op)]) = lockedBy ops ++ (op.locks tx).toList := by
  cases hop : op.locks tx with
  | none => simp [lockedBy, hop]
  | some locked => simp [lockedBy, hop]

end

/-! ## Counting -/

/-- The masternodes of a store that are not resigned. -/
def Masternode.enabled (t : MemoryStore) : List Masternode :=
  (all Masternode t).filter fun node => node.resignHeight.isNone

/-- The totals are what counting the masternodes of a store gives: how many are not resigned,
    and what they lock. -/
structure MasternodeTotals.Recount (totals : MasternodeTotals) (t : MemoryStore) : Prop where
  count : totals.count = (Masternode.enabled t).length
  tvl : totals.tvl = ((Masternode.enabled t).map fun node => node.collateral.toNat).sum

/-- The masternodes of a store come from some operations: each has the id of a transaction, is
    resigned only by one of them, and together they lock what was locked. -/
structure NodesFrom (ops : List (Transaction × DecodedOp)) (t : MemoryStore) : Prop where
  typed : Typed Masternode t
  created : ∀ node : Masternode, Held t node → node.id ∈ ops.map fun p => p.1.txid
  resigned : ∀ node : Masternode, Held t node → node.id ∈ resignedBy ops ∨ node.unresigned = node
  locked : ((all Masternode t).map Masternode.collateral).Perm (lockedBy ops)

section

variable {t after : MemoryStore} {totals : MasternodeTotals} {node later : Masternode}
variable {ops : List (Transaction × DecodedOp)}

theorem nodesFrom_empty : NodesFrom [] .empty where
  typed := by simp [Typed]
  created := by simp [Held]
  resigned := by simp [Held]
  locked := .refl _

theorem NodesFrom.congr (h : NodesFrom ops t) (hagree : after.Agree [model Masternode] t) :
    NodesFrom ops after := by
  have hfind := hagree (model Masternode) (by simp)
  refine ⟨h.typed.congr hfind,
    fun node hnode => h.created node ((held_congr hfind node).mp hnode),
    fun node hnode => h.resigned node ((held_congr hfind node).mp hnode), ?_⟩
  rw [all_congr Masternode hfind]
  exact h.locked

namespace MasternodeTotals.Recount

theorem congr (h : totals.Recount t) (hagree : after.Agree [model Masternode] t) :
    totals.Recount after := by
  have hsame : Masternode.enabled after = Masternode.enabled t := by
    rw [Masternode.enabled, all_congr Masternode (hagree (model Masternode) (by simp))]
    rfl
  exact ⟨hsame ▸ h.count, hsame ▸ h.tvl⟩

/-- A masternode that is created counts. -/
theorem created (h : totals.Recount t) (htyped : Typed Masternode t)
    (hfree : t.find (model Masternode) (key node) = none) (hnode : node.resignHeight = none) :
    Recount ⟨totals.count + 1, totals.tvl + node.collateral.toNat, true⟩ (saved t node) := by
  have hperm : (Masternode.enabled (saved t node)).Perm (node :: Masternode.enabled t) := by
    have hfilter := (all_saved_fresh htyped hfree).filter fun node => node.resignHeight.isNone
    rwa [List.filter_cons_of_pos (by simp [hnode])] at hfilter
  constructor
  · rw [hperm.length_eq, List.length_cons, h.count]
    rfl
  · change totals.tvl + node.collateral.toNat = _
    rw [(hperm.map _).sum_nat, List.map_cons, List.sum_cons, h.tvl]
    omega

/-- A masternode that is resigned does not count any longer. -/
theorem resigned (h : totals.Recount t) (htyped : Typed Masternode t) (hheld : Held t node)
    (hnode : node.resignHeight = none) (hid : later.id = node.id)
    (hlater : later.resignHeight ≠ none) :
    Recount ⟨totals.count - 1, totals.tvl - node.collateral.toNat, true⟩ (saved t later) := by
  rcases all_saved_held htyped hheld hid with ⟨rest, hbefore, hafter⟩
  have hcounted := hbefore.filter fun node => node.resignHeight.isNone
  have hleft := hafter.filter fun node => node.resignHeight.isNone
  rw [List.filter_cons_of_pos (by simp [hnode])] at hcounted
  rw [List.filter_cons_of_neg (by simpa using hlater)] at hleft
  constructor
  · have hlength : (Masternode.enabled t).length = _ := hcounted.length_eq
    have hless : (Masternode.enabled (saved t later)).length = _ := hleft.length_eq
    change totals.count - 1 = _
    rw [h.count, hlength, hless, List.length_cons]
    omega
  · have hsum : ((Masternode.enabled t).map fun node => node.collateral.toNat).sum = _ :=
      (hcounted.map fun node => node.collateral.toNat).sum_nat
    have hless : ((Masternode.enabled (saved t later)).map fun node => node.collateral.toNat).sum
      = _ := (hleft.map fun node => node.collateral.toNat).sum_nat
    change totals.tvl - node.collateral.toNat = _
    rw [h.tvl, hsum, hless, List.map_cons, List.sum_cons]
    omega

/-- No clamp and no overflow: the statistics have the totals as they are, if the masternodes of
    the store are few enough and lock little enough. -/
theorem exact (h : totals.Recount t) (hfrom : NodesFrom ops t)
    (hfew : (lockedBy ops).length < UInt32.size)
    (hlight : ((lockedBy ops).map UInt64.toNat).sum < UInt64.size) (block : Block) :
    ((totals.toStats block).count.toNat : Int) = totals.count ∧
      ((totals.toStats block).tvl.toNat : Int) = totals.tvl := by
  -- Those that count are some of all that were created.
  have hsublist : (Masternode.enabled t).Sublist (all Masternode t) := List.filter_sublist
  have hcount : (Masternode.enabled t).length < UInt32.size := by
    refine lt_of_le_of_lt hsublist.length_le ?_
    rw [← List.length_map (f := Masternode.collateral), hfrom.locked.length_eq]
    exact hfew
  have htvl : ((Masternode.enabled t).map fun node => node.collateral.toNat).sum
      < UInt64.size := by
    refine lt_of_le_of_lt ((hsublist.map _).sum_le_sum fun _ _ => Nat.zero_le _) ?_
    have hlocked := (hfrom.locked.map UInt64.toNat).sum_nat
    rw [List.map_map] at hlocked
    exact lt_of_eq_of_lt hlocked hlight
  rw [toStats, h.count, h.tvl, Int.toNat_natCast, Int.toNat_natCast,
    UInt32.toNat_ofNat_of_lt' hcount, UInt64.toNat_ofNat_of_lt' htvl]
  exact ⟨rfl, rfl⟩

end MasternodeTotals.Recount

end

/-! ## Adding up -/

/-- Every masternode of one store is in another one, with what it locks. -/
def MemoryStore.Carries (t w : MemoryStore) : Prop :=
  ∀ node : Masternode, Held t node →
    ∃ later : Masternode, Held w later ∧ later.id = node.id ∧ later.collateral = node.collateral

/-- What adding up operations comes to, on any later store. -/
def Tallied (t : MemoryStore) (ops : List (Transaction × DecodedOp))
    (start totals : MasternodeTotals) : Prop :=
  ∀ w : MemoryStore, w.WF → Typed Masternode w → t.Carries w →
    Runs MemoryStore.WF False (fun result behind => behind = w ∧ result = totals)
      (ops.foldlM (fun totals (tx, op) => totals.afterOp tx op) start) w

/-- Adding up operations comes to a recount of the store that they have left. -/
structure Tally (start : MasternodeTotals) (ops : List (Transaction × DecodedOp))
    (t : MemoryStore) (totals : MasternodeTotals) : Prop where
  tallied : Tallied t ops start totals
  recount : totals.Recount t
  changed : totals.changed = true ↔ ∃ p ∈ ops, p.2.Moves
  still : totals.changed = false → totals = start

section

variable {t after w : MemoryStore} {start totals next : MasternodeTotals}
variable {done : List (Transaction × DecodedOp)} {tx : Transaction} {op : DecodedOp}

theorem MemoryStore.Carries.trans (h : t.Carries after) (hafter : after.Carries w) :
    t.Carries w := by
  intro node hnode
  rcases h node hnode with ⟨mid, hmid, hid, hlocked⟩
  rcases hafter mid hmid with ⟨later, hlater, hlaterId, hlaterLocked⟩
  exact ⟨later, hlater, hlaterId.trans hid, hlaterLocked.trans hlocked⟩

/-- A masternode takes the place of one that locks as much, or of none. -/
theorem carries_saved {later : Masternode}
    (h : ∀ node : Masternode, Held t node → node.id = later.id →
      later.collateral = node.collateral) : t.Carries (saved t later) := by
  intro node hnode
  by_cases hid : node.id = later.id
  · exact ⟨later, held_saved t later, hid.symm, h node hnode hid⟩
  · refine ⟨node, ?_, rfl, rfl⟩
    rw [Held, find_saved, if_neg fun hc => hid hc.2]
    exact hnode

theorem Tally.nil (h : start.Recount t) (hstart : start.changed = false) :
    Tally start [] t start where
  tallied _ hwf _ _ := runs_pure hwf ⟨rfl, rfl⟩
  recount := h
  changed := by simp [hstart]
  still _ := rfl

theorem Tally.congr (h : Tally start done t totals) (hagree : after.Agree [model Masternode] t) :
    Tally start done after totals where
  tallied w hwf htyped hw := h.tallied w hwf htyped fun node hnode =>
    hw node ((held_congr (hagree _ (by simp)) node).mpr hnode)
  recount := h.recount.congr hagree
  changed := h.changed
  still := h.still

/-- One more operation is added at the end. -/
theorem Tally.snoc (h : Tally start done t totals) (hcarries : t.Carries after)
    (hadds : ∀ w : MemoryStore, w.WF → Typed Masternode w → after.Carries w →
      Runs MemoryStore.WF False (fun result behind => behind = w ∧ result = next)
        (totals.afterOp tx op) w)
    (hrecount : next.Recount after)
    (hchanged : next.changed = true ↔ totals.changed = true ∨ op.Moves)
    (hstill : next.changed = false → next = totals) :
    Tally start (done ++ [(tx, op)]) after next where
  tallied w hwf htyped hw := by
    rw [List.foldlM_append]
    refine runs_bind (h.tallied w hwf htyped (hcarries.trans hw)) ?_
    rintro result behind hbehind ⟨rfl, rfl⟩
    refine runs_bind (hadds behind hbehind htyped hw) ?_
    rintro result behind hbehind ⟨rfl, rfl⟩
    exact runs_pure hbehind ⟨rfl, rfl⟩
  recount := hrecount
  changed := by
    rw [hchanged, h.changed]
    constructor
    · rintro (⟨p, hp, hmoves⟩ | hmoves)
      · exact ⟨p, List.mem_append_left _ hp, hmoves⟩
      · exact ⟨_, List.mem_concat_self, hmoves⟩
    · rintro ⟨p, hp, hmoves⟩
      rcases List.mem_append.mp hp with hp | hp
      · exact Or.inl ⟨p, hp, hmoves⟩
      · rw [List.mem_singleton.mp hp] at hmoves
        exact Or.inr hmoves
  still hfalse := by
    have hsame := hstill hfalse
    exact hsame.trans (h.still (hsame ▸ hfalse))

theorem runs_afterOp_create {script : String} {locked : UInt64}
    (htag : op.tag = .createMasternode) (hlocked : collateralOf tx op = .ok (script, locked))
    (hwf : w.WF) :
    Runs MemoryStore.WF False (fun result behind => behind = w ∧
      result = ⟨totals.count + 1, totals.tvl + locked.toNat, true⟩) (totals.afterOp tx op) w := by
  unfold MasternodeTotals.afterOp
  simp only [htag]
  refine runs_bind (runs_ofExcept_eq hlocked hwf) ?_
  rintro _ behind hbehind ⟨rfl, rfl⟩
  exact runs_pure hbehind ⟨rfl, rfl⟩

theorem runs_afterOp_resign {data : ResignMasternode} {node : Masternode}
    (htag : op.tag = .resignMasternode)
    (hdata : decodePayload ResignMasternode.read tx op = .ok data) (hheld : Held w node)
    (hid : node.id = data.nodeId) (hwf : w.WF) :
    Runs MemoryStore.WF False (fun result behind => behind = w ∧
      result = ⟨totals.count - 1, totals.tvl - node.collateral.toNat, true⟩)
      (totals.afterOp tx op) w := by
  have hfound : w.find (model Masternode) data.nodeId = some (stored node) := hid ▸ hheld
  unfold MasternodeTotals.afterOp
  simp only [htag]
  refine runs_bind (runs_ofExcept_eq hdata hwf) ?_
  rintro _ behind hbehind ⟨rfl, rfl⟩
  refine runs_bind (runs_require_held hbehind hfound) ?_
  rintro found last hlast ⟨rfl, rfl⟩
  exact runs_pure hlast ⟨rfl, rfl⟩

theorem runs_afterOp_other (hmoves : ¬ op.Moves) (hwf : w.WF) :
    Runs MemoryStore.WF False (fun result behind => behind = w ∧ result = totals)
      (totals.afterOp tx op) w := by
  unfold MasternodeTotals.afterOp
  split
  · next htag => exact absurd (Or.inl htag) hmoves
  · next htag => exact absurd (Or.inr htag) hmoves
  · exact runs_pure hwf ⟨rfl, rfl⟩

end

/-! ## One operation -/

/-- The models of masternodes. -/
def nodeModels : List String := [model Masternode, model MasternodeStats]

theorem MemoryStore.Agree.nodes {t after : MemoryStore} (h : after.Agree nodeModels t) :
    after.Agree [Entity.model Masternode] t :=
  fun m hm => h m (by simp_all [nodeModels])

theorem MemoryStore.Agree.stats {t after : MemoryStore} (h : after.Agree nodeModels t) :
    after.Agree [Entity.model MasternodeStats] t :=
  fun m hm => h m (by simp_all [nodeModels])

/-- What an operation does to masternodes: they come from the operations with this one, the
    statistics stay, and what was added up to a recount can be added up further. -/
structure NodeStep (ops : List (Transaction × DecodedOp)) (tx : Transaction) (op : DecodedOp)
    (t after : MemoryStore) : Prop where
  nodes : NodesFrom (ops ++ [(tx, op)]) after
  stats : after.Agree [model MasternodeStats] t
  tally : ∀ start done totals, Tally start done t totals →
    ∃ next, Tally start (done ++ [(tx, op)]) after next

section

variable {ops : List (Transaction × DecodedOp)} {tx : Transaction} {op : DecodedOp}
variable {t after : MemoryStore} {block : Block} {node later : Masternode}

/-- A masternode is created under the id of the transaction. -/
theorem NodeStep.created {script : String} (h : NodesFrom ops t)
    (hfree : t.find (model Masternode) (key node) = none) (htag : op.tag = .createMasternode)
    (hid : node.id = tx.txid) (hnode : node.unresigned = node)
    (hlocked : collateralOf tx op = .ok (script, node.collateral)) :
    NodeStep ops tx op t (saved t node) where
  nodes := by
    have hlocks : op.locks tx = some node.collateral := by
      rw [DecodedOp.locks, if_pos htag, hlocked]
      rfl
    refine ⟨h.typed.saved node, fun other hother => ?_, fun other hother => ?_, ?_⟩
    · rw [List.map_append, List.mem_append]
      rcases hother.of_saved with rfl | ⟨_, hother⟩
      · exact Or.inr (by simp [hid])
      · exact Or.inl (h.created other hother)
    · rcases hother.of_saved with rfl | ⟨_, hother⟩
      · exact Or.inr hnode
      · rw [resignedBy_snoc, List.mem_append]
        exact (h.resigned other hother).imp_left Or.inl
    · rw [lockedBy_snoc, hlocks]
      refine ((all_saved_fresh h.typed hfree).map _).trans ?_
      rw [List.map_cons]
      exact (h.locked.cons _).trans (List.perm_append_singleton _ _).symm
  stats := agree_saved (by decide) t node
  tally start done totals htally := by
    have hheight : node.resignHeight = none := by
      rw [← hnode]
      rfl
    have hcarries : t.Carries (saved t node) := carries_saved fun other hother hsame => by
      rw [Held, show key other = key node from hsame, hfree] at hother
      exact absurd hother (by simp)
    exact ⟨_, htally.snoc hcarries (fun w hwf _ _ => runs_afterOp_create htag hlocked hwf)
      (htally.recount.created h.typed hfree hheight) (by simp [DecodedOp.Moves, htag]) (by simp)⟩

/-- A masternode that was not resigned is. -/
theorem NodeStep.resigned {data : ResignMasternode} (h : NodesFrom ops t) (hheld : Held t node)
    (hnode : node.unresigned = node) (htag : op.tag = .resignMasternode)
    (hdata : decodePayload ResignMasternode.read tx op = .ok data) (hid : node.id = data.nodeId)
    (hlaterId : later.id = node.id) (hlocked : later.collateral = node.collateral)
    (hheight : later.resignHeight ≠ none) : NodeStep ops tx op t (saved t later) where
  nodes := by
    have hlocks : op.locks tx = none := by
      rw [DecodedOp.locks, if_neg (by simp [htag])]
    have hresigned : op.resigned = some later.id :=
      (hlaterId.trans hid) ▸ DecodedOp.resigned_of_decode htag hdata
    refine ⟨h.typed.saved later, fun other hother => ?_, fun other hother => ?_, ?_⟩
    · rw [List.map_append, List.mem_append]
      rcases hother.of_saved with rfl | ⟨_, hother⟩
      · exact Or.inl (hlaterId ▸ h.created node hheld)
      · exact Or.inl (h.created other hother)
    · rw [resignedBy_snoc, List.mem_append, hresigned]
      rcases hother.of_saved with rfl | ⟨_, hother⟩
      · exact Or.inl (Or.inr (List.mem_singleton.mpr rfl))
      · exact (h.resigned other hother).imp_left Or.inl
    · rw [lockedBy_snoc, hlocks, Option.toList_none, List.append_nil]
      rcases all_saved_held h.typed hheld hlaterId with ⟨rest, hbefore, hafter⟩
      refine (hafter.map Masternode.collateral).trans (.trans ?_ h.locked)
      rw [List.map_cons, hlocked]
      exact (hbefore.map Masternode.collateral).symm
  stats := agree_saved (by decide) t later
  tally start done totals htally := by
    have hnone : node.resignHeight = none := by
      rw [← hnode]
      rfl
    have hcarries : t.Carries (saved t later) := carries_saved fun other hother hsame => by
      rw [Held, show key other = key node from hsame.trans hlaterId, hheld,
        Option.some.injEq] at hother
      rw [← stored_injective hother, hlocked]
    refine ⟨_, htally.snoc hcarries (fun w hwf _ hw => ?_)
      (htally.recount.resigned h.typed hheld hnone hlaterId hheight)
      (by simp [DecodedOp.Moves, htag]) (by simp)⟩
    -- What is taken off is read from the masternode as it then is.
    rcases hw later (held_saved t later) with ⟨last, hlast, hlastId, hlastLocked⟩
    rw [← hlastLocked.trans hlocked]
    exact runs_afterOp_resign htag hdata hlast (hlastId.trans (hlaterId.trans hid)) hwf

/-- An operation that does nothing to masternodes. -/
theorem NodeStep.other (h : NodesFrom ops t) (hmoves : ¬ op.Moves)
    (hagree : after.Agree nodeModels t) : NodeStep ops tx op t after where
  nodes := by
    have hnodes : NodesFrom ops after := h.congr hagree.nodes
    have hresigned : op.resigned = none := DecodedOp.resigned_of_ne fun hc => hmoves (Or.inr hc)
    have hlocks : op.locks tx = none := by
      rw [DecodedOp.locks, if_neg fun hc => hmoves (Or.inl hc)]
    refine ⟨hnodes.typed, fun node hnode => ?_, ?_, ?_⟩
    · rw [List.map_append]
      exact List.mem_append_left _ (hnodes.created node hnode)
    · rw [resignedBy_snoc, hresigned, Option.toList_none, List.append_nil]
      exact hnodes.resigned
    · rw [lockedBy_snoc, hlocks, Option.toList_none, List.append_nil]
      exact hnodes.locked
  stats := hagree.stats
  tally start done totals htally := by
    have hcarries : t.Carries after := fun node hnode =>
      ⟨node, (held_congr (hagree _ (by simp [nodeModels])) node).mpr hnode, rfl, rfl⟩
    exact ⟨totals, htally.snoc hcarries (fun w hwf _ _ => runs_afterOp_other hmoves hwf)
      (htally.recount.congr hagree.nodes)
      (by simp [hmoves]) fun _ => rfl⟩

/-! ## Operations in a run -/

variable (h : NodesFrom ops t) (hwf : t.WF)

include h hwf

theorem runs_createNode (hfresh : tx.txid ∉ ops.map fun p => p.1.txid)
    (htag : op.tag = .createMasternode) :
    Runs MemoryStore.WF True
      (fun _ behind => NodeStep ops tx op t behind ∧
        Reverts nodeModels (Indexer.createMasternode.hook .undo (.transaction tx op) block)
          behind t)
      (Indexer.createMasternode.hook .apply (.transaction tx op) block) t := by
  -- Every masternode so far is under the id of an earlier transaction.
  have hfree : t.find (model Masternode) tx.txid = none := by
    rcases hfound : t.find (model Masternode) tx.txid with _ | found
    · rfl
    · rcases h.typed.exists_held hfound with ⟨node, _, hk, hheld⟩
      rw [hk] at hfresh
      exact absurd (h.created node hheld) hfresh
  refine runs_bind (runs_ofExcept_ok hwf) ?_
  rintro data behind - ⟨rfl, _⟩
  refine runs_bind (runs_ofExcept_ok hwf) ?_
  rintro ⟨script, locked⟩ after - ⟨rfl, hlocked⟩
  refine (runs_save_wf hwf _).mono ?_
  rintro _ last - rfl
  exact ⟨.created h hfree htag rfl rfl hlocked, .of_free hfree⟩

theorem runs_resignNode (hresigned : ∀ id, op.resigned = some id → id ∉ resignedBy ops)
    (htag : op.tag = .resignMasternode) :
    Runs MemoryStore.WF True
      (fun _ behind => NodeStep ops tx op t behind ∧
        Reverts nodeModels (Indexer.resignMasternode.hook .undo (.transaction tx op) block)
          behind t)
      (Indexer.resignMasternode.hook .apply (.transaction tx op) block) t := by
  refine runs_bind (runs_ofExcept_ok hwf) ?_
  rintro data behind - ⟨rfl, hdata⟩
  refine runs_bind (q := fun node after => after = behind ∧ node.id = data.nodeId ∧
    Held behind node) (runs_require hwf (fun _ => trivial) fun found hfound => ?_) ?_
  · rcases h.typed.exists_held hfound with ⟨node, rfl, hk, hheld⟩
    exact ⟨node, rfl, rfl, hk.symm, hheld⟩
  rintro node after - ⟨rfl, hid, hheld⟩
  -- No operation so far has resigned it.
  have hnode : node.unresigned = node := by
    refine (h.resigned node hheld).resolve_left ?_
    rw [hid]
    exact hresigned _ (DecodedOp.resigned_of_decode htag hdata)
  refine (runs_save_wf hwf _).mono ?_
  rintro _ last - rfl
  refine ⟨.resigned h hheld hnode htag hdata hid rfl rfl (by simp), fun start hstart hagree => ?_⟩
  refine runs_bind (runs_ofExcept_eq hdata hstart) ?_
  rintro data again - ⟨rfl, rfl⟩
  have hback : Reverts nodeModels (save node)
      (saved after { node with resignHeight := some block.height, resignTx := some tx.txid })
      after := .of_held hheld rfl
  -- The masternode is found as it was left, and it is as it was but for the resignation.
  have hfound := hagree (model Masternode) (by simp [nodeModels]) data.nodeId
  rw [find_saved, if_pos ⟨rfl, hid.symm⟩] at hfound
  refine runs_bind (runs_find_held hstart hfound) ?_
  rintro value last hlast ⟨rfl, rfl⟩
  change Runs _ _ _ (save node.unresigned) last
  rw [hnode]
  exact hback last hlast hagree

/-- Any operation. -/
theorem runs_nodeStep (symbol : String) (hfresh : tx.txid ∉ ops.map fun p => p.1.txid)
    (hresigned : ∀ id, op.resigned = some id → id ∉ resignedBy ops) :
    Runs MemoryStore.WF True
      (fun _ behind => NodeStep ops tx op t behind ∧
        Reverts nodeModels ((Indexer.ofTag symbol op.tag).hook .undo (.transaction tx op) block)
          behind t)
      ((Indexer.ofTag symbol op.tag).hook .apply (.transaction tx op) block) t := by
  cases htag : op.tag with
  | createMasternode => exact runs_createNode h hwf hfresh htag
  | resignMasternode => exact runs_resignNode h hwf hresigned htag
  | createToken | appointOracle | updateOracle | removeOracle | setOracleData =>
      have hmoves : ¬ op.Moves := by simp [DecodedOp.Moves, htag]
      have hother : ∀ m ∈ nodeModels, m ∉ op.tag.models := by
        rw [htag]
        decide
      rw [← htag]
      exact ((makes_operation_of_tag symbol block tx op .apply).agrees hother hwf).mono
        fun _ _ _ hagree => ⟨.other h hmoves hagree,
          .of_agree (makes_operation_of_tag symbol block tx op .undo) hother hagree⟩

end

end ChainIndex
