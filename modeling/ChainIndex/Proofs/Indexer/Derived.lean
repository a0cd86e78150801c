import ChainIndex.Proofs.Entity.Drained
import ChainIndex.Proofs.Indexer.Writes

/-!
# Stores that hooks have written

Whatever a hook is run on, what it puts is a value of some kind, and the id and the key of the
value are made of the rest of it. This is a property of the hooks as programs: it holds of any
block, in any order of hooks, after a failure and when a run is cut off. So it holds of all
that a store holds which only hooks have written.

## Main definitions

* `Call.Derived`: The call puts nothing but values with the ids and keys they should have.
* `Registry.Wrote`: A store that the hooks of a registry have written.
* `MemoryStore.Shaped`: All that a store holds is as the indexers write it.

## Theorems

* `makes_derived`: The hooks of the standard indexers put such values only.
* `Wrote.shaped`: So stores that they have written hold such values only.
-/

namespace ChainIndex

open Entity Program

/-- The call puts nothing but values with the ids and keys that are made of the rest. -/
def Call.Derived : Call → Prop
  | .put m record => ∃ (kind : RecordKind) (a : kind.Value),
      kind.Derived a ∧ m = model kind.Value ∧ record = toRecord a
  | _ => True

theorem Call.derived_of_read {c : Call} (h : c.write? = none) : c.Derived := by
  cases c with
  | put => simp [Call.write?] at h
  | _ => trivial

namespace Program

theorem Quiet.makes_derived {α : Type} {program : Program α} (h : Quiet program) :
    Makes Call.Derived program :=
  h.makes_of fun _ => Call.derived_of_read

/-- A value of a kind is saved. -/
theorem makes_put (kind : RecordKind) (hkind : kind ≠ .status) (a : kind.Value)
    (h : kind.Derived a) : Makes Call.Derived (save a) :=
  ⟨⟨_, rfl, fun hc => hkind (RecordKind.eq_of_model_eq hc)⟩, ⟨kind, a, h, rfl, rfl⟩,
    fun e => ⟨e, rfl⟩, fun _ => trivial⟩

theorem makes_delete (α : Type) [Entity α] [Recorded α] (k : String) :
    Makes Call.Derived (remove α k) :=
  ⟨⟨_, rfl, Recorded.model_ne_ledger⟩, trivial, fun e => ⟨e, rfl⟩, fun _ => trivial⟩

end Program

/-! ## The hooks -/

section

variable (phase : Phase) (stage : Stage) (block : Block)

theorem makes_derived_transactions :
    Makes Call.Derived (Indexer.transactions.hook phase stage block) := by
  cases stage with
  | blockStart =>
      cases phase with
      | apply =>
          exact makes_forM _ fun _ _ => makes_bind
            (makes_forM _ fun _ _ => makes_put .output (by decide) _ rfl)
            fun _ => makes_put .transaction (by decide) _ trivial
      | undo =>
          exact makes_forM _ fun _ _ => makes_bind (makes_delete TransactionRecord _) fun _ =>
            makes_forM _ fun _ _ => makes_delete OutputRecord _
  | _ => cases phase <;> exact makes_done _

theorem makes_derived_tokens (symbol : String) :
    Makes Call.Derived ((Indexer.tokens symbol).hook phase stage block) := by
  cases stage with
  | genesis =>
      cases phase with
      | apply =>
          exact ⟨⟨_, rfl, Recorded.model_ne_ledger (α := Token)⟩,
            ⟨.token, Token.native symbol block.ref, trivial, rfl, rfl⟩, fun _ => ⟨_, rfl⟩,
            fun _ => trivial⟩
      | undo => exact makes_delete Token _
  | transaction tx op =>
      cases phase with
      | apply => exact makes_ofExcept fun _ _ => makes_put .token (by decide) _ trivial
      | undo => exact makes_delete Token _
  | _ => cases phase <;> exact makes_done _

/-! ### Oracles -/

theorem makes_derived_writeMemberships (oracle : Oracle) :
    Makes Call.Derived oracle.writeMemberships :=
  makes_forM _ fun _ _ => makes_put .membership (by decide) _ ⟨rfl, rfl⟩

theorem makes_derived_eraseMemberships (oracleId : String) (pairs : List PricePair) :
    Makes Call.Derived (Oracle.eraseMemberships oracleId pairs) :=
  makes_forM _ fun _ _ => makes_delete Membership _

theorem makes_derived_writeOracle (oracle : Oracle) (tx : Transaction) :
    Makes Call.Derived (oracle.write block tx) :=
  makes_ofExcept fun _ _ => makes_bind (makes_put .oracle (by decide) oracle trivial) fun _ =>
    makes_bind (makes_derived_writeMemberships oracle) fun _ =>
      makes_put .snapshot (by decide) _ rfl

theorem makes_derived_restore (oracleId : String) (tx : Transaction) :
    Makes Call.Derived (Oracle.restore oracleId block tx) := by
  refine makes_bind (quiet_first? OracleSnapshot _ _).makes_derived fun previous => ?_
  cases previous with
  | some previous =>
      exact makes_bind (makes_put .oracle (by decide) previous.toOracle trivial) fun _ =>
        makes_derived_writeMemberships previous.toOracle
  | none =>
      simp only
      split
      · exact makes_done _
      · exact makes_done _

theorem makes_derived_appointOracle :
    Makes Call.Derived (Indexer.appointOracle.hook phase stage block) := by
  cases stage with
  | transaction tx op =>
      cases phase with
      | apply => exact makes_ofExcept fun _ _ => makes_derived_writeOracle block _ tx
      | undo =>
          exact makes_ofExcept fun _ _ => makes_bind (makes_delete OracleSnapshot _) fun _ =>
            makes_bind (makes_derived_eraseMemberships _ _) fun _ => makes_delete Oracle _
  | _ => cases phase <;> exact makes_done _

theorem makes_derived_updateOracle :
    Makes Call.Derived (Indexer.updateOracle.hook phase stage block) := by
  cases stage with
  | transaction tx op =>
      cases phase with
      | apply =>
          exact makes_ofExcept fun _ _ => makes_bind (quiet_require Oracle _).makes_derived
            fun _ => makes_bind (makes_derived_eraseMemberships _ _) fun _ =>
              makes_derived_writeOracle block _ tx
      | undo =>
          exact makes_ofExcept fun _ _ => makes_bind (makes_delete OracleSnapshot _) fun _ =>
            makes_bind (makes_derived_eraseMemberships _ _) fun _ =>
              makes_derived_restore block _ tx
  | _ => cases phase <;> exact makes_done _

theorem makes_derived_removeOracle :
    Makes Call.Derived (Indexer.removeOracle.hook phase stage block) := by
  cases stage with
  | transaction tx op =>
      cases phase with
      | apply =>
          exact makes_ofExcept fun _ _ => makes_bind (quiet_require Oracle _).makes_derived
            fun _ => makes_bind (makes_derived_eraseMemberships _ _) fun _ =>
              makes_delete Oracle _
      | undo => exact makes_ofExcept fun _ _ => makes_derived_restore block _ tx
  | _ => cases phase <;> exact makes_done _

/-! ### Prices -/

theorem makes_derived_setOracleData :
    Makes Call.Derived (Indexer.setOracleData.hook phase stage block) := by
  cases stage with
  | transaction tx op =>
      cases phase with
      | apply =>
          exact makes_ofExcept fun _ _ => makes_ofExcept fun _ _ =>
            makes_forM _ fun _ _ => makes_put .feed (by decide) _ ⟨rfl, rfl⟩
      | undo =>
          exact makes_ofExcept fun _ _ => makes_forM _ fun _ _ => makes_delete PriceFeed _
  | blockEnd =>
      cases phase with
      | apply =>
          refine makes_ofExcept fun pairs _ => makes_forM pairs fun pair _ =>
            makes_bind (quiet_aggregatePair block pair).makes_derived fun aggregated => ?_
          cases aggregated with
          | none => exact makes_done _
          | some aggregated => exact makes_put .aggregate (by decide) _ ⟨rfl, rfl⟩
      | undo =>
          exact makes_ofExcept fun _ _ => makes_forM _ fun _ _ => makes_delete PriceAggregate _
  | _ => cases phase <;> exact makes_done _

/-! ### Masternodes -/

theorem makes_derived_createMasternode :
    Makes Call.Derived (Indexer.createMasternode.hook phase stage block) := by
  cases stage with
  | transaction tx op =>
      cases phase with
      | apply =>
          exact makes_ofExcept fun _ _ => makes_ofExcept fun _ _ =>
            makes_put .masternode (by decide) _ trivial
      | undo => exact makes_delete Masternode _
  | _ => cases phase <;> exact makes_done _

theorem makes_derived_resignMasternode :
    Makes Call.Derived (Indexer.resignMasternode.hook phase stage block) := by
  cases stage with
  | transaction tx op =>
      cases phase with
      | apply =>
          exact makes_ofExcept fun _ _ => makes_bind (quiet_require Masternode _).makes_derived
            fun _ => makes_put .masternode (by decide) _ trivial
      | undo =>
          refine makes_ofExcept fun data _ =>
            makes_bind (quiet_find? Masternode data.nodeId).makes_derived fun node => ?_
          cases node with
          | some node => exact makes_put .masternode (by decide) _ trivial
          | none =>
              simp only
              split
              · exact makes_done _
              · exact makes_done _
  | _ => cases phase <;> exact makes_done _

theorem makes_derived_masternodeStats :
    Makes Call.Derived (Indexer.masternodeStats.hook phase stage block) := by
  cases stage with
  | blockEnd =>
      cases phase with
      | apply =>
          refine makes_bind (quiet_before? block.height).makes_derived fun previous =>
            makes_bind (quiet_foldlM block.ops _
              fun totals p => quiet_afterOp p.1 p.2 totals).makes_derived fun totals => ?_
          split
          · refine makes_bind (quiet_find? MasternodeStats _).makes_derived fun existing => ?_
            cases existing with
            | none => exact makes_put .stats (by decide) _ trivial
            | some existing =>
                simp only
                split
                · exact makes_put .stats (by decide) _ trivial
                · exact makes_done _
          · exact makes_done _
      | undo =>
          refine makes_bind (quiet_find? MasternodeStats _).makes_derived fun existing => ?_
          cases existing with
          | none => exact makes_done _
          | some existing =>
              simp only
              split
              · exact makes_delete MasternodeStats _
              · exact makes_done _
  | _ => cases phase <;> exact makes_done _

/-- Every hook of the standard indexers. -/
theorem makes_derived {symbol : String} {indexer : Indexer}
    (h : indexer ∈ (Registry.standard symbol).indexers) :
    Makes Call.Derived (indexer.hook phase stage block) := by
  simp only [Registry.standard, List.mem_cons, List.not_mem_nil, or_false] at h
  rcases h with rfl | rfl | rfl | rfl | rfl | rfl | rfl | rfl | rfl
  · exact makes_derived_transactions phase stage block
  · exact makes_derived_tokens phase stage block symbol
  · exact makes_derived_appointOracle phase stage block
  · exact makes_derived_updateOracle phase stage block
  · exact makes_derived_removeOracle phase stage block
  · exact makes_derived_setOracleData phase stage block
  · exact makes_derived_createMasternode phase stage block
  · exact makes_derived_resignMasternode phase stage block
  · exact makes_derived_masternodeStats phase stage block

end

/-! ## Stores -/

/-- A store that the hooks of a registry have written. It starts empty, any hook is run on any
    block at any time, and any run may be cut off before any of its writes. -/
inductive Registry.Wrote (registry : Registry) : MemoryStore → Prop
  | empty : Wrote registry .empty
  | hook {t : MemoryStore} (h : Wrote registry t) {indexer : Indexer}
      (hindexer : indexer ∈ registry.indexers) (phase : Phase) (stage : Stage) (block : Block)
      (writes : Nat) (source : MemorySource) (now : Int64) :
      Wrote registry ((indexer.hook phase stage block).cut writes ⟨t, source, now⟩).store

/-- All that a store holds is values, each with the id and key that are made of the rest. -/
structure MemoryStore.Shaped (t : MemoryStore) : Prop where
  wf : t.WF
  typed : ∀ kind : RecordKind, Typed kind.Value t
  derived : ∀ (kind : RecordKind) (a : kind.Value), Held t a → kind.Derived a

namespace MemoryStore.Shaped

theorem empty : Shaped .empty where
  wf := wf_empty
  typed := fun _ => by simp [Typed]
  derived := fun _ a ha => by simp [Held] at ha

/-- A call that puts such a value keeps the store so. -/
theorem reply {t t' : MemoryStore} (h : t.Shaped) {c : Call} (hc : c.Derived)
    {answer : c.Answer} (hreply : t.reply c = some (answer, t')) : t'.Shaped := by
  have hwf := h.wf.reply c answer hreply
  cases c with
  | put m record =>
      simp only [MemoryStore.reply, Option.some.injEq, Prod.mk.injEq] at hreply
      rcases hc with ⟨kind, a, ha, rfl, rfl⟩
      obtain rfl : Edit.made t (.put kind a) = t' := hreply.2
      refine ⟨hwf, fun other => Edit.typed_made (h.typed other) _, fun other =>
        Edit.held_made (h.derived other) fun value heq => ?_⟩
      cases heq
      exact ha
  | delete m k =>
      simp only [MemoryStore.reply, Option.some.injEq, Prod.mk.injEq] at hreply
      -- All that is left was there.
      have hfind : ∀ m' k' found, t'.find m' k' = some found → t.find m' k' = some found := by
        intro m' k' found hfound
        rw [← hreply.2, find_delete] at hfound
        split at hfound
        · exact absurd hfound (by simp)
        · exact hfound
      exact ⟨hwf, fun kind k' found hfound => h.typed kind k' found (hfind _ _ _ hfound),
        fun kind a ha => h.derived kind a (hfind _ _ _ ha)⟩
  | get | scan | extent =>
      simp only [MemoryStore.reply, Option.some.injEq, Prod.mk.injEq] at hreply
      exact hreply.2 ▸ h
  | _ => simp only [MemoryStore.reply, reduceCtorEq] at hreply

/-- No two values of a partition share a sort key, but for blocks and transactions. -/
theorem untied {t : MemoryStore} (h : t.Shaped) (kind : RecordKind) (hapart : kind.Apart t)
    (index : IndexDef) (partition : Option String) :
    ((inPartition kind.Value index partition t).map (sortKey index)).Nodup :=
  untied_of_derived (h.typed kind) (h.derived kind) hapart index partition

end MemoryStore.Shaped

/-- What the hooks of the standard indexers have written is as they write it. -/
theorem Registry.Wrote.shaped {symbol : String} {t : MemoryStore}
    (h : (Registry.standard symbol).Wrote t) : t.Shaped := by
  induction h with
  | empty => exact .empty
  | hook _ hindexer phase stage block writes source now ih =>
      have hruns := (makes_derived phase stage block hindexer).runs ih
        fun _ _ _ _ _ hc hbefore hreply => hbefore.reply hc hreply
      rcases runs_cut hruns source now writes with ⟨behind, hcut, hbehind, -⟩
      rw [hcut]
      exact hbehind

end ChainIndex
