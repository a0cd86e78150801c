import ChainIndex.Proofs.Indexer.Dispatch
import ChainIndex.Proofs.Program.Makes
import ChainIndex.Proofs.Text.Keys

/-!
# Where the hooks of a block write

Blocks, transactions and outputs are kept by two indexers, under keys that the block names.
All others are derived from what its transactions carry, and their indexers never touch the
records of the chain itself. None of this depends on the store or on the block: it holds of a
block that cannot be indexed as much as of one that can.

## Main definitions

* `chainModels`: The models of blocks, transactions and outputs.
* `DerivedKeys`: The keys of every other model.
* `OpTag.models`: The models that the hooks of an operation write to.
* `ListingKeys`: The keys of the transactions of a block and their outputs.

## Theorems

* `makes_operation_of_tag`: The hooks of an operation write to the models of its tag.
* `makes_operation`: They write to derived models only.
* `makes_deriveBody`, `makes_undoBody`: Applying a block but for listing it, and undoing it.
-/

namespace ChainIndex

open Entity Program

/-- The models of blocks, transactions and outputs. -/
def chainModels : List String :=
  [model BlockRecord, model TransactionRecord, model OutputRecord]

/-- The keys of the models that are derived from what transactions carry. -/
def DerivedKeys (m _ : String) : Prop :=
  m ∉ chainModels

/-- The keys of some models. -/
def KeysOf (models : List String) (m _ : String) : Prop :=
  m ∈ models

/-- The models that the hooks of an operation write to. -/
def OpTag.models : OpTag → List String
  | .createToken => [model Token]
  | .appointOracle | .updateOracle | .removeOracle =>
    [model OracleSnapshot, model Oracle, model Membership]
  | .setOracleData => [model PriceFeed]
  | .createMasternode | .resignMasternode => [model Masternode]

/-- None of them is a model of the chain itself. -/
theorem OpTag.models_derived (tag : OpTag) : ∀ m ∈ tag.models, m ∉ chainModels := by
  cases tag <;> decide

/-- The keys under which the transactions of a block and their outputs are listed. -/
def ListingKeys (block : Block) (m k : String) : Prop :=
  (m = model TransactionRecord ∧ ∃ tx ∈ block.transactions, k = tx.txid) ∨
    (m = model OutputRecord ∧ ∃ tx ∈ block.transactions, ∃ output ∈ tx.outputs,
      k = OutputRecord.idOf tx.txid output.n)

theorem OutputRecord.idOf_injective {txid txid' : String} {n n' : UInt32}
    (h : idOf txid n = idOf txid' n') : txid = txid' ∧ n = n' := by
  rcases Text.append_dash_injective (Text.dashFree_toString _) (Text.dashFree_toString _) h with
    ⟨htxid, hn⟩
  exact ⟨htxid, UInt32.toNat_inj.mp (Text.toString_injective hn)⟩

/-- Where applying and undoing a block may write, but for the record of the block itself. -/
def BodyKeys (block : Block) (m k : String) : Prop :=
  DerivedKeys m k ∨ ListingKeys block m k

theorem BodyKeys.ne_block {block : Block} {m k : String} (h : BodyKeys block m k) :
    m ≠ model BlockRecord := by
  rintro rfl
  rcases h with hderived | ⟨hm, _⟩ | ⟨hm, _⟩
  · exact hderived List.mem_cons_self
  · exact absurd hm (by decide)
  · exact absurd hm (by decide)

/-- What lists a block is not derived. -/
theorem ListingKeys.not_derived {block : Block} {m k : String} (h : ListingKeys block m k) :
    ¬ DerivedKeys m k := by
  rcases h with ⟨rfl, _⟩ | ⟨rfl, _⟩
  · exact fun hderived => hderived (by decide)
  · exact fun hderived => hderived (by decide)

/-- What is written to models that are derived is derived. -/
theorem Program.Makes.of_models {α : Type} {program : Program α} {models : List String}
    (h : Makes (Call.Within (KeysOf models)) program) (hmodels : ∀ m ∈ models, m ∉ chainModels) :
    Makes (Call.Within DerivedKeys) program :=
  h.mono fun _ hc => hc.mono fun m _ hm => hmodels m hm

/-- What is derived may be written with any block. -/
theorem Program.Makes.of_derived {α : Type} {program : Program α}
    (h : Makes (Call.Within DerivedKeys) program) (block : Block) :
    Makes (Call.Within (BodyKeys block)) program :=
  h.mono fun _ hc => hc.mono fun _ _ hk => Or.inl hk

/-! ## Derived models -/

section

variable (symbol : String) (block : Block) (tx : Transaction) (op : DecodedOp)

theorem makes_seedNative : Makes (Call.Within (KeysOf [model Token])) (seedNative symbol block) :=
  ⟨⟨_, rfl, Recorded.model_ne_ledger (α := Token)⟩,
    ⟨(by decide : model Token ∈ [model Token]), Whole.record (Token.native symbol block.ref)⟩,
    fun _ => ⟨_, rfl⟩, fun _ => trivial⟩

section

variable {models : List String} (hmember : model Membership ∈ models)
include hmember

theorem makes_writeMemberships (oracle : Oracle) :
    Makes (Call.Within (KeysOf models)) oracle.writeMemberships :=
  makes_forM _ fun _ _ => makes_save _ hmember

theorem makes_eraseMemberships (oracleId : String) (pairs : List PricePair) :
    Makes (Call.Within (KeysOf models)) (Oracle.eraseMemberships oracleId pairs) :=
  makes_forM _ fun _ _ => makes_remove Membership hmember

variable (horacle : model Oracle ∈ models)
include horacle

theorem makes_writeOracle (hsnapshot : model OracleSnapshot ∈ models) (oracle : Oracle) :
    Makes (Call.Within (KeysOf models)) (oracle.write block tx) :=
  makes_ofExcept fun _ _ => makes_bind (makes_save _ horacle) fun _ =>
    makes_bind (makes_writeMemberships hmember oracle) fun _ => makes_save _ hsnapshot

theorem makes_restore (oracleId : String) :
    Makes (Call.Within (KeysOf models)) (Oracle.restore oracleId block tx) := by
  refine makes_bind (quiet_first? OracleSnapshot _ _).makes fun previous => ?_
  cases previous with
  | some previous =>
      exact makes_bind (makes_save _ horacle)
        fun _ => makes_writeMemberships hmember previous.toOracle
  | none =>
      simp only
      split
      · exact makes_done _
      · exact makes_done _

end

/-- The hooks of an operation write to the models of its tag. -/
theorem makes_operation_of_tag (phase : Phase) :
    Makes (Call.Within (KeysOf op.tag.models))
      ((Indexer.ofTag symbol op.tag).hook phase (.transaction tx op) block) := by
  have hsnapshot : model OracleSnapshot ∈ OpTag.models .appointOracle := by decide
  have horacle : model Oracle ∈ OpTag.models .appointOracle := by decide
  have hmember : model Membership ∈ OpTag.models .appointOracle := by decide
  have hfeed : model PriceFeed ∈ OpTag.models .setOracleData := by decide
  have hnode : model Masternode ∈ OpTag.models .createMasternode := by decide
  have htoken : model Token ∈ OpTag.models .createToken := by decide
  generalize op.tag = tag
  cases phase with
  | apply =>
      cases tag with
      | createToken => exact makes_ofExcept fun _ _ => makes_save _ htoken
      | appointOracle =>
          exact makes_ofExcept fun _ _ => makes_writeOracle _ _ hmember horacle hsnapshot _
      | updateOracle =>
          exact makes_ofExcept fun _ _ => makes_bind (quiet_require Oracle _).makes fun _ =>
            makes_bind (makes_eraseMemberships hmember _ _) fun _ =>
              makes_writeOracle _ _ hmember horacle hsnapshot _
      | removeOracle =>
          exact makes_ofExcept fun _ _ => makes_bind (quiet_require Oracle _).makes fun _ =>
            makes_bind (makes_eraseMemberships hmember _ _) fun _ => makes_remove Oracle horacle
      | setOracleData =>
          exact makes_ofExcept fun _ _ => makes_ofExcept fun _ _ =>
            makes_forM _ fun _ _ => makes_save _ hfeed
      | createMasternode =>
          exact makes_ofExcept fun _ _ => makes_ofExcept fun _ _ => makes_save _ hnode
      | resignMasternode =>
          exact makes_ofExcept fun _ _ => makes_bind (quiet_require Masternode _).makes
            fun _ => makes_save _ hnode
  | undo =>
      cases tag with
      | createToken => exact makes_remove Token htoken
      | appointOracle =>
          exact makes_ofExcept fun _ _ =>
            makes_bind (makes_remove OracleSnapshot hsnapshot) fun _ =>
              makes_bind (makes_eraseMemberships hmember _ _) fun _ => makes_remove Oracle horacle
      | updateOracle =>
          exact makes_ofExcept fun _ _ =>
            makes_bind (makes_remove OracleSnapshot hsnapshot) fun _ =>
              makes_bind (makes_eraseMemberships hmember _ _) fun _ =>
                makes_restore _ _ hmember horacle _
      | removeOracle => exact makes_ofExcept fun _ _ => makes_restore _ _ hmember horacle _
      | setOracleData =>
          exact makes_ofExcept fun _ _ => makes_forM _ fun _ _ => makes_remove PriceFeed hfeed
      | createMasternode => exact makes_remove Masternode hnode
      | resignMasternode =>
          refine makes_ofExcept fun data _ =>
            makes_bind (quiet_find? Masternode data.nodeId).makes fun node => ?_
          cases node with
          | some node => exact makes_save _ hnode
          | none =>
              simp only
              split
              · exact makes_done _
              · exact makes_done _

/-- They write to derived models only. -/
theorem makes_operation (phase : Phase) :
    Makes (Call.Within DerivedKeys)
      ((Indexer.ofTag symbol op.tag).hook phase (.transaction tx op) block) :=
  (makes_operation_of_tag symbol block tx op phase).of_models op.tag.models_derived

/-- Finding the aggregate of a pair only reads. -/
theorem quiet_aggregatePair (pair : PricePair) : Quiet (aggregatePair block pair) := by
  refine quiet_bind (quiet_list Membership _ _) fun members =>
    quiet_bind (quiet_foldlM _ _ fun sums member => ?_) fun _ => trivial
  unfold addOracle
  split
  · exact trivial
  · refine quiet_bind (quiet_first? PriceFeed _ _) fun feed => ?_
    cases feed with
    | none => exact trivial
    | some feed =>
        simp only
        split
        · exact trivial
        · exact trivial

/-- So does counting masternodes. -/
theorem quiet_afterOp (totals : MasternodeTotals) : Quiet (totals.afterOp tx op) := by
  unfold MasternodeTotals.afterOp
  split
  · exact quiet_bind (quiet_ofExcept (collateralOf tx op)) fun _ => trivial
  · exact quiet_bind (quiet_ofExcept _) fun data =>
      quiet_bind (quiet_require Masternode data.nodeId) fun _ => trivial
  · exact trivial

theorem quiet_before? (height : UInt32) : Quiet (MasternodeStats.before? height) :=
  quiet_bind (quiet_scan MasternodeStats _ _ _ _) fun _ => trivial

/-- The aggregates at the end of a block. -/
theorem makes_aggregates (phase : Phase) :
    Makes (Call.Within (KeysOf [model PriceAggregate]))
      (Indexer.setOracleData.hook phase .blockEnd block) := by
  have haggregate : model PriceAggregate ∈ [model PriceAggregate] := by decide
  cases phase with
  | apply =>
      refine makes_ofExcept fun pairs _ => makes_forM pairs fun pair _ =>
        makes_bind (quiet_aggregatePair block pair).makes fun aggregated => ?_
      cases aggregated with
      | none => exact makes_done _
      | some aggregated => exact makes_save _ haggregate
  | undo =>
      exact makes_ofExcept fun _ _ => makes_forM _ fun _ _ => makes_remove _ haggregate

/-- The statistics at the end of a block. -/
theorem makes_statistics (phase : Phase) :
    Makes (Call.Within (KeysOf [model MasternodeStats]))
      (Indexer.masternodeStats.hook phase .blockEnd block) := by
  have hstats : model MasternodeStats ∈ [model MasternodeStats] := by decide
  cases phase with
  | apply =>
      refine makes_bind (quiet_before? block.height).makes fun previous =>
        makes_bind (quiet_foldlM block.ops _ fun totals p => quiet_afterOp p.1 p.2 totals).makes
          fun totals => ?_
      split
      · refine makes_bind (quiet_find? MasternodeStats _).makes fun existing => ?_
        cases existing with
        | none => exact makes_save _ hstats
        | some existing =>
            simp only
            split
            · exact makes_save _ hstats
            · exact makes_done _
      · exact makes_done _
  | undo =>
      refine makes_bind (quiet_find? MasternodeStats _).makes fun existing => ?_
      cases existing with
      | none => exact makes_done _
      | some existing =>
          simp only
          split
          · exact makes_remove _ hstats
          · exact makes_done _

/-- The hooks of the operations of a block. -/
theorem makes_operations (phase : Phase) (items : List (Transaction × DecodedOp)) :
    Makes (Call.Within DerivedKeys) (items.forM fun (tx, op) =>
      (Indexer.ofTag symbol op.tag).hook phase (.transaction tx op) block) :=
  makes_forM items fun p _ => makes_operation symbol block p.1 p.2 phase

/-! ## Transactions -/

variable {block tx} (htx : tx ∈ block.transactions)
include htx

theorem makes_eraseTransaction : Makes (Call.Within (ListingKeys block)) (eraseTransaction tx) :=
  makes_bind (makes_remove TransactionRecord (Or.inl ⟨rfl, tx, htx, rfl⟩)) fun _ =>
    makes_forM _ fun output houtput => makes_remove OutputRecord
      (Or.inr ⟨rfl, tx, htx, output, List.mem_reverse.mp houtput, rfl⟩)

end

/-! ## Whole blocks -/

section

variable (symbol : String) (block : Block)

/-- Everything that undoing a block does after the record of the block is gone. -/
def undoBody : Program Unit :=
  MasternodeStats.discard block >>= fun _ =>
    Indexer.setOracleData.hook .undo .blockEnd block >>= fun _ =>
    (block.ops.reverse.forM fun (tx, op) =>
      (Indexer.ofTag symbol op.tag).hook .undo (.transaction tx op) block) >>= fun _ =>
    block.transactions.reverse.forM eraseTransaction >>= fun _ =>
    if block.height = 0 then Entity.remove Token Token.nativeId else pure ()

/-- Undoing a block removes its record first. -/
theorem undoBlock_body : (Registry.full symbol).undoBlock block =
    (Entity.remove BlockRecord block.hash >>= fun _ => undoBody symbol block) :=
  Registry.undoBlock_full symbol block

/-- Everything that applying a block does after its transactions are listed and before its
    record is written. -/
def deriveBody : Program Unit :=
  (block.ops.forM fun (tx, op) =>
      (Indexer.ofTag symbol op.tag).hook .apply (.transaction tx op) block) >>= fun _ =>
    Indexer.setOracleData.hook .apply .blockEnd block >>= fun _ =>
    Indexer.masternodeStats.hook .apply .blockEnd block

/-- Applying a block lists its transactions, derives the rest and writes its record last. -/
theorem applyBlock_body : (Registry.full symbol).applyBlock block =
    ((if block.height = 0 then seedNative symbol block else pure ()) >>= fun _ =>
      (block.transactions.zipIdx.forM fun (tx, position) =>
        writeTransaction block position tx) >>= fun _ =>
      deriveBody symbol block >>= fun _ => Entity.save (BlockRecord.ofBlock block)) := by
  rw [Registry.applyBlock_full, deriveBody]
  simp only [LawfulMonad.bind_assoc]

theorem makes_deriveBody : Makes (Call.Within DerivedKeys) (deriveBody symbol block) :=
  makes_bind (makes_operations symbol block .apply block.ops) fun _ =>
    makes_bind ((makes_aggregates block .apply).of_models (by decide)) fun _ =>
      (makes_statistics block .apply).of_models (by decide)

theorem makes_seed :
    Makes (Call.Within DerivedKeys)
      (if block.height = 0 then seedNative symbol block else pure ()) := by
  split
  · exact (makes_seedNative symbol block).of_models (by decide)
  · exact makes_done _

theorem makes_undoBody : Makes (Call.Within (BodyKeys block)) (undoBody symbol block) := by
  have hstats := (makes_statistics block .undo).of_models (by decide)
  have haggregates := (makes_aggregates block .undo).of_models (by decide)
  refine makes_bind (hstats.of_derived block) fun _ =>
    makes_bind (haggregates.of_derived block) fun _ =>
      makes_bind ((makes_operations symbol block .undo _).of_derived block) fun _ =>
        makes_bind (makes_forM _ fun tx htx => ?_) fun _ => ?_
  · exact (makes_eraseTransaction (List.mem_reverse.mp htx)).mono
      fun _ hc => hc.mono fun _ _ hk => Or.inr hk
  · split
    · exact (makes_remove Token (by decide : model Token ∉ chainModels)).of_derived block
    · exact makes_done _

end

end ChainIndex
