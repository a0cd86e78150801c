import ChainIndex.Proofs.Json.Texts
import ChainIndex.Proofs.Program.Records
import ChainIndex.Proofs.Store.Interchange

/-!
# Records as texts

A database keeps its records as texts. What the ledger says is read as it was written,
whatever is in it, and so are the records of a transaction and of its outputs. The record of a
block holds a double, its difficulty, and is read with the double that the text of the
difficulty is read as.

## Main definitions

* `BlockRecord.reread`: What the text of a block record is read as.

## Theorems

* `SyncStatus.readsBack`: The text of the ledger stands for what it says.
* `TransactionRecord.readsBack`, `OutputRecord.readsBack`: So do the texts of the records of
  transactions and of outputs.
* `BlockRecord.decodeText_toJson`: What the text of a block record stands for.
-/

namespace ChainIndex

open Entity TableStore

theorem Json.int_within_of_uint32 (n : UInt32) (depth : Nat) :
    (Json.ofUInt32 n).Within (depth + 1) := by
  have hlt := n.toNat_lt
  simp only [Json.ofUInt32, Json.Within]
  omega

theorem Json.int_within_of_uint64 (n : UInt64) (depth : Nat) :
    (Json.ofUInt64 n).Within (depth + 1) := by
  have hlt := n.toNat_lt
  simp only [Json.ofUInt64, Json.Within]
  omega

theorem Json.int_within_of_int64 (n : Int64) (depth : Nat) :
    (Json.ofInt64 n).Within (depth + 1) := by
  have hle := n.le_toInt
  have hlt := n.toInt_lt
  simp only [Json.ofInt64, Json.Within]
  omega

/-- A value that is read as it is, with its fields in order, stands behind its text. -/
theorem Json.readsBack_of_within {value : Json} (h : value.Within 128)
    (hread : value.reread = some value) (hcanonical : value.canonical = value) :
    value.ReadsBack := by
  rw [ReadsBack, decodeText, parse?_compact h, hread]
  exact congrArg Except.ok hcanonical

/-! ## The ledger -/

/-- The stored value, with its fields in order. -/
theorem SyncStatus.toJson_eq (status : SyncStatus) : toJson status =
    .object [("hash", .string status.hash), ("height", Json.ofUInt32 status.height),
      ("status", .string status.phase.name), ("updated_at", Json.ofInt64 status.updatedAt)] := by
  simp only [toJson, Entity.fields, Json.ofFields, Json.sortFields, Json.insertField,
    List.foldl_cons, List.foldl_nil, String.reduceLT, String.reduceEq, if_false]

theorem SyncStatus.toJson_within (status : SyncStatus) : (toJson status).Within 128 := by
  rw [toJson_eq]
  simp [Json.Within, Json.EntriesWithin, Json.int_within_of_uint32, Json.int_within_of_int64]

/-- The text of the ledger stands for what it says. -/
theorem SyncStatus.readsBack (status : SyncStatus) : (toJson status).ReadsBack := by
  refine Json.readsBack_of_within status.toJson_within ?_ ?_ <;> rw [toJson_eq]
  · rfl
  · simp only [Json.canonical, Json.canonicalEntries, Json.ofFields, Json.sortFields,
      Json.insertField, Json.ofUInt32, Json.ofInt64, List.foldl_cons, List.foldl_nil,
      String.reduceLT, String.reduceEq, if_false]

/-! ## Transaction records -/

/-- What names a block, with its fields in order. -/
theorem Block.Ref.toJson_eq (ref : Block.Ref) : ref.toJson =
    .object [("hash", .string ref.hash), ("height", Json.ofUInt32 ref.height),
      ("median_time", Json.ofInt64 ref.medianTime), ("time", Json.ofInt64 ref.time)] := by
  simp only [Block.Ref.toJson, Json.ofFields, Json.sortFields, Json.insertField,
    List.foldl_cons, List.foldl_nil, String.reduceLT, String.reduceEq, if_false, if_true]

/-- The stored value, with its fields in order. -/
theorem TransactionRecord.toJson_eq (record : TransactionRecord) : toJson record =
    .object [("block", record.block.toJson), ("hash", .string record.hash),
      ("lock_time", Json.ofUInt64 record.lockTime), ("order", Json.ofUInt32 record.order),
      ("size", Json.ofUInt64 record.size),
      ("total_vout_value", Json.ofUInt64 record.totalOutput), ("txid", .string record.txid),
      ("version", Json.ofUInt32 record.version), ("vin_count", Json.ofUInt32 record.inputCount),
      ("vout_count", Json.ofUInt32 record.outputCount), ("vsize", Json.ofUInt64 record.vsize),
      ("weight", Json.ofUInt64 record.weight)] := by
  simp only [toJson, Entity.fields, Json.ofFields, Json.sortFields, Json.insertField,
    List.foldl_cons, List.foldl_nil, String.reduceLT, String.reduceEq, if_true, if_false]

theorem TransactionRecord.toJson_within (record : TransactionRecord) :
    (toJson record).Within 128 := by
  rw [toJson_eq, Block.Ref.toJson_eq]
  simp [Json.Within, Json.EntriesWithin, Json.int_within_of_uint32, Json.int_within_of_uint64,
    Json.int_within_of_int64]

/-- The text of a transaction record stands for it. -/
theorem TransactionRecord.readsBack (record : TransactionRecord) :
    (toJson record).ReadsBack := by
  refine Json.readsBack_of_within record.toJson_within ?_ ?_ <;>
    rw [toJson_eq, Block.Ref.toJson_eq]
  · rfl
  · simp only [Json.canonical, Json.canonicalEntries, Json.ofFields, Json.sortFields,
      Json.insertField, Json.ofUInt32, Json.ofInt64, Json.ofUInt64, List.foldl_cons,
      List.foldl_nil, String.reduceLT, String.reduceEq, if_false]

/-- The stored value of an output, with its fields in order. -/
theorem OutputRecord.toJson_eq (record : OutputRecord) : toJson record =
    .object [("id", .string record.id), ("n", Json.ofUInt32 record.n),
      ("script_hex", .string record.scriptHex), ("script_type", .string record.scriptType),
      ("token_id", Json.ofOption Json.ofUInt32 record.tokenId), ("txid", .string record.txid),
      ("value", Json.ofUInt64 record.value)] := by
  simp only [toJson, Entity.fields, Json.ofFields, Json.sortFields, Json.insertField,
    List.foldl_cons, List.foldl_nil, String.reduceLT, String.reduceEq, if_true, if_false]

theorem OutputRecord.toJson_within (record : OutputRecord) : (toJson record).Within 128 := by
  rw [toJson_eq]
  cases record.tokenId with
  | none =>
      simp [Json.Within, Json.EntriesWithin, Json.ofOption, Json.int_within_of_uint32,
        Json.int_within_of_uint64]
  | some =>
      simp [Json.Within, Json.EntriesWithin, Json.ofOption, Json.int_within_of_uint32,
        Json.int_within_of_uint64]

/-- So does that of the record of an output, with or without a token. -/
theorem OutputRecord.readsBack (record : OutputRecord) : (toJson record).ReadsBack := by
  refine Json.readsBack_of_within record.toJson_within ?_ ?_ <;> rw [toJson_eq]
  · cases record.tokenId <;> rfl
  · cases record.tokenId <;>
      simp only [Json.canonical, Json.canonicalEntries, Json.ofFields, Json.sortFields,
        Json.insertField, Json.ofOption, Json.ofUInt32, Json.ofUInt64, List.foldl_cons,
        List.foldl_nil, String.reduceLT, String.reduceEq, if_false]

/-! ## Block records -/

/-- What the text of a block record is read as. -/
def BlockRecord.reread (record : BlockRecord) : Option BlockRecord :=
  record.difficulty.reread.map fun difficulty => { record with difficulty }

/-- The stored value, with its fields in order. -/
theorem BlockRecord.toJson_eq (record : BlockRecord) : toJson record =
    .object [("difficulty", .float record.difficulty), ("hash", .string record.hash),
      ("height", Json.ofUInt32 record.height), ("median_time", Json.ofInt64 record.medianTime),
      ("merkleroot", .string record.merkleRoot), ("minter", Json.ofOption .string record.minter),
      ("previous_hash", .string record.previousHash), ("size", Json.ofUInt64 record.size),
      ("time", Json.ofInt64 record.time),
      ("transaction_count", Json.ofUInt32 record.transactionCount),
      ("version", Json.ofInt64 record.version), ("weight", Json.ofUInt64 record.weight)] := by
  simp only [toJson, Entity.fields, Json.ofFields, Json.sortFields, Json.insertField,
    List.foldl_cons, List.foldl_nil, String.reduceLT, String.reduceEq, if_true, if_false]

theorem BlockRecord.toJson_within (record : BlockRecord) : (toJson record).Within 128 := by
  have hminter : (Json.ofOption Json.string record.minter).Within 127 := by
    cases record.minter <;> trivial
  rw [toJson_eq]
  simp [Json.Within, Json.EntriesWithin, Json.int_within_of_uint32, Json.int_within_of_uint64,
    Json.int_within_of_int64, hminter]

theorem BlockRecord.canonical_toJson (record : BlockRecord) :
    (toJson record).canonical = toJson record := by
  rw [toJson_eq]
  cases record.minter <;>
    simp only [Json.canonical, Json.canonicalEntries, Json.ofFields, Json.sortFields,
      Json.insertField, Json.ofUInt32, Json.ofInt64, Json.ofUInt64, Json.ofOption,
      List.foldl_cons, List.foldl_nil, String.reduceLT, String.reduceEq, if_false]

theorem BlockRecord.reread_toJson (record : BlockRecord) :
    (toJson record).reread = record.reread.map toJson := by
  have hminter : (Json.ofOption Json.string record.minter).reread =
      some (Json.ofOption Json.string record.minter) := by
    cases record.minter <;> rfl
  rw [toJson_eq, reread]
  -- The difficulty is the only field whose text may be read as something else.
  simp only [Json.reread, Json.rereadEntries, hminter]
  cases record.difficulty.reread with
  | none => rfl
  | some difficulty =>
      rw [Option.map_some, Option.map_some, Option.map_some, toJson_eq]
      rfl

/-- What the text of a block record stands for: the record with its difficulty read again, if
    that is a double. -/
theorem BlockRecord.decodeText_toJson (record : BlockRecord) :
    decodeText (toJson record).compact =
      match record.reread with
      | some again => .ok (toJson again)
      | none => .error (.serialization (.other "not a document")) := by
  rw [decodeText, Json.parse?_compact record.toJson_within, reread_toJson]
  cases record.reread with
  | none => rfl
  | some again => exact congrArg Except.ok again.canonical_toJson

/-- The text of a block record stands for it if that of its difficulty does. -/
theorem BlockRecord.readsBack_of_difficulty {record : BlockRecord}
    (h : record.difficulty.reread = some record.difficulty) : (toJson record).ReadsBack := by
  refine Json.readsBack_of_within record.toJson_within ?_ record.canonical_toJson
  rw [reread_toJson, reread, h]
  rfl

theorem BlockRecord.of_reread {record again : BlockRecord} (h : record.reread = some again) :
    again.hash = record.hash ∧ again.height = record.height := by
  rcases Option.map_eq_some_iff.mp h with ⟨difficulty, _, rfl⟩
  exact ⟨rfl, rfl⟩

end ChainIndex
