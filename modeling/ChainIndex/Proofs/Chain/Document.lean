import ChainIndex.Proofs.Entity.RoundTrip
import ChainIndex.Chain.Block

/-!
# Blocks as documents

A block has many documents and one that it is written as. What a source may leave out, put
into an array, spell as an object or give as an integer is all gone once the block has been
read: its own document is an object at every level, names every field, and is read as the
block again. So a block that is handed on as a document arrives as it was, and it does not
matter how often.

A field with a default is read like any other where it is there. That is why the law is one
of the writer, which leaves no field out, and needs nothing about the defaults.

## Theorems

* `read_fieldOr`: A field with a default is read where it is there.
* `inverse_op`: An operation is read back, whatever its payload.
* `inverse_transaction`: A transaction is read back with all that is nested in it.
* `block_reads_back`: A block is read back from its document.
-/

namespace ChainIndex

namespace Json

/-- A field with a default is read where it is there. -/
theorem read_fieldOr {α : Type} {name : String} {read : Reader α} {write : α → Json}
    {default : α} (h : Inverse read write) {source : Source} {a : α}
    (hfind : source.find name = some (write a)) :
    (fieldOr name read default).read source = .ok a := by
  simp only [fieldOr, hfind, readPresent, h a]

/-- A payload is handed on as it stands. -/
theorem inverse_any : Inverse asAny id := fun _ => rfl

theorem inverse_tag : Inverse OpTag.read OpTag.toJson := by
  intro tag
  cases tag <;> rfl

theorem inverse_op : Inverse DecodedOp.read DecodedOp.toJson := fun _ =>
  record_ofFields _ _ _ _ (by simp) <|
    read_seq (read_map (read_field inverse_tag rfl)) (read_fieldOr inverse_any rfl)

theorem inverse_script : Inverse ScriptPubKey.read ScriptPubKey.toJson := fun _ =>
  record_ofFields _ _ _ _ (by simp) <|
    read_seq (read_map (read_fieldOr inverse_string rfl)) (read_fieldOr inverse_string rfl)

/-- An optional text is read back: none is null, and no text is. -/
theorem inverse_optionalString : Inverse (asOption asString) (ofOption .string) :=
  inverse_option inverse_string (by simp)

/-- An optional number is read back: none is null, and no number is. -/
theorem inverse_optionalUInt32 : Inverse (asOption asUInt32) (ofOption ofUInt32) :=
  inverse_option inverse_uint32 (by simp [ofUInt32])

theorem inverse_input : Inverse Input.read Input.toJson := fun _ =>
  record_ofFields _ _ _ _ (by simp) <|
    read_seq (read_seq (read_seq (read_map (read_fieldOr inverse_optionalString rfl))
      (read_fieldOr inverse_optionalUInt32 rfl)) (read_fieldOr inverse_optionalString rfl))
      (read_fieldOr inverse_uint64 rfl)

theorem inverse_output : Inverse Output.read Output.toJson := fun _ =>
  record_ofFields _ _ _ _ (by simp) <|
    read_seq (read_seq (read_seq (read_map (read_field inverse_float rfl))
      (read_field inverse_uint32 rfl)) (read_fieldOr inverse_script rfl))
      (read_fieldOr inverse_optionalUInt32 rfl)

theorem inverse_transaction : Inverse Transaction.read Transaction.toJson := by
  have hop : Inverse (asOption DecodedOp.read) (ofOption DecodedOp.toJson) :=
    inverse_option inverse_op (by simp [DecodedOp.toJson, ofFields])
  exact fun _ => record_ofFields _ _ _ _ (by simp) <|
    read_seq (read_seq (read_seq (read_seq (read_seq (read_seq (read_seq (read_seq (read_seq
      (read_map (read_field inverse_string rfl)) (read_fieldOr inverse_string rfl))
      (read_fieldOr inverse_uint32 rfl)) (read_fieldOr inverse_uint64 rfl))
      (read_fieldOr inverse_uint64 rfl)) (read_fieldOr inverse_uint64 rfl))
      (read_fieldOr inverse_uint64 rfl)) (read_fieldOr (inverse_list inverse_input) rfl))
      (read_fieldOr (inverse_list inverse_output) rfl)) (read_fieldOr hop rfl)

theorem inverse_block : Inverse Block.read Block.toJson := fun _ =>
  record_ofFields _ _ _ _ (by simp) <|
    read_seq (read_seq (read_seq (read_seq (read_seq (read_seq (read_seq (read_seq (read_seq
      (read_seq (read_seq (read_map (read_field inverse_string rfl))
      (read_fieldOr inverse_string rfl)) (read_field inverse_uint32 rfl))
      (read_field inverse_int64 rfl)) (read_field inverse_int64 rfl))
      (read_fieldOr inverse_float rfl)) (read_fieldOr inverse_optionalString rfl))
      (read_fieldOr inverse_uint64 rfl)) (read_fieldOr inverse_uint64 rfl))
      (read_fieldOr inverse_int64 rfl)) (read_fieldOr inverse_string rfl))
      (read_fieldOr (inverse_list inverse_transaction) rfl)

end Json

/-- A block is read back from its document: whatever document it was read from first, and
    also where it never was one. -/
theorem block_reads_back :
    (∀ (document : Json) (block : Block), Block.read document = .ok block →
      Block.read block.toJson = .ok block) ∧
    ∀ block : Block, Block.read block.toJson = .ok block :=
  ⟨fun _ block _ => Json.inverse_block block, Json.inverse_block⟩

/-- A block as an array that ends early, with its transactions in both forms, a field nobody
    knows, a whole number for an amount and an operation whose tag is an object. -/
def Block.loosely : Json :=
  .array
    [.string "b\u0000\u00e9", .string "a", .int 4294967295, .int (-9223372036854775808), .int 7,
      .int 3, .null, .int 18446744073709551615, .int 0, .int (-1), .string "",
      .array
        [.array [.string "t", .string "", .int 4294967295],
          .object [("op", .object [("payload", .array [.null, .object [("k", .int 1)]]),
              ("tag", .object [("RemoveOracle", .null)])]), ("txid", .string "u"),
            ("unknown", .bool true), ("vin", .array [.object [], .array [.null, .int 5]]),
            ("vout", .array [.object [("n", .int 0), ("value", .int 2)]])]]]

/-- The block that it is read as. -/
def Block.tidied : Block :=
  { hash := "b\u0000\u00e9", previousHash := "a", height := 4294967295,
    time := -9223372036854775808, medianTime := 7, difficulty := ⟨3.0, by decide⟩,
    minter := none, size := 18446744073709551615, weight := 0, version := -1, merkleRoot := "",
    transactions :=
      [{ txid := "t", hash := "", version := 4294967295, size := 0, vsize := 0, weight := 0,
         lockTime := 0, inputs := [], outputs := [], op := none },
       { txid := "u", hash := "", version := 0, size := 0, vsize := 0, weight := 0,
         lockTime := 0,
         inputs := [⟨none, none, none, 0⟩, ⟨none, some 5, none, 0⟩],
         outputs := [⟨⟨2.0, by decide⟩, 0, .empty, none⟩],
         op := some ⟨.removeOracle, .array [.null, .object [("k", .int 1)]]⟩ }] }

theorem block_reads_back_loosely :
    Block.read Block.loosely = .ok Block.tidied ∧
      Block.read Block.tidied.toJson = .ok Block.tidied ∧
      Block.tidied.toJson ≠ Block.loosely := by
  have hread : Block.read Block.loosely = .ok Block.tidied := by decide +kernel
  exact ⟨hread, block_reads_back.1 _ _ hread, by decide +kernel⟩

end ChainIndex
