import ChainIndex.Entity.BlockRecord
import ChainIndex.Entity.Masternode
import ChainIndex.Entity.Oracle
import ChainIndex.Entity.Price
import ChainIndex.Entity.SyncStatus
import ChainIndex.Entity.Token
import ChainIndex.Entity.TransactionRecord
import Mathlib.Tactic.Common

/-!
# What is stored is read back

A value that was stored is read back as itself. Undoing a block depends on it: an oracle
is brought back from what its snapshot is read as, and a masternode is written again as it
was read, so a field that did not survive the way through the store would be lost there.

The law of a kind of record is put together from the laws of its fields. An object holds
its fields in the order of their keys, whatever order they were declared in, so a field is
found by its key first and then read.

## Main definitions

* `Json.Inverse`: A reader undoes a writer.
* `RoundTrip`: A kind of record is read back as it was stored.

## Theorems

* `Json.record_ofFields`: An object made of fields is read as the fields are.
* `Json.read_seq`: Fields are read one after another.
-/

namespace ChainIndex

namespace Json

/-! ## Plain values -/

/-- `read` reads back what `write` writes. -/
def Inverse {α : Type} (read : Reader α) (write : α → Json) : Prop :=
  ∀ a, read (write a) = .ok a

theorem inverse_string : Inverse asString .string := fun _ => rfl

theorem inverse_bool : Inverse asBool .bool := fun _ => rfl

theorem inverse_float : Inverse asFloat .float := fun _ => rfl

theorem inverse_uint8 : Inverse asUInt8 ofUInt8 := by
  intro n
  have hlt := n.toNat_lt
  have hrange : (0 : Int) ≤ n.toNat ∧ (n.toNat : Int) ≤ 255 := by omega
  simp [asUInt8, ofUInt8, asInt, hrange, Except.map]

theorem inverse_uint32 : Inverse asUInt32 ofUInt32 := by
  intro n
  have hlt := n.toNat_lt
  have hrange : (0 : Int) ≤ n.toNat ∧ (n.toNat : Int) ≤ 4294967295 := by omega
  simp [asUInt32, ofUInt32, asInt, hrange, Except.map]

theorem inverse_uint64 : Inverse asUInt64 ofUInt64 := by
  intro n
  have hlt := n.toNat_lt
  have hrange : (0 : Int) ≤ n.toNat ∧ (n.toNat : Int) ≤ 18446744073709551615 := by omega
  simp [asUInt64, ofUInt64, asInt, hrange, Except.map]

theorem inverse_int64 : Inverse asInt64 ofInt64 := by
  intro n
  have hrange : (-9223372036854775808 : Int) ≤ n.toInt ∧ n.toInt ≤ 9223372036854775807 := by
    have hlow := n.le_toInt
    have hhigh := n.toInt_lt
    omega
  simp [asInt64, ofInt64, asInt, hrange, Except.map]

/-- A value that may be missing is read back, if none is written as null. -/
theorem inverse_option {α : Type} {read : Reader α} {write : α → Json}
    (h : Inverse read write) (hnull : ∀ a, write a ≠ .null) :
    Inverse (asOption read) (ofOption write) := by
  intro value
  cases value with
  | none => rfl
  | some a =>
      have hsome : asOption read (write a) = (read (write a)).map some := by
        unfold asOption
        split
        · exact absurd ‹write a = .null› (hnull a)
        · rfl
      rw [ofOption, hsome, h a, Except.map]

theorem inverse_list {α : Type} {read : Reader α} {write : α → Json}
    (h : Inverse read write) : Inverse (asList read) (ofList write) := by
  intro items
  rw [ofList, asList]
  induction items with
  | nil => rfl
  | cons a rest ih =>
      rw [List.map_cons, List.mapM_cons, h a, ih]
      rfl

/-! ## Records -/

theorem mem_map_insertField (key : String) (value : Json) (k : String)
    (fields : List (String × Json)) :
    k ∈ (insertField key value fields).map Prod.fst ↔ k = key ∨ k ∈ fields.map Prod.fst := by
  induction fields with
  | nil => simp [insertField]
  | cons field rest ih =>
      rw [insertField]
      split
      · simp
      · split
        · simp_all
        · simp only [List.map_cons, List.mem_cons, ih]
          tauto

theorem pairwise_insertField (key : String) (value : Json) (fields : List (String × Json))
    (h : (fields.map Prod.fst).Pairwise (· < ·)) :
    ((insertField key value fields).map Prod.fst).Pairwise (· < ·) := by
  induction fields with
  | nil => simp [insertField]
  | cons field rest ih =>
      simp only [List.map_cons, List.pairwise_cons] at h
      rw [insertField]
      split
      · next hlt =>
        simp only [List.map_cons, List.pairwise_cons, List.mem_cons]
        refine ⟨fun k hk => ?_, h⟩
        rcases hk with heq | hk
        · exact heq ▸ hlt
        · exact String.lt_trans hlt (h.1 k hk)
      · split
        · next heq =>
          simp only [List.map_cons, List.pairwise_cons]
          exact heq ▸ h
        · next hnot hne =>
          simp only [List.map_cons, List.pairwise_cons]
          refine ⟨fun k hk => ?_, ih h.2⟩
          rcases (mem_map_insertField key value k rest).mp hk with heq | hk
          · -- The key stands behind the first one, being neither before it nor equal to it.
            rw [heq]
            by_contra hc
            exact hne (String.le_antisymm (String.not_lt.mp hc) (String.not_lt.mp hnot))
          · exact h.1 k hk

/-- Sorted fields have each key once. -/
theorem nodup_sortFields (fields : List (String × Json)) :
    ((sortFields fields).map Prod.fst).Nodup := by
  have hsorted : ∀ (fields sorted : List (String × Json)),
      (sorted.map Prod.fst).Pairwise (· < ·) →
      ((fields.foldl (fun sorted field => insertField field.1 field.2 sorted) sorted).map
        Prod.fst).Pairwise (· < ·) := by
    intro fields
    induction fields with
    | nil => intro sorted h; exact h
    | cons field rest ih =>
        intro sorted h
        exact ih _ (pairwise_insertField field.1 field.2 sorted h)
  refine List.Pairwise.imp ?_ (hsorted fields [] List.Pairwise.nil)
  intro a b hlt heq
  rw [heq] at hlt
  exact String.lt_irrefl b hlt

/-- Where the fields of an object made of `fields` are looked up. -/
def sourceOf (fields : List (String × Json)) : Source :=
  ⟨fun key => fields.lookup key, false⟩

/-- An object made of fields is read as the fields are. -/
theorem record_ofFields {α : Type} (name : String) (declared : Fields α)
    (fields : List (String × Json)) (a : α) (hdistinct : (fields.map Prod.fst).Nodup)
    (h : declared.read (sourceOf fields) = .ok a) :
    record name declared (ofFields fields) = .ok a := by
  refine record_object name declared _ a (nodup_sortFields fields) ?_
  have hsource : (⟨fun key => (sortFields fields).lookup key, false⟩ : Source)
      = sourceOf fields := by
    unfold sourceOf
    congr 1
    funext key
    exact lookup_sortFields key fields hdistinct
  rw [hsource, h]

theorem read_map {α β : Type} {f : α → β} {declared : Fields α} {source : Source} {a : α}
    (h : declared.read source = .ok a) : (f <$> declared).read source = .ok (f a) := by
  change (declared.read source).map f = _
  rw [h, Except.map]

/-- Fields are read one after another. -/
theorem read_seq {α β : Type} {declared : Fields (α → β)} {last : Fields α} {source : Source}
    {f : α → β} {a : α} (hf : declared.read source = .ok f) (ha : last.read source = .ok a) :
    (declared <*> last).read source = .ok (f a) := by
  change Fields.combine (declared.read source) (last.read source) = _
  rw [hf, ha, Fields.combine]

theorem read_field {α : Type} {name : String} {read : Reader α} {write : α → Json}
    (h : Inverse read write) {source : Source} {a : α}
    (hfind : source.find name = some (write a)) : (field name read).read source = .ok a := by
  simp only [field, hfind, readPresent, h a]

theorem read_fieldOption {α : Type} {name : String} {read : Reader α}
    {write : Option α → Json} (h : Inverse (asOption read) write) {source : Source}
    {a : Option α} (hfind : source.find name = some (write a)) :
    (fieldOption name read).read source = .ok a := by
  simp only [fieldOption, hfind, readPresent, h a]

theorem inverse_ref : Inverse Block.Ref.read Block.Ref.toJson := fun _ =>
  record_ofFields _ _ _ _ (by simp) <|
    read_seq (read_seq (read_seq (read_map (read_field inverse_string rfl))
      (read_field inverse_uint32 rfl)) (read_field inverse_int64 rfl))
      (read_field inverse_int64 rfl)

theorem inverse_pair : Inverse PricePair.read PricePair.toJson := fun _ =>
  record_ofFields _ _ _ _ (by simp) <|
    read_seq (read_map (read_field inverse_string rfl)) (read_field inverse_string rfl)

theorem inverse_aggregate : Inverse Aggregate.read Aggregate.toJson := by
  have hcount : Inverse OracleCount.read OracleCount.toJson := fun _ =>
    record_ofFields _ _ _ _ (by simp) <|
      read_seq (read_map (read_field inverse_uint32 rfl)) (read_field inverse_uint32 rfl)
  exact fun _ => record_ofFields _ _ _ _ (by simp) <|
    read_seq (read_seq (read_map (read_field inverse_uint64 rfl))
      (read_field inverse_uint32 rfl)) (read_field hcount rfl)

theorem inverse_phase : Inverse SyncPhase.read fun phase => .string phase.name := by
  intro phase
  cases phase <;> rfl

end Json

/-! ## Kinds of record -/

/-- Values of this kind are read back as they were stored. -/
class RoundTrip (α : Type) [Entity α] : Prop where
  decode_toJson : ∀ a : α, Entity.decode (Entity.toJson a) = .ok a

open Json

theorem roundTrip_of_inverse {α : Type} [Entity α]
    (h : Inverse (Entity.read (α := α)) Entity.toJson) : RoundTrip α :=
  ⟨fun a => by rw [Entity.decode, h a]⟩

instance : RoundTrip Oracle :=
  roundTrip_of_inverse fun _ => record_ofFields _ _ _ _ (by simp [Entity.fields]) <|
    read_seq (read_seq (read_seq (read_seq (read_map (read_field inverse_string rfl))
      (read_field inverse_string rfl)) (read_field inverse_uint8 rfl))
      (read_field (inverse_list inverse_pair) rfl)) (read_field inverse_ref rfl)

instance : RoundTrip OracleSnapshot :=
  roundTrip_of_inverse fun _ => record_ofFields _ _ _ _ (by simp [Entity.fields]) <|
    read_seq (read_seq (read_seq (read_seq (read_seq (read_seq (read_seq (read_map
      (read_field inverse_string rfl)) (read_field inverse_string rfl))
      (read_field inverse_string rfl)) (read_field inverse_uint32 rfl))
      (read_field inverse_string rfl)) (read_field inverse_uint8 rfl))
      (read_field (inverse_list inverse_pair) rfl)) (read_field inverse_ref rfl)

instance : RoundTrip Membership :=
  roundTrip_of_inverse fun _ => record_ofFields _ _ _ _ (by simp [Entity.fields]) <|
    read_seq (read_seq (read_seq (read_seq (read_seq (read_seq (read_map
      (read_field inverse_string rfl)) (read_field inverse_string rfl))
      (read_field inverse_string rfl)) (read_field inverse_string rfl))
      (read_field inverse_string rfl)) (read_field inverse_uint8 rfl))
      (read_field inverse_ref rfl)

instance : RoundTrip PriceFeed :=
  roundTrip_of_inverse fun _ => record_ofFields _ _ _ _ (by simp [Entity.fields]) <|
    read_seq (read_seq (read_seq (read_seq (read_seq (read_seq (read_seq (read_seq (read_seq
      (read_map (read_field inverse_string rfl)) (read_field inverse_string rfl))
      (read_field inverse_string rfl)) (read_field inverse_string rfl))
      (read_field inverse_string rfl)) (read_field inverse_string rfl))
      (read_field inverse_uint32 rfl)) (read_field inverse_int64 rfl))
      (read_field inverse_uint64 rfl)) (read_field inverse_ref rfl)

instance : RoundTrip PriceAggregate :=
  roundTrip_of_inverse fun _ => record_ofFields _ _ _ _ (by simp [Entity.fields]) <|
    read_seq (read_seq (read_seq (read_seq (read_seq (read_map (read_field inverse_string rfl))
      (read_field inverse_string rfl)) (read_field inverse_string rfl))
      (read_field inverse_string rfl)) (read_field inverse_aggregate rfl))
      (read_field inverse_ref rfl)

instance : RoundTrip Masternode :=
  roundTrip_of_inverse fun _ => record_ofFields _ _ _ _ (by simp [Entity.fields]) <|
    read_seq (read_seq (read_seq (read_seq (read_seq (read_seq (read_seq (read_map
      (read_field inverse_string rfl)) (read_field inverse_string rfl))
      (read_field inverse_string rfl)) (read_field inverse_uint32 rfl))
      (read_fieldOption (inverse_option inverse_uint32 (by simp [ofUInt32])) rfl))
      (read_fieldOption (inverse_option inverse_string (by simp)) rfl))
      (read_field inverse_uint64 rfl)) (read_field inverse_ref rfl)

instance : RoundTrip MasternodeStats :=
  roundTrip_of_inverse fun _ => record_ofFields _ _ _ _ (by simp [Entity.fields]) <|
    read_seq (read_seq (read_seq (read_map (read_field inverse_uint32 rfl))
      (read_field inverse_ref rfl)) (read_field inverse_uint32 rfl))
      (read_field inverse_uint64 rfl)

instance : RoundTrip BlockRecord :=
  roundTrip_of_inverse fun _ => record_ofFields _ _ _ _ (by simp [Entity.fields]) <|
    read_seq (read_seq (read_seq (read_seq (read_seq (read_seq (read_seq (read_seq (read_seq
      (read_seq (read_seq (read_map (read_field inverse_string rfl))
      (read_field inverse_string rfl)) (read_field inverse_uint32 rfl))
      (read_field inverse_int64 rfl)) (read_field inverse_int64 rfl))
      (read_field inverse_float rfl))
      (read_fieldOption (inverse_option inverse_string (by simp)) rfl))
      (read_field inverse_uint64 rfl)) (read_field inverse_uint64 rfl))
      (read_field inverse_int64 rfl)) (read_field inverse_string rfl))
      (read_field inverse_uint32 rfl)

instance : RoundTrip SyncStatus :=
  roundTrip_of_inverse fun _ => record_ofFields _ _ _ _ (by simp [Entity.fields]) <|
    read_seq (read_seq (read_seq (read_map (read_field inverse_string rfl))
      (read_field inverse_uint32 rfl)) (read_field inverse_phase rfl))
      (read_field inverse_int64 rfl)

instance : RoundTrip Token :=
  roundTrip_of_inverse fun _ => record_ofFields _ _ _ _ (by simp [Entity.fields]) <|
    read_seq (read_seq (read_seq (read_seq (read_seq (read_seq (read_seq (read_seq (read_map
      (read_field inverse_string rfl)) (read_field inverse_string rfl))
      (read_field inverse_string rfl)) (read_field inverse_uint8 rfl))
      (read_field inverse_uint64 rfl)) (read_field inverse_bool rfl))
      (read_field inverse_bool rfl)) (read_field inverse_bool rfl))
      (read_field inverse_ref rfl)

instance : RoundTrip TransactionRecord :=
  roundTrip_of_inverse fun _ => record_ofFields _ _ _ _ (by simp [Entity.fields]) <|
    read_seq (read_seq (read_seq (read_seq (read_seq (read_seq (read_seq (read_seq (read_seq
      (read_seq (read_seq (read_map (read_field inverse_string rfl))
      (read_field inverse_uint32 rfl)) (read_field inverse_ref rfl))
      (read_field inverse_string rfl)) (read_field inverse_uint32 rfl))
      (read_field inverse_uint64 rfl)) (read_field inverse_uint64 rfl))
      (read_field inverse_uint64 rfl)) (read_field inverse_uint64 rfl))
      (read_field inverse_uint32 rfl)) (read_field inverse_uint32 rfl))
      (read_field inverse_uint64 rfl)

instance : RoundTrip OutputRecord :=
  roundTrip_of_inverse fun _ => record_ofFields _ _ _ _ (by simp [Entity.fields]) <|
    read_seq (read_seq (read_seq (read_seq (read_seq (read_seq (read_map
      (read_field inverse_string rfl)) (read_field inverse_string rfl))
      (read_field inverse_uint32 rfl)) (read_field inverse_uint64 rfl))
      (read_fieldOption (inverse_option inverse_uint32 (by simp [ofUInt32])) rfl))
      (read_field inverse_string rfl)) (read_field inverse_string rfl)

end ChainIndex
