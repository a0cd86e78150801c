import ChainIndex.Decimal.Finite

/-!
# JSON values

The document values that records, payloads and blocks are made of. A number keeps
its kind: it is an integer or it is a double, and the two are never equal. The
entries of an object are a list, because both orders matter somewhere: a record is
printed in the order of its fields, and read in ascending order of its keys.

`Json.canonical` is the form in which values are kept: in every object the keys
are in ascending order and each of them occurs once, the last occurrence having
won. Strings compare by code point, which is the order of their UTF-8 bytes.

## Main definitions

* `Json`: A document value.
* `Json.ofFields`: An object with its keys in order.
* `Json.canonical`: Every object in order, all the way down.

## Theorems

* `lookup_insertField`: What an insertion does to a look-up.
* `lookup_sortFields`: Putting fields in order keeps what each key holds.
-/

namespace ChainIndex

/-- A document value. -/
inductive Json where
  /-- Nothing. -/
  | null
  /-- A truth value. -/
  | bool (value : Bool)
  /-- A number written without point and exponent. -/
  | int (value : Int)
  /-- A number written with a point or an exponent. -/
  | float (value : FiniteFloat)
  /-- Text. -/
  | string (value : String)
  /-- A sequence. -/
  | array (items : List Json)
  /-- Keys and their values. -/
  | object (entries : List (String × Json))
deriving Inhabited

namespace Json

/-! ## Equality -/

mutual

/-- Structural equality. -/
def same : Json → Json → Bool
  | .null, .null => true
  | .bool a, .bool b => a == b
  | .int a, .int b => a == b
  | .float a, .float b => decide (a = b)
  | .string a, .string b => a == b
  | .array a, .array b => sameItems a b
  | .object a, .object b => sameEntries a b
  | _, _ => false

/-- Structural equality of sequences. -/
def sameItems : List Json → List Json → Bool
  | [], [] => true
  | a :: as, b :: bs => same a b && sameItems as bs
  | _, _ => false

/-- Structural equality of entries, order included. -/
def sameEntries : List (String × Json) → List (String × Json) → Bool
  | [], [] => true
  | (k, a) :: as, (l, b) :: bs => k == l && same a b && sameEntries as bs
  | _, _ => false

end

mutual

theorem same_iff : ∀ a b : Json, same a b = true ↔ a = b
  | .null, b => by cases b <;> simp [same]
  | .bool _, b => by cases b <;> simp [same]
  | .int _, b => by cases b <;> simp [same]
  | .float _, b => by cases b <;> simp [same]
  | .string _, b => by cases b <;> simp [same]
  | .array as, b => by
    cases b with
    | array bs => simp [same, sameItems_iff as bs]
    | _ => simp [same]
  | .object as, b => by
    cases b with
    | object bs => simp [same, sameEntries_iff as bs]
    | _ => simp [same]

theorem sameItems_iff : ∀ as bs : List Json, sameItems as bs = true ↔ as = bs
  | [], bs => by cases bs <;> simp [sameItems]
  | a :: as, bs => by
    cases bs with
    | nil => simp [sameItems]
    | cons b bs => simp [sameItems, same_iff a b, sameItems_iff as bs]

theorem sameEntries_iff : ∀ as bs : List (String × Json), sameEntries as bs = true ↔ as = bs
  | [], bs => by cases bs <;> simp [sameEntries]
  | (k, a) :: as, bs => by
    cases bs with
    | nil => simp [sameEntries]
    | cons b bs =>
      obtain ⟨l, b⟩ := b
      simp [sameEntries, same_iff a b, sameEntries_iff as bs]

end

instance : DecidableEq Json := fun a b =>
  decidable_of_iff _ (same_iff a b)

/-! ## Objects in order -/

/-- Puts a field where its key belongs, in place of one with the same key. -/
def insertField (key : String) (value : Json) : List (String × Json) → List (String × Json)
  | [] => [(key, value)]
  | (k, v) :: rest =>
    if key < k then (key, value) :: (k, v) :: rest
    else if key = k then (key, value) :: rest
    else (k, v) :: insertField key value rest

/-- Fields in ascending order of their keys. Of two with one key the later stays. -/
def sortFields (fields : List (String × Json)) : List (String × Json) :=
  fields.foldl (fun sorted field => insertField field.1 field.2 sorted) []

/-- The object with these fields. -/
def ofFields (fields : List (String × Json)) : Json :=
  .object (sortFields fields)

/-- A look-up in a list of entries, with its test as a proposition. -/
theorem lookup_cons_if (k l : String) (v : Json) (rest : List (String × Json)) :
    ((l, v) :: rest).lookup k = if k = l then some v else rest.lookup k := by
  by_cases h : k = l
  · subst h
    simp
  · have h' : (k == l) = false := by simpa using h
    simp [List.lookup_cons, h', h]

theorem lookup_insertField (key : String) (value : Json) (k : String)
    (fields : List (String × Json)) :
    (insertField key value fields).lookup k = if k = key then some value else fields.lookup k := by
  induction fields with
  | nil => rw [insertField, lookup_cons_if]
  | cons field rest ih =>
    obtain ⟨l, v⟩ := field
    rw [insertField]
    split
    · rw [lookup_cons_if]
    · split
      · next h =>
        -- The field is replaced: its old value is out of reach under the same key.
        subst h
        simp only [lookup_cons_if]
        split <;> rfl
      · next h =>
        simp only [lookup_cons_if, ih]
        by_cases hk : k = l
        · have : k ≠ key := fun e => h (e.symm.trans hk)
          simp [hk, hk ▸ this]
        · simp [hk]

/-- A key holds after sorting what its last field gave it. -/
theorem lookup_foldl_insertField (k : String) :
    ∀ (fields sorted : List (String × Json)), (fields.map Prod.fst).Nodup →
      (fields.foldl (fun sorted field => insertField field.1 field.2 sorted) sorted).lookup k
        = (fields.lookup k).or (sorted.lookup k)
  | [], sorted, _ => by simp
  | (l, v) :: rest, sorted, h => by
    simp only [List.map_cons, List.nodup_cons] at h
    rw [List.foldl_cons, lookup_foldl_insertField k rest _ h.2, lookup_insertField]
    rw [lookup_cons_if]
    by_cases hk : k = l
    · subst hk
      have : rest.lookup k = none := by
        rw [List.lookup_eq_none_iff]
        intro p hp
        have : p.1 ≠ k := fun e => h.1 (List.mem_map.2 ⟨p, hp, e⟩)
        simpa using fun e => this e.symm
      simp [this]
    · simp [hk]

theorem lookup_sortFields (k : String) (fields : List (String × Json))
    (h : (fields.map Prod.fst).Nodup) : (sortFields fields).lookup k = fields.lookup k := by
  rw [sortFields, lookup_foldl_insertField k fields [] h]
  simp

mutual

/-- Every object in ascending order of its keys, all the way down. -/
def canonical : Json → Json
  | .array items => .array (canonicalItems items)
  | .object entries => ofFields (canonicalEntries entries)
  | value => value

/-- The items of a sequence, each in canonical form. -/
def canonicalItems : List Json → List Json
  | [] => []
  | item :: rest => canonical item :: canonicalItems rest

/-- The entries of an object, each with its value in canonical form. -/
def canonicalEntries : List (String × Json) → List (String × Json)
  | [] => []
  | (key, value) :: rest => (key, canonical value) :: canonicalEntries rest

end

end Json

end ChainIndex
