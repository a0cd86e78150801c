import ChainIndex.Proofs.Json.Numbers

/-!
# Texts of values

A value is written on one line and read from it character by character. The reader looks no
further than the next character to tell what comes, and gives up on values that are nested
too deep and on integers that do not fit into words. Where it does not give up, it reads the
value that was written, but for doubles, of which each is read as its own text says.

The induction is over the value, with its items and its entries, and says of each that the
reader comes out right behind it.

## Main definitions

* `Json.reread`: What the text of a value is read as.
* `Json.Within`: A value that is neither nested too deep nor has integers that are too great.

## Theorems

* `parseString_quote`: A string is read as it was written.
* `parseValue_chars`: A value is read up to where it ends.
* `parse?_compact`: What the text of a value is read as.
-/

namespace ChainIndex

namespace Json

/-! ## What a text is read as -/

mutual

/-- What the text of a value is read as: the value, but for doubles, whose texts are read as
    doubles close by. -/
def reread : Json → Option Json
  | .float x => x.reread.map .float
  | .array items => (rereadItems items).map .array
  | .object entries => (rereadEntries entries).map .object
  | value => some value

/-- What the texts of some values are read as. -/
def rereadItems : List Json → Option (List Json)
  | [] => some []
  | item :: rest =>
    (reread item).bind fun item => (rereadItems rest).map fun rest => item :: rest

/-- What the texts of some entries are read as. -/
def rereadEntries : List (String × Json) → Option (List (String × Json))
  | [] => some []
  | (key, item) :: rest =>
    (reread item).bind fun item => (rereadEntries rest).map fun rest => (key, item) :: rest

end

mutual

/-- The value nests less than this deep, and its integers fit into words. -/
def Within : Nat → Json → Prop
  | 0, _ => False
  | _ + 1, .int n => -(2 ^ 63) ≤ n ∧ n < 2 ^ 64
  | depth + 1, .array items => 0 < depth ∧ ItemsWithin depth items
  | depth + 1, .object entries => 0 < depth ∧ EntriesWithin depth entries
  | _ + 1, _ => True

/-- So do these values. -/
def ItemsWithin : Nat → List Json → Prop
  | _, [] => True
  | depth, item :: rest => Within depth item ∧ ItemsWithin depth rest

/-- So do the values of these entries. -/
def EntriesWithin : Nat → List (String × Json) → Prop
  | _, [] => True
  | depth, (_, item) :: rest => Within depth item ∧ EntriesWithin depth rest

end

mutual

/-- How deep a value nests and how great its integers are is told by going through it. -/
def decideWithin : (depth : Nat) → (value : Json) → Decidable (value.Within depth)
  | 0, _ => isFalse (by simp [Within])
  | _ + 1, .int n => inferInstanceAs (Decidable (-(2 ^ 63) ≤ n ∧ n < 2 ^ 64))
  | depth + 1, .array items =>
    have := decideItemsWithin depth items
    inferInstanceAs (Decidable (0 < depth ∧ ItemsWithin depth items))
  | depth + 1, .object entries =>
    have := decideEntriesWithin depth entries
    inferInstanceAs (Decidable (0 < depth ∧ EntriesWithin depth entries))
  | _ + 1, .null | _ + 1, .bool _ | _ + 1, .float _ | _ + 1, .string _ => isTrue trivial

/-- So it is of these values. -/
def decideItemsWithin :
    (depth : Nat) → (items : List Json) → Decidable (ItemsWithin depth items)
  | _, [] => isTrue trivial
  | depth, item :: rest =>
    have := decideWithin depth item
    have := decideItemsWithin depth rest
    inferInstanceAs (Decidable (Within depth item ∧ ItemsWithin depth rest))

/-- So it is of the values of these entries. -/
def decideEntriesWithin :
    (depth : Nat) → (entries : List (String × Json)) → Decidable (EntriesWithin depth entries)
  | _, [] => isTrue trivial
  | depth, (_, item) :: rest =>
    have := decideWithin depth item
    have := decideEntriesWithin depth rest
    inferInstanceAs (Decidable (Within depth item ∧ EntriesWithin depth rest))

end

instance (depth : Nat) (value : Json) : Decidable (value.Within depth) :=
  decideWithin depth value

/-! ## Strings -/

theorem hexValue?_hexDigit : ∀ n, n < 16 → hexValue? (Text.hexDigit n) = some n := by
  decide

/-- A control character is read from its numeric escape. -/
theorem parseUnicode_control {c : Char} (h : c.toNat < 0x20) (rest : List Char) :
    parseUnicode ('0' :: '0' :: Text.hexDigit (c.toNat / 16) :: Text.hexDigit (c.toNat % 16)
      :: rest) = some (c, rest) := by
  have hhigh := hexValue?_hexDigit (c.toNat / 16) (by omega)
  have hlow := hexValue?_hexDigit (c.toNat % 16) (by omega)
  have hzero : hexValue? '0' = some 0 := by decide
  have hvalue : ((0 * 16 + 0) * 16 + c.toNat / 16) * 16 + c.toNat % 16 = c.toNat := by omega
  simp only [parseUnicode, parseFourHex, hzero, hhigh, hlow, Option.bind_eq_bind,
    Option.bind_some, Option.pure_def, hvalue]
  rw [if_neg (by omega), if_neg (by omega), Char.ofNat_toNat]

/-- A character is read from the way it is written in a string. -/
theorem parseChars_escapeChar (c : Char) (fuel : Nat) (read rest : List Char) :
    parseChars (fuel + 1) read (escapeChar c ++ rest) = parseChars fuel (c :: read) rest := by
  unfold escapeChar
  split
  · next h => subst h; rfl
  split
  · next h => subst h; rfl
  split
  · next h => subst h; rfl
  split
  · next h => subst h; rfl
  split
  · next h => subst h; rfl
  split
  · next h => subst h; rfl
  split
  · next h => subst h; rfl
  split
  · next h =>
    have hread : parseEscape ('u' :: '0' :: '0' :: Text.hexDigit (c.toNat / 16) ::
        Text.hexDigit (c.toNat % 16) :: rest) = some (c, rest) := parseUnicode_control h rest
    simp [parseChars, hread]
  · next hquote hbackslash _ _ _ _ _ hcontrol =>
    simp [parseChars, hquote, hbackslash, hcontrol]

theorem parseChars_flatMap (cs : List Char) {fuel : Nat} (h : cs.length < fuel)
    (read rest : List Char) :
    parseChars fuel read (cs.flatMap escapeChar ++ '"' :: rest) =
      some (cs.reverse ++ read, rest) := by
  induction cs generalizing fuel read with
  | nil =>
      rcases fuel with _ | fuel
      · exact absurd h (Nat.not_lt_zero _)
      · simp [parseChars]
  | cons c cs ih =>
      rcases fuel with _ | fuel
      · exact absurd h (Nat.not_lt_zero _)
      · rw [List.flatMap_cons, List.append_assoc, parseChars_escapeChar,
          ih (by simpa using h)]
        simp

theorem length_le_flatMap (cs : List Char) : cs.length ≤ (cs.flatMap escapeChar).length := by
  induction cs with
  | nil => simp
  | cons c cs ih =>
      -- However a character is written, it takes one character at least.
      have hpos : 0 < (escapeChar c).length := by
        unfold escapeChar
        repeat' split
        all_goals simp
      rw [List.flatMap_cons, List.length_append, List.length_cons]
      omega

/-- A string is read up to its closing quote. -/
theorem parseString_quote {s : String} {length : Nat} (h : (quote s).length < length)
    (rest : List Char) :
    parseString length (s.toList.flatMap escapeChar ++ '"' :: rest) = some (s, rest) := by
  have hlength := length_le_flatMap s.toList
  rw [quote, List.length_cons, List.length_append] at h
  rw [parseString, parseChars_flatMap s.toList (by omega)]
  simp

/-! ## Values -/

theorem not_isBlank_of_number {c : Char} (h : c = '-' ∨ c.isDigit = true) : isBlank c = false := by
  rw [← Bool.not_eq_true]
  intro hblank
  simp only [isBlank, Bool.or_eq_true, decide_eq_true_eq] at hblank
  rcases hblank with ((rfl | rfl) | rfl) | rfl <;> exact absurd h (by decide)

theorem skipBlanks_cons {c : Char} (h : isBlank c = false) (cs : List Char) :
    skipBlanks (c :: cs) = c :: cs :=
  List.dropWhile_cons_of_neg (by simp [h])

theorem parseValue_number (length depth : Nat) {cs : List Char} (h : StartsNumber cs) :
    parseValue length (depth + 1) cs = parseNumber cs := by
  rcases h with ⟨c, cs, rfl, h⟩
  rw [parseValue, skipBlanks_cons (not_isBlank_of_number h)]
  split
  all_goals first
    | rfl
    | next heq =>
        rw [List.cons.injEq] at heq
        rw [heq.1] at h
        exact absurd h (by decide)

theorem StartsNumber.append {cs : List Char} (h : StartsNumber cs) (rest : List Char) :
    StartsNumber (cs ++ rest) := by
  rcases h with ⟨c, cs, rfl, h⟩
  exact ⟨c, cs ++ rest, rfl, h⟩

@[simp]
theorem oneLine_newline (level : Nat) : oneLine.newline level = [] := rfl

@[simp]
theorem oneLine_afterColon : oneLine.afterColon = [] := rfl

/-- No value starts with a blank or with a bracket that closes. -/
theorem exists_chars (value : Json) (level : Nat) : ∃ c cs, value.chars oneLine level = c :: cs ∧
    isBlank c = false ∧ c ≠ ']' := by
  have hnumber : ∀ {cs : List Char}, StartsNumber cs →
      ∃ c rest, cs = c :: rest ∧ isBlank c = false ∧ c ≠ ']' := by
    rintro cs ⟨c, rest, rfl, hc⟩
    refine ⟨c, rest, rfl, not_isBlank_of_number hc, ?_⟩
    rintro rfl
    exact absurd hc (by decide)
  cases value with
  | null => exact ⟨_, _, rfl, by decide, by decide⟩
  | bool b => cases b <;> exact ⟨_, _, rfl, by decide, by decide⟩
  | int n => exact hnumber (startsNumber_int n)
  | float x => exact hnumber x.startsNumber_text
  | string s => exact ⟨_, _, rfl, by decide, by decide⟩
  | array items =>
      cases items with
      | nil => exact ⟨_, _, rfl, by decide, by decide⟩
      | cons item items => exact ⟨_, _, by rw [chars], by decide, by decide⟩
  | object entries =>
      cases entries with
      | nil => exact ⟨_, _, rfl, by decide, by decide⟩
      | cons entry entries => exact ⟨_, _, by rw [chars], by decide, by decide⟩

theorem length_le_itemsChars (items : List Json) (level : Nat) :
    items.length ≤ (itemsChars oneLine level items).length := by
  induction items with
  | nil => simp
  | cons item items ih =>
      rw [itemsChars, List.length_cons, List.length_cons, List.length_append]
      omega

theorem length_le_entriesChars (entries : List (String × Json)) (level : Nat) :
    entries.length ≤ (entriesChars oneLine level entries).length := by
  induction entries with
  | nil => simp
  | cons entry entries ih =>
      rw [entriesChars, List.length_cons, List.length_cons, List.length_append]
      omega

/-- Nothing that closes or separates goes on with a number. -/
theorem ends_itemsChars (items : List Json) (level : Nat) (rest : List Char) :
    Ends (itemsChars oneLine level items ++ ']' :: rest) := by
  cases items with
  | nil => exact ends_cons (by decide) (by decide) (by decide) (by decide) rest
  | cons item items =>
      rw [itemsChars, List.cons_append]
      exact ends_cons (by decide) (by decide) (by decide) (by decide) _

theorem ends_entriesChars (entries : List (String × Json)) (level : Nat) (rest : List Char) :
    Ends (entriesChars oneLine level entries ++ '\x7d' :: rest) := by
  rcases entries with _ | ⟨⟨key, item⟩, entries⟩
  · exact ends_cons (by decide) (by decide) (by decide) (by decide) rest
  · rw [entriesChars, List.cons_append]
    exact ends_cons (by decide) (by decide) (by decide) (by decide) _

/-! ## Brackets and braces -/

section

variable {value : List Char → Option (Json × List Char)} {length depth fuel : Nat}
variable {cs rest : List Char} {item : Json}

theorem parseItems_none {read : List Json} (h : value cs = none) :
    parseItems value (fuel + 1) read cs = none := by
  rw [parseItems, h]
  rfl

theorem parseItems_comma {read : List Json} (h : value cs = some (item, ',' :: rest)) :
    parseItems value (fuel + 1) read cs = parseItems value fuel (item :: read) rest := by
  rw [parseItems, h]
  rfl

theorem parseItems_bracket {read : List Json} (h : value cs = some (item, ']' :: rest)) :
    parseItems value (fuel + 1) read cs = some ((item :: read).reverse, rest) := by
  rw [parseItems, h]
  rfl

section

variable {key : String} {read : List (String × Json)} (hkey : (quote key).length < length)
include hkey

/-- An entry is a key and a value. -/
theorem parseEntries_entry :
    parseEntries value length (fuel + 1) read (quote key ++ ':' :: cs) = (do
      let (item, rest) ← value cs
      match skipBlanks rest with
      | ',' :: rest => parseEntries value length fuel ((key, item) :: read) rest
      | '\x7d' :: rest => return (((key, item) :: read).reverse, rest)
      | _ => none) := by
  have hread := parseString_quote hkey (':' :: cs)
  rw [quote, List.cons_append, List.append_assoc, List.singleton_append, parseEntries,
    skipBlanks_cons (by decide)]
  simp only [hread]
  rfl

theorem parseEntries_none (h : value cs = none) :
    parseEntries value length (fuel + 1) read (quote key ++ ':' :: cs) = none := by
  rw [parseEntries_entry hkey, h]
  rfl

theorem parseEntries_comma (h : value cs = some (item, ',' :: rest)) :
    parseEntries value length (fuel + 1) read (quote key ++ ':' :: cs) =
      parseEntries value length fuel ((key, item) :: read) rest := by
  rw [parseEntries_entry hkey, h]
  rfl

theorem parseEntries_brace (h : value cs = some (item, '\x7d' :: rest)) :
    parseEntries value length (fuel + 1) read (quote key ++ ':' :: cs) =
      some (((key, item) :: read).reverse, rest) := by
  rw [parseEntries_entry hkey, h]
  rfl

end

/-- Behind a bracket that is not closed at once there are items. -/
theorem parseValue_bracket (hdepth : 0 < depth) {c : Char} (hblank : isBlank c = false)
    (hc : c ≠ ']') (cs : List Char) : parseValue length (depth + 1) ('[' :: c :: cs) =
      (parseItems (parseValue length depth) length [] (c :: cs)).map fun found =>
        (.array found.1, found.2) := by
  rw [parseValue, skipBlanks_cons (by decide)]
  simp only [if_neg hdepth.ne', skipBlanks_cons hblank]
  split
  · next heq => exact absurd (List.cons.inj heq).1 hc
  · rfl

/-- Behind a brace and a quote there are entries. -/
theorem parseValue_brace (hdepth : 0 < depth) (cs : List Char) :
    parseValue length (depth + 1) ('\x7b' :: '"' :: cs) =
      (parseEntries (parseValue length depth) length length [] ('"' :: cs)).map fun found =>
        (.object found.1, found.2) := by
  rw [parseValue, skipBlanks_cons (by decide)]
  simp only [if_neg hdepth.ne', skipBlanks_cons (show isBlank '"' = false by decide)]
  rfl

end

theorem chars_array_cons (item : Json) (items : List Json) (level : Nat) :
    (array (item :: items)).chars oneLine level =
      '[' :: (item.chars oneLine (level + 1) ++
        (itemsChars oneLine (level + 1) items ++ [']'])) := by
  simp [chars]

theorem chars_object_cons (key : String) (item : Json) (entries : List (String × Json))
    (level : Nat) : (object ((key, item) :: entries)).chars oneLine level =
      '\x7b' :: (quote key ++ ':' :: (item.chars oneLine (level + 1) ++
        (entriesChars oneLine (level + 1) entries ++ ['\x7d']))) := by
  simp [chars]

theorem itemsChars_cons (item : Json) (items : List Json) (level : Nat) :
    itemsChars oneLine level (item :: items) =
      ',' :: (item.chars oneLine level ++ itemsChars oneLine level items) := by
  simp [itemsChars]

theorem entriesChars_cons (key : String) (item : Json) (entries : List (String × Json))
    (level : Nat) : entriesChars oneLine level ((key, item) :: entries) =
      ',' :: (quote key ++ ':' ::
        (item.chars oneLine level ++ entriesChars oneLine level entries)) := by
  simp [entriesChars]

/-! ## Texts -/

-- The induction is on the value. What follows a value is any text that no number goes on
-- with, since behind an item stands the rest of its array. The other items are read with the
-- first one already done, which is where the loops of the reader are after one round.
mutual

/-- The text of a value is read up to its end. -/
theorem parseValue_chars (length : Nat) : ∀ (value : Json) (depth level : Nat)
    (rest : List Char), value.Within depth → (value.chars oneLine level).length < length →
    Ends rest → parseValue length depth (value.chars oneLine level ++ rest) =
      value.reread.map fun found => (found, rest)
  | .null, depth + 1, level, rest, _, _, _ => rfl
  | .bool b, depth + 1, level, rest, _, _, _ => by
      cases b <;> rfl
  | .int n, depth + 1, level, rest, hwithin, _, hrest => by
      rw [chars, parseValue_number length depth ((startsNumber_int n).append rest),
        parseNumber_int hwithin.1 hwithin.2 hrest]
      rfl
  | .float x, depth + 1, level, rest, _, _, hrest => by
      rw [chars, parseValue_number length depth (x.startsNumber_text.append rest),
        x.parseNumber_text hrest, reread, Option.map_map]
      rfl
  | .string s, depth + 1, level, rest, _, hlength, _ => by
      rw [chars] at hlength ⊢
      rw [quote, List.cons_append, List.append_assoc, List.singleton_append, parseValue,
        skipBlanks_cons (by decide)]
      simp only [parseString_quote hlength rest]
      rfl
  | .array [], depth + 1, level, rest, hwithin, _, _ => by
      rw [chars, List.cons_append, parseValue, skipBlanks_cons (by decide)]
      simp only [if_neg hwithin.1.ne']
      rfl
  | .array (item :: items), depth + 1, level, rest, hwithin, hlength, _ => by
      rw [chars_array_cons] at hlength ⊢
      simp only [List.length_cons, List.length_append, List.length_nil] at hlength
      have hcount := length_le_itemsChars items (level + 1)
      have hitem := parseValue_chars length item depth (level + 1)
        (itemsChars oneLine (level + 1) items ++ ']' :: rest) hwithin.2.1 (by omega)
        (ends_itemsChars items _ rest)
      have hitems := parseItems_chars length items depth (level + 1) length []
        (item.chars oneLine (level + 1) ++ (itemsChars oneLine (level + 1) items ++ ']' :: rest))
        rest item.reread hwithin.2.2 (by omega) (by omega) hitem
      -- The first item does not look like the end of the array.
      rcases exists_chars item (level + 1) with ⟨c, cs, hchars, hblank, hc⟩
      rw [List.cons_append, List.append_assoc, List.append_assoc, List.singleton_append]
      rw [hchars, List.cons_append] at hitems ⊢
      rw [parseValue_bracket hwithin.1 hblank hc, hitems, reread, rereadItems]
      cases item.reread <;> cases rereadItems items <;> rfl
  | .object [], depth + 1, level, rest, hwithin, _, _ => by
      rw [chars, List.cons_append, parseValue, skipBlanks_cons (by decide)]
      simp only [if_neg hwithin.1.ne']
      rfl
  | .object ((key, item) :: entries), depth + 1, level, rest, hwithin, hlength, _ => by
      rw [chars_object_cons] at hlength ⊢
      simp only [List.length_cons, List.length_append, List.length_nil] at hlength
      have hcount := length_le_entriesChars entries (level + 1)
      have hitem := parseValue_chars length item depth (level + 1)
        (entriesChars oneLine (level + 1) entries ++ '\x7d' :: rest) hwithin.2.1 (by omega)
        (ends_entriesChars entries _ rest)
      have hentries := parseEntries_chars length entries depth (level + 1) length [] key
        (item.chars oneLine (level + 1) ++
          (entriesChars oneLine (level + 1) entries ++ '\x7d' :: rest))
        rest item.reread hwithin.2.2 (by omega) (by omega) (by omega) hitem
      simp only [List.cons_append, List.append_assoc, List.nil_append, quote] at hentries ⊢
      rw [parseValue_brace hwithin.1, hentries, reread, rereadEntries]
      cases item.reread <;> cases rereadEntries entries <;> rfl

/-- What stands behind an item that is read is read as the other items. -/
theorem parseItems_chars (length : Nat) : ∀ (items : List Json) (depth level fuel : Nat)
    (read : List Json) (cs rest : List Char) (first : Option Json), ItemsWithin depth items →
    (itemsChars oneLine level items).length < length → items.length < fuel →
    parseValue length depth cs =
      first.map (fun found => (found, itemsChars oneLine level items ++ ']' :: rest)) →
    parseItems (parseValue length depth) fuel read cs =
      first.bind fun item => (rereadItems items).map fun found =>
        (read.reverse ++ item :: found, rest)
  | _, _, _, _ + 1, _, _, _, none, _, _, _, hfirst => parseItems_none hfirst
  | [], depth, level, fuel + 1, read, cs, rest, some first, _, _, _, hfirst => by
      rw [parseItems_bracket hfirst, List.reverse_cons]
      rfl
  | item :: items, depth, level, fuel + 1, read, cs, rest, some first, hwithin, hlength, hfuel,
      hfirst => by
      rw [itemsChars_cons] at hlength hfirst
      simp only [List.length_cons, List.length_append] at hlength hfuel
      rw [List.cons_append, List.append_assoc] at hfirst
      have hitem := parseValue_chars length item depth level
        (itemsChars oneLine level items ++ ']' :: rest) hwithin.1 (by omega)
        (ends_itemsChars items _ rest)
      have hitems := parseItems_chars length items depth level fuel (first :: read)
        (item.chars oneLine level ++ (itemsChars oneLine level items ++ ']' :: rest)) rest
        item.reread hwithin.2 (by omega) (by omega) hitem
      rw [parseItems_comma hfirst, hitems, rereadItems, List.reverse_cons]
      simp only [List.append_assoc, List.singleton_append]
      cases item.reread <;> cases rereadItems items <;> rfl

/-- What stands behind an entry that is read is read as the other entries. -/
theorem parseEntries_chars (length : Nat) : ∀ (entries : List (String × Json))
    (depth level fuel : Nat) (read : List (String × Json)) (key : String) (cs rest : List Char)
    (first : Option Json), EntriesWithin depth entries →
    (entriesChars oneLine level entries).length < length → entries.length < fuel →
    (quote key).length < length →
    parseValue length depth cs =
      first.map (fun found => (found, entriesChars oneLine level entries ++ '\x7d' :: rest)) →
    parseEntries (parseValue length depth) length fuel read (quote key ++ ':' :: cs) =
      first.bind fun item => (rereadEntries entries).map fun found =>
        (read.reverse ++ (key, item) :: found, rest)
  | _, _, _, _ + 1, _, _, _, _, none, _, _, _, hkey, hfirst => parseEntries_none hkey hfirst
  | [], depth, level, fuel + 1, read, key, cs, rest, some first, _, _, _, hkey, hfirst => by
      rw [parseEntries_brace hkey hfirst, List.reverse_cons]
      rfl
  | (next, item) :: entries, depth, level, fuel + 1, read, key, cs, rest, some first, hwithin,
      hlength, hfuel, hkey, hfirst => by
      rw [entriesChars_cons] at hlength hfirst
      simp only [List.length_cons, List.length_append] at hlength hfuel
      rw [List.cons_append, List.append_assoc, List.cons_append, List.append_assoc] at hfirst
      have hitem := parseValue_chars length item depth level
        (entriesChars oneLine level entries ++ '\x7d' :: rest) hwithin.1 (by omega)
        (ends_entriesChars entries _ rest)
      have hentries := parseEntries_chars length entries depth level fuel ((key, first) :: read)
        next (item.chars oneLine level ++ (entriesChars oneLine level entries ++ '\x7d' :: rest))
        rest item.reread hwithin.2 (by omega) (by omega) (by omega) hitem
      rw [parseEntries_comma hkey hfirst, hentries, rereadEntries, List.reverse_cons]
      simp only [List.append_assoc, List.singleton_append]
      cases item.reread <;> cases rereadEntries entries <;> rfl

end

/-- The text of a value is read, if its integers fit into words, and it is not nested too deep,
    and its doubles are read. -/
theorem parse?_compact {value : Json} (h : value.Within 128) :
    parse? value.compact = value.reread := by
  have hread := parseValue_chars ((value.chars oneLine 0).length + 1) value 128 0 [] h
    (by omega) ends_nil
  rw [List.append_nil] at hread
  rw [parse?, compact, String.toList_ofList]
  simp only [hread]
  cases value.reread <;> rfl

end Json

end ChainIndex
