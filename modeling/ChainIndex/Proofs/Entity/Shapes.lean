import ChainIndex.Proofs.Entity.Walk
import ChainIndex.Proofs.Indexer.Pairs
import Mathlib.Data.String.Basic

/-!
# What a sort key gives away

A scan goes on behind a sort key, so two records of a partition with one sort key could be
torn apart by the end of a page. A store allows that, as it tells records apart by their
primary keys alone. It does not happen to records that are as their indexers write them. The
partition and the sort key of such a record, put together, give its primary key away.

How they do so is different for each kind. Numbers in a sort key have a fixed width, so what
stands behind them is read off whatever characters it has, and none of the texts that keys are
made of needs to be without hyphens. Blocks and transactions stand at a height and at a
position, which say nothing of a hash or an id: there it is the chain that has to have one
block at a height, and one transaction at a position.

## Main definitions

* `RecordKind.Derived`: The id and the key of a value are made of the rest of it.
* `RecordKind.Apart`: No two blocks, or transactions of a block, have one place.
* `Entity.Pinned`: An index entry gives the primary key away.

## Theorems

* `encodeHeight_append_injective`: A number of fixed width and what stands behind it.
* `eq_of_entry`: No two values share an index entry.
-/

namespace ChainIndex

open Entity

namespace Text

theorem encodeHeight_injective {a b : UInt32} (h : encodeHeight a = encodeHeight b) : a = b := by
  by_contra hne
  rcases UInt32.lt_or_lt_of_ne hne with hlt | hgt
  · exact absurd (h ▸ encodeHeight_lt hlt) (String.lt_irrefl _)
  · exact absurd (h ▸ encodeHeight_lt hgt) (String.lt_irrefl _)

theorem encodeHeight_lt_iff {a b : UInt32} : encodeHeight a < encodeHeight b ↔ a < b := by
  refine ⟨fun h => ?_, encodeHeight_lt⟩
  by_contra hle
  rcases UInt32.lt_or_eq_of_le (UInt32.not_lt.mp hle) with hlt | rfl
  · exact String.lt_asymm h (encodeHeight_lt hlt)
  · exact String.lt_irrefl _ h

/-- A number of fixed width is read off the front of a text, and so is what stands behind it. -/
theorem encodeHeight_append_injective {a b : UInt32} {x y : String}
    (h : encodeHeight a ++ "-" ++ x = encodeHeight b ++ "-" ++ y) : a = b ∧ x = y := by
  have hlists := toList_of_dash h
  have hlength : (encodeHeight a).toList.length = (encodeHeight b).toList.length := by
    simp only [encodeHeight, String.toList_ofList, length_hexDigits]
  rcases List.append_inj hlists hlength with ⟨hnumber, hrest⟩
  rw [List.cons.injEq] at hrest
  exact ⟨encodeHeight_injective (String.toList_injective hnumber),
    String.toList_injective hrest.2⟩

/-- A sort key of two numbers and a text is taken apart. -/
theorem sortKey_injective {h h' o o' : UInt32} {t t' : String}
    (heq : encodeHeight h ++ "-" ++ encodeHeight o ++ "-" ++ t =
      encodeHeight h' ++ "-" ++ encodeHeight o' ++ "-" ++ t') : h = h' ∧ o = o' ∧ t = t' := by
  have hassoc : ∀ h o t, encodeHeight h ++ "-" ++ encodeHeight o ++ "-" ++ t =
      encodeHeight h ++ "-" ++ (encodeHeight o ++ "-" ++ t) := by
    simp [String.append_assoc]
  rw [hassoc, hassoc] at heq
  rcases encodeHeight_append_injective heq with ⟨hheight, hrest⟩
  exact ⟨hheight, encodeHeight_append_injective hrest⟩

/-- Sort keys compare by their numbers, and where these agree by their texts. -/
theorem sortKey_lt_iff {h h' o o' : UInt32} {t t' : String} :
    encodeHeight h ++ "-" ++ encodeHeight o ++ "-" ++ t <
        encodeHeight h' ++ "-" ++ encodeHeight o' ++ "-" ++ t' ↔
      h < h' ∨ h = h' ∧ (o < o' ∨ o = o' ∧ t < t') := by
  have hmpr : ∀ {h h' o o' : UInt32} {t t' : String},
      h < h' ∨ h = h' ∧ (o < o' ∨ o = o' ∧ t < t') →
        encodeHeight h ++ "-" ++ encodeHeight o ++ "-" ++ t <
          encodeHeight h' ++ "-" ++ encodeHeight o' ++ "-" ++ t' := by
    rintro h h' o o' t t' (hheight | ⟨rfl, horder | ⟨rfl, htext⟩⟩)
    · exact sortKey_lt (.inl hheight) t t'
    · exact sortKey_lt (.inr ⟨rfl, horder⟩) t t'
    · change (_ : String).toList < (_ : String).toList
      simp only [String.toList_append]
      exact List.append_left_lt htext
  have htrichotomy : ∀ a b : UInt32, a < b ∨ a = b ∨ b < a := by
    intro a b
    rw [UInt32.lt_iff_toNat_lt, UInt32.lt_iff_toNat_lt, ← UInt32.toNat_inj]
    omega
  -- Were it the other way round, or the same, the keys would be.
  refine ⟨fun hlt => ?_, hmpr⟩
  rcases htrichotomy h h' with hheight | rfl | hheight
  · exact .inl hheight
  · rcases htrichotomy o o' with horder | rfl | horder
    · exact .inr ⟨rfl, .inl horder⟩
    · rcases lt_trichotomy t t' with htext | rfl | htext
      · exact .inr ⟨rfl, .inr ⟨rfl, htext⟩⟩
      · exact absurd hlt (String.lt_irrefl _)
      · exact absurd (hmpr (.inr ⟨rfl, .inr ⟨rfl, htext⟩⟩)) (String.lt_asymm hlt)
    · exact absurd (hmpr (.inr ⟨rfl, .inl horder⟩)) (String.lt_asymm hlt)
  · exact absurd (hmpr (.inl hheight)) (String.lt_asymm hlt)

end Text

/-! ## Shapes -/

namespace RecordKind

/-- The id and the key of a value are made of the rest of it, as its indexer makes them. The
    kinds that are not named have no such fields: their ids are given. -/
def Derived : (kind : RecordKind) → kind.Value → Prop
  | .output, (o : OutputRecord) => o.id = OutputRecord.idOf o.txid o.n
  | .snapshot, (s : OracleSnapshot) => s.id = OracleSnapshot.idOf s.oracleId s.block.height s.txid
  | .membership, (m : Membership) => m.key = m.pair.key ∧ m.id = Membership.idOf m.pair m.oracleId
  | .feed, (f : PriceFeed) =>
    f.key = PriceFeed.keyOf f.pair f.oracleId ∧ f.id = PriceFeed.idOf f.pair f.oracleId f.txid
  | .aggregate, (a : PriceAggregate) =>
    a.key = a.pair.key ∧ a.id = PriceAggregate.idOf a.pair a.block.height
  | _, _ => True

instance : (kind : RecordKind) → DecidablePred kind.Derived
  | .output => fun (o : OutputRecord) => inferInstanceAs (Decidable (o.id = _))
  | .snapshot => fun (s : OracleSnapshot) => inferInstanceAs (Decidable (s.id = _))
  | .membership => fun (m : Membership) => inferInstanceAs (Decidable (m.key = _ ∧ m.id = _))
  | .feed => fun (f : PriceFeed) => inferInstanceAs (Decidable (f.key = _ ∧ f.id = _))
  | .aggregate => fun (a : PriceAggregate) => inferInstanceAs (Decidable (a.key = _ ∧ a.id = _))
  | .block | .transaction | .token | .oracle | .masternode | .stats | .status =>
    fun _ => inferInstanceAs (Decidable True)

/-- No two blocks of a store have one height, and no two of its transactions one position in
    a block. Of other kinds nothing is asked. -/
def Apart (store : MemoryStore) : RecordKind → Prop
  | .block => ∀ a ∈ Entity.all BlockRecord store, ∀ b ∈ Entity.all BlockRecord store,
      a.height = b.height → a = b
  | .transaction => ∀ a ∈ Entity.all TransactionRecord store,
      ∀ b ∈ Entity.all TransactionRecord store,
        a.block.hash = b.block.hash → a.order = b.order → a = b
  | _ => True

instance (store : MemoryStore) : (kind : RecordKind) → Decidable (kind.Apart store)
  | .block => inferInstanceAs (Decidable (∀ a ∈ Entity.all BlockRecord store,
      ∀ b ∈ Entity.all BlockRecord store, a.height = b.height → a = b))
  | .transaction => inferInstanceAs (Decidable (∀ a ∈ Entity.all TransactionRecord store,
      ∀ b ∈ Entity.all TransactionRecord store,
        a.block.hash = b.block.hash → a.order = b.order → a = b))
  | .output | .token | .oracle | .snapshot | .membership | .feed | .aggregate | .masternode
  | .stats | .status => inferInstanceAs (Decidable True)

end RecordKind

namespace Entity

variable {α : Type} [Entity α]

/-- An index entry gives away the primary key of a value with the property `p`. -/
def Pinned (p : α → Prop) : Prop :=
  ∀ a b : α, p a → p b → ∀ entry ∈ entries a, entry ∈ entries b → key a = key b

theorem pinned_of {p : α → Prop} {entryOf : α → IndexEntry}
    (hentries : ∀ a, entries a = [entryOf a])
    (h : ∀ a b, p a → p b → entryOf a = entryOf b → key a = key b) : Pinned p := by
  intro a b ha hb entry hentry hentry'
  rw [hentries, List.mem_singleton] at hentry hentry'
  exact h a b ha hb (hentry.symm.trans hentry')

theorem pinned_output : Pinned (RecordKind.Derived .output) := by
  refine pinned_of (fun _ => rfl) fun (a b : OutputRecord) (ha : a.id = _) (hb : b.id = _) heq => ?_
  rw [IndexEntry.mk.injEq] at heq
  rcases heq with ⟨-, htxid, hn⟩
  change a.id = b.id
  rw [ha, hb, htxid, Text.encodeHeight_injective hn]

theorem pinned_snapshot : Pinned (RecordKind.Derived .snapshot) := by
  refine pinned_of (fun _ => rfl)
    fun (a b : OracleSnapshot) (ha : a.id = _) (hb : b.id = _) heq => ?_
  rw [IndexEntry.mk.injEq] at heq
  rcases heq with ⟨-, horacle, hsort⟩
  rcases Text.sortKey_injective hsort with ⟨hheight, -, htxid⟩
  change a.id = b.id
  rw [ha, hb, horacle, hheight, htxid]

theorem pinned_membership : Pinned (RecordKind.Derived .membership) := by
  refine pinned_of (fun _ => rfl) fun (a b : Membership) ha hb heq => ?_
  rcases ha with ⟨hkey, hid⟩
  rcases hb with ⟨hkey', hid'⟩
  rw [IndexEntry.mk.injEq] at heq
  rcases heq with ⟨-, hpair, horacle⟩
  change a.id = b.id
  rw [hid, hid', Membership.idOf, Membership.idOf, ← hkey, ← hkey', hpair, horacle]

theorem pinned_feed : Pinned (RecordKind.Derived .feed) := by
  refine pinned_of (fun _ => rfl) fun (a b : PriceFeed) ha hb heq => ?_
  rcases ha with ⟨hkey, hid⟩
  rcases hb with ⟨hkey', hid'⟩
  rw [IndexEntry.mk.injEq] at heq
  rcases heq with ⟨-, hpartition, hsort⟩
  rcases Text.sortKey_injective hsort with ⟨-, -, htxid⟩
  change a.id = b.id
  rw [hid, hid', PriceFeed.idOf, PriceFeed.idOf, ← hkey, ← hkey', hpartition, htxid]

theorem pinned_aggregate : Pinned (RecordKind.Derived .aggregate) := by
  refine pinned_of (fun _ => rfl) fun (a b : PriceAggregate) ha hb heq => ?_
  rcases ha with ⟨hkey, hid⟩
  rcases hb with ⟨hkey', hid'⟩
  rw [IndexEntry.mk.injEq] at heq
  rcases heq with ⟨-, hpair, hheight⟩
  change a.id = b.id
  rw [hid, hid', PriceAggregate.idOf, PriceAggregate.idOf, ← hkey, ← hkey', hpair,
    Text.encodeHeight_injective hheight]

/-! Of these kinds the sort key holds the id, or all that the id is made of. -/

theorem pinned_token : Pinned (RecordKind.Derived .token) := by
  refine pinned_of (fun _ => rfl) fun (_ _ : Token) _ _ heq => ?_
  rw [IndexEntry.unpartitioned, IndexEntry.unpartitioned, IndexEntry.mk.injEq] at heq
  exact (Text.encodeHeight_append_injective heq.2.2).2

theorem pinned_oracle : Pinned (RecordKind.Derived .oracle) := by
  refine pinned_of (fun _ => rfl) fun (_ _ : Oracle) _ _ heq => ?_
  rw [IndexEntry.unpartitioned, IndexEntry.unpartitioned, IndexEntry.mk.injEq] at heq
  exact heq.2.2

theorem pinned_masternode : Pinned (RecordKind.Derived .masternode) := by
  refine pinned_of (fun _ => rfl) fun (_ _ : Masternode) _ _ heq => ?_
  rw [IndexEntry.unpartitioned, IndexEntry.unpartitioned, IndexEntry.mk.injEq] at heq
  exact (Text.encodeHeight_append_injective heq.2.2).2

theorem pinned_stats : Pinned (RecordKind.Derived .stats) := by
  refine pinned_of (fun _ => rfl) fun (a b : MasternodeStats) _ _ heq => ?_
  rw [IndexEntry.unpartitioned, IndexEntry.unpartitioned, IndexEntry.mk.injEq] at heq
  change MasternodeStats.keyAt a.height = MasternodeStats.keyAt b.height
  rw [Text.encodeHeight_injective heq.2.2]

/-! ## Values of a store -/

/-- No two values of a store share an index entry. -/
theorem eq_of_entry {kind : RecordKind} {store : MemoryStore} (htyped : Typed kind.Value store)
    (hderived : ∀ a : kind.Value, Held store a → kind.Derived a) (hapart : kind.Apart store)
    {a b : kind.Value} (ha : Held store a) (hb : Held store b) {entry : IndexEntry}
    (hentry : entry ∈ entries a) (hentry' : entry ∈ entries b) : a = b := by
  have hpinned : Pinned kind.Derived → a = b := fun h =>
    ha.eq_of_key hb (h a b (hderived a ha) (hderived b hb) entry hentry hentry')
  -- An entry of a block or of a transaction says its place, which is not part of its key.
  cases kind with
  | block =>
      have heq := (List.mem_singleton.mp hentry).symm.trans (List.mem_singleton.mp hentry')
      rw [IndexEntry.unpartitioned, IndexEntry.unpartitioned, IndexEntry.mk.injEq] at heq
      exact hapart a ((mem_all htyped a).mpr ha) b ((mem_all htyped b).mpr hb)
        (Text.encodeHeight_injective heq.2.2)
  | transaction =>
      have heq := (List.mem_singleton.mp hentry).symm.trans (List.mem_singleton.mp hentry')
      rw [IndexEntry.mk.injEq] at heq
      exact hapart a ((mem_all htyped a).mpr ha) b ((mem_all htyped b).mpr hb) heq.2.1
        (Text.encodeHeight_injective heq.2.2)
  | output => exact hpinned pinned_output
  | token => exact hpinned pinned_token
  | oracle => exact hpinned pinned_oracle
  | snapshot => exact hpinned pinned_snapshot
  | membership => exact hpinned pinned_membership
  | feed => exact hpinned pinned_feed
  | aggregate => exact hpinned pinned_aggregate
  | masternode => exact hpinned pinned_masternode
  | stats => exact hpinned pinned_stats
  | status => exact absurd hentry List.not_mem_nil

end Entity

end ChainIndex
