import ChainIndex.Proofs.Chain.Replay
import ChainIndex.Proofs.Indexer.Derived
import Mathlib.Algebra.BigOperators.Ring.List
import Mathlib.Algebra.Order.BigOperators.Group.List
import Mathlib.Algebra.Order.Ring.Nat

/-!
# Weighted averages

At the end of a block each pair that was fed in it has its aggregate written, if any oracle is
active. What an aggregate should be is said here by way of lists: the oracles of a pair are all
memberships under its key, the latest feed of an oracle is the one than which no other in its
partition is later, and the aggregate is the average of the feeds that count.

The program gets there by other means. It lists the memberships page by page, asks an index
for the first entry from the top, and adds up as it goes. That each of these finds what the
lists say depends on the shapes of the records alone, so it holds of every store that the hooks
have written, however many oracles there are. The sums stay within the widths that they are
kept in as long as a pair has fewer than 2 ^ 24 oracles, and no sum of weights is zero.

## Main definitions

* `Membership.ofPair`: The oracles of a pair.
* `PriceFeed.LaterThan`, `PriceFeed.last?`: The latest feed of a partition.
* `activeOracles`: The oracles of a pair that are active, with the feeds that count.
* `Averages`: What an aggregate should be.

## Theorems

* `obtains_latest?`, `obtains_listOfPair`: What the program reads is what the lists say.
* `exists_le_mean`, `exists_mean_le`: An average lies between what it is made of.
* `PriceSums.toNat_ofActive`: The sums stay within their widths.
* `obtains_aggregatePair`: What the program makes of a pair.
* `block_end_writes_averages`: The end of a block writes what it should.
-/

namespace ChainIndex

open Entity Program

/-! ## What an aggregate should be -/

/-- The oracles of a pair: all memberships under its key. -/
def Membership.ofPair (t : MemoryStore) (pair : PricePair) : List Membership :=
  (all Membership t).filter fun m => m.key = pair.key

namespace PriceFeed

/-- One feed is later than another: by height, then by position, then by transaction. -/
def LaterThan (a b : PriceFeed) : Prop :=
  b.block.height < a.block.height ∨ b.block.height = a.block.height ∧
    (b.order < a.order ∨ b.order = a.order ∧ b.txid < a.txid)

instance (a b : PriceFeed) : Decidable (a.LaterThan b) :=
  inferInstanceAs (Decidable (_ ∨ _ ∧ (_ ∨ _ ∧ _)))

/-- The feeds of a partition. -/
def ofPartition (t : MemoryStore) (partition : String) : List PriceFeed :=
  (all PriceFeed t).filter fun f => f.key = partition

/-- The latest feed of a partition: the one than which none there is later. -/
def last? (t : MemoryStore) (partition : String) : Option PriceFeed :=
  (ofPartition t partition).find? fun f =>
    (ofPartition t partition).all fun g => ¬ g.LaterThan f

end PriceFeed

/-- The feed with which an oracle of a pair counts in a block. The oracle has to have a weight,
    and its latest feed has to be within an hour of the block. -/
def Membership.counted? (t : MemoryStore) (block : Block) (pair : PricePair) (m : Membership) :
    Option PriceFeed :=
  if m.weightage = 0 then none
  else (PriceFeed.last? t (PriceFeed.keyOf pair m.oracleId)).filter fun f =>
    (f.time.toInt - block.time.toInt).natAbs ≤ 3600

/-- The oracles of a pair that are active in a block, each with the feed that counts. -/
def activeOracles (t : MemoryStore) (block : Block) (pair : PricePair) :
    List (Membership × PriceFeed) :=
  (Membership.ofPair t pair).filterMap fun m => (m.counted? t block pair).map (m, ·)

/-- The sum of the weights of some oracles. -/
def totalWeight (active : List (Membership × PriceFeed)) : Nat :=
  (active.map fun p => p.1.weightage.toNat).sum

/-- The sum of their prices, each times its weight. -/
def weightedTotal (active : List (Membership × PriceFeed)) : Nat :=
  (active.map fun p => p.2.amount.toNat * p.1.weightage.toNat).sum

/-- What the aggregate of a pair of `size` oracles should be, given those that are active. Each
    field has the value that a sum or a quotient has in the natural numbers, so none of them is
    cut off; no weight is lost to a division by zero; and the sum of prices fits into 128 bits. -/
structure Averages (active : List (Membership × PriceFeed)) (size : Nat) (a : Aggregate) :
    Prop where
  amount : a.amount.toNat = weightedTotal active / totalWeight active
  weightage : a.weightage.toNat = totalWeight active
  count : a.oracles.active.toNat = active.length
  total : a.oracles.total.toNat = size
  weight_pos : 0 < totalWeight active
  sum_lt : weightedTotal active < 2 ^ 128
  least : ∃ p ∈ active, p.2.amount ≤ a.amount
  greatest : ∃ p ∈ active, a.amount ≤ p.2.amount

/-! ## An average lies between what it is made of -/

section

variable {ι : Type} {l : List ι} (value : ι → Nat) {weight : ι → Nat}

theorem exists_le_mean (hpos : 0 < (l.map weight).sum) : ∃ x ∈ l,
    value x ≤ (l.map fun x => value x * weight x).sum / (l.map weight).sum := by
  by_contra hnone
  push Not at hnone
  set mean := (l.map fun x => value x * weight x).sum / (l.map weight).sum with hmean
  -- If every value were above the average, the average would be above itself.
  have hsum : (mean + 1) * (l.map weight).sum ≤ (l.map fun x => value x * weight x).sum := by
    rw [← List.sum_map_mul_left]
    exact List.sum_le_sum fun x hx => Nat.mul_le_mul_right _ (hnone x hx)
  have hle : mean + 1 ≤ mean := (Nat.le_div_iff_mul_le hpos).mpr hsum
  omega

theorem exists_mean_le (hpos : 0 < (l.map weight).sum) : ∃ x ∈ l,
    (l.map fun x => value x * weight x).sum / (l.map weight).sum ≤ value x := by
  by_contra hnone
  push Not at hnone
  set mean := (l.map fun x => value x * weight x).sum / (l.map weight).sum with hmean
  have hsum : (l.map fun x => (value x + 1) * weight x).sum ≤ mean * (l.map weight).sum := by
    rw [← List.sum_map_mul_left]
    exact List.sum_le_sum fun x hx => Nat.mul_le_mul_right _ (hnone x hx)
  have hsplit : (l.map fun x => (value x + 1) * weight x).sum =
      (l.map fun x => value x * weight x).sum + (l.map weight).sum := by
    rw [← List.sum_map_add]
    simp only [Nat.succ_mul]
  have hdiv := Nat.div_mul_le_self (l.map fun x => value x * weight x).sum (l.map weight).sum
  rw [← hmean] at hdiv
  omega

end

/-! ## What the program reads -/

section

variable {t : MemoryStore} {block : Block} {pair : PricePair}

theorem listed_membership_iff {partition : String} {m : Membership} :
    Listed Membership.byPair partition t m ↔ Held t m ∧ m.key = partition := by
  refine and_congr_right fun _ => ⟨fun ⟨_, hentry⟩ => (Membership.key_of_entry hentry).1, ?_⟩
  rintro rfl
  exact ⟨_, List.mem_singleton_self _⟩

theorem listed_feed_iff {partition : String} {f : PriceFeed} :
    Listed PriceFeed.byOraclePair partition t f ↔ Held t f ∧ f.key = partition := by
  refine and_congr_right fun _ => ⟨fun ⟨_, hentry⟩ => PriceFeed.key_of_entry hentry, ?_⟩
  rintro rfl
  exact ⟨_, List.mem_singleton_self _⟩

/-- Feeds are in order by their sort keys. -/
theorem PriceFeed.laterThan_iff {a b : PriceFeed} :
    a.LaterThan b ↔ sortKey byOraclePair b < sortKey byOraclePair a :=
  Text.sortKey_lt_iff.symm

instance : SinglyIndexed PriceFeed := inferInstanceAs (SinglyIndexed RecordKind.feed.Value)

instance : SinglyIndexed Membership :=
  inferInstanceAs (SinglyIndexed RecordKind.membership.Value)

variable (h : t.Shaped)
include h

theorem PriceFeed.mem_ofPartition {partition : String} {f : PriceFeed} :
    f ∈ ofPartition t partition ↔ Held t f ∧ f.key = partition := by
  have htyped : Typed PriceFeed t := h.typed .feed
  rw [ofPartition, List.mem_filter, mem_all htyped, decide_eq_true_iff]

theorem Membership.mem_ofPair {m : Membership} :
    m ∈ ofPair t pair ↔ Held t m ∧ m.key = pair.key := by
  have htyped : Typed Membership t := h.typed .membership
  rw [ofPair, List.mem_filter, mem_all htyped, decide_eq_true_iff]

omit h in
/-- Of feeds that are in order from the latest on, the first is the latest. -/
theorem PriceFeed.last?_eq_head? {partition : String} {items : List PriceFeed}
    (hmem : ∀ f, f ∈ items ↔ f ∈ ofPartition t partition)
    (hsorted : items.Pairwise LaterThan) : last? t partition = items.head? := by
  cases items with
  | nil =>
      have hnil : ofPartition t partition = [] :=
        List.eq_nil_iff_forall_not_mem.mpr fun f hf => List.not_mem_nil ((hmem f).mpr hf)
      rw [last?, hnil]
      rfl
  | cons first rest =>
      rw [List.pairwise_cons] at hsorted
      have hlast : ∀ g ∈ ofPartition t partition, ¬ g.LaterThan first := by
        intro g hg hlater
        have hlt := laterThan_iff.mp hlater
        rcases List.mem_cons.mp ((hmem g).mpr hg) with rfl | hrest
        · exact String.lt_irrefl _ hlt
        · exact String.lt_asymm hlt (laterThan_iff.mp (hsorted.1 g hrest))
      rcases hfind : last? t partition with _ | g <;> rw [last?] at hfind
      · have hnot := List.find?_eq_none.mp hfind first ((hmem first).mp List.mem_cons_self)
        exact absurd (List.all_eq_true.mpr fun g hg => decide_eq_true (hlast g hg)) hnot
      · -- Whatever else is found would have the first one later than it.
        have hall := List.find?_some hfind
        rw [List.all_eq_true] at hall
        have hnot := of_decide_eq_true (hall first ((hmem first).mp List.mem_cons_self))
        rcases List.mem_cons.mp ((hmem g).mpr (List.mem_of_find?_eq_some hfind)) with rfl | hrest
        · rfl
        · exact absurd (hsorted.1 g hrest) hnot

/-- The first entry of a partition from the top is that of its latest feed. -/
theorem obtains_latest? (pair : PricePair) (id : String) :
    Obtains (PriceFeed.latest? pair id) t (PriceFeed.last? t (PriceFeed.keyOf pair id)) := by
  have htyped : Typed PriceFeed t := h.typed .feed
  rcases Entity.exists_ahead PriceFeed.byOraclePair (some (PriceFeed.keyOf pair id)) h.wf htyped
    none with ⟨items, hahead, -⟩
  have hmem : ∀ f, f ∈ items ↔ f ∈ PriceFeed.ofPartition t (PriceFeed.keyOf pair id) := by
    intro f
    rw [hahead.mem_iff_listed htyped, PriceFeed.mem_ofPartition h]
    exact listed_feed_iff
  have hsorted := hahead.sorted (h.untied .feed trivial _ _)
  rw [PriceFeed.last?_eq_head? hmem (hsorted.imp PriceFeed.laterThan_iff.mpr)]
  exact obtains_first? h.wf htyped hahead

/-- The memberships of a pair are listed, in some order. -/
theorem obtains_listOfPair (pair : PricePair) : ∃ items, items.Perm (Membership.ofPair t pair) ∧
    Obtains (Membership.listOfPair pair) t items := by
  have htyped : Typed Membership t := h.typed .membership
  rcases Entity.exists_ahead Membership.byPair (some pair.key) h.wf htyped none with
    ⟨items, hahead, -⟩
  refine ⟨items, (List.perm_ext_iff_of_nodup hahead.nodup ((nodup_all htyped).filter _)).mpr
    fun m => ?_, fun _ _ => run_list t.pagedAs h.wf htyped
      (h.untied .membership trivial _ _) hahead⟩
  rw [hahead.mem_iff_listed htyped]
  exact listed_membership_iff.trans (Membership.mem_ofPair h).symm

end

/-! ## Adding up -/

namespace PriceSums

/-- One more active oracle is added to the sums. -/
def count (sums : PriceSums) (p : Membership × PriceFeed) : PriceSums :=
  sums.add p.2.amount p.1.weightage

/-- An oracle is added to the sums if it is active. -/
def countIf (sums : PriceSums) : Option (Membership × PriceFeed) → PriceSums
  | some p => sums.count p
  | none => sums

theorem foldl_countIf (items : List Membership)
    (active? : Membership → Option (Membership × PriceFeed)) (sums : PriceSums) :
    items.foldl (fun sums m => sums.countIf (active? m)) sums =
      (items.filterMap active?).foldl count sums := by
  induction items generalizing sums with
  | nil => rfl
  | cons m rest ih =>
      rw [List.foldl_cons, ih, List.filterMap_cons]
      cases active? m with
      | none => rfl
      | some p => rfl

/-- The sums over some active oracles. -/
def ofActive (active : List (Membership × PriceFeed)) : PriceSums :=
  active.foldl count zero

/-- They are the sums in the natural numbers, cut off at the widths that they are kept in. -/
theorem ofActive_eq (active : List (Membership × PriceFeed)) :
    ofActive active = ⟨BitVec.ofNat 128 (weightedTotal active),
      UInt32.ofNat (totalWeight active), UInt32.ofNat active.length⟩ := by
  -- Cutting off goes well with sums, so it does not matter that the program does it at once.
  suffices hall : ∀ sums : PriceSums, active.foldl count sums =
      ⟨sums.weighted + BitVec.ofNat 128 (weightedTotal active),
        sums.weightage + UInt32.ofNat (totalWeight active),
        sums.active + UInt32.ofNat active.length⟩ by
    rw [ofActive, hall, zero]
    simp
  unfold weightedTotal totalWeight
  induction active with
  | nil => simp
  | cons p rest ih =>
      intro sums
      have hterm : BitVec.ofNat 128 (p.2.amount.toNat * p.1.weightage.toNat) =
          p.2.amount.toBitVec.setWidth 128 * p.1.weightage.toBitVec.setWidth 128 := by
        rw [BitVec.ofNat_mul, ← UInt64.toNat_toBitVec, ← UInt8.toNat_toBitVec,
          BitVec.ofNat_toNat, BitVec.ofNat_toNat]
      have hweight : UInt32.ofNat p.1.weightage.toNat = p.1.weightage.toUInt32 :=
        UInt32.toNat_inj.mp (by simp)
      rw [List.foldl_cons, ih, List.map_cons, List.map_cons, List.sum_cons, List.sum_cons,
        List.length_cons, BitVec.ofNat_add, UInt32.ofNat_add, UInt32.ofNat_add, hterm, hweight]
      simp [count, add, BitVec.add_assoc, UInt32.add_assoc, UInt32.add_comm 1]

/-- They do not depend on the order of the oracles. -/
theorem ofActive_perm {active other : List (Membership × PriceFeed)} (h : active.Perm other) :
    ofActive active = ofActive other := by
  rw [ofActive_eq, ofActive_eq]
  unfold weightedTotal totalWeight
  rw [(h.map _).sum_eq, (h.map fun p => p.1.weightage.toNat).sum_eq, h.length_eq]

end PriceSums

theorem weight_pos_of_mem {t : MemoryStore} {block : Block} {pair : PricePair}
    {p : Membership × PriceFeed} (hp : p ∈ activeOracles t block pair) :
    0 < p.1.weightage.toNat := by
  rcases List.mem_filterMap.mp hp with ⟨m, -, hm⟩
  rcases Option.map_eq_some_iff.mp hm with ⟨f, hf, rfl⟩
  rw [Membership.counted?] at hf
  split at hf
  · exact absurd hf (by simp)
  · next hne => exact Nat.pos_of_ne_zero fun hzero => hne (UInt8.toNat_inj.mp hzero)

theorem length_activeOracles_le (t : MemoryStore) (block : Block) (pair : PricePair) :
    (activeOracles t block pair).length ≤ (Membership.ofPair t pair).length :=
  List.length_filterMap_le _ _

/-- The aggregate that a store has for a pair as of a block. -/
def MemoryStore.aggregate? (t : MemoryStore) (block : Block) (pair : PricePair) :
    Option Aggregate :=
  (PriceSums.ofActive (activeOracles t block pair)).average? (Membership.ofPair t pair).length

@[simp]
theorem average?_nil (size : Nat) : (PriceSums.ofActive []).average? size = none := rfl

/-- No weight is greater than 255. -/
theorem totalWeight_le (active : List (Membership × PriceFeed)) :
    totalWeight active ≤ active.length * 255 := by
  have hle := List.sum_le_card_nsmul (active.map fun p => p.1.weightage.toNat) 255 (by
    simp only [List.forall_mem_map]
    exact fun p _ => Nat.le_of_lt_succ p.1.weightage.toNat_lt)
  rwa [List.length_map, nsmul_eq_mul] at hle

/-- No price has more than 64 bits, so neither has their average. -/
theorem weightedTotal_le (active : List (Membership × PriceFeed)) :
    weightedTotal active ≤ (2 ^ 64 - 1) * totalWeight active := by
  rw [totalWeight, ← List.sum_map_mul_left]
  exact List.sum_le_sum fun p _ =>
    Nat.mul_le_mul_right _ (Nat.le_of_lt_succ p.2.amount.toNat_lt)

theorem totalWeight_pos {active : List (Membership × PriceFeed)} (hne : active ≠ [])
    (hweights : ∀ p ∈ active, 0 < p.1.weightage.toNat) : 0 < totalWeight active := by
  rcases List.exists_mem_of_ne_nil active hne with ⟨p, hp⟩
  exact (hweights p hp).trans_le (List.single_le_sum (by simp) _ (List.mem_map_of_mem hp))

/-- The sums over fewer than 2 ^ 24 oracles stay within their widths: so many weights of 8 bits
    add up to less than 2 ^ 32, and so many prices of 64 bits, each times its weight, to less
    than 2 ^ 96. -/
theorem PriceSums.toNat_ofActive {active : List (Membership × PriceFeed)}
    (hlength : active.length < 2 ^ 24) :
    (ofActive active).weighted.toNat = weightedTotal active ∧
      (ofActive active).weightage.toNat = totalWeight active ∧
      (ofActive active).active.toNat = active.length := by
  have hweight := totalWeight_le active
  have hsum := weightedTotal_le active
  rw [ofActive_eq]
  refine ⟨?_, UInt32.toNat_ofNat_of_lt ?_, UInt32.toNat_ofNat_of_lt ?_⟩
  · rw [BitVec.toNat_ofNat]
    exact Nat.mod_eq_of_lt (by omega)
  · change totalWeight active < 2 ^ 32
    omega
  · change active.length < 2 ^ 32
    omega

/-- Of some active oracles, but fewer than 2 ^ 24, the program makes what it should. -/
theorem exists_averages {active : List (Membership × PriceFeed)} {size : Nat}
    (hne : active ≠ []) (hweights : ∀ p ∈ active, 0 < p.1.weightage.toNat)
    (hlength : active.length ≤ size) (hsize : size < 2 ^ 24) :
    ∃ a, (PriceSums.ofActive active).average? size = some a ∧ Averages active size a := by
  rcases PriceSums.toNat_ofActive (Nat.lt_of_le_of_lt hlength hsize) with
    ⟨hweighted, hweightage, hcount⟩
  have hsome : ¬ (PriceSums.ofActive active).active = 0 := by
    intro hzero
    rw [hzero] at hcount
    exact hne (List.length_eq_zero_iff.mp hcount.symm)
  have hpos := totalWeight_pos hne hweights
  have hsum := weightedTotal_le active
  have hweight := totalWeight_le active
  have hamount : weightedTotal active / totalWeight active < 2 ^ 64 :=
    Nat.lt_of_le_of_lt (Nat.div_le_of_le_mul (by rwa [Nat.mul_comm] at hsum)) (by decide)
  -- The quotient is taken in 128 bits, and 64 of them are kept.
  have hvalue : (((PriceSums.ofActive active).weighted /
      (PriceSums.ofActive active).weightage.toBitVec.setWidth 128).setWidth 64).toNat =
        weightedTotal active / totalWeight active := by
    rw [BitVec.toNat_setWidth, BitVec.toNat_udiv, BitVec.toNat_setWidth, UInt32.toNat_toBitVec,
      hweighted, hweightage, Nat.mod_eq_of_lt (b := 2 ^ 128) (by omega)]
    exact Nat.mod_eq_of_lt hamount
  refine ⟨_, if_neg hsome, ?_⟩
  refine ⟨hvalue, hweightage, hcount, UInt32.toNat_ofNat_of_lt ?_, hpos, ?_, ?_, ?_⟩
  · change size < 2 ^ 32
    omega
  · omega
  · rcases exists_le_mean (fun p : Membership × PriceFeed => p.2.amount.toNat) hpos with
      ⟨p, hp, hle⟩
    exact ⟨p, hp, UInt64.le_iff_toNat_le.mpr (hle.trans hvalue.ge)⟩
  · rcases exists_mean_le (fun p : Membership × PriceFeed => p.2.amount.toNat) hpos with
      ⟨p, hp, hle⟩
    exact ⟨p, hp, UInt64.le_iff_toNat_le.mpr (hvalue.le.trans hle)⟩

/-! ## The aggregate of a pair -/

/-- A loop over a list reads what each of its rounds reads. -/
theorem Program.Obtains.foldlM {α β : Type} {f : α → β → Program α} {g : α → β → α}
    {t : MemoryStore} (h : ∀ a b, Obtains (f a b) t (g a b)) (items : List β) (a : α) :
    Obtains (items.foldlM f a) t (items.foldl g a) := by
  induction items generalizing a with
  | nil => exact obtains_pure t a
  | cons b rest ih =>
      rw [List.foldlM_cons]
      exact (h a b).bind (ih (g a b))

section

variable {t : MemoryStore} (h : t.Shaped) (block : Block) (pair : PricePair)
include h

/-- An oracle is added to the sums with the feed that counts, if there is one. -/
theorem obtains_addOracle (sums : PriceSums) (m : Membership) :
    Obtains (addOracle block pair sums m) t
      (sums.countIf ((m.counted? t block pair).map (m, ·))) := by
  unfold addOracle Membership.counted?
  split
  · exact obtains_pure t _
  · refine (obtains_latest? h pair m.oracleId).bind ?_
    cases PriceFeed.last? t (PriceFeed.keyOf pair m.oracleId) with
    | none => exact obtains_pure t _
    | some f =>
        by_cases htimely : (f.time.toInt - block.time.toInt).natAbs ≤ 3600
        · simp only [isTimely, feedValiditySeconds, htimely, decide_true, if_true,
            Option.filter_some]
          exact obtains_pure t _
        · simp only [isTimely, feedValiditySeconds, htimely, decide_false, Option.filter_some]
          exact obtains_pure t _

/-- The program makes of a pair what the lists say. -/
theorem obtains_aggregatePair :
    Obtains (aggregatePair block pair) t (t.aggregate? block pair) := by
  rcases obtains_listOfPair h pair with ⟨items, hperm, hlist⟩
  have hsums := Obtains.foldlM (obtains_addOracle h block pair) items PriceSums.zero
  rw [PriceSums.foldl_countIf] at hsums
  change Obtains _ t (PriceSums.ofActive _) at hsums
  rw [PriceSums.ofActive_perm (hperm.filterMap _)] at hsums
  refine hlist.bind (hsums.bind ?_)
  rw [hperm.length_eq]
  exact obtains_pure t _

end

/-! ## The end of a block -/

section

variable {t w : MemoryStore} {block : Block} {pair : PricePair}

/-- What a store makes of a pair comes from its memberships and feeds. -/
theorem activeOracles_congr (h : w.Agree [model Membership, model PriceFeed] t) :
    activeOracles w block pair = activeOracles t block pair ∧
      w.aggregate? block pair = t.aggregate? block pair := by
  have hmembers : all Membership w = all Membership t :=
    all_congr Membership fun k => h _ (by simp) k
  have hfeeds : all PriceFeed w = all PriceFeed t := all_congr PriceFeed fun k => h _ (by simp) k
  have hactive : activeOracles w block pair = activeOracles t block pair := by
    simp only [activeOracles, Membership.ofPair, Membership.counted?, PriceFeed.last?,
      PriceFeed.ofPartition, hmembers, hfeeds]
  rw [MemoryStore.aggregate?, MemoryStore.aggregate?, hactive, Membership.ofPair,
    Membership.ofPair, hmembers]
  exact ⟨rfl, rfl⟩

/-- The keys of the aggregates that a block writes for some pairs. -/
def AggregateKeys (t : MemoryStore) (block : Block) (pairs : List PricePair) (m k : String) :
    Prop :=
  m = model PriceAggregate ∧ ∃ pair ∈ pairs, activeOracles t block pair ≠ [] ∧
    k = PriceAggregate.idOf pair block.height

/-- The store `w` has the aggregates of some pairs, as `t` makes them, and is like `t` apart
    from these. -/
structure HasAggregates (t : MemoryStore) (block : Block) (pairs : List PricePair)
    (w : MemoryStore) : Prop where
  held : ∀ pair ∈ pairs, ∀ a, t.aggregate? block pair = some a →
    Held w (a.keptFor pair block.ref)
  elsewhere : MemoryStore.SameOutside (AggregateKeys t block pairs) t w

theorem HasAggregates.agree {pairs : List PricePair} (h : HasAggregates t block pairs w) :
    w.Agree [model Membership, model PriceFeed] t := by
  intro m hm k
  refine h.elsewhere m k fun hkey => ?_
  rw [hkey.1] at hm
  exact absurd hm (by decide)

theorem activeOracles_ne_nil_of_aggregate? {a : Aggregate}
    (h : t.aggregate? block pair = some a) : activeOracles t block pair ≠ [] := by
  intro hnil
  rw [MemoryStore.aggregate?, hnil, average?_nil] at h
  exact absurd h (by simp)

/-- The aggregate of one more pair is written. Other pairs have other keys. -/
theorem HasAggregates.withAggregate {done : List PricePair} (h : HasAggregates t block done w)
    (hkey : ∀ other ∈ done, other.key = pair.key → other = pair) :
    HasAggregates t block (done ++ [pair])
      (w.withAggregate pair block.ref (t.aggregate? block pair)) := by
  have hmore : MemoryStore.SameOutside (AggregateKeys t block (done ++ [pair])) t w :=
    fun m k hk => h.elsewhere m k fun ⟨hm, other, hother, hrest⟩ =>
      hk ⟨hm, other, List.mem_append_left _ hother, hrest⟩
  rcases haggregate : t.aggregate? block pair with _ | a
  · refine ⟨fun other hother a ha => ?_, hmore⟩
    rcases List.mem_append.mp hother with hdone | hlast
    · exact h.held other hdone a ha
    · rw [List.mem_singleton.mp hlast, haggregate] at ha
      exact absurd ha (by simp)
  · refine ⟨fun other hother b hb => ?_, hmore.saved _ ⟨rfl, pair, List.mem_concat_self,
      activeOracles_ne_nil_of_aggregate? haggregate, rfl⟩⟩
    by_cases hpair : other = pair
    · rw [hpair, haggregate] at hb
      rw [hpair, ← Option.some.inj hb]
      exact held_saved w _
    · have hdone : other ∈ done := by
        simpa [hpair] using hother
      refine held_saved_iff.mpr (.inl ⟨h.held other hdone b hb, fun heq => hpair ?_⟩)
      exact hkey other hdone (Text.append_dash_injective (Text.dashFree_toString _)
        (Text.dashFree_toString _) heq).1

/-- A store that is as the indexers write it stays so when an aggregate is written. -/
theorem MemoryStore.Shaped.withAggregate (h : w.Shaped) (pair : PricePair) (ref : Block.Ref)
    (aggregated? : Option Aggregate) : (w.withAggregate pair ref aggregated?).Shaped := by
  cases aggregated? with
  | none => exact h
  | some a =>
      exact h.reply (c := .put (Entity.model PriceAggregate) (toRecord (a.keptFor pair ref)))
        ⟨.aggregate, a.keptFor pair ref, ⟨rfl, rfl⟩, rfl, rfl⟩ rfl

/-- The pairs of a block are gone through one by one. -/
theorem runs_blockEnd {pairs : List PricePair} (h : t.Shaped) (hpairs : fedPairs block = .ok pairs)
    (hkeys : ∀ p ∈ pairs, ∀ q ∈ pairs, p.key = q.key → p = q) :
    Runs MemoryStore.WF False (fun _ w => HasAggregates t block pairs w)
      (Indexer.setOracleData.hook .apply .blockEnd block) t := by
  refine runs_bind (runs_ofExcept_eq hpairs h.wf) ?_
  rintro found behind - ⟨hbehind, hfound⟩
  rw [hbehind, hfound]
  refine (runs_forM (fun done _ w => w.Shaped ∧ HasAggregates t block done w) pairs h.wf
    ⟨h, by simp, .refl _ _⟩ ?_).mono fun _ _ _ hend => hend.2
  rintro done pair rest w hitems hwf ⟨hshaped, hdone⟩
  have hmem : ∀ p ∈ done ++ [pair], p ∈ pairs := fun p hp => by
    rw [← hitems]
    rcases List.mem_append.mp hp with hp | hp
    · exact List.mem_append_left _ hp
    · exact List.mem_append_right _ (List.mem_singleton.mp hp ▸ List.mem_cons_self)
  have hread := obtains_aggregatePair hshaped block pair
  rw [(activeOracles_congr hdone.agree).2] at hread
  refine (runs_writeAggregate (hread.runs (quiet_aggregatePair block pair) hwf)).mono ?_
  rintro _ after - ⟨_, rfl, rfl⟩
  exact ⟨hshaped.withAggregate _ _ _, hdone.withAggregate fun other hother =>
    hkeys other (hmem other (List.mem_append_left _ hother)) pair (hmem pair List.mem_concat_self)⟩

end

/-- What is mapped to results is a list of results. -/
theorem exists_mapM_eq_ok {α β : Type} {f : α → Except Error β} {items : List α}
    (h : ∀ a ∈ items, ∃ b, f a = .ok b) : ∃ results, items.mapM f = .ok results := by
  induction items with
  | nil => exact ⟨[], rfl⟩
  | cons a rest ih =>
      rw [List.forall_mem_cons] at h
      rcases h.1 with ⟨b, hb⟩
      rcases ih h.2 with ⟨results, hresults⟩
      refine ⟨b :: results, ?_⟩
      rw [List.mapM_cons, hb, hresults]
      rfl

/-- Where every publication can be read, the pairs of a block are known. -/
theorem exists_fedPairs {block : Block} (h : ∀ p ∈ block.ops, p.2.tag = .setOracleData →
      ∃ data, decodePayload SetOracleData.read p.1 p.2 = .ok data) :
    ∃ pairs, fedPairs block = .ok pairs := by
  have hfed : ∃ fed,
      (block.ops.filter fun p => p.2.tag == .setOracleData).mapM fedBy = .ok fed := by
    refine exists_mapM_eq_ok fun p hp => ?_
    rw [List.mem_filter, beq_iff_eq] at hp
    rcases h p hp.1 hp.2 with ⟨data, hdata⟩
    exact ⟨data.feeds.map Prod.fst, by rw [fedBy, hdata]; rfl⟩
  rcases hfed with ⟨fed, hfed⟩
  exact ⟨PricePair.distinct fed.flatten, by rw [fedPairs_eq, hfed]; rfl⟩

/-- **Aggregates are weighted averages.** Take any store that hooks of the standard indexers have
    written, and a block whose publications can all be read and feed pairs with keys of their
    own, none of which has 2 ^ 24 oracles. The end of the block then writes an aggregate for
    each pair that it feeds and that has an active oracle, each as it should be, and changes
    nothing else. -/
theorem block_end_writes_averages {symbol : String} {t : MemoryStore}
    (ht : (Registry.standard symbol).Wrote t) (block : Block)
    (hdecode : ∀ p ∈ block.ops, p.2.tag = .setOracleData →
      ∃ data, decodePayload SetOracleData.read p.1 p.2 = .ok data)
    (hkeys : ∀ p q, block.fed p ≠ [] → block.fed q ≠ [] → p.key = q.key → p = q)
    (hsize : ∀ pair, block.fed pair ≠ [] → (Membership.ofPair t pair).length < 2 ^ 24)
    (source : MemorySource) (now : Int64) :
    ∃ after, (Indexer.setOracleData.hook .apply .blockEnd block).run World.answer
        ⟨t, source, now⟩ = (.ok (), ⟨after, source, now⟩) ∧
      (∀ pair, block.fed pair ≠ [] → activeOracles t block pair ≠ [] →
        ∃ a, Held after (a.keptFor pair block.ref) ∧
          Averages (activeOracles t block pair) (Membership.ofPair t pair).length a) ∧
      ∀ m k, (¬ ∃ pair, block.fed pair ≠ [] ∧ activeOracles t block pair ≠ [] ∧
          m = model PriceAggregate ∧ k = PriceAggregate.idOf pair block.height) →
        after.find m k = t.find m k := by
  rcases exists_fedPairs hdecode with ⟨pairs, hpairs⟩
  have hfed : ∀ pair, pair ∈ pairs ↔ block.fed pair ≠ [] := fun _ => mem_fedPairs_iff_fed hpairs
  rcases (runs_blockEnd ht.shaped hpairs fun p hp q hq =>
    hkeys p q ((hfed p).mp hp) ((hfed q).mp hq)).ends source now with
    ⟨_, after, hrun, -, hafter⟩
  refine ⟨after, hrun, fun pair hpair hactive => ?_, fun m k hnone =>
    hafter.elsewhere m k fun ⟨hm, pair, hpair, hactive, hk⟩ =>
      hnone ⟨pair, (hfed pair).mp hpair, hactive, hm, hk⟩⟩
  rcases exists_averages hactive (fun _ => weight_pos_of_mem)
    (length_activeOracles_le t block pair) (hsize pair hpair) with ⟨a, haggregate, haverages⟩
  exact ⟨a, hafter.held pair ((hfed pair).mpr hpair) a haggregate, haverages⟩

/-! Three oracles of a pair, one without weight. The other two publish as early and as late as
still counts, and one of them also for a pair that has no oracle. -/

namespace Averaging

/-- The pair. -/
def pair : PricePair := ⟨"T", "C"⟩

/-- An oracle of the pair is appointed. -/
def appointment (txid : String) (weightage : Int) : Transaction :=
  .carrying txid .appointOracle [("ownerAddress", .string "x"), ("weightage", .int weightage),
    ("priceFeeds", .array [pair.toJson])]

/-- An oracle publishes prices, given by token. -/
def publication (txid oracle : String) (time : Int) (prices : List (String × Int)) :
    Transaction :=
  .carrying txid .setOracleData [("oracleId", .string oracle), ("timestamp", .int time),
    ("tokenPrices", .array (prices.map fun price =>
      .object [("token", .string price.1), ("prices", .array [
        .object [("currency", .string "C"), ("amount", .int price.2)]])]))]

/-- The oracles are appointed. -/
def appointing : Block :=
  .holding "a" "" 0 [appointment "o" 1, appointment "p" 3, appointment "q" 0]

/-- All of them publish. -/
def publishing : Block :=
  { Block.holding "b" "a" 1 [publication "r" "o" 7200 [("T", 2), ("U", 1)],
      publication "s" "p" 0 [("T", 9), ("T", 3)], publication "t" "q" 3600 [("T", 5)]]
    with time := 3600 }

/-- The store when all transactions have been indexed. -/
def store : MemoryStore :=
  [appointing, publishing].foldl (fun t block => block.ops.foldl (fun t p =>
    (((Indexer.ofTag "DFI" p.2.tag).hook .apply (.transaction p.1 p.2) block).cut 9
      ⟨t, ⟨[], []⟩, 0⟩).store) t) .empty

theorem wrote_store : (Registry.standard "DFI").Wrote store := by
  refine List.foldlRecOn _ _ .empty fun t ht block _ => ?_
  refine List.foldlRecOn _ _ ht fun t ht p _ => ht.hook ?_ _ _ _ _ _ _
  cases p.2.tag <;> simp [Indexer.ofTag, Registry.standard]

end Averaging

open Averaging in
theorem block_end_writes_averages_publishing :
    ((∀ p ∈ publishing.ops, p.2.tag = .setOracleData →
        ∃ data, decodePayload SetOracleData.read p.1 p.2 = .ok data) ∧
      fedPairs publishing = .ok [pair, ⟨"U", "C"⟩] ∧
      (Membership.ofPair store pair).length = 3 ∧
      activeOracles store publishing ⟨"U", "C"⟩ = []) ∧
    ∃ (after : MemoryStore) (a : Aggregate),
      (Indexer.setOracleData.hook .apply .blockEnd publishing).run World.answer
        (⟨store, ⟨[], []⟩, 0⟩ : World MemoryStore) = (.ok (), ⟨after, ⟨[], []⟩, 0⟩) ∧
      Held after (a.keptFor pair publishing.ref) ∧ a.amount.toNat = 275000000 ∧
      a.oracles.active.toNat = 2 := by
  have hdecode : ∀ p ∈ publishing.ops, p.2.tag = .setOracleData →
      ∃ data, decodePayload SetOracleData.read p.1 p.2 = .ok data := by
    have hall : ∀ p ∈ publishing.ops,
        (decodePayload SetOracleData.read p.1 p.2).toOption.isSome = true := by decide +kernel
    intro p hp _
    have hp := hall p hp
    cases hread : decodePayload SetOracleData.read p.1 p.2 with
    | ok data => exact ⟨data, rfl⟩
    | error e => simp [hread, Except.toOption] at hp
  have hpairs : fedPairs publishing = .ok [pair, ⟨"U", "C"⟩] := by decide +kernel
  have hfed : ∀ p, publishing.fed p ≠ [] → p = pair ∨ p = ⟨"U", "C"⟩ := fun p hp => by
    simpa using (mem_fedPairs_iff_fed hpairs).mpr hp
  have hsizes : (Membership.ofPair store pair).length = 3 ∧
      (Membership.ofPair store ⟨"U", "C"⟩).length = 0 ∧
      activeOracles store publishing ⟨"U", "C"⟩ = [] := by decide +kernel
  have hactive : activeOracles store publishing pair ≠ [] ∧
      weightedTotal (activeOracles store publishing pair) /
        totalWeight (activeOracles store publishing pair) = 275000000 ∧
      (activeOracles store publishing pair).length = 2 := by decide +kernel
  rcases block_end_writes_averages wrote_store publishing hdecode
    (fun p q hp hq hkey => by
      rcases hfed p hp with rfl | rfl <;> rcases hfed q hq with rfl | rfl
      · rfl
      · exact absurd hkey (by decide)
      · exact absurd hkey (by decide)
      · rfl)
    (fun p hp => by
      rcases hfed p hp with rfl | rfl
      · rw [hsizes.1]
        decide
      · rw [hsizes.2.1]
        decide) ⟨[], []⟩ 0 with ⟨after, hrun, hheld, -⟩
  rcases hheld pair (by decide +kernel) hactive.1 with ⟨a, ha, hspec⟩
  exact ⟨⟨hdecode, hpairs, hsizes.1, hsizes.2.2⟩, after, a, hrun, ha,
    hspec.amount.trans hactive.2.1, hspec.count.trans hactive.2.2⟩

end ChainIndex
