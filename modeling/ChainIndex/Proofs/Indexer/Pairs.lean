import ChainIndex.Proofs.Indexer.Footprint
import ChainIndex.Proofs.Indexer.Reverts
import ChainIndex.Proofs.Program.Reading

/-!
# What is kept of a price pair

Of a pair a store keeps memberships, feeds and aggregates, each in partitions whose names begin
with the key of the pair. A key joins the token and the currency with a hyphen, and both are
any texts, so two pairs may have one key, and with oracles behind them even more keys are
shared. Where they are not, what is kept of a pair comes from what is said of it: a publication
saves the feeds of the pair, and whatever else it saves is under other keys. The aggregate at
the end of a block reads the partitions of its pair and no others.

## Main definitions

* `Membership.pair`, `PriceFeed.pair`, `PriceAggregate.pair`: What a record is about.
* `MembersKept`, `FeedsKept`, `AggregatesKept`: What a store keeps of a pair.
* `Block.feedsOf`, `Block.fed`: The feeds that are published for a pair.
* `DecodedOp.FedApart`: No pair that an operation feeds is mistaken for another.
* `Block.aggregatesAfter`: The aggregates of a pair after a block.

## Theorems

* `runs_publication`: A publication saves the feeds of the pair.
* `mem_fedPairs_iff_fed`: A block aggregates a pair exactly if it feeds the pair.
* `readsSame_aggregatePair`: An aggregate is read from the partitions of its pair.
* `runs_aggregateStep`, `runs_aggregates`: The end of a block saves the aggregate of the pair.
-/

namespace ChainIndex

open Entity Program MemoryStore

/-- What a membership is about. -/
def Membership.pair (m : Membership) : PricePair := ⟨m.token, m.currency⟩

/-- What a feed prices. -/
def PriceFeed.pair (f : PriceFeed) : PricePair := ⟨f.token, f.currency⟩

/-- What an aggregate prices. -/
def PriceAggregate.pair (a : PriceAggregate) : PricePair := ⟨a.token, a.currency⟩

/-- A feed that was published for a pair, under the keys of the pair. -/
structure PriceFeed.OfPair (pair : PricePair) (f : PriceFeed) : Prop where
  about : f.pair = pair
  key : f.key = keyOf pair f.oracleId
  id : f.id = idOf pair f.oracleId f.txid
  txid : Text.DashFree f.txid

/-- An aggregate that was made for a pair, under the keys of the pair. -/
structure PriceAggregate.OfPair (pair : PricePair) (a : PriceAggregate) : Prop where
  about : a.pair = pair
  key : a.key = pair.key
  id : a.id = idOf pair a.block.height

/-- A store keeps these memberships of a pair and no others. -/
abbrev MembersKept (pair : PricePair) : List Membership → MemoryStore → Prop :=
  Kept (fun m => m.key = pair.key) fun m => m.pair = pair

/-- A store keeps these feeds of a pair and no others. -/
abbrev FeedsKept (pair : PricePair) : List PriceFeed → MemoryStore → Prop :=
  Kept (fun f => ∃ id, f.key = PriceFeed.keyOf pair id) (PriceFeed.OfPair pair)

/-- A store keeps these aggregates of a pair and no others. -/
abbrev AggregatesKept (pair : PricePair) : List PriceAggregate → MemoryStore → Prop :=
  Kept (fun a => a.key = pair.key) (PriceAggregate.OfPair pair)

section

variable {pair : PricePair} {t t' : MemoryStore}

theorem Membership.key_of_entry {m : Membership} {partition sort : String}
    (h : (⟨byPair.name, partition, sort⟩ : IndexEntry) ∈ entries m) :
    m.key = partition ∧ m.oracleId = sort := by
  simp only [Entity.entries, List.mem_singleton, IndexEntry.mk.injEq] at h
  exact ⟨h.2.1.symm, h.2.2.symm⟩

theorem PriceFeed.key_of_entry {f : PriceFeed} {partition sort : String}
    (h : (⟨byOraclePair.name, partition, sort⟩ : IndexEntry) ∈ entries f) :
    f.key = partition := by
  simp only [Entity.entries, List.mem_singleton, IndexEntry.mk.injEq] at h
  exact h.2.1.symm

theorem PriceAggregate.key_of_entry {a : PriceAggregate} {partition sort : String}
    (h : (⟨byPair.name, partition, sort⟩ : IndexEntry) ∈ entries a) : a.key = partition := by
  simp only [Entity.entries, List.mem_singleton, IndexEntry.mk.injEq] at h
  exact h.2.1.symm

namespace MembersKept

variable {members : List Membership} (h : MembersKept pair members t)
include h

/-- Stores that keep the same memberships of a pair share their partition. -/
theorem sameListed (h' : MembersKept pair members t') (hwf : t.WF) (hwf' : t'.WF) :
    SameListed Membership Membership.byPair pair.key t t' :=
  Kept.sameListed h h' hwf hwf' fun _ _ hentry => (Membership.key_of_entry hentry).1

/-- What is found there is about the pair. -/
theorem about {m : Membership} (hm : Listed Membership.byPair pair.key t m) : m.pair = pair := by
  rcases hm with ⟨hheld, _, hentry⟩
  exact h.proper m ((h.held m (Membership.key_of_entry hentry).1).mp hheld)

end MembersKept

namespace FeedsKept

variable {feeds : List PriceFeed} (h : FeedsKept pair feeds t) (id : String)
include h

/-- The same for feeds, whose partitions are those of the pair with an oracle. -/
theorem sameListed (h' : FeedsKept pair feeds t') (hwf : t.WF) (hwf' : t'.WF) :
    SameListed PriceFeed PriceFeed.byOraclePair (PriceFeed.keyOf pair id) t t' :=
  Kept.sameListed h h' hwf hwf' fun _ _ hentry => ⟨id, PriceFeed.key_of_entry hentry⟩

theorem about {f : PriceFeed}
    (hf : Listed PriceFeed.byOraclePair (PriceFeed.keyOf pair id) t f) : f.pair = pair := by
  rcases hf with ⟨hheld, _, hentry⟩
  exact (h.proper f ((h.held f ⟨id, PriceFeed.key_of_entry hentry⟩).mp hheld)).about

end FeedsKept

namespace AggregatesKept

variable {aggregates : List PriceAggregate} (h : AggregatesKept pair aggregates t)
include h

theorem sameListed (h' : AggregatesKept pair aggregates t') (hwf : t.WF) (hwf' : t'.WF) :
    SameListed PriceAggregate PriceAggregate.byPair pair.key t t' :=
  Kept.sameListed h h' hwf hwf' fun _ _ hentry => PriceAggregate.key_of_entry hentry

theorem about {a : PriceAggregate} (ha : Listed PriceAggregate.byPair pair.key t a) :
    a.pair = pair := by
  rcases ha with ⟨hheld, _, hentry⟩
  exact (h.proper a ((h.held a (PriceAggregate.key_of_entry hentry)).mp hheld)).about

end AggregatesKept

end

/-- The feeds of a pair among some published prices. -/
def SetOracleData.feedsOf (data : SetOracleData) (block : Block) (tx : Transaction)
    (order : UInt32) (pair : PricePair) (prices : List (PricePair × FiniteFloat)) :
    List PriceFeed :=
  prices.filterMap fun (other, amount) =>
    if other = pair then some (data.toFeed block tx order other amount) else none

/-- The feeds that an operation publishes for a pair, in the order of publication. -/
def Block.feedsOf (block : Block) (pair : PricePair) (p : Transaction × DecodedOp) :
    List PriceFeed :=
  match p.2.published, block.orderOf? p.1.txid with
  | some data, some order => data.feedsOf block p.1 order pair data.feeds
  | _, _ => []

/-- The feeds that a block publishes for a pair. -/
def Block.fed (block : Block) (pair : PricePair) : List PriceFeed :=
  block.ops.flatMap (block.feedsOf pair)

/-- No pair that an operation feeds is mistaken for `pair`: with the oracle that publishes it,
    it does not have the key that `pair` has with some oracle. -/
def DecodedOp.FedApart (pair : PricePair) (op : DecodedOp) : Prop :=
  ∀ data ∈ op.published, ∀ feed ∈ data.feeds, ∀ id,
    PriceFeed.keyOf feed.1 data.oracleId = PriceFeed.keyOf pair id → feed.1 = pair

section

variable {pair : PricePair} {block : Block} {tx : Transaction} {op : DecodedOp}
variable {t t' : MemoryStore} {fail : Prop}

/-! ## Publications -/

theorem toFeed_ofPair (data : SetOracleData) (order : UInt32) (amount : FiniteFloat)
    (htxid : Text.DashFree tx.txid) :
    (data.toFeed block tx order pair amount).OfPair pair :=
  ⟨rfl, rfl, rfl, htxid⟩

theorem feedsOf_snoc (data : SetOracleData) (order : UInt32)
    (prices : List (PricePair × FiniteFloat)) (other : PricePair) (amount : FiniteFloat) :
    data.feedsOf block tx order pair (prices ++ [(other, amount)]) =
      data.feedsOf block tx order pair prices ++
        if other = pair then [data.toFeed block tx order other amount] else [] := by
  rw [SetOracleData.feedsOf, List.filterMap_append, SetOracleData.feedsOf]
  by_cases hpair : other = pair
  · simp [hpair]
  · simp [hpair]

/-- Of the prices of a publication only those of the pair count. -/
theorem FeedsKept.saved_price {feeds : List PriceFeed} {data : SetOracleData} {order : UInt32}
    {prices : List (PricePair × FiniteFloat)} {other : PricePair} {amount : FiniteFloat}
    (h : FeedsKept pair ((data.feedsOf block tx order pair prices).foldl upserted feeds) t)
    (htxid : Text.DashFree tx.txid)
    (hapart : ∀ id, PriceFeed.keyOf other data.oracleId = PriceFeed.keyOf pair id →
      other = pair) :
    FeedsKept pair
      ((data.feedsOf block tx order pair (prices ++ [(other, amount)])).foldl upserted feeds)
      (saved t (data.toFeed block tx order other amount)) := by
  rw [feedsOf_snoc, List.foldl_append]
  by_cases hpair : other = pair
  · subst hpair
    rw [if_pos rfl]
    exact h.saved (toFeed_ofPair data order amount htxid)
  · -- The keys of another pair's feed end in the same transaction, so they begin differently.
    rw [if_neg hpair]
    refine h.saved_other (fun ⟨id, hid⟩ => hpair (hapart id hid)) fun b hb heq => ?_
    exact hpair (hapart b.oracleId
      (Text.append_dash_injective htxid hb.txid (heq.symm.trans hb.id)).1)

/-- All prices of a publication are saved. -/
theorem runs_saveFeeds {feeds : List PriceFeed} {data : SetOracleData}
    (h : FeedsKept pair feeds t) (hwf : t.WF) (htxid : Text.DashFree tx.txid)
    (hapart : ∀ feed ∈ data.feeds, ∀ id,
      PriceFeed.keyOf feed.1 data.oracleId = PriceFeed.keyOf pair id → feed.1 = pair)
    (order : UInt32) :
    Runs MemoryStore.WF fail
      (fun _ after => FeedsKept pair
        ((data.feedsOf block tx order pair data.feeds).foldl upserted feeds) after)
      (data.feeds.forM fun (other, amount) => save (data.toFeed block tx order other amount))
      t := by
  let inv : List (PricePair × FiniteFloat) → MemoryStore → Prop := fun done after =>
    FeedsKept pair ((data.feedsOf block tx order pair done).foldl upserted feeds) after
  refine runs_forM (fun done _ after => inv done after) data.feeds hwf h ?_
  intro done p rest before hitems hbefore hkept
  have hmem : p ∈ data.feeds := hitems ▸ List.mem_append_right _ List.mem_cons_self
  have hsaved : inv (done ++ [p]) (saved before (data.toFeed block tx order p.1 p.2)) :=
    FeedsKept.saved_price hkept htxid (hapart p hmem)
  exact runs_save hbefore (wf_saved hbefore _) hsaved

theorem orderOf?_of_orderIn {order : UInt32} (h : orderIn block tx = .ok order) :
    block.orderOf? tx.txid = some order := by
  rw [orderIn] at h
  split at h
  · next found hfound => rw [hfound, Except.ok.inj h]
  · exact absurd h (by simp)

/-- A publication saves the feeds of the pair. -/
theorem runs_publication {feeds : List PriceFeed} (h : FeedsKept pair feeds t) (hwf : t.WF)
    (htag : op.tag = .setOracleData) (htxid : Text.DashFree tx.txid)
    (hapart : op.FedApart pair) :
    Runs MemoryStore.WF True
      (fun _ after => FeedsKept pair ((block.feedsOf pair (tx, op)).foldl upserted feeds) after)
      (Indexer.setOracleData.hook .apply (.transaction tx op) block) t := by
  refine runs_bind (runs_ofExcept_ok hwf) ?_
  rintro data behind - ⟨rfl, hdata⟩
  refine runs_bind (runs_ofExcept_ok hwf) ?_
  rintro order last - ⟨rfl, horder⟩
  have hpublished : op.published = some data := DecodedOp.data?_of_decode htag hdata
  rw [Block.feedsOf, hpublished, orderOf?_of_orderIn horder]
  exact runs_saveFeeds h hwf htxid (hapart data hpublished) order

/-! ## The pairs of a block -/

theorem PricePair.mem_insertOrdered {p q : PricePair} {ordered : List PricePair} :
    q ∈ p.insertOrdered ordered ↔ q = p ∨ q ∈ ordered := by
  induction ordered with
  | nil => simp [insertOrdered]
  | cons first rest ih =>
      rw [insertOrdered]
      split
      · simp
      · split
        · next heq =>
          rw [heq]
          simp
        · rw [List.mem_cons, ih, List.mem_cons]
          tauto

theorem PricePair.mem_distinct {q : PricePair} {pairs : List PricePair} :
    q ∈ distinct pairs ↔ q ∈ pairs := by
  suffices hall : ∀ ordered : List PricePair,
      q ∈ pairs.foldl (fun ordered pair => insertOrdered pair ordered) ordered ↔
        q ∈ ordered ∨ q ∈ pairs by
    simpa [distinct] using hall []
  induction pairs with
  | nil => simp
  | cons p rest ih =>
      intro ordered
      rw [List.foldl_cons, ih, mem_insertOrdered, List.mem_cons]
      tauto

/-- What a list is mapped to where nothing fails. -/
theorem mem_of_mapM {α β : Type} {f : α → Except Error β} {items : List α} {results : List β}
    (h : items.mapM f = .ok results) (b : β) : b ∈ results ↔ ∃ a ∈ items, f a = .ok b := by
  induction items generalizing results with
  | nil =>
      rw [List.mapM_nil] at h
      rw [← Except.ok.inj h]
      simp
  | cons a rest ih =>
      rw [List.mapM_cons] at h
      rcases ha : f a with e | first
      · rw [ha] at h
        exact absurd h (by simp [bind, Except.bind])
      · rcases hrest : rest.mapM f with e | others
        · rw [ha, hrest] at h
          exact absurd h (by simp [bind, Except.bind])
        · rw [ha, hrest] at h
          rw [← Except.ok.inj h, List.mem_cons, ih hrest]
          simp [ha, eq_comm]

/-- The pairs that one publication feeds. -/
def fedBy (p : Transaction × DecodedOp) : Except Error (List PricePair) :=
  (decodePayload SetOracleData.read p.1 p.2).map fun data => data.feeds.map Prod.fst

theorem fedPairs_eq (block : Block) :
    fedPairs block = ((block.ops.filter fun p => p.2.tag == .setOracleData).mapM fedBy).map
      fun fed => PricePair.distinct fed.flatten :=
  rfl

theorem fedBy_eq_ok {p : Transaction × DecodedOp} {pairs : List PricePair} :
    (p.2.tag = .setOracleData ∧ fedBy p = .ok pairs) ↔
      ∃ data ∈ p.2.published, data.feeds.map Prod.fst = pairs := by
  unfold fedBy decodePayload DecodedOp.published DecodedOp.data?
  by_cases htag : p.2.tag = .setOracleData
  · rcases SetOracleData.read p.2.payload with fault | data
    · simp [htag, Except.map, Except.toOption]
    · simp [htag, Except.map, Except.toOption]
  · simp [htag]

/-- The pairs of a block are those that its publications feed. -/
theorem mem_fedPairs {pairs : List PricePair} (h : fedPairs block = .ok pairs)
    (pair : PricePair) : pair ∈ pairs ↔
      ∃ p ∈ block.ops, ∃ data ∈ p.2.published, ∃ amount, (pair, amount) ∈ data.feeds := by
  rw [fedPairs_eq] at h
  rcases hfed : (block.ops.filter fun p => p.2.tag == .setOracleData).mapM fedBy with e | fed
  · rw [hfed] at h
    exact absurd h (by simp [Except.map])
  · rw [hfed] at h
    rw [← Except.ok.inj h, PricePair.mem_distinct, List.mem_flatten]
    simp only [mem_of_mapM hfed, List.mem_filter, beq_iff_eq]
    constructor
    · rintro ⟨others, ⟨p, ⟨hp, htag⟩, hothers⟩, hpair⟩
      rcases fedBy_eq_ok.mp ⟨htag, hothers⟩ with ⟨data, hdata, rfl⟩
      rcases List.mem_map.mp hpair with ⟨⟨_, amount⟩, hmem, rfl⟩
      exact ⟨p, hp, data, hdata, amount, hmem⟩
    · rintro ⟨p, hp, data, hdata, amount, hmem⟩
      rcases fedBy_eq_ok.mpr ⟨data, hdata, rfl⟩ with ⟨htag, hothers⟩
      exact ⟨_, ⟨p, ⟨hp, htag⟩, hothers⟩, List.mem_map.mpr ⟨_, hmem, rfl⟩⟩

theorem exists_orderOf? (htx : tx ∈ block.transactions) :
    ∃ order, block.orderOf? tx.txid = some order := by
  have hsome : (block.transactions.findIdx? fun other => other.txid == tx.txid).isSome := by
    rw [List.findIdx?_isSome, List.any_eq_true]
    exact ⟨tx, htx, by simp⟩
  rcases Option.isSome_iff_exists.mp hsome with ⟨index, hindex⟩
  exact ⟨UInt32.ofNat index, by rw [Block.orderOf?, hindex]; rfl⟩

/-- A block aggregates a pair exactly if it feeds the pair. -/
theorem mem_fedPairs_iff_fed {pairs : List PricePair} (h : fedPairs block = .ok pairs) :
    pair ∈ pairs ↔ block.fed pair ≠ [] := by
  rw [mem_fedPairs h, Block.fed, Ne, List.flatMap_eq_nil_iff]
  push Not
  refine exists_congr fun p => and_congr_right fun hp => ?_
  rcases exists_orderOf? (Block.mem_transactions_of_mem_ops hp) with ⟨order, horder⟩
  rw [Block.feedsOf, horder]
  cases p.2.published with
  | none => simp
  | some data =>
      simp only [SetOracleData.feedsOf, Option.mem_some_iff, exists_eq_left', ne_eq,
        List.filterMap_eq_nil_iff]
      push Not
      constructor
      · rintro ⟨amount, hmem⟩
        exact ⟨(pair, amount), hmem, by simp⟩
      · rintro ⟨⟨other, amount⟩, hmem, hne⟩
        have hpair : other = pair := by
          by_contra hc
          simp [hc] at hne
        exact ⟨amount, hpair ▸ hmem⟩

/-- Other pairs of the block have other keys. -/
theorem key_ne_of_fedPairs {pairs : List PricePair} (h : fedPairs block = .ok pairs)
    (hapart : ∀ p ∈ block.ops, p.2.FedApart pair) {other : PricePair} (hother : other ∈ pairs)
    (hne : other ≠ pair) : other.key ≠ pair.key := by
  intro hkey
  rcases (mem_fedPairs h other).mp hother with ⟨p, hp, data, hdata, amount, hmem⟩
  exact hne (hapart p hp data hdata _ hmem data.oracleId
    (congrArg (fun k => k ++ "-" ++ data.oracleId) hkey))

/-! ## Aggregates -/

/-- An aggregate as it is kept. -/
def Aggregate.keptFor (aggregated : Aggregate) (pair : PricePair) (ref : Block.Ref) :
    PriceAggregate where
  id := PriceAggregate.idOf pair ref.height
  key := pair.key
  token := pair.token
  currency := pair.currency
  aggregated := aggregated
  block := ref

/-- The aggregates of a pair and one more, if there is one. -/
def PricePair.withAggregate (pair : PricePair) (ref : Block.Ref)
    (aggregates : List PriceAggregate) : Option Aggregate → List PriceAggregate
  | some aggregated => upserted aggregates (aggregated.keptFor pair ref)
  | none => aggregates

/-- The aggregates of a pair after a block, which has come to `aggregated?` for it. Only a block
    that feeds the pair writes one. -/
def Block.aggregatesAfter (block : Block) (pair : PricePair) (aggregates : List PriceAggregate)
    (aggregated? : Option Aggregate) : List PriceAggregate :=
  if block.fed pair = [] then aggregates
  else pair.withAggregate block.ref aggregates aggregated?

/-- All memberships of a pair can be read. -/
theorem readsSame_listOfPair
    (h : SameListed Membership Membership.byPair pair.key t t') :
    ReadsSame t t' (fun members => ∀ m ∈ members, Listed Membership.byPair pair.key t m)
      (Membership.listOfPair pair) := by
  refine readsSame_list h fun m sort hentry => ?_
  rw [← (Membership.key_of_entry hentry).2]
  rfl

/-- An aggregate is read from the partitions of its pair. -/
theorem readsSame_aggregatePair
    (hmembers : SameListed Membership Membership.byPair pair.key t t')
    (hfeeds : ∀ id, SameListed PriceFeed PriceFeed.byOraclePair (PriceFeed.keyOf pair id) t t') :
    ReadsSame t t' (fun _ => True) (aggregatePair block pair) := by
  refine (readsSame_listOfPair hmembers).bind fun members _ => ?_
  have hsums : ReadsSame t t' (fun _ => True)
      (members.foldlM (addOracle block pair) PriceSums.zero) := by
    refine .foldlM trivial fun sums _ member _ => ?_
    unfold addOracle
    split
    · exact .pure trivial
    · refine (readsSame_first? (hfeeds member.oracleId)).bind fun feed _ => ?_
      cases feed with
      | none => exact .pure trivial
      | some feed =>
          simp only
          split
          · exact .pure trivial
          · exact .pure trivial
  exact hsums.bind fun sums _ => .pure trivial

/-- Of the block only its time matters. -/
theorem aggregatePair_congr {block' : Block} (h : block.time = block'.time) :
    aggregatePair block pair = aggregatePair block' pair := by
  unfold aggregatePair addOracle
  rw [h]

/-- The store when the aggregate of a pair is written, if there is one. -/
def MemoryStore.withAggregate (t : MemoryStore) (pair : PricePair) (ref : Block.Ref) :
    Option Aggregate → MemoryStore
  | some aggregated => saved t (aggregated.keptFor pair ref)
  | none => t

theorem runs_writeAggregate {q : Option Aggregate → Prop}
    (h : Runs MemoryStore.WF fail (fun aggregated? behind => behind = t ∧ q aggregated?)
      (aggregatePair block pair) t) :
    Runs MemoryStore.WF fail
      (fun _ after => ∃ aggregated?, q aggregated? ∧
        after = t.withAggregate pair block.ref aggregated?)
      (writeAggregate block pair) t := by
  refine runs_bind h ?_
  rintro aggregated? behind hbehind ⟨rfl, hq⟩
  cases aggregated? with
  | none => exact runs_pure hbehind ⟨none, hq, rfl⟩
  | some aggregated => exact runs_save hbehind (wf_saved hbehind _) ⟨some aggregated, hq, rfl⟩

/-- An aggregate is no membership and no feed. -/
theorem agree_withAggregate (t : MemoryStore) (pair : PricePair) (ref : Block.Ref)
    (aggregated? : Option Aggregate) :
    (t.withAggregate pair ref aggregated?).Agree [model Membership, model PriceFeed] t := by
  cases aggregated? with
  | none => exact .refl _ _
  | some aggregated => exact agree_saved (by decide) t _

namespace AggregatesKept

variable {aggregates : List PriceAggregate} {aggregated? : Option Aggregate}

theorem own (h : AggregatesKept pair aggregates t) (ref : Block.Ref) :
    AggregatesKept pair (pair.withAggregate ref aggregates aggregated?)
      (t.withAggregate pair ref aggregated?) := by
  cases aggregated? with
  | none => exact h
  | some aggregated => exact h.saved ⟨rfl, rfl, rfl⟩

/-- The aggregate of a pair with another key is under other keys. -/
theorem other (h : AggregatesKept pair aggregates t) (ref : Block.Ref) {other : PricePair}
    (hkey : other.key ≠ pair.key) :
    AggregatesKept pair aggregates (t.withAggregate other ref aggregated?) := by
  cases aggregated? with
  | none => exact h
  | some aggregated =>
      refine h.saved_other hkey fun b hb heq => hkey ?_
      exact (Text.append_dash_injective (Text.dashFree_toString _) (Text.dashFree_toString _)
        (heq.symm.trans hb.id)).1

end AggregatesKept

theorem withAggregate_withAggregate (ref : Block.Ref) (aggregates : List PriceAggregate)
    (aggregated? : Option Aggregate) :
    pair.withAggregate ref (pair.withAggregate ref aggregates aggregated?) aggregated? =
      pair.withAggregate ref aggregates aggregated? := by
  cases aggregated? with
  | none => rfl
  | some aggregated => exact upserted_upserted aggregates _

/-- The aggregates of a pair when the block has gone through some pairs. -/
def PricePair.aggregatesPast (pair : PricePair) (ref : Block.Ref)
    (aggregates : List PriceAggregate) (aggregated? : Option Aggregate)
    (done : List PricePair) : List PriceAggregate :=
  if pair ∈ done then pair.withAggregate ref aggregates aggregated? else aggregates

/-- The pair comes to its aggregate when its own turn is there, and keeps it when another pair
    is next. -/
theorem runs_aggregateStep {aggregates : List PriceAggregate} {aggregated? : Option Aggregate}
    {done : List PricePair} {other : PricePair}
    (h : AggregatesKept pair (pair.aggregatesPast block.ref aggregates aggregated? done) t)
    (hwf : t.WF) (hread : Obtains (aggregatePair block pair) t aggregated?)
    (hkey : other ≠ pair → other.key ≠ pair.key) :
    Runs MemoryStore.WF True
      (fun _ after => after.Agree [model Membership, model PriceFeed] t ∧
        AggregatesKept pair
          (pair.aggregatesPast block.ref aggregates aggregated? (done ++ [other])) after)
      (writeAggregate block other) t := by
  by_cases hpair : other = pair
  · -- Were the pair there twice, its aggregate would be put in place of itself.
    subst hpair
    have hlast : other.withAggregate block.ref
        (other.aggregatesPast block.ref aggregates aggregated? done) aggregated?
          = other.withAggregate block.ref aggregates aggregated? := by
      rw [PricePair.aggregatesPast]
      split
      · exact withAggregate_withAggregate block.ref aggregates aggregated?
      · rfl
    refine (runs_writeAggregate (hread.runs (quiet_aggregatePair block other) hwf)).mono ?_
    rintro _ after - ⟨_, rfl, rfl⟩
    refine ⟨agree_withAggregate t _ _ _, ?_⟩
    rw [PricePair.aggregatesPast, if_pos List.mem_concat_self, ← hlast]
    exact AggregatesKept.own h block.ref
  · have hquiet : Runs MemoryStore.WF True (fun _ behind => behind = t ∧ True)
        (aggregatePair block other) t :=
      ((quiet_aggregatePair block other).runs hwf).mono fun _ _ _ hsame => ⟨hsame, trivial⟩
    refine (runs_writeAggregate hquiet).mono ?_
    rintro _ after - ⟨aggregated, _, rfl⟩
    refine ⟨agree_withAggregate t _ _ _, ?_⟩
    have hsame : pair ∈ done ++ [other] ↔ pair ∈ done := by
      simp [Ne.symm hpair]
    simp only [PricePair.aggregatesPast, hsame]
    exact AggregatesKept.other h block.ref (hkey hpair)

/-- The end of a block saves the aggregate of the pair, as it is read before. -/
theorem runs_aggregates {aggregates : List PriceAggregate} {aggregated? : Option Aggregate}
    (h : AggregatesKept pair aggregates t) (hwf : t.WF)
    (hapart : ∀ p ∈ block.ops, p.2.FedApart pair)
    (hread : ∀ w : MemoryStore, w.WF → w.Agree [model Membership, model PriceFeed] t →
      Obtains (aggregatePair block pair) w aggregated?) :
    Runs MemoryStore.WF True
      (fun _ after => AggregatesKept pair (block.aggregatesAfter pair aggregates aggregated?)
        after)
      (Indexer.setOracleData.hook .apply .blockEnd block) t := by
  refine runs_bind (runs_ofExcept_ok hwf) ?_
  rintro pairs behind - ⟨rfl, hpairs⟩
  -- No aggregate changes what the aggregate of the pair is read from.
  refine (runs_forM (fun done _ w => w.Agree [model Membership, model PriceFeed] behind ∧
    AggregatesKept pair (pair.aggregatesPast block.ref aggregates aggregated? done) w) pairs hwf
    ⟨.refl _ _, h⟩ ?_).mono fun _ after _ hafter => ?_
  · rintro done other rest before hitems hbefore ⟨hagree, hkept⟩
    have hother : other ∈ pairs := hitems ▸ List.mem_append_right _ List.mem_cons_self
    exact (runs_aggregateStep hkept hbefore (hread before hbefore hagree)
      (key_ne_of_fedPairs hpairs hapart hother)).mono fun _ _ _ hnext =>
        ⟨hnext.1.trans hagree, hnext.2⟩
  · have hfed : pair ∈ pairs ↔ block.fed pair ≠ [] := mem_fedPairs_iff_fed hpairs
    rw [Block.aggregatesAfter]
    simpa only [PricePair.aggregatesPast, hfed, ite_not] using hafter.2

end

end ChainIndex
