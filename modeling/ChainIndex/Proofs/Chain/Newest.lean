import ChainIndex.Proofs.Chain.Pairs
import ChainIndex.Proofs.Indexer.Averages

/-!
# The latest is the last in the chain

What a chain says of an oracle it says in an order: block after block, and within a block
transaction after transaction. A store keeps that order only by way of sort keys, which are
made of a height, a position and an id, and compared as texts. The latest record is the first
one from the top.

Both are the same. Each transaction is at a place above those of all transactions ahead of it,
and the numbers in a sort key have a fixed width, so the text of a higher place is the greater
one whatever the ids behind it are. Records of one transaction share their place. Of these the
one that is listed last is left, since it has the key of those that it replaces.

So the store is followed along the chain only as a list of what was written, each value in place
of one with its key. That list is compared with the chain at the end, by `Kept.obtains_first?`.

## Main definitions

* `Block.snapshotOf`, `Chain.snapshots`: The snapshots that operations leave, in chain order.
* `Chain.lastSnapshot?`, `Chain.lastFeed?`: What a chain says last.
* `Chain.Ascending`: What is assumed of the places in a chain.
* `HistoryKept`: A store keeps what was written of oracles and prices.
* `OracleStep`: What an operation may come to as far as oracles go.

## Theorems

* `Kept.obtains_first?`: The first of a partition is what was put there last.
* `snapshots_pairwise`, `fed_pairwise`: Sort keys follow the chain.
* `runs_oracleOp`: What any operation comes to, and what it has found.
* `runs_applyBlock_history`, `Indexed.history`: What is written along a chain.
* `latest_is_last_in_chain`: The latest record is the last in the chain.
-/

namespace ChainIndex

open Entity Program MemoryStore

/-! ## What was put last -/

namespace Entity

variable {α : Type} [Entity α] {items : List α} {q : α → Prop} [DecidablePred q]

theorem mem_of_mem_upserted {a : α} (h : a ∈ items.foldl upserted []) : a ∈ items := by
  induction items using List.reverseRecOn with
  | nil => exact h
  | append_singleton init b ih =>
      rw [List.foldl_concat, mem_upserted] at h
      rcases h with ⟨hinit, -⟩ | rfl
      · exact List.mem_append_left _ (ih hinit)
      · exact List.mem_concat_self

/-- The last of the values that count is left, and every other one that is left is before it. -/
theorem getLast?_upserted {before : α → α → Prop}
    (hitems : items.Pairwise fun a b => key a = key b ∨ before a b)
    (hkeys : ∀ a ∈ items, ∀ b ∈ items, key a = key b → q a → q b) {last : α}
    (hlast : (items.filter q).getLast? = some last) :
    last ∈ items.foldl upserted [] ∧
      ∀ a ∈ items.foldl upserted [], q a → a = last ∨ before a last := by
  induction items using List.reverseRecOn with
  | nil => exact absurd hlast (by simp)
  | append_singleton init b ih =>
      rw [List.pairwise_append] at hitems
      have hend : ∀ a ∈ init.foldl upserted [], key a ≠ key b → before a b := fun a ha hne =>
        (hitems.2.2 a (mem_of_mem_upserted ha) b (List.mem_singleton_self b)).resolve_left hne
      simp only [List.foldl_concat, mem_upserted]
      rw [List.filter_append] at hlast
      by_cases hb : q b
      · rw [List.filter_cons_of_pos (by simpa using hb), List.filter_nil, List.getLast?_concat,
          Option.some.injEq] at hlast
        subst hlast
        exact ⟨.inr rfl, fun a ha _ => ha.symm.imp_right fun ha => hend a ha.1 ha.2⟩
      · -- The last value does not count, so it has another key than any that does.
        rw [List.filter_cons_of_neg (by simpa using hb), List.filter_nil, List.append_nil] at hlast
        rcases ih hitems.1 (fun a ha c hc => hkeys a (List.mem_append_left _ ha) c
          (List.mem_append_left _ hc)) hlast with ⟨hmem, hrest⟩
        have hcounts : q last := by
          simpa using (List.mem_filter.mp (List.mem_of_getLast? hlast)).2
        refine ⟨.inl ⟨hmem, fun heq => hb (hkeys last (List.mem_append_left _
          (mem_of_mem_upserted hmem)) b List.mem_concat_self heq hcounts)⟩, ?_⟩
        rintro a (⟨ha, -⟩ | rfl) hqa
        · exact hrest a ha hqa
        · exact absurd hqa hb

variable [RoundTrip α] [SinglyIndexed α] {index : IndexDef} {partition : String}
variable {t : MemoryStore}

/-- The first value of a partition from the top is the one above all others. -/
theorem obtains_first?_of_greatest (hwf : t.WF) (htyped : Typed α t)
    (hdesc : index.direction = .desc) {greatest? : Option α}
    (hsome : ∀ a ∈ greatest?, Listed index partition t a ∧
      ∀ b, Listed index partition t b → b = a ∨ sortKey index b < sortKey index a)
    (hnone : greatest? = none → ∀ b : α, ¬ Listed index partition t b) :
    Obtains (first? α index (some partition)) t greatest? := by
  rcases exists_ahead index (some partition) hwf htyped none with ⟨items, hahead, -⟩
  have hmem : ∀ a, a ∈ items ↔ Listed index partition t a := hahead.mem_iff_listed htyped
  have hfirst := obtains_first? hwf htyped hahead
  suffices heq : greatest? = items.head? from heq ▸ hfirst
  rcases greatest? with _ | a
  · rw [List.eq_nil_iff_forall_not_mem.mpr fun b hb => hnone rfl b ((hmem b).mp hb),
      List.head?_nil]
  · rcases hsome a rfl with ⟨hlisted, hgreatest⟩
    have hordered := hahead.ordered
    rcases items with _ | ⟨first, rest⟩
    · exact absurd ((hmem a).mpr hlisted) List.not_mem_nil
    · rw [List.map_cons, List.pairwise_cons] at hordered
      rcases List.mem_cons.mp ((hmem a).mpr hlisted) with rfl | hrest
      · rfl
      rcases hgreatest first ((hmem first).mp List.mem_cons_self) with rfl | hlt
      · rfl
      -- A greater value further down would be out of order.
      have hbefore := hordered.1 _ (List.mem_map_of_mem hrest)
      rw [hdesc] at hbefore
      rcases hbefore with hgt | ⟨heq, -⟩
      · exact absurd hlt (String.lt_asymm hgt)
      · exact absurd hlt ((show sortKey index first = sortKey index a from heq) ▸
          String.lt_irrefl _)

/-- The first of a partition is what was put there last, if sort keys follow the order in which
    values were put. -/
theorem Kept.obtains_first? {p proper : α → Prop}
    (h : Kept p proper (items.foldl upserted []) t) (hwf : t.WF)
    (hdesc : index.direction = .desc)
    (hlisted : ∀ a, Listed index partition t a ↔ Held t a ∧ q a) (hp : ∀ a, q a → p a)
    (hitems : items.Pairwise fun a b => key a = key b ∨ sortKey index a < sortKey index b)
    (hkeys : ∀ a ∈ items, ∀ b ∈ items, key a = key b → q a → q b) :
    Obtains (first? α index (some partition)) t (items.filter q).getLast? := by
  have hmem : ∀ a, Listed index partition t a ↔ a ∈ items.foldl upserted [] ∧ q a := fun a => by
    rw [hlisted]
    exact and_congr_left fun hq => h.held a (hp a hq)
  refine obtains_first?_of_greatest hwf h.typed hdesc (fun last hlast => ?_) fun hnone b hb => ?_
  · rcases getLast?_upserted hitems hkeys hlast with ⟨hleft, hrest⟩
    have hq : q last := by
      simpa using (List.mem_filter.mp (List.mem_of_getLast? hlast)).2
    exact ⟨(hmem last).mpr ⟨hleft, hq⟩, fun b hb => hrest b ((hmem b).mp hb).1 ((hmem b).mp hb).2⟩
  · rcases (hmem b).mp hb with ⟨hleft, hq⟩
    rw [List.getLast?_eq_none_iff, List.filter_eq_nil_iff] at hnone
    exact hnone b (mem_of_mem_upserted hleft) (by simpa using hq)

end Entity

/-! ## What a chain says -/

namespace Block

variable {block : Block}

/-- The snapshot that an operation leaves of the oracle that it appoints or updates. -/
def snapshotOf (block : Block) (p : Transaction × DecodedOp) : Option OracleSnapshot :=
  match block.written p.1 p.2, block.orderOf? p.1.txid with
  | some oracle, some order => some (OracleSnapshot.ofOracle oracle p.1.txid order)
  | _, _ => none

theorem exists_orderOf? {tx : Transaction} (h : tx ∈ block.transactions) :
    ∃ order, block.orderOf? tx.txid = some order := by
  rw [orderOf?]
  cases hfound : block.transactions.findIdx? fun other => other.txid == tx.txid with
  | none => exact absurd (List.findIdx?_eq_none_iff.mp hfound tx h) (by simp)
  | some i => exact ⟨_, rfl⟩

theorem snapshotOf_eq_some {p : Transaction × DecodedOp} {s : OracleSnapshot} :
    block.snapshotOf p = some s ↔ ∃ oracle order, block.written p.1 p.2 = some oracle ∧
      block.orderOf? p.1.txid = some order ∧
      OracleSnapshot.ofOracle oracle p.1.txid order = s := by
  unfold snapshotOf
  rcases block.written p.1 p.2 with _ | oracle <;> rcases block.orderOf? p.1.txid with _ | order <;>
    simp

/-- Every feed of a pair is made of a price that an operation publishes. -/
theorem mem_feedsOf {pair : PricePair} {p : Transaction × DecodedOp} {f : PriceFeed} :
    f ∈ block.feedsOf pair p ↔ ∃ data order amount, p.2.published = some data ∧
      block.orderOf? p.1.txid = some order ∧ (pair, amount) ∈ data.feeds ∧
      data.toFeed block p.1 order pair amount = f := by
  unfold feedsOf
  rcases p.2.published with _ | data
  · simp
  rcases block.orderOf? p.1.txid with _ | order
  · simp
  simp only [SetOracleData.feedsOf, List.mem_filterMap, Option.some.injEq]
  constructor
  · rintro ⟨⟨other, amount⟩, hmem, hsome⟩
    by_cases hpair : other = pair
    · subst hpair
      exact ⟨data, order, amount, rfl, rfl, hmem, by simpa using hsome⟩
    · simp [hpair] at hsome
  · rintro ⟨_, _, amount, rfl, rfl, hmem, rfl⟩
    exact ⟨(pair, amount), hmem, by simp⟩

/-- Operations stand in the order of their positions. -/
theorem ops_pairwise (h : block.Regular) : block.ops.Pairwise fun p q =>
    ∀ i j, block.orderOf? p.1.txid = some i → block.orderOf? q.1.txid = some j → i < j := by
  suffices hall : ∀ done rest, block.ops = done ++ rest → done.Pairwise fun p q =>
      ∀ i j, block.orderOf? p.1.txid = some i → block.orderOf? q.1.txid = some j → i < j from
    hall block.ops [] (List.append_nil _).symm
  intro done
  induction done using List.reverseRecOn with
  | nil => exact fun _ _ => List.Pairwise.nil
  | append_singleton init p ih =>
      intro rest hops
      rw [List.append_assoc, List.singleton_append] at hops
      refine List.pairwise_append.mpr ⟨ih _ hops, List.pairwise_singleton _ _, fun q hq r hr => ?_⟩
      rw [List.mem_singleton.mp hr]
      intro i j hi hj
      exact order_lt h hops hq (by rw [orderIn, hi]) (by rw [orderIn, hj])

end Block

namespace Chain

/-- The snapshots that the operations of a chain leave, in chain order. -/
def snapshots (chain : List Block) : List OracleSnapshot :=
  chain.flatMap fun block => block.ops.filterMap block.snapshotOf

/-- The snapshot that is left by the last operation in a chain to appoint or update an oracle. -/
def lastSnapshot? (chain : List Block) (id : String) : Option OracleSnapshot :=
  ((snapshots chain).filter fun s => s.oracleId = id).getLast?

/-- The last feed that an oracle publishes for a pair in a chain: of the last publication with
    that pair, the price that is listed last. -/
def lastFeed? (chain : List Block) (pair : PricePair) (id : String) : Option PriceFeed :=
  ((chain.flatMap fun block => block.fed pair).filter fun f => f.oracleId = id).getLast?

/-- What is assumed of the places in a chain: heights go up, no two transactions share an id,
    and ids hold no hyphen. Every position fits into 32 bits. -/
structure Ascending (chain : List Block) : Prop where
  heights : chain.Pairwise fun a b => a.height < b.height
  distinct : (txids chain).Nodup
  dashFree : ∀ txid ∈ txids chain, Text.DashFree txid
  fits : ∀ block ∈ chain, block.transactions.length ≤ UInt32.size

end Chain

/-- What an operation publishes has names without hyphens. -/
def DecodedOp.FedDashFree (op : DecodedOp) : Prop :=
  ∀ data ∈ op.published, Text.DashFree data.oracleId ∧
    ∀ feed ∈ data.feeds, Text.DashFree feed.1.token ∧ Text.DashFree feed.1.currency

instance (op : DecodedOp) : Decidable op.FedDashFree :=
  inferInstanceAs (Decidable (∀ data ∈ op.published, _ ∧ ∀ feed ∈ data.feeds, _ ∧ _))

/-- Then none of its pairs is mistaken for another, whatever that is called. -/
theorem DecodedOp.FedDashFree.apart {op : DecodedOp} (h : op.FedDashFree) (pair : PricePair) :
    op.FedApart pair := by
  intro data hdata feed hfeed id hkey
  rcases h data hdata with ⟨horacle, hfeeds⟩
  rcases Text.dash_dash_injective (hfeeds feed hfeed).1 (hfeeds feed hfeed).2 horacle hkey with
    ⟨htoken, hcurrency, -⟩
  exact congrArg₂ PricePair.mk htoken hcurrency

section

variable {chain : List Block} {block : Block} {pair : PricePair}

open Chain

namespace Chain.Ascending

variable (h : Ascending chain)
include h

theorem regular (hblock : block ∈ chain) : block.Regular := by
  have hdistinct := h.distinct
  rw [txids, List.nodup_flatMap] at hdistinct
  exact ⟨hdistinct.1 block hblock, h.fits block hblock⟩

/-- Sort keys follow the chain if they are made of heights and positions. -/
theorem pairwise {β : Type} {R : β → β → Prop} {f : Block → List β}
    (hwithin : ∀ block ∈ chain, block.Regular → (f block).Pairwise R)
    (hacross : ∀ a b : Block, a.height < b.height → ∀ x ∈ f a, ∀ y ∈ f b, R x y) :
    (chain.flatMap f).Pairwise R :=
  List.pairwise_flatMap.mpr ⟨fun block hblock => hwithin block hblock (h.regular hblock),
    h.heights.imp fun hlt => hacross _ _ hlt⟩

/-- Each snapshot has a greater sort key than those ahead of it. -/
theorem snapshots_pairwise : (snapshots chain).Pairwise fun a b =>
    sortKey OracleSnapshot.byOracle a < sortKey OracleSnapshot.byOracle b := by
  refine h.pairwise (fun block _ hregular => ?_) fun first second hlt s hs s' hs' => ?_
  · refine List.pairwise_filterMap.mpr ((Block.ops_pairwise hregular).imp ?_)
    intro p q hpq s hs s' hs'
    rcases Block.snapshotOf_eq_some.mp hs with ⟨oracle, i, hwritten, hi, rfl⟩
    rcases Block.snapshotOf_eq_some.mp hs' with ⟨oracle', j, hwritten', hj, rfl⟩
    have hheight : oracle.block.height = oracle'.block.height := by
      rw [(named_of_written hwritten).2, (named_of_written hwritten').2]
    exact Text.sortKey_lt (.inr ⟨hheight, hpq i j hi hj⟩) _ _
  · rcases List.mem_filterMap.mp hs with ⟨p, -, hp⟩
    rcases List.mem_filterMap.mp hs' with ⟨q, -, hq⟩
    rcases Block.snapshotOf_eq_some.mp hp with ⟨oracle, i, hwritten, -, rfl⟩
    rcases Block.snapshotOf_eq_some.mp hq with ⟨oracle', j, hwritten', -, rfl⟩
    refine Text.sortKey_lt (.inl ?_) _ _
    change oracle.block.height < oracle'.block.height
    rw [(named_of_written hwritten).2, (named_of_written hwritten').2]
    exact hlt

/-- Each feed of a pair has a greater sort key than those ahead of it, or it replaces them. -/
theorem fed_pairwise : (chain.flatMap fun block => block.fed pair).Pairwise fun a b =>
    key a = key b ∨ sortKey PriceFeed.byOraclePair a < sortKey PriceFeed.byOraclePair b := by
  refine h.pairwise (fun block _ hregular => ?_) fun first second hlt f hf f' hf' => ?_
  · refine List.pairwise_flatMap.mpr ⟨fun p _ => ?_, (Block.ops_pairwise hregular).imp ?_⟩
    · -- Feeds of one publication share their key.
      refine List.pairwise_of_forall_mem_list fun f hf f' hf' => .inl ?_
      rcases Block.mem_feedsOf.mp hf with ⟨data, i, _, hdata, hi, -, rfl⟩
      rcases Block.mem_feedsOf.mp hf' with ⟨data', j, _, hdata', hj, -, rfl⟩
      rw [hdata, Option.some.injEq] at hdata'
      subst hdata'
      rfl
    · intro p q hpq f hf f' hf'
      rcases Block.mem_feedsOf.mp hf with ⟨data, i, _, -, hi, -, rfl⟩
      rcases Block.mem_feedsOf.mp hf' with ⟨data', j, _, -, hj, -, rfl⟩
      exact .inr (Text.sortKey_lt (.inr ⟨rfl, hpq i j hi hj⟩) _ _)
  · rcases List.mem_flatMap.mp hf with ⟨p, -, hp⟩
    rcases List.mem_flatMap.mp hf' with ⟨q, -, hq⟩
    rcases Block.mem_feedsOf.mp hp with ⟨data, i, _, -, -, -, rfl⟩
    rcases Block.mem_feedsOf.mp hq with ⟨data', j, _, -, -, -, rfl⟩
    exact .inr (Text.sortKey_lt (.inl hlt) _ _)

end Chain.Ascending

/-! ## What is written along a chain -/

variable {t : MemoryStore} {snapshots : List OracleSnapshot} {feeds : List PriceFeed}

/-- A store keeps these snapshots and no others. -/
abbrev SnapshotsKept : List OracleSnapshot → MemoryStore → Prop :=
  Kept (fun _ => True) fun _ => True

/-- A store keeps what was written of oracles, and of the prices of a pair. -/
structure HistoryKept (pair : PricePair) (snapshots : List OracleSnapshot)
    (feeds : List PriceFeed) (t : MemoryStore) : Prop where
  snapshots : SnapshotsKept (snapshots.foldl upserted []) t
  feeds : FeedsKept pair (feeds.foldl upserted []) t

/-- The models that it is kept in. -/
def historyModels : List String := [model OracleSnapshot, model PriceFeed]

theorem HistoryKept.congr (h : HistoryKept pair snapshots feeds t) {after : MemoryStore}
    (hagree : after.Agree historyModels t) : HistoryKept pair snapshots feeds after where
  snapshots := h.snapshots.congr (hagree _ (by simp [historyModels]))
  feeds := h.feeds.congr (hagree _ (by simp [historyModels]))

theorem historyKept_empty (pair : PricePair) : HistoryKept pair [] [] .empty where
  snapshots := ⟨by simp [Typed], by simp [Held], by simp⟩
  feeds := ⟨by simp [Typed], by simp [Held], by simp⟩

theorem filterMap_snoc {α β : Type} (f : α → Option β) (items : List α) (a : α) :
    (items ++ [a]).filterMap f = items.filterMap f ++ (f a).toList := by
  cases h : f a <;> simp [h]

/-- What an operation may come to as far as oracles go. -/
inductive OracleStep (block : Block) (tx : Transaction) (op : DecodedOp) (t : MemoryStore) :
    MemoryStore → Prop
  /-- An oracle is written, in place of former memberships. -/
  | wrote {oracle : Oracle} {former : List String} {order : UInt32} :
      block.written tx op = some oracle → orderIn block tx = .ok order →
      OracleStep block tx op t
        (writtenStore (removedAll Membership t former) oracle tx.txid order)
  /-- An oracle is deleted, and memberships with it. -/
  | erased {id : String} {former : List String} : block.written tx op = none →
      OracleStep block tx op t (removed Oracle (removedAll Membership t former) id)
  /-- Nothing of it is about oracles. -/
  | passed {after : MemoryStore} : block.written tx op = none → after.Agree oracleModels t →
      OracleStep block tx op t after

section

variable {tx : Transaction} {op : DecodedOp}

/-- What comes of an operation, and that an oracle it updates or removes was found. -/
def OracleStepped (block : Block) (tx : Transaction) (op : DecodedOp) (t behind : MemoryStore) :
    Prop :=
  OracleStep block tx op t behind ∧ ∀ id, op.restored = some id → t.find (model Oracle) id ≠ none

theorem runs_appointOracle (htag : op.tag = .appointOracle) (hwf : t.WF) :
    Runs MemoryStore.WF True (fun _ behind => OracleStepped block tx op t behind)
      (Indexer.appointOracle.hook .apply (.transaction tx op) block) t := by
  refine runs_bind (runs_ofExcept_ok hwf) ?_
  rintro data behind - ⟨rfl, hdata⟩
  refine (runs_write_wf hwf _ block tx).mono ?_
  rintro _ after - ⟨order, horder, rfl⟩
  have hrestored : op.restored = none :=
    DecodedOp.restored_of_ne (by simp [htag]) (by simp [htag])
  -- No membership is in the way of a new oracle.
  have hstep : OracleStep block tx op behind
      (writtenStore (removedAll Membership behind []) (data.toOracle tx.txid block) tx.txid
        order) := .wrote (Block.written_of_appointOracle htag hdata) horder
  exact ⟨hstep, by simp [hrestored]⟩

theorem runs_updateOracle (htag : op.tag = .updateOracle) (hwf : t.WF) :
    Runs MemoryStore.WF True (fun _ behind => OracleStepped block tx op t behind)
      (Indexer.updateOracle.hook .apply (.transaction tx op) block) t := by
  refine runs_bind (runs_ofExcept_ok hwf) ?_
  rintro data behind - ⟨rfl, hdata⟩
  refine runs_bind (runs_require_there hwf data.oracleId) ?_
  rintro previous after - ⟨rfl, hthere⟩
  refine runs_bind (runs_eraseMemberships_wf hwf previous.id previous.priceFeeds) ?_
  rintro _ cleared hcleared rfl
  refine (runs_write_wf hcleared _ block tx).mono ?_
  rintro _ last - ⟨order, horder, rfl⟩
  refine ⟨.wrote (Block.written_of_updateOracle htag hdata) horder, fun id hid => ?_⟩
  rw [DecodedOp.restored_of_updateOracle htag hdata, Option.some.injEq] at hid
  exact hid ▸ hthere

theorem runs_removeOracle (htag : op.tag = .removeOracle) (hwf : t.WF) :
    Runs MemoryStore.WF True (fun _ behind => OracleStepped block tx op t behind)
      (Indexer.removeOracle.hook .apply (.transaction tx op) block) t := by
  have hnone : block.written tx op = none :=
    Block.written_of_ne (by simp [htag]) (by simp [htag])
  refine runs_bind (runs_ofExcept_ok hwf) ?_
  rintro data behind - ⟨rfl, hdata⟩
  refine runs_bind (runs_require_there hwf data.oracleId) ?_
  rintro oracle after - ⟨rfl, hthere⟩
  refine runs_bind (runs_eraseMemberships_wf hwf oracle.id oracle.priceFeeds) ?_
  rintro _ cleared hcleared rfl
  refine (runs_remove_wf hcleared oracle.id).mono ?_
  rintro _ last - rfl
  refine ⟨.erased hnone, fun id hid => ?_⟩
  rw [DecodedOp.restored_of_removeOracle htag hdata, Option.some.injEq] at hid
  exact hid ▸ hthere

/-- Any operation. -/
theorem runs_oracleOp (symbol : String) (hwf : t.WF) :
    Runs MemoryStore.WF True (fun _ behind => OracleStepped block tx op t behind)
      ((Indexer.ofTag symbol op.tag).hook .apply (.transaction tx op) block) t := by
  by_cases happoint : op.tag = .appointOracle
  · rw [happoint]
    exact runs_appointOracle happoint hwf
  by_cases hupdate : op.tag = .updateOracle
  · rw [hupdate]
    exact runs_updateOracle hupdate hwf
  by_cases hremove : op.tag = .removeOracle
  · rw [hremove]
    exact runs_removeOracle hremove hwf
  · -- The other operations write nothing that has to do with oracles.
    have hrestored : op.restored = none := DecodedOp.restored_of_ne hupdate hremove
    exact ((makes_operation_of_tag symbol block tx op .apply).agrees
      (show ∀ m ∈ oracleModels, m ∉ op.tag.models by
        revert happoint hupdate hremove; cases op.tag <;> decide) hwf).mono
      fun _ _ _ hagree =>
        ⟨.passed (Block.written_of_ne happoint hupdate) hagree, by simp [hrestored]⟩

end

/-- It leaves the snapshot that it should. -/
theorem OracleStep.snapshotsKept {items : List OracleSnapshot} {tx : Transaction} {op : DecodedOp}
    {after : MemoryStore} (hstep : OracleStep block tx op t after) (h : SnapshotsKept items t) :
    SnapshotsKept ((block.snapshotOf (tx, op)).toList.foldl upserted items) after := by
  have hnone : block.written tx op = none → block.snapshotOf (tx, op) = none := fun hwritten => by
    rw [Block.snapshotOf, hwritten]
  cases hstep with
  | wrote hwritten horder =>
      rw [Block.snapshotOf_eq_some.mpr ⟨_, _, hwritten, orderOf?_of_orderIn horder, rfl⟩]
      refine Kept.saved (h.congr fun k => ?_) trivial
      rw [find_savedAll, if_neg (by simp [Entity.model]), find_saved,
        if_neg (by simp [Entity.model]), find_removedAll, if_neg (by simp [Entity.model])]
  | erased hwritten =>
      rw [hnone hwritten]
      exact h.congr fun k => find_erased_snapshot _ k _
  | passed hwritten hagree =>
      rw [hnone hwritten]
      exact h.congr (hagree _ (by simp [oracleModels]))

/-- An operation publishes the feeds that it should. -/
theorem runs_feedStep (symbol : String) {tx : Transaction} {op : DecodedOp}
    (h : FeedsKept pair feeds t) (hwf : t.WF) (htxid : Text.DashFree tx.txid)
    (hapart : op.FedApart pair) :
    Runs MemoryStore.WF True
      (fun _ behind => FeedsKept pair ((block.feedsOf pair (tx, op)).foldl upserted feeds) behind)
      ((Indexer.ofTag symbol op.tag).hook .apply (.transaction tx op) block) t := by
  by_cases htag : op.tag = .setOracleData
  · rw [htag]
    exact runs_publication h hwf htag htxid hapart
  · have hnone : block.feedsOf pair (tx, op) = [] := by
      rw [Block.feedsOf, DecodedOp.published, DecodedOp.data?_of_ne htag]
    rw [hnone]
    exact ((makes_operation_of_tag symbol block tx op .apply).agrees
      (show ∀ m ∈ [model PriceFeed], m ∉ op.tag.models by
        revert htag; cases op.tag <;> decide) hwf).mono
      fun _ _ _ hagree => h.congr (hagree _ (List.mem_singleton_self _))

/-- The next block writes what its operations say, one after another. -/
theorem runs_applyBlock_history (symbol : String) (h : HistoryKept pair snapshots feeds t)
    (hwf : t.WF) (htxids : ∀ tx ∈ block.transactions, Text.DashFree tx.txid)
    (hapart : ∀ p ∈ block.ops, p.2.FedApart pair) :
    Runs MemoryStore.WF True
      (fun _ behind => HistoryKept pair (snapshots ++ block.ops.filterMap block.snapshotOf)
        (feeds ++ block.fed pair) behind)
      ((Registry.standard symbol).applyBlock block) t := by
  rw [Registry.applyBlock_standard]
  refine runs_bind ((makes_seedFirst symbol).agrees
    (by decide : ∀ m ∈ historyModels, m ∉ [model Token]) hwf) fun _ seeded hseeded hagree => ?_
  refine runs_bind (makes_listing.agrees
    (by decide : ∀ m ∈ historyModels, m ∉ chainModels) hseeded) fun _ listed hlisted hsame => ?_
  refine runs_bind (runs_forM (fun done _ behind => HistoryKept pair
    (snapshots ++ done.filterMap block.snapshotOf)
    (feeds ++ done.flatMap (block.feedsOf pair)) behind) block.ops hlisted
    (by simpa using h.congr (hsame.trans hagree)) ?_) fun _ operated hoperated hdone => ?_
  · rintro done ⟨tx, op⟩ rest before hops hbefore hkept
    have hmem := mem_ops_of_eq hops.symm
    refine ((runs_oracleOp symbol hbefore).and (runs_feedStep symbol
      hkept.feeds hbefore (htxids tx (Block.mem_transactions_of_mem_ops hmem))
      (hapart _ hmem))).mono fun _ behind _ hbehind => ⟨?_, ?_⟩
    · rw [filterMap_snoc, ← List.append_assoc, List.foldl_append]
      exact hbehind.1.1.snapshotsKept hkept.snapshots
    · rw [List.flatMap_append, List.flatMap_singleton, ← List.append_assoc, List.foldl_append]
      exact hbehind.2
  refine runs_bind ((makes_aggregates block .apply).agrees
    (by decide : ∀ m ∈ historyModels, m ∉ [model PriceAggregate]) hoperated)
    fun _ priced hpriced hkept => ?_
  exact ((makes_statistics block .apply).agrees
    (by decide : ∀ m ∈ historyModels, m ∉ [model MasternodeStats]) hpriced).mono
    fun _ _ _ hlast => hdone.congr (hlast.trans hkept)

/-- What a store of a chain keeps of oracles and prices. -/
theorem Chain.Indexed.history {symbol : String} (h : Indexed symbol chain t)
    (htxids : ∀ txid ∈ txids chain, Text.DashFree txid)
    (hapart : ∀ block ∈ chain, ∀ p ∈ block.ops, p.2.FedApart pair) :
    t.WF ∧ HistoryKept pair (Chain.snapshots chain)
      (chain.flatMap fun block => block.fed pair) t := by
  induction h with
  | start => exact ⟨wf_empty, historyKept_empty pair⟩
  | @next chain block before after hbefore hrun ih =>
      rw [txids_snoc] at htxids
      rcases ih (fun txid hmem => htxids txid (List.mem_append_left _ hmem))
        (fun other hother => hapart other (List.mem_append_left _ hother)) with ⟨hwf, hkept⟩
      rcases (runs_applyBlock_history symbol hkept hwf
        (fun tx htx => htxids _ (List.mem_append_right _ (List.mem_map_of_mem htx)))
        (hapart block List.mem_concat_self)).post_of_run hrun with ⟨hafter, hlast⟩
      rw [Chain.snapshots, List.flatMap_append, List.flatMap_append, List.flatMap_singleton,
        List.flatMap_singleton]
      exact ⟨hafter, hlast⟩

/-! ## The latest -/

theorem listed_snapshot_iff {partition : String} {s : OracleSnapshot} :
    Listed OracleSnapshot.byOracle partition t s ↔ Held t s ∧ s.oracleId = partition := by
  refine and_congr_right fun _ => ⟨?_, ?_⟩
  · rintro ⟨_, hentry⟩
    simp only [Entity.entries, List.mem_singleton, IndexEntry.mk.injEq] at hentry
    exact hentry.2.1.symm
  · rintro rfl
    exact ⟨_, List.mem_singleton_self _⟩

instance : SinglyIndexed OracleSnapshot :=
  inferInstanceAs (SinglyIndexed RecordKind.snapshot.Value)

theorem mem_snapshots {s : OracleSnapshot} : s ∈ Chain.snapshots chain ↔
    ∃ block ∈ chain, ∃ p ∈ block.ops, block.snapshotOf p = some s := by
  simp only [Chain.snapshots, List.mem_flatMap, List.mem_filterMap]

/-- Ids have no hyphens, so the key of a snapshot gives its transaction and its oracle away. -/
theorem Chain.Ascending.ids_of_key (h : Ascending chain) {s s' : OracleSnapshot}
    (hs : s ∈ Chain.snapshots chain) (hs' : s' ∈ Chain.snapshots chain) (hkey : key s = key s') :
    s.txid = s'.txid ∧ s.oracleId = s'.oracleId := by
  rcases mem_snapshots.mp hs with ⟨block, hblock, p, hp, hsome⟩
  rcases mem_snapshots.mp hs' with ⟨block', hblock', p', hp', hsome'⟩
  rcases Block.snapshotOf_eq_some.mp hsome with ⟨oracle, order, -, -, rfl⟩
  rcases Block.snapshotOf_eq_some.mp hsome' with ⟨oracle', order', -, -, rfl⟩
  have hdash := h.dashFree _ (mem_txids hblock (Block.mem_transactions_of_mem_ops hp))
  have hdash' := h.dashFree _ (mem_txids hblock' (Block.mem_transactions_of_mem_ops hp'))
  have hids := Text.append_dash_injective hdash hdash' hkey
  exact ⟨hids.2, (Text.append_dash_injective (Text.dashFree_toString _) (Text.dashFree_toString _)
    hids.1).1⟩

/-- The snapshot that is found is the last one in the chain. -/
theorem Chain.Ascending.obtains_snapshot (h : Ascending chain)
    (hkept : HistoryKept pair (Chain.snapshots chain) feeds t) (hwf : t.WF) (id : String) :
    Obtains (OracleSnapshot.latest? id) t (lastSnapshot? chain id) :=
  Kept.obtains_first? hkept.snapshots hwf rfl (fun _ => listed_snapshot_iff)
    (fun _ _ => trivial) (h.snapshots_pairwise.imp .inr) fun _ hs _ hs' hkey hid =>
      (h.ids_of_key hs hs' hkey).2.symm.trans hid

theorem mem_fed_chain {f : PriceFeed} : (f ∈ chain.flatMap fun block => block.fed pair) ↔
    ∃ block ∈ chain, ∃ p ∈ block.ops, f ∈ block.feedsOf pair p := by
  simp only [Block.fed, List.mem_flatMap]

/-- So is the feed. -/
theorem Chain.Ascending.obtains_feed (h : Ascending chain)
    (hkept : HistoryKept pair snapshots (chain.flatMap fun block => block.fed pair) t)
    (hwf : t.WF) (id : String) :
    Obtains (PriceFeed.latest? pair id) t (lastFeed? chain pair id) := by
  have hshape : ∀ f ∈ chain.flatMap fun block => block.fed pair, Text.DashFree f.txid ∧
      f.id = PriceFeed.idOf pair f.oracleId f.txid ∧ f.key = PriceFeed.keyOf pair f.oracleId := by
    intro f hf
    rcases mem_fed_chain.mp hf with ⟨block, hblock, p, hp, hmem⟩
    rcases Block.mem_feedsOf.mp hmem with ⟨data, order, amount, -, -, -, rfl⟩
    exact ⟨h.dashFree _ (mem_txids hblock (Block.mem_transactions_of_mem_ops hp)), rfl, rfl⟩
  have hfirst : Obtains (PriceFeed.latest? pair id) t
      ((chain.flatMap fun block => block.fed pair).filter
        fun f => f.key = PriceFeed.keyOf pair id).getLast? :=
    Kept.obtains_first? hkept.feeds hwf rfl (fun _ => listed_feed_iff) (fun _ hf => ⟨id, hf⟩)
      h.fed_pairwise fun f hf f' hf' hkey hid => by
        rcases hshape f hf with ⟨hdash, hid', hkey'⟩
        rcases hshape f' hf' with ⟨hdash', hid'', hkey''⟩
        change f.id = f'.id at hkey
        rw [hid', hid''] at hkey
        rw [hkey'', ← (Text.append_dash_injective hdash hdash' hkey).1, ← hkey', hid]
  have hsame : (chain.flatMap fun block => block.fed pair).filter
      (fun f => f.key = PriceFeed.keyOf pair id) =
        (chain.flatMap fun block => block.fed pair).filter fun f => f.oracleId = id := by
    refine List.filter_congr fun f hf => ?_
    rw [(hshape f hf).2.2]
    simp [PriceFeed.keyOf]
  rw [lastFeed?, ← hsame]
  exact hfirst

theorem lastSnapshot?_eq_none_iff {id : String} : lastSnapshot? chain id = none ↔
    ∀ block ∈ chain, ∀ p ∈ block.ops, ∀ oracle, block.written p.1 p.2 = some oracle →
      oracle.id ≠ id := by
  rw [lastSnapshot?, List.getLast?_eq_none_iff, List.filter_eq_nil_iff]
  constructor
  · intro h block hblock p hp oracle hwritten hid
    rcases Block.exists_orderOf? (Block.mem_transactions_of_mem_ops hp) with ⟨order, horder⟩
    exact h _ (mem_snapshots.mpr ⟨block, hblock, p, hp,
      Block.snapshotOf_eq_some.mpr ⟨oracle, order, hwritten, horder, rfl⟩⟩) (decide_eq_true hid)
  · intro h s hs hid
    rcases mem_snapshots.mp hs with ⟨block, hblock, p, hp, hsome⟩
    rcases Block.snapshotOf_eq_some.mp hsome with ⟨oracle, order, hwritten, -, rfl⟩
    exact h block hblock p hp oracle hwritten (of_decide_eq_true hid)

theorem lastFeed?_eq_none_iff {id : String} : lastFeed? chain pair id = none ↔
    ∀ block ∈ chain, ∀ p ∈ block.ops, ∀ data, p.2.published = some data → data.oracleId = id →
      ∀ amount, (pair, amount) ∉ data.feeds := by
  rw [lastFeed?, List.getLast?_eq_none_iff, List.filter_eq_nil_iff]
  constructor
  · intro h block hblock p hp data hdata hid amount hmem
    rcases Block.exists_orderOf? (Block.mem_transactions_of_mem_ops hp) with ⟨order, horder⟩
    exact h _ (mem_fed_chain.mpr ⟨block, hblock, p, hp,
      Block.mem_feedsOf.mpr ⟨data, order, amount, hdata, horder, hmem, rfl⟩⟩) (decide_eq_true hid)
  · intro h f hf hid
    rcases mem_fed_chain.mp hf with ⟨block, hblock, p, hp, hmem⟩
    rcases Block.mem_feedsOf.mp hmem with ⟨data, order, amount, hdata, -, hprice, rfl⟩
    exact h block hblock p hp data hdata (of_decide_eq_true hid) amount hprice

end

open Chain in
/-- **The latest record is the last in the chain.** Take a store that a chain was indexed into,
    one in which heights go up and names have no hyphens. The latest snapshot of an oracle is
    the one that was left by the last transaction to appoint or update it, and the latest feed
    of an oracle for a pair is the last price that it published for that pair, however ids
    compare. There is none exactly if there is no such transaction. -/
theorem latest_is_last_in_chain {symbol : String} {chain : List Block} {t : MemoryStore}
    (h : Indexed symbol chain t) (hchain : Ascending chain)
    (hfed : ∀ block ∈ chain, ∀ p ∈ block.ops, p.2.FedDashFree) :
    (∀ id, Obtains (OracleSnapshot.latest? id) t (lastSnapshot? chain id) ∧
      (lastSnapshot? chain id = none ↔ ∀ block ∈ chain, ∀ p ∈ block.ops, ∀ oracle,
        block.written p.1 p.2 = some oracle → oracle.id ≠ id)) ∧
    ∀ pair id, Obtains (PriceFeed.latest? pair id) t (lastFeed? chain pair id) ∧
      (lastFeed? chain pair id = none ↔ ∀ block ∈ chain, ∀ p ∈ block.ops, ∀ data,
        p.2.published = some data → data.oracleId = id →
          ∀ amount, (pair, amount) ∉ data.feeds) := by
  have hhistory := fun pair => h.history hchain.dashFree
    fun block hblock p hp => (hfed block hblock p hp).apart pair
  refine ⟨fun id => ⟨?_, lastSnapshot?_eq_none_iff⟩, fun pair id => ⟨?_, lastFeed?_eq_none_iff⟩⟩
  · rcases hhistory ⟨"", ""⟩ with ⟨hwf, hkept⟩
    exact hchain.obtains_snapshot hkept hwf id
  · rcases hhistory pair with ⟨hwf, hkept⟩
    exact hchain.obtains_feed hkept hwf id

/-! The height of the second block has more digits than that of the first, and its transactions
have lesser ids, the later ones the least. The last publication lists its pair twice. -/

namespace Crossing

open Averaging

/-- An oracle is appointed, and publishes. -/
def first : Block :=
  .holding "a" "" 15 [appointment "z" 1, publication "y" "z" 0 [("T", 9)]]

/-- It publishes twice more, and is updated in between. -/
def second : Block :=
  .holding "b" "a" 16 [publication "d" "z" 0 [("T", 8)],
    .carrying "c" .updateOracle [("oracleId", .string "z"), ("ownerAddress", .string "y"),
      ("weightage", .int 2), ("priceFeeds", .array [])],
    publication "b" "z" 0 [("T", 7), ("T", 5)]]

/-- The store with both blocks. -/
def store : MemoryStore :=
  ((Registry.standard "DFI").applyBlock second).leaves
    (((Registry.standard "DFI").applyBlock first).leaves .empty)

end Crossing

open Chain Crossing in
open Averaging (pair) in
theorem latest_is_last_in_chain_crossing :
    (Indexed "DFI" [first, second] store ∧ Ascending [first, second] ∧
      ∀ block ∈ [first, second], ∀ p ∈ block.ops, p.2.FedDashFree) ∧
    (∃ s, Obtains (OracleSnapshot.latest? "z") store (some s) ∧ s.txid = "c") ∧
    (∃ f, Obtains (PriceFeed.latest? pair "z") store (some f) ∧ f.txid = "b" ∧
      f.amount = 500000000) ∧
    Obtains (PriceFeed.latest? pair "y") store none := by
  have hfirst : Indexed "DFI" [first]
      (((Registry.standard "DFI").applyBlock first).leaves .empty) :=
    .next .start (Program.run_of_ok (by decide +kernel))
  have hindexed : Indexed "DFI" ([first] ++ [second]) store :=
    .next hfirst (Program.run_of_ok (by decide +kernel))
  have hascending : Ascending [first, second] := ⟨by decide, by decide, by decide, by decide⟩
  have hfed : ∀ block ∈ [first, second], ∀ p ∈ block.ops, p.2.FedDashFree := by decide +kernel
  rcases latest_is_last_in_chain hindexed hascending hfed with ⟨hsnapshots, hfeeds⟩
  have hsnapshot : (lastSnapshot? [first, second] "z").map OracleSnapshot.txid = some "c" := by
    decide +kernel
  have hfeed : (lastFeed? [first, second] pair "z").map (fun f => (f.txid, f.amount)) =
      some ("b", 500000000) := by
    decide +kernel
  rcases Option.map_eq_some_iff.mp hsnapshot with ⟨s, hs, htxid⟩
  rcases Option.map_eq_some_iff.mp hfeed with ⟨f, hf, hvalues⟩
  rw [Prod.mk.injEq] at hvalues
  refine ⟨⟨hindexed, hascending, hfed⟩, ⟨s, hs ▸ (hsnapshots "z").1, htxid⟩,
    ⟨f, hf ▸ (hfeeds pair "z").1, hvalues⟩, ?_⟩
  rw [show (none : Option PriceFeed) = lastFeed? [first, second] pair "y" by decide +kernel]
  exact (hfeeds pair "y").1

end ChainIndex
