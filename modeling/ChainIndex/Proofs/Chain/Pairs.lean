import ChainIndex.Proofs.Chain.OracleRecords
import ChainIndex.Proofs.Indexer.Pairs

/-!
# Price pairs stay apart

What a store keeps of a price pair and answers about it comes from what the chain says of that
pair: which oracles were appointed for it, with which weights, and which prices they published
for it. Two chains that say the same of a pair, block by block, keep the same of it and get the
same answers, whatever else they say.

That is so where no other pair of the chain is mistaken for it. Keys join texts that may hold
hyphens themselves: `A-B` in `C` and `A` in `B-C` have one key, and where they meet an oracle of
one pair is listed and priced as one of the other. `Unmixed` rules that out for one pair, and
`Unmixed.of_dashFree` says that it cannot happen where the parts of the pair, and those of the
pairs that are fed, hold no hyphens.

Of one chain the argument goes along its operations: the memberships of a pair follow from the
oracles that are left, and the feeds from the publications. The aggregates are where two chains
are needed. What the end of a block reads is not computed here a second time; it is the same in
both, since both keep the same memberships and feeds.

## Main definitions

* `Chain.members`, `Chain.feeds`: What a chain says of a pair.
* `Chain.Unmixed`: No pair of a chain is mistaken for another one.
* `Chain.SaySame`: Two chains say the same of a pair.
* `Chain.Indexed`: The store that indexing a chain leaves.
* `PairTold`: What holds of a pair in a store of a chain.
* `SameOfPair`: Two stores keep the same of a pair and give the same answers.

## Theorems

* `Unmixed.of_dashFree`: Parts without hyphens keep pairs apart.
* `OraclesTold.membersKept`: The memberships of a pair are those of its oracles.
* `runs_pairStep`, `runs_applyBlock_pair`: Operations and blocks.
* `pairs_stay_apart`: What is said of other pairs makes no difference.
-/

namespace ChainIndex

open Entity Program MemoryStore Chain

namespace Chain

/-- The memberships of a pair that a chain leaves: one for each oracle that may price it. -/
def members (pair : PricePair) (chain : List Block) : List Membership :=
  ((oracles chain).filter fun oracle => pair ∈ oracle.priceFeeds).map fun oracle =>
    Membership.ofOracle oracle pair

/-- The feeds that a chain publishes for a pair. -/
def feeds (pair : PricePair) (chain : List Block) : List PriceFeed :=
  (chain.flatMap fun block => block.fed pair).foldl upserted []

/-- No pair of a chain is mistaken for `pair`: none that an oracle may price has its key, and
    none that is fed has it together with an oracle. -/
structure Unmixed (pair : PricePair) (chain : List Block) : Prop where
  priced : ∀ block ∈ chain, ∀ p ∈ block.ops, ∀ oracle ∈ block.written p.1 p.2,
    ∀ other ∈ oracle.priceFeeds, other.key = pair.key → other = pair
  fed : ∀ block ∈ chain, ∀ p ∈ block.ops, p.2.FedApart pair

/-- Two chains say the same of a pair: block by block the same oracles may price it, and the same
    prices are published for it. -/
inductive SaySame (pair : PricePair) : List Block → List Block → Prop
  /-- Without blocks nothing is said. -/
  | nil : SaySame pair [] []
  /-- One more block each. -/
  | snoc {chain other : List Block} {block block' : Block} :
      SaySame pair chain other → block.ref = block'.ref →
      members pair (chain ++ [block]) = members pair (other ++ [block']) →
      block.fed pair = block'.fed pair → SaySame pair (chain ++ [block]) (other ++ [block'])

/-- The store that indexing a chain leaves, one block after another and without an error. -/
inductive Indexed (symbol : String) : List Block → MemoryStore → Prop
  /-- A store without records. -/
  | start : Indexed symbol [] .empty
  /-- The next block is applied. -/
  | next {chain : List Block} {block : Block} {before after : MemoryStore} :
      Indexed symbol chain before →
      ((Registry.standard symbol).applyBlock block).run World.answer ⟨before, ⟨[], []⟩, 0⟩
        = (.ok (), ⟨after, ⟨[], []⟩, 0⟩) →
      Indexed symbol (chain ++ [block]) after

section

variable {pair : PricePair} {chain : List Block} {block : Block}

theorem Unmixed.of_snoc (h : Unmixed pair (chain ++ [block])) : Unmixed pair chain where
  priced other hmem := h.priced other (List.mem_append_left _ hmem)
  fed other hmem := h.fed other (List.mem_append_left _ hmem)

/-- The last block of a chain that was indexed was applied to a store of the chain below. -/
theorem Indexed.last {symbol : String} {t : MemoryStore} (h : Indexed symbol (chain ++ [block]) t) :
    ∃ before, Indexed symbol chain before ∧
      ((Registry.standard symbol).applyBlock block).run World.answer ⟨before, ⟨[], []⟩, 0⟩
        = (.ok (), ⟨t, ⟨[], []⟩, 0⟩) := by
  generalize hwhole : chain ++ [block] = whole at h
  cases h with
  | start => simp at hwhole
  | next hbefore hrun =>
      rcases List.append_inj' hwhole rfl with ⟨rfl, hblock⟩
      rw [List.singleton_inj] at hblock
      exact ⟨_, hbefore, hblock ▸ hrun⟩

theorem Indexed.of_nil {symbol : String} {t : MemoryStore} (h : Indexed symbol [] t) :
    t = .empty := by
  generalize hnil : ([] : List Block) = whole at h
  cases h with
  | start => rfl
  | next _ _ => simp at hnil

/-- Parts without hyphens keep pairs apart: those of the pair itself, and those of the pairs that
    are fed. -/
theorem Unmixed.of_dashFree (htoken : Text.DashFree pair.token)
    (hcurrency : Text.DashFree pair.currency)
    (hfed : ∀ block ∈ chain, ∀ p ∈ block.ops, ∀ data ∈ p.2.published, ∀ feed ∈ data.feeds,
      Text.DashFree feed.1.token ∧ Text.DashFree feed.1.currency) : Unmixed pair chain where
  priced block _ p _ oracle _ other _ hkey := by
    rcases Text.append_dash_injective_of_dashFree htoken hcurrency hkey with ⟨hfirst, hsecond⟩
    exact congrArg₂ PricePair.mk hfirst hsecond
  fed block hblock p hp data hdata feed hfeed id hkey := by
    rcases hfed block hblock p hp data hdata feed hfeed with ⟨hfirst, hsecond⟩
    have hparts : feed.1.token ++ "-" ++ (feed.1.currency ++ "-" ++ data.oracleId)
        = pair.token ++ "-" ++ (pair.currency ++ "-" ++ id) := by
      simpa only [PriceFeed.keyOf, PricePair.key, String.append_assoc] using hkey
    rcases Text.dash_append_injective hfirst htoken hparts with ⟨hsame, hrest⟩
    have hsame' := (Text.dash_append_injective hsecond hcurrency hrest).1
    exact congrArg₂ PricePair.mk hsame hsame'

theorem written_of_mem_foldl {left : List Oracle} {ops : List (Transaction × DecodedOp)}
    {oracle : Oracle} (h : oracle ∈ ops.foldl block.oraclesAfter left) :
    oracle ∈ left ∨ ∃ p ∈ ops, oracle ∈ block.written p.1 p.2 := by
  induction ops using List.reverseRecOn with
  | nil => exact Or.inl h
  | append_singleton init p ih =>
      rcases OraclesMidway.mem_oracles_snoc.mp h with ⟨hbefore, _⟩ | hwritten
      · exact (ih hbefore).imp_right (exists_done mem_snoc)
      · exact Or.inr ⟨p, List.mem_concat_self, hwritten⟩

/-- An oracle that is left was written by an operation of the chain. -/
theorem written_of_mem_oracles {oracle : Oracle} (h : oracle ∈ oracles chain) :
    ∃ block ∈ chain, ∃ p ∈ block.ops, oracle ∈ block.written p.1 p.2 := by
  induction chain using List.reverseRecOn with
  | nil => exact absurd h List.not_mem_nil
  | append_singleton init block ih =>
      rw [oracles, List.foldl_append, List.foldl_cons, List.foldl_nil] at h
      rcases written_of_mem_foldl h with hbefore | hlast
      · rcases ih hbefore with ⟨other, hmem, hwritten⟩
        exact ⟨other, List.mem_append_left _ hmem, hwritten⟩
      · exact ⟨block, List.mem_concat_self, hlast⟩

end

end Chain

section

variable {pair : PricePair} {chain : List Block} {block : Block} {t after : MemoryStore}

/-- The memberships of a pair are those of the oracles that may price it. -/
theorem OraclesTold.membersKept (h : OraclesTold chain t) (hunmixed : Unmixed pair chain) :
    MembersKept pair (members pair chain) t := by
  have hmem : ∀ oracle : Oracle, Held t oracle → pair ∈ oracle.priceFeeds →
      Membership.ofOracle oracle pair ∈ members pair chain := fun oracle hheld hpair =>
    List.mem_map_of_mem (List.mem_filter.mpr ⟨(h.live oracle).mp hheld, decide_eq_true hpair⟩)
  have hown : ∀ m : Membership, Held t m → m.key = pair.key →
      ∃ oracle : Oracle, Held t oracle ∧ pair ∈ oracle.priceFeeds ∧
        m = Membership.ofOracle oracle pair := by
    intro m hheld hkey
    rcases h.coherent.oracle_of_held hheld with ⟨oracle, horacle, other, hother, rfl⟩
    rcases written_of_mem_oracles ((h.live oracle).mp horacle) with ⟨block, hblock, p, hp, hwritten⟩
    have hpair := hunmixed.priced block hblock p hp oracle hwritten other hother hkey
    exact ⟨oracle, horacle, hpair ▸ hother, by rw [hpair]⟩
  refine ⟨h.coherent.memberships_typed, fun m hkey => ⟨fun hheld => ?_, fun hm => ?_⟩,
    fun m hm => ?_⟩
  · rcases hown m hheld hkey with ⟨oracle, horacle, hpair, rfl⟩
    exact hmem oracle horacle hpair
  · rcases List.mem_map.mp hm with ⟨oracle, hfilter, rfl⟩
    rcases List.mem_filter.mp hfilter with ⟨hleft, hpair⟩
    have horacle : Held t oracle := (h.live oracle).mpr hleft
    rcases h.coherent.oracle_typed horacle with ⟨_, _, _, hdash⟩
    rcases h.coherent.held_of_pair horacle rfl hdash (of_decide_eq_true hpair) with
      ⟨member, hheld, hid, hmember⟩
    -- It is held under the key that the oracle would write, and there is one oracle of an id.
    rcases hown member hheld hmember with ⟨other, hother, _, rfl⟩
    have hids : key other = key oracle := hid
    rw [Held, hids, show t.find _ (key oracle) = _ from horacle, Option.some.injEq] at hother
    rw [stored_injective hother]
    exact hheld
  · rcases List.mem_map.mp hm with ⟨oracle, _, rfl⟩
    rfl

/-- What holds of a pair in a store of a chain. -/
structure PairTold (pair : PricePair) (chain : List Block) (aggregates : List PriceAggregate)
    (t : MemoryStore) : Prop where
  oracles : OraclesTold chain t
  feeds : FeedsKept pair (Chain.feeds pair chain) t
  aggregates : AggregatesKept pair aggregates t

/-- What holds of it while a block is applied, when some operations are done. -/
structure PairMidway (pair : PricePair) (chain : List Block) (block : Block)
    (aggregates : List PriceAggregate) (done : List (Transaction × DecodedOp))
    (t : MemoryStore) : Prop where
  oracles : OraclesMidway chain block done t
  feeds : FeedsKept pair
    ((done.flatMap (block.feedsOf pair)).foldl upserted (Chain.feeds pair chain)) t
  aggregates : AggregatesKept pair aggregates t

/-- The models that tell of pairs. -/
def pairModels : List String :=
  model PriceFeed :: model PriceAggregate :: oracleModels

variable {aggregates : List PriceAggregate} {done init rest : List (Transaction × DecodedOp)}
variable {tx : Transaction} {op : DecodedOp}

theorem members_feeds_subset :
    ∀ m ∈ [model Membership, model PriceFeed], m ∈ model PriceFeed :: oracleModels := by
  decide

theorem agree_oracleModels (h : after.Agree pairModels t) : after.Agree oracleModels t :=
  fun m hm => h m (List.mem_cons_of_mem _ (List.mem_cons_of_mem _ hm))

theorem PairMidway.congr (h : PairMidway pair chain block aggregates done t) (hwf : after.WF)
    (hagree : after.Agree pairModels t) :
    PairMidway pair chain block aggregates done after where
  oracles := h.oracles.congr hwf (agree_oracleModels hagree)
  feeds := h.feeds.congr (hagree _ (by simp [pairModels]))
  aggregates := h.aggregates.congr (hagree _ (by simp [pairModels]))

/-- An operation keeps what holds of a pair. -/
theorem runs_pairStep (symbol : String) (h : PairMidway pair chain block aggregates init t)
    (hwf : t.WF) (htidy : Tidy (chain ++ [block])) (hregular : block.Regular)
    (hops : block.ops = init ++ (tx, op) :: rest) (hapart : op.FedApart pair) :
    Runs MemoryStore.WF True
      (fun _ behind => PairMidway pair chain block aggregates (init ++ [(tx, op)]) behind)
      ((Indexer.ofTag symbol op.tag).hook .apply (.transaction tx op) block) t := by
  have horacles := runs_oracleStep h.oracles hwf htidy hregular hops symbol
  have hmakes := makes_operation_of_tag symbol block tx op .apply
  have hsnoc : ((init ++ [(tx, op)]).flatMap (block.feedsOf pair)).foldl upserted
      (Chain.feeds pair chain) = (block.feedsOf pair (tx, op)).foldl upserted
        ((init.flatMap (block.feedsOf pair)).foldl upserted (Chain.feeds pair chain)) := by
    rw [List.flatMap_append, List.flatMap_singleton, List.foldl_append]
  by_cases htag : op.tag = .setOracleData
  · have hdash := htidy.dashFree_last (Block.mem_transactions_of_mem_ops (mem_ops_of_eq hops))
    have hfeeds : Runs MemoryStore.WF True
        (fun _ behind => FeedsKept pair ((block.feedsOf pair (tx, op)).foldl upserted
          ((init.flatMap (block.feedsOf pair)).foldl upserted (Chain.feeds pair chain))) behind)
        ((Indexer.ofTag symbol op.tag).hook .apply (.transaction tx op) block) t := by
      rw [htag]
      exact runs_publication h.feeds hwf htag hdash hapart
    have haggregates := hmakes.agrees
      (by rw [htag]; decide : ∀ m ∈ [model PriceAggregate], m ∉ op.tag.models) hwf
    refine (horacles.and (hfeeds.and haggregates)).mono fun _ behind _ hbehind =>
      ⟨hbehind.1.1, ?_, h.aggregates.congr (hbehind.2.2 _ (by simp))⟩
    rw [hsnoc]
    exact hbehind.2.1
  · -- Any other operation publishes nothing and leaves feeds and aggregates as they are.
    have hnone : block.feedsOf pair (tx, op) = [] := by
      rw [Block.feedsOf, DecodedOp.published, DecodedOp.data?_of_ne htag]
    have hkept := hmakes.agrees (show ∀ m ∈ [model PriceFeed, model PriceAggregate],
      m ∉ op.tag.models by revert htag; cases op.tag <;> decide) hwf
    refine (horacles.and hkept).mono fun _ behind _ hbehind =>
      ⟨hbehind.1.1, ?_, h.aggregates.congr (hbehind.2 _ (by simp))⟩
    rw [hsnoc, hnone]
    exact h.feeds.congr (hbehind.2 _ (by simp))

/-! ## Blocks -/

theorem PairTold.start (h : PairTold pair chain aggregates t)
    (hnumbered : Numbered (chain ++ [block])) :
    PairMidway pair chain block aggregates [] t where
  oracles := h.oracles.start hnumbered
  feeds := h.feeds
  aggregates := h.aggregates

theorem PairTold.congr (h : PairTold pair chain aggregates t) (hwf : after.WF)
    (hagree : after.Agree pairModels t) : PairTold pair chain aggregates after where
  oracles := h.oracles.congr hwf (agree_oracleModels hagree)
  feeds := h.feeds.congr (hagree _ (by simp [pairModels]))
  aggregates := h.aggregates.congr (hagree _ (by simp [pairModels]))

theorem feeds_snoc (pair : PricePair) (chain : List Block) (block : Block) :
    Chain.feeds pair (chain ++ [block]) = (block.fed pair).foldl upserted
      (Chain.feeds pair chain) := by
  rw [Chain.feeds, List.flatMap_append, List.flatMap_singleton, List.foldl_append, Chain.feeds]

/-- Stores that keep the same memberships and feeds of a pair come to the same aggregate. -/
theorem readsSame_of_kept {members : List Membership} {feeds : List PriceFeed} {t' : MemoryStore}
    (hmembers : MembersKept pair members t) (hmembers' : MembersKept pair members t')
    (hfeeds : FeedsKept pair feeds t) (hfeeds' : FeedsKept pair feeds t') (hwf : t.WF)
    (hwf' : t'.WF) : ReadsSame t t' (fun _ => True) (aggregatePair block pair) :=
  readsSame_aggregatePair (hmembers.sameListed hmembers' hwf hwf')
    fun id => hfeeds.sameListed id hfeeds' hwf hwf'

/-- Where memberships and feeds stay as they are, so does what the aggregate comes to. -/
theorem obtains_of_agree {members : List Membership} {feeds : List PriceFeed}
    {aggregated? : Option Aggregate} (hmembers : MembersKept pair members t)
    (hfeeds : FeedsKept pair feeds t) (hwf : t.WF) (hwf' : after.WF)
    (hagree : after.Agree [model Membership, model PriceFeed] t)
    (hread : Obtains (aggregatePair block pair) t aggregated?) :
    Obtains (aggregatePair block pair) after aggregated? := by
  rcases readsSame_of_kept hmembers (hmembers.congr (hagree _ (by simp))) hfeeds
    (hfeeds.congr (hagree _ (by simp))) hwf hwf' with ⟨other, _, hother, hother'⟩
  rw [hread.unique hother]
  exact hother'

/-- The end of a block, when all operations are done. -/
theorem runs_endPair (h : PairMidway pair chain block aggregates block.ops t) (hwf : t.WF)
    (hnumbered : Numbered (chain ++ [block])) (hunmixed : Unmixed pair (chain ++ [block])) :
    Runs MemoryStore.WF True
      (fun _ behind => ∃ aggregated?, Obtains (aggregatePair block pair) behind aggregated? ∧
        PairTold pair (chain ++ [block])
          (block.aggregatesAfter pair aggregates aggregated?) behind)
      (Indexer.setOracleData.hook .apply .blockEnd block) t := by
  have htold := h.oracles.finish hnumbered
  have hmembers := htold.membersKept hunmixed
  have hfeeds : FeedsKept pair (Chain.feeds pair (chain ++ [block])) t :=
    feeds_snoc pair chain block ▸ h.feeds
  rcases readsSame_of_kept hmembers hmembers hfeeds hfeeds hwf hwf with
    ⟨aggregated?, _, hread, _⟩
  have haggregates := runs_aggregates h.aggregates hwf
    (hunmixed.fed block List.mem_concat_self) fun w hw hagree =>
      obtains_of_agree hmembers hfeeds hwf hw hagree hread
  have hkept := (makes_aggregates block .apply).agrees
    (by decide : ∀ m ∈ model PriceFeed :: oracleModels, m ∉ [model PriceAggregate]) hwf
  refine (haggregates.and hkept).mono fun _ behind hbehind hend => ⟨aggregated?, ?_, ?_⟩
  · exact obtains_of_agree hmembers hfeeds hwf hbehind
      (fun m hm => hend.2 m (members_feeds_subset m hm)) hread
  · exact ⟨htold.congr hbehind fun m hm => hend.2 m (List.mem_cons_of_mem _ hm),
      hfeeds.congr (hend.2 _ (by simp)), hend.1⟩

/-- The next block keeps what holds of a pair. -/
theorem runs_applyBlock_pair (symbol : String) (h : PairTold pair chain aggregates t)
    (hwf : t.WF) (hplaced : Placed (chain ++ [block]))
    (hunmixed : Unmixed pair (chain ++ [block])) :
    Runs MemoryStore.WF True
      (fun _ behind => ∃ aggregated?, Obtains (aggregatePair block pair) behind aggregated? ∧
        PairTold pair (chain ++ [block])
          (block.aggregatesAfter pair aggregates aggregated?) behind)
      ((Registry.standard symbol).applyBlock block) t := by
  have hregular : block.Regular :=
    ⟨hplaced.distinct_last, hplaced.fits block List.mem_concat_self⟩
  rw [Registry.applyBlock_standard]
  -- The native token and the list of transactions tell nothing of pairs.
  refine runs_bind ((makes_seedFirst symbol).agrees
    (by decide : ∀ m ∈ pairModels, m ∉ [model Token]) hwf) fun _ seeded hseeded hagree => ?_
  refine runs_bind (makes_listing.agrees
    (by decide : ∀ m ∈ pairModels, m ∉ chainModels) hseeded) fun _ listed hlisted hsame => ?_
  have hstart := (h.start hplaced.numbered).congr hlisted (hsame.trans hagree)
  refine runs_bind (runs_forM
    (fun done _ behind => PairMidway pair chain block aggregates done behind) block.ops hlisted
    hstart ?_) fun _ operated hoperated hdone => ?_
  · rintro done ⟨tx, op⟩ rest before hops hbefore hmidway
    exact runs_pairStep symbol hmidway hbefore hplaced.toTidy hregular hops.symm
      (hunmixed.fed block List.mem_concat_self _ (mem_ops_of_eq hops.symm))
  refine runs_bind (runs_endPair hdone hoperated hplaced.numbered hunmixed) ?_
  rintro _ priced hpriced ⟨aggregated?, hread, htold⟩
  -- Neither do the statistics, so what the aggregate was read from is still there.
  refine ((makes_statistics block .apply).agrees
    (by decide : ∀ m ∈ pairModels, m ∉ [model MasternodeStats]) hpriced).mono
    fun _ last hlast hkept => ⟨aggregated?, ?_, htold.congr hlast hkept⟩
  have hmodels : ∀ m ∈ [model Membership, model PriceFeed], m ∈ pairModels := by decide
  exact obtains_of_agree (htold.oracles.membersKept hunmixed) htold.feeds hpriced hlast
    (fun m hm => hkept m (hmodels m hm)) hread

/-! ## Two chains -/

theorem pairTold_empty (pair : PricePair) : PairTold pair [] [] .empty where
  oracles := oraclesTold_empty
  feeds := ⟨by simp [Typed], by simp [Held, Chain.feeds], by simp [Chain.feeds]⟩
  aggregates := ⟨by simp [Typed], by simp [Held], by simp⟩

theorem Chain.Placed.of_snoc (h : Placed (chain ++ [block])) : Placed chain :=
  ⟨h.toTidy.of_snoc, fun other hmem => h.fits other (List.mem_append_left _ hmem)⟩

/-- Chains that say the same of a pair leave stores that keep the same of it. -/
theorem Chain.SaySame.told {symbol : String} {other : List Block} {t' : MemoryStore}
    (hsame : SaySame pair chain other) (hplaced : Placed chain) (hplaced' : Placed other)
    (hunmixed : Unmixed pair chain) (hunmixed' : Unmixed pair other)
    (hindexed : Indexed symbol chain t) (hindexed' : Indexed symbol other t') :
    members pair chain = members pair other ∧
      Chain.feeds pair chain = Chain.feeds pair other ∧
      ∃ aggregates, PairTold pair chain aggregates t ∧ PairTold pair other aggregates t' := by
  -- Either store is left by a block, and the stores below keep the same of the pair.
  induction hsame generalizing t t' with
  | nil =>
      rw [hindexed.of_nil, hindexed'.of_nil]
      exact ⟨rfl, rfl, [], pairTold_empty pair, pairTold_empty pair⟩
  | @snoc chain other block block' _ href hmembers hfed ih =>
      rcases hindexed.last with ⟨before, hbefore, hrun⟩
      rcases hindexed'.last with ⟨before', hbefore', hrun'⟩
      rcases ih hplaced.of_snoc hplaced'.of_snoc hunmixed.of_snoc hunmixed'.of_snoc hbefore
        hbefore' with ⟨_, hfeeds, aggregates, htold, htold'⟩
      rcases (runs_applyBlock_pair symbol htold htold.oracles.coherent.wf hplaced
        hunmixed).post_of_run hrun with ⟨hwf, aggregated?, hread, hlast⟩
      rcases (runs_applyBlock_pair symbol htold' htold'.oracles.coherent.wf hplaced'
        hunmixed').post_of_run hrun' with ⟨hwf', aggregated?', hread', hlast'⟩
      have hall : Chain.feeds pair (chain ++ [block]) = Chain.feeds pair (other ++ [block']) := by
        rw [feeds_snoc, feeds_snoc, hfeeds, hfed]
      -- Both blocks come to the same aggregate, since both read the same of the pair.
      have htime : block.time = block'.time := congrArg Block.Ref.time href
      have hkept' := hlast'.oracles.membersKept hunmixed'
      rcases readsSame_of_kept (hlast.oracles.membersKept hunmixed) (hmembers ▸ hkept')
        hlast.feeds (hall ▸ hlast'.feeds) hwf hwf' with ⟨read, _, hfirst, hsecond⟩
      have haggregated : aggregated? = aggregated?' := by
        rw [aggregatePair_congr htime] at hsecond
        rw [hread.unique hfirst, hread'.unique hsecond]
      have hafter : block.aggregatesAfter pair aggregates aggregated?
          = block'.aggregatesAfter pair aggregates aggregated?' := by
        rw [Block.aggregatesAfter, Block.aggregatesAfter, hfed, href, haggregated]
      exact ⟨hmembers, hall, _, hlast, hafter ▸ hlast'⟩

end

/-- Two stores keep the same of a pair and answer every query about it alike, and with nothing
    but records of the pair. -/
structure SameOfPair (pair : PricePair) (t t' : MemoryStore) : Prop where
  members : ∀ m : Membership, m.key = pair.key → (Held t m ↔ Held t' m)
  feeds : ∀ (f : PriceFeed) (id : String), f.key = PriceFeed.keyOf pair id →
    (Held t f ↔ Held t' f)
  aggregates : ∀ a : PriceAggregate, a.key = pair.key → (Held t a ↔ Held t' a)
  listOfMembers : ReadsSame t t' (fun members => ∀ m ∈ members, m.pair = pair)
    (Membership.listOfPair pair)
  pageOfMembers : ∀ query, ReadsSame t t' (fun page => ∀ m ∈ page.data, m.pair = pair)
    (Membership.pageOfPair pair query)
  pageOfFeeds : ∀ id query, ReadsSame t t' (fun page => ∀ f ∈ page.data, f.pair = pair)
    (PriceFeed.pageOfOracle pair id query)
  latestFeed : ∀ id, ReadsSame t t' (fun feed => ∀ f ∈ feed, f.pair = pair)
    (PriceFeed.latest? pair id)
  pageOfAggregates : ∀ query, ReadsSame t t' (fun page => ∀ a ∈ page.data, a.pair = pair)
    (PriceAggregate.pageOfPair pair query)
  latestAggregate : ReadsSame t t' (fun aggregate => ∀ a ∈ aggregate, a.pair = pair)
    (PriceAggregate.latest? pair)

/-- What is said of other pairs makes no difference to a pair that no other one is mistaken for:
    chains that say the same of the pair leave stores that keep the same of it and answer every
    query about it alike, with an answer and with records of the pair only. -/
theorem pairs_stay_apart (symbol : String) {pair : PricePair} {chain other : List Block}
    {t t' : MemoryStore} (hplaced : Placed chain) (hplaced' : Placed other)
    (hunmixed : Unmixed pair chain) (hunmixed' : Unmixed pair other)
    (hsame : SaySame pair chain other) (hindexed : Indexed symbol chain t)
    (hindexed' : Indexed symbol other t') : SameOfPair pair t t' := by
  rcases hsame.told hplaced hplaced' hunmixed hunmixed' hindexed hindexed' with
    ⟨hmembers, hfeeds, aggregates, htold, htold'⟩
  have hwf := htold.oracles.coherent.wf
  have hwf' := htold'.oracles.coherent.wf
  have hm := htold.oracles.membersKept hunmixed
  have hm' : MembersKept pair (members pair chain) t' :=
    hmembers ▸ htold'.oracles.membersKept hunmixed'
  have hf' : FeedsKept pair (Chain.feeds pair chain) t' := hfeeds ▸ htold'.feeds
  have hlistedM := hm.sameListed hm' hwf hwf'
  have hlistedF := fun id => htold.feeds.sameListed id hf' hwf hwf'
  have hlistedA := htold.aggregates.sameListed htold'.aggregates hwf hwf'
  exact
    { members := fun m hkey => (hm.held m hkey).trans (hm'.held m hkey).symm
      feeds := fun f id hkey => (htold.feeds.held f ⟨id, hkey⟩).trans (hf'.held f ⟨id, hkey⟩).symm
      aggregates := fun a hkey =>
        (htold.aggregates.held a hkey).trans (htold'.aggregates.held a hkey).symm
      listOfMembers := (readsSame_listOfPair hlistedM).mono
        fun _ hlisted m hmem => hm.about (hlisted m hmem)
      pageOfMembers := fun query => (readsSame_page hlistedM query).mono
        fun _ hlisted m hmem => hm.about (hlisted m hmem)
      pageOfFeeds := fun id query => (readsSame_page (hlistedF id) query).mono
        fun _ hlisted f hmem => htold.feeds.about id (hlisted f hmem)
      latestFeed := fun id => (readsSame_first? (hlistedF id)).mono
        fun _ hlisted f hmem => htold.feeds.about id (hlisted f hmem)
      pageOfAggregates := fun query => (readsSame_page hlistedA query).mono
        fun _ hlisted a hmem => htold.aggregates.about (hlisted a hmem)
      latestAggregate := (readsSame_first? hlistedA).mono
        fun _ hlisted a hmem => htold.aggregates.about (hlisted a hmem) }

/-- A block that appoints an oracle for some pairs and publishes a price of each. -/
def Block.pricing (prices : List (PricePair × Int)) : Block :=
  .holding "a" "" 0 [
    .carrying "o" .appointOracle [("ownerAddress", .string "x"), ("weightage", .int 1),
      ("priceFeeds", .array (prices.map fun price => price.1.toJson))],
    .carrying "p" .setOracleData [("oracleId", .string "o"), ("timestamp", .int 0),
      ("tokenPrices", .array (prices.map fun price =>
        .object [("token", .string price.1.token), ("prices", .array [
          .object [("currency", .string price.1.currency), ("amount", .int price.2)]])]))]]

namespace Block.pricing

/-- A pair by itself. -/
def alone (pair : PricePair) : Block := pricing [(pair, 3)]

/-- A pair with another one behind it. -/
def followed (pair other : PricePair) : Block := pricing [(pair, 3), (other, 5)]

/-- The store with a first block. -/
def store (block : Block) : MemoryStore :=
  ((Registry.standard "DFI").applyBlock block).leaves .empty

theorem placed (prices : List (PricePair × Int)) : Placed [pricing prices] := by
  have htxids : txids [pricing prices] = ["o", "p"] := rfl
  refine ⟨⟨numbered_of_map rfl, ?_, ?_⟩, fun block hblock => ?_⟩
  · rw [htxids]
    decide
  · rw [htxids]
    decide
  · rw [List.mem_singleton.mp hblock]
    exact (by decide : 2 ≤ UInt32.size)

theorem indexed {block : Block}
    (h : (((Registry.standard "DFI").applyBlock block).run World.answer
      (⟨.empty, ⟨[], []⟩, 0⟩ : World MemoryStore)).1 = .ok ()) :
    Indexed "DFI" [block] (store block) := by
  have hnext : Indexed "DFI" ([] ++ [block]) (store block) :=
    .next .start (Program.run_of_ok h)
  exact hnext

theorem saySame {pair : PricePair} {block block' : Block} (href : block.ref = block'.ref)
    (hmembers : members pair [block] = members pair [block'])
    (hfed : block.fed pair = block'.fed pair) : SaySame pair [block] [block'] := by
  have hsnoc : SaySame pair ([] ++ [block]) ([] ++ [block']) := .snoc .nil href hmembers hfed
  exact hsnoc

end Block.pricing

open Block.pricing

/-- A second pair that the same oracle prices makes no difference to the first. -/
theorem pairs_stay_apart_followed :
    (followed ⟨"T", "C"⟩ ⟨"U", "C"⟩).fed ⟨"U", "C"⟩ ≠ [] ∧
      SameOfPair ⟨"T", "C"⟩ (store (followed ⟨"T", "C"⟩ ⟨"U", "C"⟩))
        (store (alone ⟨"T", "C"⟩)) := by
  refine ⟨by decide +kernel, ?_⟩
  have hunmixed : Unmixed ⟨"T", "C"⟩ [followed ⟨"T", "C"⟩ ⟨"U", "C"⟩] :=
    .of_dashFree (by decide) (by decide) (by decide +kernel)
  have hunmixed' : Unmixed ⟨"T", "C"⟩ [alone ⟨"T", "C"⟩] :=
    .of_dashFree (by decide) (by decide) (by decide +kernel)
  have hsame : SaySame ⟨"T", "C"⟩ [followed ⟨"T", "C"⟩ ⟨"U", "C"⟩] [alone ⟨"T", "C"⟩] :=
    saySame rfl (by decide +kernel) (by decide +kernel)
  exact pairs_stay_apart "DFI" (placed _) (placed _) hunmixed hunmixed' hsame
    (indexed (by decide +kernel)) (indexed (by decide +kernel))

/-- Where the keys of two pairs meet, the second is listed and priced as the first. -/
theorem pairs_meet_in_key :
    let pair : PricePair := ⟨"A-B", "C"⟩
    let mixed := followed pair ⟨"A", "B-C"⟩
    SaySame pair [mixed] [alone pair] ∧
      (Placed [mixed] ∧ Indexed "DFI" [mixed] (store mixed)) ∧
      (Placed [alone pair] ∧ Indexed "DFI" [alone pair] (store (alone pair))) ∧
      ((Membership.listOfPair pair).run World.answer
        (⟨store mixed, ⟨[], []⟩, 0⟩ : World MemoryStore)).1.map (List.map Membership.pair)
          = .ok [⟨"A", "B-C"⟩] ∧
      ((PriceAggregate.latest? pair).run World.answer
        (⟨store mixed, ⟨[], []⟩, 0⟩ : World MemoryStore)).1.map
          (Option.map fun a => a.aggregated.amount) = .ok (some 500000000) ∧
      ((PriceAggregate.latest? pair).run World.answer
        (⟨store (alone pair), ⟨[], []⟩, 0⟩ : World MemoryStore)).1.map
          (Option.map fun a => a.aggregated.amount) = .ok (some 300000000) := by
  refine ⟨saySame rfl (by decide +kernel) (by decide +kernel),
    ⟨placed _, indexed (by decide +kernel)⟩, ⟨placed _, indexed (by decide +kernel)⟩, ?_, ?_, ?_⟩
  · decide +kernel
  · decide +kernel
  · decide +kernel

end ChainIndex
