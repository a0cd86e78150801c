import ChainIndex.Proofs.Indexer.Dispatch
import ChainIndex.Proofs.Indexer.Undo

/-!
# Applying an operation

While the operations of a block are applied one after another, `Applied base block done t`
says what has come of those that are `done`. The store is between `base` and the block, it
is coherent, and every oracle in it is one of `base` or one that an operation has written.

What makes it coherent again after every operation is that the snapshot an operation leaves
is the newest of its oracle: the snapshots of `base` come from lower blocks, and those of
the block from operations ahead.

An operation that succeeds has found the oracle or the masternode that it is about, and has
read its payload. `Grounded` notes so much of it as undoing the block will need.

An error ends the block, so nothing is said of the store then but that it is between.

## Main definitions

* `Grounded`: What an operation that succeeded has found.
* `Applied`: What has come of the operations that are done.
* `writtenStore`: The store after an oracle has been written.

## Theorems

* `Applied.pass`: An operation that is not about oracles.
* `Applied.wrote`, `Applied.erased`: One that is.
* `runs_applyOp`: Applying the next operation.
-/

namespace ChainIndex

open Entity Program

/-- What an operation that succeeded has found: a payload that can be read, and the oracle
    or masternode that it is about. -/
structure Grounded (base : MemoryStore) (block : Block) (p : Transaction × DecodedOp) :
    Prop where
  readable : p.2.Readable
  oracle : ∀ id, p.2.restored = some id → base.find (model Oracle) id ≠ none ∨
    block.createsBefore .appointOracle id p.1.txid = true
  node : ∀ id, p.2.resigned = some id → base.find (model Masternode) id ≠ none ∨
    block.createsBefore .createMasternode id p.1.txid = true

/-- An operation that brings nothing back has only its payload to be found. -/
theorem Grounded.of_none {base : MemoryStore} {block : Block} {tx : Transaction} {op : DecodedOp}
    (hreadable : op.Readable) (hrestored : op.restored = none) (hresigned : op.resigned = none) :
    Grounded base block (tx, op) where
  readable := hreadable
  oracle id hid := by simp [hrestored] at hid
  node id hid := by simp [hresigned] at hid

/-- What has come of the operations that are `done`. -/
structure Applied (base : MemoryStore) (block : Block)
    (done : List (Transaction × DecodedOp)) (t : MemoryStore) : Prop where
  between : Between base block (BlockKeys block) done t
  coherent : Coherent t
  writers : ∀ id found, t.find (model Oracle) id = some found →
    base.find (model Oracle) id = some found ∨
      ∃ q ∈ done, ∃ oracle, block.written q.1 q.2 = some oracle ∧ found = stored oracle
  rooted : ∀ id, t.find (model Oracle) id ≠ none → base.find (model Oracle) id ≠ none ∨
    ∃ q ∈ done, q.2.tag = .appointOracle ∧ q.1.txid = id
  ordered : ∀ k (s : OracleSnapshot), t.find (model OracleSnapshot) k = some (stored s) →
    s.block.height < block.height ∨
      s.block.height = block.height ∧ ∃ q ∈ done, orderIn block q.1 = .ok s.order
  resigned : ∀ k (node : Masternode), t.find (model Masternode) k = some (stored node) →
    node.unresigned ≠ node → base.find (model Masternode) k = some (stored node) ∨
      ∃ q ∈ done, q.2.resigned = some k
  grounded : ∀ q ∈ done, Grounded base block q

section

variable {base : MemoryStore} {block : Block}
variable {init rest : List (Transaction × DecodedOp)} {tx : Transaction} {op : DecodedOp}
variable {t after : MemoryStore}

/-- What is so of an operation that is done is so of one when more are done. -/
theorem exists_done {done : List (Transaction × DecodedOp)}
    {P : Transaction × DecodedOp → Prop} (hdone : ∀ q ∈ init, q ∈ done)
    (h : ∃ q ∈ init, P q) : ∃ q ∈ done, P q := by
  obtain ⟨q, hq, hrest⟩ := h
  exact ⟨q, hdone q hq, hrest⟩

theorem mem_snoc {p : Transaction × DecodedOp} : ∀ q ∈ init, q ∈ init ++ [p] :=
  fun _ hq => List.mem_append_left _ hq

theorem grounded_snoc {init : List (Transaction × DecodedOp)}
    {p : Transaction × DecodedOp} (hinit : ∀ q ∈ init, Grounded base block q)
    (hp : Grounded base block p) : ∀ q ∈ init ++ [p], Grounded base block q := by
  intro q hq
  rcases List.mem_append.mp hq with hbefore | hlast
  · exact hinit q hbefore
  · rw [List.mem_singleton.mp hlast]
    exact hp

/-- The models that tell of oracles. -/
def oracleModels : List String :=
  [model OracleSnapshot, model Oracle, model Membership]

/-- A save in another model leaves what is told of oracles. -/
theorem find_saved_of_oracleModels {α : Type} [Entity α] (a : α)
    (hmodel : model α ∉ oracleModels) :
    ∀ m ∈ oracleModels, ∀ k, (saved t a).find m k = t.find m k := by
  intro m hm k
  rw [find_saved, if_neg]
  rintro ⟨rfl, _⟩
  exact hmodel hm

/-- The store after an oracle has been written, with its memberships and a snapshot. -/
def writtenStore (t : MemoryStore) (oracle : Oracle) (txid : String) (order : UInt32) :
    MemoryStore :=
  saved (savedAll (saved t oracle) (Membership.ofAll oracle))
    (OracleSnapshot.ofOracle oracle txid order)

theorem find_writtenStore (oracle : Oracle) (txid : String) (order : UInt32) (m k : String) :
    (writtenStore t oracle txid order).find m k =
      if m = model OracleSnapshot ∧ k = (OracleSnapshot.ofOracle oracle txid order).id then
        some (stored (OracleSnapshot.ofOracle oracle txid order))
      else if m = model Membership then
        (lastStored (Membership.ofAll oracle) k).or (t.find m k)
      else if m = model Oracle ∧ k = oracle.id then some (stored oracle)
      else t.find m k := by
  rw [writtenStore, find_saved, find_savedAll]
  congr 1
  by_cases hm : m = model Membership
  · rw [if_pos hm, if_pos hm, find_saved, if_neg (by simp [hm, Entity.model])]
  · rw [if_neg hm, if_neg hm, find_saved]
    rfl

section

variable (oracle : Oracle) (txid : String) (order : UInt32) (former : List String) (k : String)

/-- When an oracle is written after the memberships it had are erased, its snapshot is added. -/
theorem find_written_snapshot :
    (writtenStore (removedAll Membership t former) oracle txid order).find
        (model OracleSnapshot) k =
      if k = (OracleSnapshot.ofOracle oracle txid order).id then
        some (stored (OracleSnapshot.ofOracle oracle txid order))
      else t.find (model OracleSnapshot) k := by
  rw [find_writtenStore, find_removedAll]
  simp [Entity.model]

theorem find_written_oracle :
    (writtenStore (removedAll Membership t former) oracle txid order).find (model Oracle) k =
      if k = oracle.id then some (stored oracle) else t.find (model Oracle) k := by
  rw [find_writtenStore, find_removedAll]
  simp [Entity.model]

theorem find_written_membership :
    (writtenStore (removedAll Membership t former) oracle txid order).find
        (model Membership) k =
      (lastStored (Membership.ofAll oracle) k).or
        (if k ∈ former then none else t.find (model Membership) k) := by
  rw [find_writtenStore, find_removedAll]
  simp [Entity.model]

/-- When it is taken away with its memberships, its snapshots stay. -/
theorem find_erased_snapshot (id : String) :
    (removed Oracle (removedAll Membership t former) id).find (model OracleSnapshot) k =
      t.find (model OracleSnapshot) k := by
  rw [find_removed, find_removedAll]
  simp [Entity.model]

theorem find_erased_oracle (id : String) :
    (removed Oracle (removedAll Membership t former) id).find (model Oracle) k =
      if k = id then none else t.find (model Oracle) k := by
  rw [find_removed, find_removedAll]
  simp [Entity.model]

theorem find_erased_membership (id : String) :
    (removed Oracle (removedAll Membership t former) id).find (model Membership) k =
      if k ∈ former then none else t.find (model Membership) k := by
  rw [find_removed, find_removedAll]
  simp [Entity.model]

end

theorem written_id {oracle : Oracle} (hwritten : block.written tx op = some oracle)
    (order : UInt32) : (OracleSnapshot.ofOracle oracle tx.txid order).id
      = OracleSnapshot.idOf oracle.id block.height tx.txid := by
  rw [OracleSnapshot.ofOracle, (named_of_written hwritten).2]
  rfl

namespace Applied

/-- At the beginning nothing is done. -/
theorem start (hbase : Coherent base)
    (hbelow : ∀ k (s : OracleSnapshot),
      base.find (model OracleSnapshot) k = some (stored s) → s.block.height < block.height) :
    Applied base block [] base where
  between := Between.self hbase.wf
  coherent := hbase
  writers _ _ hfound := Or.inl hfound
  rooted _ hfound := Or.inl hfound
  ordered k s hs := Or.inl (hbelow k s hs)
  resigned _ _ hnode _ := Or.inl hnode
  grounded _ hq := absurd hq List.not_mem_nil

/-- An operation that is not about oracles, or a write of the block as such. -/
theorem pass {done : List (Transaction × DecodedOp)} (h : Applied base block init t)
    (hdone : ∀ q ∈ init, q ∈ done) (hbetween : Between base block (BlockKeys block) done after)
    (hkept : ∀ m ∈ oracleModels, ∀ k, after.find m k = t.find m k)
    (hnodes : ∀ k node, after.find (model Masternode) k = some (stored (α := Masternode) node) →
      node.unresigned ≠ node → t.find (model Masternode) k = some (stored node) ∨
        ∃ q ∈ done, q.2.resigned = some k)
    (hgrounded : ∀ q ∈ done, Grounded base block q) : Applied base block done after where
  between := hbetween
  coherent := h.coherent.congr hbetween.wf (hkept _ (by simp [oracleModels]))
    (hkept _ (by simp [oracleModels])) (hkept _ (by simp [oracleModels]))
  writers id found hfound := by
    rw [hkept _ (by simp [oracleModels])] at hfound
    exact (h.writers id found hfound).imp_right (exists_done hdone)
  rooted id hfound := by
    rw [hkept _ (by simp [oracleModels])] at hfound
    exact (h.rooted id hfound).imp_right (exists_done hdone)
  ordered k s hs := by
    rw [hkept _ (by simp [oracleModels])] at hs
    exact (h.ordered k s hs).imp_right (And.imp_right (exists_done hdone))
  resigned k node hnode hne := by
    rcases hnodes k node hnode hne with hbefore | hresigned
    · exact (h.resigned k node hbefore hne).imp_right (exists_done hdone)
    · exact Or.inr hresigned
  grounded := hgrounded

/-- The snapshot that the next operation leaves is under a key of its own. -/
theorem snapshot_free (h : Applied base block init t) (hfresh : Fresh base block)
    (hregular : block.Regular) (hops : block.ops = init ++ (tx, op) :: rest) (id : String) :
    t.find (model OracleSnapshot) (OracleSnapshot.idOf id block.height tx.txid) = none := by
  have htx := Block.mem_transactions_of_mem_ops (mem_ops_of_eq hops)
  rcases hfound : t.find (model OracleSnapshot)
    (OracleSnapshot.idOf id block.height tx.txid) with _ | found
  · rfl
  rcases h.between.fits _ _ found Recorded.model_ne_ledger hfound with hbase | ⟨hleaves, _, _⟩
  · rw [hfresh.snapshot tx htx] at hbase
    exact absurd hbase (by simp)
  · -- Snapshots that the block has left so far are those of other transactions.
    rcases hleaves rfl with ⟨s, _, hk, tx', op', oracle, order, hmem, hwritten, _, rfl⟩
    have hne := Block.txid_ne_of_mem hregular hops hmem
    have htx' := Block.mem_transactions_of_mem_ops
      (show (tx', op') ∈ block.ops from hops ▸ List.mem_append_left _ hmem)
    exact absurd (Text.append_dash_injective (hfresh.dashFree tx htx)
      (hfresh.dashFree tx' htx') hk).2 (Ne.symm hne)

/-- And it is newer than every other snapshot that is held. -/
theorem snapshot_newest (h : Applied base block init t) (hregular : block.Regular)
    (hops : block.ops = init ++ (tx, op) :: rest) {order : UInt32}
    (horder : orderIn block tx = .ok order) (oracle : Oracle) (hblock : oracle.block = block.ref)
    {k : String} {s : OracleSnapshot}
    (hs : t.find (model OracleSnapshot) k = some (stored s)) :
    s.Earlier (OracleSnapshot.ofOracle oracle tx.txid order) := by
  have hheight : (OracleSnapshot.ofOracle oracle tx.txid order).block.height = block.height := by
    rw [OracleSnapshot.ofOracle, hblock]
    rfl
  rcases h.ordered k s hs with hlt | ⟨heq, q, hq, hqorder⟩
  · exact Or.inl (hheight ▸ hlt)
  · exact Or.inr ⟨heq.trans hheight.symm, Block.order_lt hregular hops hq hqorder horder⟩

/-- An operation that has written an oracle, after the memberships the oracle had. -/
theorem wrote (h : Applied base block init t) (hfresh : Fresh base block)
    (hregular : block.Regular) (hops : block.ops = init ++ (tx, op) :: rest)
    {oracle : Oracle} {order : UInt32} (erased : List String)
    (hwritten : block.written tx op = some oracle) (horder : orderIn block tx = .ok order)
    (hdash : Text.DashFree oracle.id)
    (hroot : base.find (model Oracle) oracle.id ≠ none ∨
      ∃ q ∈ init ++ [(tx, op)], q.2.tag = .appointOracle ∧ q.1.txid = oracle.id)
    (hown : ∀ k ∈ erased, ∃ pair, k = Membership.idOf pair oracle.id)
    (hformer : ∀ former : Oracle, t.find (model Oracle) oracle.id = some (stored former) →
      ∀ pair ∈ former.priceFeeds, Membership.idOf pair oracle.id ∈ erased)
    (hgrounded : Grounded base block (tx, op))
    (hbetween : Between base block (BlockKeys block) (init ++ [(tx, op)])
      (writtenStore (removedAll Membership t erased) oracle tx.txid order)) :
    Applied base block (init ++ [(tx, op)])
      (writtenStore (removedAll Membership t erased) oracle tx.txid order) := by
  have hblock := (named_of_written hwritten).2
  refine ⟨hbetween, ?_, fun id found hfound => ?_, fun id hfound => ?_, fun k s hs => ?_,
    fun k node hnode hne => ?_, grounded_snoc h.grounded hgrounded⟩
  · -- What coherence asks of a write is that the snapshot is new and the newest.
    refine h.coherent.write oracle _ erased hbetween.wf hdash rfl ?_ ?_ hown hformer
      (find_written_snapshot oracle tx.txid order erased)
      (find_written_oracle oracle tx.txid order erased)
      (find_written_membership oracle tx.txid order erased)
    · rw [written_id hwritten]
      exact h.snapshot_free hfresh hregular hops oracle.id
    · exact fun s hs _ => h.snapshot_newest hregular hops horder oracle hblock hs
  · rw [find_written_oracle] at hfound
    by_cases hid : id = oracle.id
    · rw [if_pos hid, Option.some.injEq] at hfound
      exact Or.inr ⟨_, List.mem_concat_self, oracle, hwritten, hfound.symm⟩
    · rw [if_neg hid] at hfound
      exact (h.writers id found hfound).imp_right (exists_done mem_snoc)
  · rw [find_written_oracle] at hfound
    by_cases hid : id = oracle.id
    · exact hid ▸ hroot
    · rw [if_neg hid] at hfound
      exact (h.rooted id hfound).imp_right (exists_done mem_snoc)
  · rw [find_written_snapshot] at hs
    by_cases hk : k = (OracleSnapshot.ofOracle oracle tx.txid order).id
    · rw [if_pos hk, Option.some.injEq] at hs
      rw [← stored_injective hs]
      refine Or.inr ⟨?_, _, List.mem_concat_self, horder⟩
      rw [OracleSnapshot.ofOracle, hblock]
      rfl
    · rw [if_neg hk] at hs
      exact (h.ordered k s hs).imp_right (And.imp_right (exists_done mem_snoc))
  · rw [find_writtenStore, find_removedAll] at hnode
    simp only [Entity.model, String.reduceEq, false_and, if_false] at hnode
    exact (h.resigned k node hnode hne).imp_right (exists_done mem_snoc)

/-- An operation that has taken an oracle away, and its memberships. -/
theorem erased (h : Applied base block init t) {oracle : Oracle} {erased : List String}
    (hdash : Text.DashFree oracle.id)
    (hown : ∀ k ∈ erased, ∃ pair, k = Membership.idOf pair oracle.id)
    (hformer : ∀ former : Oracle, t.find (model Oracle) oracle.id = some (stored former) →
      ∀ pair ∈ former.priceFeeds, Membership.idOf pair oracle.id ∈ erased)
    (hgrounded : Grounded base block (tx, op))
    (hbetween : Between base block (BlockKeys block) (init ++ [(tx, op)])
      (removed Oracle (removedAll Membership t erased) oracle.id)) :
    Applied base block (init ++ [(tx, op)])
      (removed Oracle (removedAll Membership t erased) oracle.id) := by
  refine ⟨hbetween, ?_, fun id found hfound => ?_, fun id hfound => ?_, fun k s hs => ?_,
    fun k node hnode hne => ?_, grounded_snoc h.grounded hgrounded⟩
  · exact h.coherent.erase oracle erased hbetween.wf hdash hown hformer
      (fun k => find_erased_snapshot erased k oracle.id)
      (fun k => find_erased_oracle erased k oracle.id)
      fun k => find_erased_membership erased k oracle.id
  · rw [find_erased_oracle] at hfound
    by_cases hid : id = oracle.id
    · rw [if_pos hid] at hfound
      exact absurd hfound (by simp)
    · rw [if_neg hid] at hfound
      exact (h.writers id found hfound).imp_right (exists_done mem_snoc)
  · rw [find_erased_oracle] at hfound
    by_cases hid : id = oracle.id
    · exact absurd (if_pos hid) hfound
    · rw [if_neg hid] at hfound
      exact (h.rooted id hfound).imp_right (exists_done mem_snoc)
  · rw [find_erased_snapshot] at hs
    exact (h.ordered k s hs).imp_right (And.imp_right (exists_done mem_snoc))
  · rw [find_removed, find_removedAll] at hnode
    simp only [Entity.model, String.reduceEq, false_and, if_false] at hnode
    exact (h.resigned k node hnode hne).imp_right (exists_done mem_snoc)

end Applied

/-! ## Operations on oracles -/

/-- The memberships that an oracle has while the block is applied belong to the footprint. -/
theorem Applied.touches_membership (h : Applied base block init t) {oracle : Oracle}
    {pair : PricePair} (hnamed : op.named tx = some oracle.id)
    (hfound : t.find (model Oracle) oracle.id = some (stored oracle))
    (hpair : pair ∈ oracle.priceFeeds) :
    ∃ p ∈ init ++ [(tx, op)],
      Touches base block p.1 p.2 (model Membership) (Membership.idOf pair oracle.id) := by
  -- The oracle is as `base` has it, and then this operation may erase its memberships, or as an
  -- operation ahead has written it, and then that one may have written them.
  rcases h.writers _ _ hfound with hbase | ⟨q, hq, oracle', hwritten, heq⟩
  · refine touches_last ((touches_of_named hnamed).mpr (Or.inr (Or.inr ⟨rfl, ?_⟩)))
    exact ⟨oracle.id, pair, hnamed, rfl, Or.inr ⟨oracle, hbase, hpair⟩⟩
  · have heq := stored_injective heq
    subst heq
    have hqnamed := (named_of_written hwritten).1
    refine ⟨q, List.mem_append_left _ hq,
      (touches_of_named hqnamed).mpr (Or.inr (Or.inr ⟨rfl, ?_⟩))⟩
    exact ⟨oracle.id, pair, hqnamed, rfl, Or.inl ⟨oracle, hwritten, hpair⟩⟩

/-- The memberships that an oracle has are erased within the footprint. -/
theorem runs_eraseMemberships (h : Applied base block init t) {oracle : Oracle}
    (hnamed : op.named tx = some oracle.id)
    (hfound : t.find (model Oracle) oracle.id = some (stored oracle)) {fail : Prop} :
    Runs (Between base block (BlockKeys block) (init ++ [(tx, op)])) fail
      (fun _ behind => behind = removedAll Membership t
        (oracle.priceFeeds.map fun pair => Membership.idOf pair oracle.id))
      (Oracle.eraseMemberships oracle.id oracle.priceFeeds) t := by
  have hbefore := h.between.snoc (tx, op)
  refine runs_removeAll Membership oracle.priceFeeds
    (fun pair => Membership.idOf pair oracle.id) hbefore (fun pair hpair behind hbehind => ?_)
    fun _ => rfl
  exact hbehind.removed _ (Or.inr (h.touches_membership hnamed hfound hpair))
    (by simp [Entity.model])

/-- An oracle is written within the footprint. -/
theorem runs_write {oracle : Oracle} (hwritten : block.written tx op = some oracle)
    (h : Between base block (BlockKeys block) (init ++ [(tx, op)]) t)
    {post : Unit → MemoryStore → Prop}
    (hpost : ∀ order, orderIn block tx = .ok order →
      Between base block (BlockKeys block) (init ++ [(tx, op)])
        (writtenStore t oracle tx.txid order) →
      post () (writtenStore t oracle tx.txid order)) :
    Runs (Between base block (BlockKeys block) (init ++ [(tx, op)])) True post
      (oracle.write block tx) t := by
  have hnamed := (named_of_written hwritten).1
  have hsaved : Between base block (BlockKeys block) (init ++ [(tx, op)]) (saved t oracle) := by
    refine h.saved oracle (Or.inr (touches_last ?_)) (by simp [Fits, Entity.model])
    exact (touches_of_named hnamed).mpr (Or.inl ⟨rfl, rfl⟩)
  -- First the oracle, then its memberships, then the snapshot.
  refine runs_bind (runs_ofExcept_ok h) ?_
  rintro order behind - ⟨rfl, horder⟩
  refine runs_bind (q := fun _ after => after = saved behind oracle)
    (runs_save h hsaved rfl) ?_
  rintro _ after hafter rfl
  refine runs_bind (q := fun _ last =>
    last = savedAll (saved behind oracle) (Membership.ofAll oracle)) ?_ ?_
  · refine runs_saveAll _ _ hafter (fun pair hpair last hlast => ?_) fun _ => rfl
    refine hlast.saved _ (Or.inr (touches_last ?_)) (by simp [Fits, Entity.model])
    refine (touches_of_named hnamed).mpr (Or.inr (Or.inr ⟨rfl, ?_⟩))
    exact ⟨oracle.id, pair, hnamed, rfl, Or.inl ⟨oracle, hwritten, hpair⟩⟩
  · rintro _ last hlast rfl
    have hdone : Between base block (BlockKeys block) (init ++ [(tx, op)])
        (writtenStore behind oracle tx.txid order) := by
      refine hlast.saved _ (Or.inr (touches_last ?_))
        ⟨fun _ => ?_, by simp [Entity.model], by simp [Entity.model]⟩
      · refine (touches_of_named hnamed).mpr (Or.inr (Or.inl ⟨rfl, oracle, hwritten, ?_⟩))
        exact written_id hwritten order
      · exact ⟨_, rfl, rfl, tx, op, oracle, order, List.mem_concat_self, hwritten, horder, rfl⟩
    exact runs_save hlast hdone (hpost order horder hdone)

theorem runs_apply_appointOracle (hfresh : Fresh base block) (hregular : block.Regular)
    (hops : block.ops = init ++ (tx, op) :: rest) (h : Applied base block init t)
    (htag : op.tag = .appointOracle) :
    Runs (Between base block (BlockKeys block) (init ++ [(tx, op)])) True
      (fun _ behind => Applied base block (init ++ [(tx, op)]) behind)
      (Indexer.appointOracle.hook .apply (.transaction tx op) block) t := by
  have htx := Block.mem_transactions_of_mem_ops (mem_ops_of_eq hops)
  have hbefore := h.between.snoc (tx, op)
  refine runs_bind (q := fun data behind => behind = t ∧
    AppointOracle.read op.payload = .ok data ∧
      block.written tx op = some (data.toOracle tx.txid block))
    (runs_ofExcept hbefore (fun data hdata => ⟨rfl, read_of_decode hdata,
      Block.written_of_appointOracle htag hdata⟩) fun _ _ => trivial) ?_
  rintro data behind - ⟨rfl, hread, hwritten⟩
  -- Nothing is known of the oracle yet, so there are no memberships to erase first.
  have hnew : behind.find (model Oracle) tx.txid = none := by
    by_contra hc
    rcases h.rooted tx.txid hc with hbase | ⟨q, hq, _, hqid⟩
    · exact hbase (hfresh.oracle tx htx)
    · exact Block.txid_ne_of_mem hregular hops hq hqid
  refine runs_write hwritten hbefore fun order horder hbetween => ?_
  refine h.wrote hfresh hregular hops [] hwritten horder (hfresh.dashFree tx htx) ?_
    (by simp) (fun former hformer => ?_) (.of_none ?_ ?_ ?_) hbetween
  · exact Or.inr ⟨_, List.mem_concat_self, htag, rfl⟩
  · rw [show (data.toOracle tx.txid block).id = tx.txid from rfl, hnew] at hformer
    exact absurd hformer (by simp)
  · rw [DecodedOp.Readable, htag]
    exact ⟨data, hread⟩
  · exact DecodedOp.restored_of_ne (by simp [htag]) (by simp [htag])
  · exact DecodedOp.resigned_of_ne (by simp [htag])

/-- The oracle that an update or a removal needs is there, as an oracle. -/
theorem runs_require_oracle (hregular : block.Regular)
    (hops : block.ops = init ++ (tx, op) :: rest) (h : Applied base block init t) {id : String} :
    Runs (Between base block (BlockKeys block) (init ++ [(tx, op)])) True
      (fun oracle behind => behind = t ∧ oracle.id = id ∧ Text.DashFree id ∧
        t.find (model Oracle) id = some (stored oracle) ∧
        (base.find (model Oracle) id ≠ none ∨
          block.createsBefore .appointOracle id tx.txid = true) ∧
        (base.find (model Oracle) id ≠ none ∨
          ∃ q ∈ init ++ [(tx, op)], q.2.tag = .appointOracle ∧ q.1.txid = id))
      (Entity.require Oracle id) t := by
  have hbefore := h.between.snoc (tx, op)
  refine runs_require hbefore (fun _ => trivial) fun found hfound => ?_
  rcases h.coherent.oracle_typed hfound with ⟨oracle, rfl, hid, hdash⟩
  refine ⟨oracle, rfl, rfl, hid, hdash, hfound, ?_, ?_⟩
  · rcases h.rooted id (by rw [hfound]; simp) with hbase | ⟨q, hq, hqtag, hqid⟩
    · exact Or.inl hbase
    · exact Or.inr (Block.createsBefore_of_mem hregular hops hq hqtag hqid)
  · exact (h.rooted id (by rw [hfound]; simp)).imp_right (exists_done mem_snoc)

theorem runs_apply_updateOracle (hfresh : Fresh base block) (hregular : block.Regular)
    (hops : block.ops = init ++ (tx, op) :: rest) (h : Applied base block init t)
    (htag : op.tag = .updateOracle) :
    Runs (Between base block (BlockKeys block) (init ++ [(tx, op)])) True
      (fun _ behind => Applied base block (init ++ [(tx, op)]) behind)
      (Indexer.updateOracle.hook .apply (.transaction tx op) block) t := by
  have hbefore := h.between.snoc (tx, op)
  refine runs_bind (q := fun data behind => behind = t ∧
    UpdateOracle.read op.payload = .ok data ∧ op.restored = some data.oracleId ∧
      block.written tx op = some (data.toOracle block))
    (runs_ofExcept hbefore (fun data hdata => ⟨rfl, read_of_decode hdata,
      DecodedOp.restored_of_updateOracle htag hdata,
      Block.written_of_updateOracle htag hdata⟩) fun _ _ => trivial) ?_
  rintro data behind - ⟨rfl, hread, hrestored, hwritten⟩
  have hnamed : op.named tx = some data.oracleId := named_of_restored hrestored
  -- The oracle has to be there, and the memberships it has are erased before it is written.
  refine runs_bind (runs_require_oracle hregular hops h) ?_
  rintro previous after - ⟨rfl, hid, hdash, hfound, hground, hroot⟩
  rw [← hid] at hnamed hfound
  refine runs_bind (runs_eraseMemberships h hnamed hfound) ?_
  rintro _ last hlast rfl
  refine runs_write hwritten hlast fun order horder hbetween => ?_
  refine h.wrote hfresh hregular hops _ hwritten horder hdash hroot (fun k hk => ?_)
    (fun former hformer pair hpair => ?_) ⟨?_, ?_, ?_⟩ hbetween
  · rcases List.mem_map.mp hk with ⟨pair, _, rfl⟩
    exact ⟨pair, by rw [hid]; rfl⟩
  · rw [show (data.toOracle block).id = previous.id from hid.symm, hfound,
      Option.some.injEq] at hformer
    rw [show (data.toOracle block).id = previous.id from hid.symm]
    rw [← stored_injective hformer] at hpair
    exact List.mem_map_of_mem hpair
  · rw [DecodedOp.Readable, htag]
    exact ⟨data, hread⟩
  · intro id hid'
    rw [hrestored, Option.some.injEq] at hid'
    exact hid' ▸ hground
  · simp [DecodedOp.resigned_of_ne, htag]

theorem runs_apply_removeOracle (hregular : block.Regular)
    (hops : block.ops = init ++ (tx, op) :: rest) (h : Applied base block init t)
    (htag : op.tag = .removeOracle) :
    Runs (Between base block (BlockKeys block) (init ++ [(tx, op)])) True
      (fun _ behind => Applied base block (init ++ [(tx, op)]) behind)
      (Indexer.removeOracle.hook .apply (.transaction tx op) block) t := by
  have hbefore := h.between.snoc (tx, op)
  refine runs_bind (q := fun data behind => behind = t ∧
    RemoveOracle.read op.payload = .ok data ∧ op.restored = some data.oracleId)
    (runs_ofExcept hbefore (fun data hdata => ⟨rfl, read_of_decode hdata,
      DecodedOp.restored_of_removeOracle htag hdata⟩) fun _ _ => trivial) ?_
  rintro data behind - ⟨rfl, hread, hrestored⟩
  have hnamed : op.named tx = some data.oracleId := named_of_restored hrestored
  refine runs_bind (runs_require_oracle hregular hops h) ?_
  rintro oracle after - ⟨rfl, hid, hdash, hfound, hground, _⟩
  rw [← hid] at hnamed hfound hdash
  refine runs_bind (runs_eraseMemberships h hnamed hfound) ?_
  rintro _ last hlast rfl
  have hremoved := hlast.removed (α := Oracle) oracle.id
    (Or.inr (touches_last ((touches_of_named hnamed).mpr (Or.inl ⟨rfl, rfl⟩))))
    (by simp [Entity.model])
  refine runs_remove hlast hremoved (h.erased hdash (fun k hk => ?_)
    (fun former hformer pair hpair => ?_) ⟨?_, ?_, ?_⟩ hremoved)
  · rcases List.mem_map.mp hk with ⟨pair, _, rfl⟩
    exact ⟨pair, rfl⟩
  · rw [hfound, Option.some.injEq] at hformer
    rw [← stored_injective hformer] at hpair
    exact List.mem_map_of_mem hpair
  · rw [DecodedOp.Readable, htag]
    exact ⟨data, hread⟩
  · intro id hid'
    rw [hrestored, Option.some.injEq] at hid'
    exact hid' ▸ hground
  · simp [DecodedOp.resigned_of_ne, htag]

/-! ## Other operations -/

theorem runs_apply_createToken (symbol : String) (h : Applied base block init t)
    (htag : op.tag = .createToken) :
    Runs (Between base block (BlockKeys block) (init ++ [(tx, op)])) True
      (fun _ behind => Applied base block (init ++ [(tx, op)]) behind)
      ((Indexer.tokens symbol).hook .apply (.transaction tx op) block) t := by
  have hbefore := h.between.snoc (tx, op)
  refine runs_bind (q := fun _ behind => behind = t)
    (runs_ofExcept hbefore (fun _ _ => rfl) fun _ _ => trivial) ?_
  rintro data behind - rfl
  have hsaved := hbefore.saved (data.toToken tx.txid block)
    (Or.inr (touches_last ((touches_of_createToken htag).mpr ⟨rfl, rfl⟩)))
    (by simp [Fits, Entity.model])
  refine runs_save hbefore hsaved (h.pass mem_snoc hsaved
    (find_saved_of_oracleModels _ (by decide)) (fun k node hnode _ => ?_)
    (grounded_snoc h.grounded (.of_none ?_ ?_ ?_)))
  · rw [find_saved, if_neg (by simp [Entity.model])] at hnode
    exact Or.inl hnode
  · simp only [DecodedOp.Readable, htag]
  · exact DecodedOp.restored_of_ne (by simp [htag]) (by simp [htag])
  · exact DecodedOp.resigned_of_ne (by simp [htag])

theorem runs_apply_setOracleData (h : Applied base block init t)
    (htag : op.tag = .setOracleData) :
    Runs (Between base block (BlockKeys block) (init ++ [(tx, op)])) True
      (fun _ behind => Applied base block (init ++ [(tx, op)]) behind)
      (Indexer.setOracleData.hook .apply (.transaction tx op) block) t := by
  have hbefore := h.between.snoc (tx, op)
  refine runs_bind (q := fun data behind => behind = t ∧
    SetOracleData.read op.payload = .ok data ∧ op.published = some data)
    (runs_ofExcept hbefore
      (fun data hdata => ⟨rfl, read_of_decode hdata, DecodedOp.data?_of_decode htag hdata⟩)
      fun _ _ => trivial) ?_
  rintro data behind - ⟨rfl, hread, hdata⟩
  refine runs_bind (q := fun _ after => after = behind)
    (runs_ofExcept hbefore (fun _ _ => rfl) fun _ _ => trivial) ?_
  rintro order after - rfl
  refine runs_saveAll data.feeds
    (fun feed => data.toFeed block tx order feed.1 feed.2) hbefore (fun feed hfeed last hlast => ?_)
    fun hlast => h.pass mem_snoc hlast (fun m hm k => ?_) (fun k node hnode _ => ?_)
      (grounded_snoc h.grounded (.of_none ?_ ?_ ?_))
  · exact hlast.saved _ (Or.inr (touches_last ((touches_of_setOracleData htag).mpr
        ⟨rfl, data, hdata, feed, hfeed, rfl⟩))) (by simp [Fits, Entity.model])
  · have hne : m ≠ model PriceFeed := by
      rintro rfl
      exact absurd hm (by decide)
    rw [find_savedAll, if_neg hne]
  · rw [find_savedAll, if_neg (by simp [Entity.model])] at hnode
    exact Or.inl hnode
  · rw [DecodedOp.Readable, htag]
    exact ⟨data, hread⟩
  · exact DecodedOp.restored_of_ne (by simp [htag]) (by simp [htag])
  · exact DecodedOp.resigned_of_ne (by simp [htag])

theorem runs_apply_createMasternode (h : Applied base block init t)
    (htag : op.tag = .createMasternode) :
    Runs (Between base block (BlockKeys block) (init ++ [(tx, op)])) True
      (fun _ behind => Applied base block (init ++ [(tx, op)]) behind)
      (Indexer.createMasternode.hook .apply (.transaction tx op) block) t := by
  have hbefore := h.between.snoc (tx, op)
  refine runs_bind (q := fun _ behind => behind = t)
    (runs_ofExcept hbefore (fun _ _ => rfl) fun _ _ => trivial) ?_
  rintro data behind - rfl
  refine runs_bind (q := fun _ after => after = behind)
    (runs_ofExcept hbefore (fun _ _ => rfl) fun _ _ => trivial) ?_
  rintro ⟨ownerScript, collateral⟩ after - rfl
  -- Whatever else the node is, it is under the id of the transaction.
  have hkey : ∀ node : Masternode, node.id = tx.txid →
      Between base block (BlockKeys block) (init ++ [(tx, op)]) (saved after node) := by
    intro node hid
    refine hbefore.saved node
      (Or.inr (touches_last ((touches_of_createMasternode htag).mpr ⟨rfl, hid⟩)))
      ⟨by simp [Entity.model], fun _ => ⟨node, rfl, rfl, ?_⟩, by simp [Entity.model]⟩
    exact Or.inr ⟨_, List.mem_concat_self, htag, hid.symm⟩
  refine runs_save hbefore (hkey _ rfl) (h.pass mem_snoc (hkey _ rfl)
    (find_saved_of_oracleModels _ (by decide)) (fun k node hnode hne => ?_)
    (grounded_snoc h.grounded (.of_none ?_ ?_ ?_)))
  · rw [find_saved] at hnode
    split at hnode
    · -- A masternode that has just been created is not resigned.
      rw [Option.some.injEq] at hnode
      rw [← stored_injective hnode] at hne
      exact absurd rfl hne
    · exact Or.inl hnode
  · simp only [DecodedOp.Readable, htag]
  · exact DecodedOp.restored_of_ne (by simp [htag]) (by simp [htag])
  · exact DecodedOp.resigned_of_ne (by simp [htag])

theorem runs_apply_resignMasternode (hnodes : Typed Masternode base) (hregular : block.Regular)
    (hops : block.ops = init ++ (tx, op) :: rest) (h : Applied base block init t)
    (htag : op.tag = .resignMasternode) :
    Runs (Between base block (BlockKeys block) (init ++ [(tx, op)])) True
      (fun _ behind => Applied base block (init ++ [(tx, op)]) behind)
      (Indexer.resignMasternode.hook .apply (.transaction tx op) block) t := by
  have hbefore := h.between.snoc (tx, op)
  refine runs_bind (q := fun data behind => behind = t ∧
    ResignMasternode.read op.payload = .ok data ∧ op.resigned = some data.nodeId)
    (runs_ofExcept hbefore (fun data hdata => ⟨rfl, read_of_decode hdata,
      DecodedOp.resigned_of_decode htag hdata⟩) fun _ _ => trivial) ?_
  rintro data behind - ⟨rfl, hread, hresigned⟩
  refine runs_bind (q := fun node after => after = behind ∧ node.id = data.nodeId ∧
    AdmitsNode base init node) (runs_require hbefore (fun _ => trivial) fun found hfound => ?_) ?_
  · rcases h.between.admitted hnodes hfound with ⟨node, hstored, hadmitted⟩
    exact ⟨node, hstored, rfl, hadmitted⟩
  rintro node after - ⟨rfl, hid, hadmitted⟩
  -- A resignation leaves all of the node but the resignation.
  have hsaved : ∀ later : Masternode, later.id = node.id → later.unresigned = node.unresigned →
      Between base block (BlockKeys block) (init ++ [(tx, op)]) (saved after later) := by
    intro later hlater hsame
    refine hbefore.saved later
      (Or.inr (touches_last ((touches_of_resignMasternode htag).mpr ⟨rfl, ?_⟩)))
      ⟨by simp [Entity.model], fun _ => ⟨later, rfl, rfl, ?_⟩, by simp [Entity.model]⟩
    · rw [hresigned, ← hid, ← hlater]
      rfl
    · rcases hadmitted with ⟨before, hbase, heq⟩ | ⟨q, hq, hqtag, hqid⟩
      · exact Or.inl ⟨before, hlater ▸ hbase, hsame.trans heq⟩
      · exact Or.inr ⟨q, List.mem_append_left _ hq, hqtag, hqid.trans hlater.symm⟩
  refine runs_save hbefore (hsaved _ rfl rfl) (h.pass mem_snoc
    (hsaved _ rfl rfl) (find_saved_of_oracleModels _ (by decide)) (fun k later hlater _ => ?_)
    (grounded_snoc h.grounded ⟨?_, ?_, fun id hid' => ?_⟩))
  · rw [find_saved] at hlater
    split at hlater
    · -- This operation is the one that has resigned it.
      next hk =>
      exact Or.inr ⟨_, List.mem_concat_self, by rw [hresigned, hk.2, ← hid]; rfl⟩
    · exact Or.inl hlater
  · rw [DecodedOp.Readable, htag]
    exact ⟨data, hread⟩
  · simp [DecodedOp.restored_of_ne, htag]
  · rw [hresigned, Option.some.injEq] at hid'
    subst hid'
    rcases hadmitted with ⟨before, hbase, _⟩ | ⟨q, hq, hqtag, hqid⟩
    · left
      rw [← hid, hbase]
      simp
    · exact Or.inr (Block.createsBefore_of_mem hregular hops hq hqtag (hqid.trans hid))

/-- Applying the next operation. -/
theorem runs_applyOp (symbol : String) (hnodes : Typed Masternode base)
    (hfresh : Fresh base block) (hregular : block.Regular)
    (hops : block.ops = init ++ (tx, op) :: rest) (h : Applied base block init t) :
    Runs (Between base block (BlockKeys block) (init ++ [(tx, op)])) True
      (fun _ behind => Applied base block (init ++ [(tx, op)]) behind)
      ((Indexer.ofTag symbol op.tag).hook .apply (.transaction tx op) block) t := by
  cases htag : op.tag with
  | createToken => exact runs_apply_createToken symbol h htag
  | appointOracle => exact runs_apply_appointOracle hfresh hregular hops h htag
  | updateOracle => exact runs_apply_updateOracle hfresh hregular hops h htag
  | removeOracle => exact runs_apply_removeOracle hregular hops h htag
  | setOracleData => exact runs_apply_setOracleData h htag
  | createMasternode => exact runs_apply_createMasternode h htag
  | resignMasternode => exact runs_apply_resignMasternode hnodes hregular hops h htag

end

end ChainIndex
