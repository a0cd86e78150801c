import ChainIndex.Proofs.Chain.Positions
import ChainIndex.Proofs.Program.Records
import ChainIndex.Proofs.Text.Keys
import ChainIndex.Indexer.Standard

/-!
# What a block may touch

The keys that the hooks of a block may write to can be told from the block, but for one
thing: an update and a removal also erase the memberships that the oracle had before. So
the footprint of a block is relative to the store `base` that the block is applied to.

`Between base block opened ops t` says that `t` may be met while the block is applied to
`base` or undone again, whatever was cut off in between. Outside of the footprint `t` holds
what `base` holds. Within it `t` may hold anything, with the exception of what undoing
reads back: a snapshot, a masternode or statistics that `base` does not have in this form
must be what the block would write.

The footprint has two parts, the keys of the block as such and those of its operations.
Undoing a block closes them part by part, the operations from the last to the first, and
when nothing is left the store is the one it started from. So the two parts are
parameters: the keys of the block that are still `opened`, and the `ops` that are pending.

## Main definitions

* `DecodedOp.named`, `restored`, `resigned`, `published`: What an operation is about.
* `Block.written`: The oracle that an operation writes.
* `BlockKeys`: The keys of a block as such.
* `Touches`: The keys of an operation.
* `Fits`: What may be held within the footprint.
* `Between`: A store that is met between two.
* `Unknown`: Nothing is kept for a transaction.
* `Fresh`: None of the keys that a block creates is taken.

## Theorems

* `Between.change`: A write within the footprint keeps the store between.
* `Between.close`: What holds the same again is closed.
* `Between.settle`: The last pending operation is settled.
* `Between.alike`: With nothing left open the store holds what `base` holds.
-/

namespace ChainIndex

open Entity

/-! ## What an operation is about -/

/-- A payload that is decoded is one that can be read. -/
theorem read_of_decode {α : Type} {read : Json.Reader α} {tx : Transaction} {op : DecodedOp}
    {data : α} (h : decodePayload read tx op = .ok data) : read op.payload = .ok data := by
  unfold decodePayload at h
  split at h
  · next value hread =>
    rw [Except.ok.injEq] at h
    rw [hread, h]
  · exact absurd h (by simp)

namespace DecodedOp

/-- The payload of an operation, if it has the tag and its payload can be read. -/
def data? {α : Type} (op : DecodedOp) (tag : OpTag) (read : Json.Reader α) : Option α :=
  if op.tag = tag then (read op.payload).toOption else none

/-- The oracle that an update or a removal is about. Undoing brings it back. -/
def restored (op : DecodedOp) : Option String :=
  ((op.data? .updateOracle UpdateOracle.read).map UpdateOracle.oracleId).or
    ((op.data? .removeOracle RemoveOracle.read).map RemoveOracle.oracleId)

/-- The oracle that an operation is about. -/
def named (tx : Transaction) (op : DecodedOp) : Option String :=
  if op.tag = .appointOracle then some tx.txid else op.restored

/-- The masternode that an operation resigns. -/
def resigned (op : DecodedOp) : Option String :=
  (op.data? .resignMasternode ResignMasternode.read).map ResignMasternode.nodeId

/-- The prices that an operation publishes. -/
def published (op : DecodedOp) : Option SetOracleData :=
  op.data? .setOracleData SetOracleData.read

theorem data?_of_decode {α : Type} {op : DecodedOp} {tag : OpTag} {read : Json.Reader α}
    {tx : Transaction} {data : α} (htag : op.tag = tag)
    (h : decodePayload read tx op = .ok data) : op.data? tag read = some data := by
  rw [data?, if_pos htag, read_of_decode h]
  rfl

theorem data?_of_ne {α : Type} {op : DecodedOp} {tag : OpTag} {read : Json.Reader α}
    (htag : op.tag ≠ tag) : op.data? tag read = none := by
  rw [data?, if_neg htag]

variable {op : DecodedOp} {tx : Transaction}

theorem restored_of_ne (hupdate : op.tag ≠ .updateOracle) (hremove : op.tag ≠ .removeOracle) :
    op.restored = none := by
  rw [restored, data?_of_ne hupdate, data?_of_ne hremove]
  rfl

theorem restored_of_updateOracle {data : UpdateOracle} (htag : op.tag = .updateOracle)
    (h : decodePayload UpdateOracle.read tx op = .ok data) :
    op.restored = some data.oracleId := by
  rw [restored, data?_of_decode htag h]
  rfl

theorem restored_of_removeOracle {data : RemoveOracle} (htag : op.tag = .removeOracle)
    (h : decodePayload RemoveOracle.read tx op = .ok data) :
    op.restored = some data.oracleId := by
  rw [restored, data?_of_ne (by rw [htag]; decide), data?_of_decode htag h]
  rfl

theorem resigned_of_ne (hresign : op.tag ≠ .resignMasternode) : op.resigned = none := by
  rw [resigned, data?_of_ne hresign]
  rfl

theorem resigned_of_decode {data : ResignMasternode} (htag : op.tag = .resignMasternode)
    (h : decodePayload ResignMasternode.read tx op = .ok data) :
    op.resigned = some data.nodeId := by
  rw [resigned, data?_of_decode htag h]
  rfl

end DecodedOp

/-- The oracle that an operation writes, with an appointment or an update. -/
def Block.written (block : Block) (tx : Transaction) (op : DecodedOp) : Option Oracle :=
  ((op.data? .appointOracle AppointOracle.read).map fun data => data.toOracle tx.txid block).or
    ((op.data? .updateOracle UpdateOracle.read).map fun data => data.toOracle block)

theorem Block.written_of_appointOracle {block : Block} {tx : Transaction} {op : DecodedOp}
    {data : AppointOracle} (htag : op.tag = .appointOracle)
    (h : decodePayload AppointOracle.read tx op = .ok data) :
    block.written tx op = some (data.toOracle tx.txid block) := by
  rw [written, DecodedOp.data?_of_decode htag h]
  rfl

theorem Block.written_of_updateOracle {block : Block} {tx : Transaction} {op : DecodedOp}
    {data : UpdateOracle} (htag : op.tag = .updateOracle)
    (h : decodePayload UpdateOracle.read tx op = .ok data) :
    block.written tx op = some (data.toOracle block) := by
  rw [written, DecodedOp.data?_of_ne (by rw [htag]; decide), DecodedOp.data?_of_decode htag h]
  rfl

theorem Block.written_of_ne {block : Block} {tx : Transaction} {op : DecodedOp}
    (happoint : op.tag ≠ .appointOracle) (hupdate : op.tag ≠ .updateOracle) :
    block.written tx op = none := by
  rw [written, DecodedOp.data?_of_ne happoint, DecodedOp.data?_of_ne hupdate]
  rfl

/-- An oracle is written by an operation that is about it. -/
theorem named_of_written {block : Block} {tx : Transaction} {op : DecodedOp} {oracle : Oracle}
    (h : block.written tx op = some oracle) :
    op.named tx = some oracle.id ∧ oracle.block = block.ref := by
  unfold Block.written at h
  unfold DecodedOp.named DecodedOp.restored
  by_cases happoint : op.tag = .appointOracle
  · have hupdate : op.data? .updateOracle UpdateOracle.read = none :=
      DecodedOp.data?_of_ne (by rw [happoint]; decide)
    rw [hupdate, Option.map_none, Option.or_none, Option.map_eq_some_iff] at h
    rcases h with ⟨data, _, rfl⟩
    exact ⟨if_pos happoint, rfl⟩
  · rw [DecodedOp.data?_of_ne happoint, Option.map_none, Option.none_or,
      Option.map_eq_some_iff] at h
    rcases h with ⟨data, hdata, rfl⟩
    rw [if_neg happoint, hdata]
    exact ⟨rfl, rfl⟩

theorem named_of_restored {tx : Transaction} {op : DecodedOp} {id : String}
    (h : op.restored = some id) : op.named tx = some id := by
  unfold DecodedOp.named
  by_cases happoint : op.tag = .appointOracle
  · rw [DecodedOp.restored_of_ne (by simp [happoint]) (by simp [happoint])] at h
    exact absurd h (by simp)
  · rw [if_neg happoint, h]

/-- A masternode as if it had never been resigned. -/
def Masternode.unresigned (node : Masternode) : Masternode :=
  { node with resignHeight := none, resignTx := none }

/-! ## The footprint -/

/-- The keys that a block writes to whatever its operations are. -/
def BlockKeys (block : Block) (m k : String) : Prop :=
  (m = model BlockRecord ∧ k = block.hash) ∨
  (m = model MasternodeStats ∧ k = MasternodeStats.keyAt block.height) ∨
  (m = model PriceAggregate ∧ ∃ pairs, fedPairs block = .ok pairs ∧
    ∃ pair ∈ pairs, k = PriceAggregate.idOf pair block.height) ∨
  (m = model TransactionRecord ∧ ∃ tx ∈ block.transactions, k = tx.txid) ∨
  (m = model OutputRecord ∧ ∃ tx ∈ block.transactions, ∃ output ∈ tx.outputs,
    k = OutputRecord.idOf tx.txid output.n) ∨
  (m = model Token ∧ block.height = 0 ∧ k = Token.nativeId)

/-- The memberships that an operation may touch: those that it writes, and those that the
    oracle had in `base`. -/
def TouchesMembership (base : MemoryStore) (block : Block) (tx : Transaction) (op : DecodedOp)
    (k : String) : Prop :=
  ∃ id pair, op.named tx = some id ∧ k = Membership.idOf pair id ∧
    ((∃ oracle, block.written tx op = some oracle ∧ pair ∈ oracle.priceFeeds) ∨
      ∃ oracle : Oracle, base.find (model Oracle) id = some (stored oracle) ∧
        pair ∈ oracle.priceFeeds)

/-- The keys that an operation may write to. -/
def Touches (base : MemoryStore) (block : Block) (tx : Transaction) (op : DecodedOp)
    (m k : String) : Prop :=
  (m = model Token ∧ op.tag = .createToken ∧ k = tx.txid) ∨
  (m = model Masternode ∧ (op.tag = .createMasternode ∧ k = tx.txid ∨ op.resigned = some k)) ∨
  (m = model PriceFeed ∧ ∃ data, op.published = some data ∧
    ∃ feed ∈ data.feeds, k = PriceFeed.idOf feed.1 data.oracleId tx.txid) ∨
  (m = model Oracle ∧ op.named tx = some k) ∨
  (m = model OracleSnapshot ∧ ∃ oracle, block.written tx op = some oracle ∧
    k = OracleSnapshot.idOf oracle.id block.height tx.txid) ∨
  (m = model Membership ∧ TouchesMembership base block tx op k)

section Tags

variable {base : MemoryStore} {block : Block} {tx : Transaction} {op : DecodedOp} {m k : String}

theorem touches_of_createToken (htag : op.tag = .createToken) :
    Touches base block tx op m k ↔ m = model Token ∧ k = tx.txid := by
  simp [Touches, TouchesMembership, Block.written, DecodedOp.named, DecodedOp.restored,
    DecodedOp.resigned, DecodedOp.published, DecodedOp.data?, htag]

theorem touches_of_createMasternode (htag : op.tag = .createMasternode) :
    Touches base block tx op m k ↔ m = model Masternode ∧ k = tx.txid := by
  simp [Touches, TouchesMembership, Block.written, DecodedOp.named, DecodedOp.restored,
    DecodedOp.resigned, DecodedOp.published, DecodedOp.data?, htag]

theorem touches_of_resignMasternode (htag : op.tag = .resignMasternode) :
    Touches base block tx op m k ↔ m = model Masternode ∧ op.resigned = some k := by
  simp [Touches, TouchesMembership, Block.written, DecodedOp.named, DecodedOp.restored,
    DecodedOp.published, DecodedOp.data?, htag]

theorem touches_of_setOracleData (htag : op.tag = .setOracleData) :
    Touches base block tx op m k ↔ m = model PriceFeed ∧ ∃ data, op.published = some data ∧
      ∃ feed ∈ data.feeds, k = PriceFeed.idOf feed.1 data.oracleId tx.txid := by
  simp [Touches, TouchesMembership, Block.written, DecodedOp.named, DecodedOp.restored,
    DecodedOp.resigned, DecodedOp.data?, htag]

/-- An operation that is about an oracle touches the oracle, its snapshot and memberships. -/
theorem touches_of_named {id : String} (hid : op.named tx = some id) :
    Touches base block tx op m k ↔ (m = model Oracle ∧ id = k) ∨
      (m = model OracleSnapshot ∧ ∃ oracle, block.written tx op = some oracle ∧
        k = OracleSnapshot.idOf oracle.id block.height tx.txid) ∨
      (m = model Membership ∧ TouchesMembership base block tx op k) := by
  -- No other operation is about an oracle.
  have htag : op.tag = .appointOracle ∨ op.tag = .updateOracle ∨ op.tag = .removeOracle := by
    by_contra hc
    rw [not_or, not_or] at hc
    rw [DecodedOp.named, if_neg hc.1, DecodedOp.restored_of_ne hc.2.1 hc.2.2] at hid
    exact absurd hid (by simp)
  unfold Touches
  rw [hid, Option.some.injEq]
  rcases htag with htag | htag | htag <;>
    simp [DecodedOp.resigned, DecodedOp.published, DecodedOp.data?, htag]

/-- What the last of some operations touches, one of them does. -/
theorem touches_last {init : List (Transaction × DecodedOp)} (h : Touches base block tx op m k) :
    ∃ p ∈ init ++ [(tx, op)], Touches base block p.1 p.2 m k :=
  ⟨(tx, op), List.mem_concat_self, h⟩

end Tags

/-- A snapshot that one of the operations leaves. -/
def LeavesSnapshot (block : Block) (ops : List (Transaction × DecodedOp))
    (snapshot : OracleSnapshot) : Prop :=
  ∃ tx op oracle order, (tx, op) ∈ ops ∧ block.written tx op = some oracle ∧
    orderIn block tx = .ok order ∧ snapshot = OracleSnapshot.ofOracle oracle tx.txid order

/-- A masternode that is in `base` but for its resignation, or that one of the operations
    creates. -/
def AdmitsNode (base : MemoryStore) (ops : List (Transaction × DecodedOp))
    (node : Masternode) : Prop :=
  (∃ before : Masternode, base.find (model Masternode) node.id = some (stored before) ∧
      node.unresigned = before.unresigned) ∨
    ∃ p ∈ ops, p.2.tag = .createMasternode ∧ p.1.txid = node.id

section

variable {base : MemoryStore} {block : Block} {ops ops' : List (Transaction × DecodedOp)}
variable (hops : ∀ p ∈ ops, p ∈ ops')

include hops

theorem LeavesSnapshot.mono {snapshot : OracleSnapshot} (h : LeavesSnapshot block ops snapshot) :
    LeavesSnapshot block ops' snapshot := by
  rcases h with ⟨tx, op, oracle, order, hmem, hrest⟩
  exact ⟨tx, op, oracle, order, hops _ hmem, hrest⟩

theorem AdmitsNode.mono {node : Masternode} (h : AdmitsNode base ops node) :
    AdmitsNode base ops' node := by
  rcases h with hbase | ⟨p, hp, hcreates⟩
  · exact Or.inl hbase
  · exact Or.inr ⟨p, hops p hp, hcreates⟩

end

/-- What may be held under a key of the footprint when `base` does not hold it there. -/
def Fits (base : MemoryStore) (block : Block) (ops : List (Transaction × DecodedOp))
    (m k : String) (found : Stored) : Prop :=
  (m = model OracleSnapshot → ∃ snapshot : OracleSnapshot, found = stored snapshot ∧
    k = snapshot.id ∧ LeavesSnapshot block ops snapshot) ∧
  (m = model Masternode → ∃ node : Masternode, found = stored node ∧ k = node.id ∧
    AdmitsNode base ops node) ∧
  (m = model MasternodeStats → ∃ stats : MasternodeStats, found = stored stats ∧
    stats.block.hash = block.hash)

/-- A store that may be met while the block is applied to `base` or undone, with these keys
    of the block and these operations still open. -/
structure Between (base : MemoryStore) (block : Block) (opened : String → String → Prop)
    (ops : List (Transaction × DecodedOp)) (t : MemoryStore) : Prop where
  wf : t.WF
  frame : ∀ m k, m ≠ ledgerModel → ¬ opened m k →
    (∀ p ∈ ops, ¬ Touches base block p.1 p.2 m k) → t.find m k = base.find m k
  fits : ∀ m k found, m ≠ ledgerModel → t.find m k = some found →
    base.find m k = some found ∨ Fits base block ops m k found
  nodes : ∀ k, base.find (model Masternode) k ≠ none → t.find (model Masternode) k ≠ none

/-- Nothing in the store is kept for a transaction, and no snapshot is of an oracle that it
    has appointed. -/
structure Unknown (base : MemoryStore) (txid : String) : Prop where
  transaction : base.find (model TransactionRecord) txid = none
  output : ∀ n, base.find (model OutputRecord) (OutputRecord.idOf txid n) = none
  token : base.find (model Token) txid = none
  node : base.find (model Masternode) txid = none
  feed : ∀ pair oracleId,
    base.find (model PriceFeed) (PriceFeed.idOf pair oracleId txid) = none
  oracle : base.find (model Oracle) txid = none
  snapshot : ∀ oracleId height,
    base.find (model OracleSnapshot) (OracleSnapshot.idOf oracleId height txid) = none
  membership : ∀ pair, base.find (model Membership) (Membership.idOf pair txid) = none
  history : ∀ (k : String) (snapshot : OracleSnapshot),
    base.find (model OracleSnapshot) k = some (stored snapshot) → snapshot.oracleId ≠ txid

/-- None of the keys that a block creates is taken, and the ids of its transactions hold no
    hyphen. -/
structure Fresh (base : MemoryStore) (block : Block) : Prop where
  dashFree : ∀ tx ∈ block.transactions, Text.DashFree tx.txid
  keys : ∀ m k, BlockKeys block m k → base.find m k = none
  token : ∀ tx ∈ block.transactions, base.find (model Token) tx.txid = none
  node : ∀ tx ∈ block.transactions, base.find (model Masternode) tx.txid = none
  feed : ∀ tx ∈ block.transactions, ∀ pair oracleId,
    base.find (model PriceFeed) (PriceFeed.idOf pair oracleId tx.txid) = none
  oracle : ∀ tx ∈ block.transactions, base.find (model Oracle) tx.txid = none
  snapshot : ∀ tx ∈ block.transactions, ∀ oracleId,
    base.find (model OracleSnapshot) (OracleSnapshot.idOf oracleId block.height tx.txid) = none
  membership : ∀ tx ∈ block.transactions, ∀ pair,
    base.find (model Membership) (Membership.idOf pair tx.txid) = none
  history : ∀ (k : String) (snapshot : OracleSnapshot),
    base.find (model OracleSnapshot) k = some (stored snapshot) →
      ∀ tx ∈ block.transactions, snapshot.oracleId ≠ tx.txid

namespace Between

variable {base : MemoryStore} {block : Block} {opened : String → String → Prop}
variable {ops : List (Transaction × DecodedOp)} {t : MemoryStore}

theorem self (hwf : base.WF) : Between base block opened ops base :=
  ⟨hwf, fun _ _ _ _ _ => rfl, fun _ _ _ _ h => Or.inl h, fun _ h => h⟩

/-- A store that holds the same records is between as well. -/
theorem alike_behind {after : MemoryStore} (h : Between base block opened ops t)
    (hwf : after.WF) (halike : t.Alike after) : Between base block opened ops after where
  wf := hwf
  frame m k hm hclosed hfree := by
    rw [← halike.find m k hm]
    exact h.frame m k hm hclosed hfree
  fits m k found hm hfound := by
    rw [← halike.find m k hm] at hfound
    exact h.fits m k found hm hfound
  nodes k hbase := by
    rw [← halike.find _ k Recorded.model_ne_ledger]
    exact h.nodes k hbase

/-- More may be left open than has to be. -/
theorem mono {opened' : String → String → Prop} {ops' : List (Transaction × DecodedOp)}
    (h : Between base block opened ops t) (hopened : ∀ m k, opened m k → opened' m k)
    (hops : ∀ p ∈ ops, p ∈ ops') : Between base block opened' ops' t := by
  refine ⟨h.wf, fun m k hm hclosed hfree => h.frame m k hm (fun hc => hclosed (hopened m k hc))
    fun p hp => hfree p (hops p hp), fun m k found hm hfound => ?_, h.nodes⟩
  rcases h.fits m k found hm hfound with hbase | ⟨hsnapshot, hnode, hstats⟩
  · exact Or.inl hbase
  · refine Or.inr ⟨fun hmodel => ?_, fun hmodel => ?_, hstats⟩
    · rcases hsnapshot hmodel with ⟨snapshot, hstored, hk, hleaves⟩
      exact ⟨snapshot, hstored, hk, hleaves.mono hops⟩
    · rcases hnode hmodel with ⟨node, hstored, hk, hadmits⟩
      exact ⟨node, hstored, hk, hadmits.mono hops⟩

theorem snoc (h : Between base block opened ops t) (p : Transaction × DecodedOp) :
    Between base block opened (ops ++ [p]) t :=
  h.mono (fun _ _ hkey => hkey) fun _ hp => List.mem_append_left _ hp

/-- A write under one key of the footprint keeps the store between. -/
theorem change {after : MemoryStore} (h : Between base block opened ops t) (m k : String)
    (hwf : after.WF) (hkey : opened m k ∨ ∃ p ∈ ops, Touches base block p.1 p.2 m k)
    (helsewhere : ∀ m' k', ¬ (m' = m ∧ k' = k) → after.find m' k' = t.find m' k')
    (hfits : ∀ found, after.find m k = some found →
      base.find m k = some found ∨ Fits base block ops m k found)
    (hnode : m = model Masternode → base.find m k ≠ none → after.find m k ≠ none) :
    Between base block opened ops after := by
  refine ⟨hwf, fun m' k' hm' hclosed hfree => ?_, fun m' k' found hm' hfound => ?_,
    fun k' hbase => ?_⟩
  · -- The key itself is open, so there is nothing to keep under it.
    by_cases heq : m' = m ∧ k' = k
    · rcases heq with ⟨rfl, rfl⟩
      rcases hkey with hopened | ⟨p, hp, htouches⟩
      · exact absurd hopened hclosed
      · exact absurd htouches (hfree p hp)
    · rw [helsewhere m' k' heq, h.frame m' k' hm' hclosed hfree]
  · by_cases heq : m' = m ∧ k' = k
    · rcases heq with ⟨rfl, rfl⟩
      exact hfits found hfound
    · rw [helsewhere m' k' heq] at hfound
      exact h.fits m' k' found hm' hfound
  · by_cases heq : model Masternode = m ∧ k' = k
    · rcases heq with ⟨rfl, rfl⟩
      exact hnode rfl hbase
    · rw [helsewhere _ k' heq]
      exact h.nodes k' hbase

theorem saved {α : Type} [Entity α] (h : Between base block opened ops t) (a : α)
    (hkey : opened (model α) (key a) ∨
      ∃ p ∈ ops, Touches base block p.1 p.2 (model α) (key a))
    (hfits : Fits base block ops (model α) (key a) (stored a)) :
    Between base block opened ops (Entity.saved t a) := by
  refine h.change (model α) (key a) (wf_saved h.wf a) hkey ?_ ?_ ?_
  · intro m' k' hne
    rw [find_saved, if_neg hne]
  · intro found hfound
    rw [find_saved, if_pos ⟨rfl, rfl⟩, Option.some.injEq] at hfound
    exact hfound ▸ Or.inr hfits
  · intro _ _
    rw [find_saved, if_pos ⟨rfl, rfl⟩]
    simp

theorem removed {α : Type} [Entity α] (h : Between base block opened ops t) (k : String)
    (hkey : opened (model α) k ∨ ∃ p ∈ ops, Touches base block p.1 p.2 (model α) k)
    (hnode : model α = model Masternode → base.find (model α) k = none) :
    Between base block opened ops (Entity.removed α t k) := by
  refine h.change (model α) k (wf_removed h.wf k) hkey ?_ ?_ ?_
  · intro m' k' hne
    rw [find_removed, if_neg hne]
  · intro found hfound
    rw [find_removed, if_pos ⟨rfl, rfl⟩] at hfound
    exact absurd hfound (by simp)
  · intro hmodel hbase
    exact absurd (hnode hmodel) hbase

/-- Keys that hold the same as in `base` again need not be left open, and operations that
    nothing stems from need not be pending. -/
theorem close {opened' : String → String → Prop} {ops' : List (Transaction × DecodedOp)}
    (h : Between base block opened ops t)
    (hsame : ∀ m k, m ≠ ledgerModel →
      (opened m k ∨ ∃ p ∈ ops, Touches base block p.1 p.2 m k) →
      ¬ opened' m k → (∀ p ∈ ops', ¬ Touches base block p.1 p.2 m k) →
      t.find m k = base.find m k)
    (hfits : ∀ m k found, m ≠ ledgerModel → t.find m k = some found →
      base.find m k = some found ∨ Fits base block ops' m k found) :
    Between base block opened' ops' t := by
  refine ⟨h.wf, fun m k hm hclosed hfree => ?_, hfits, h.nodes⟩
  by_cases hkey : opened m k ∨ ∃ p ∈ ops, Touches base block p.1 p.2 m k
  · -- A key that was not open before holds what `base` holds in any case.
    exact hsame m k hm hkey hclosed hfree
  · rw [not_or] at hkey
    exact h.frame m k hm hkey.1 fun p hp htouches => hkey.2 ⟨p, hp, htouches⟩

/-- The last pending operation is settled when what it alone touches is as in `base` again,
    and when it left nothing that undoing another one would read back. -/
theorem settle {init : List (Transaction × DecodedOp)} {tx : Transaction} {op : DecodedOp}
    (h : Between base block opened (init ++ [(tx, op)]) t)
    (hsame : ∀ m k, m ≠ ledgerModel → Touches base block tx op m k →
      (∀ p ∈ init, ¬ Touches base block p.1 p.2 m k) → t.find m k = base.find m k)
    (hsnapshot : ∀ oracle, block.written tx op = some oracle →
      t.find (model OracleSnapshot) (OracleSnapshot.idOf oracle.id block.height tx.txid) = none)
    (hnode : op.tag = .createMasternode → t.find (model Masternode) tx.txid = none) :
    Between base block opened init t := by
  refine h.close (fun m k hm hkey hclosed hfree => ?_) fun m k found hm hfound => ?_
  · rcases hkey with hopened | ⟨p, hp, htouches⟩
    · exact absurd hopened hclosed
    · rcases List.mem_append.mp hp with hinit | hlast
      · exact absurd htouches (hfree p hinit)
      · rw [List.mem_singleton.mp hlast] at htouches
        exact hsame m k hm htouches hfree
  · rcases h.fits m k found hm hfound with hbase | ⟨hleaves, hadmits, hstats⟩
    · exact Or.inl hbase
    · refine Or.inr ⟨fun hmodel => ?_, fun hmodel => ?_, hstats⟩
      · subst hmodel
        rcases hleaves rfl with ⟨s, rfl, hk, tx', op', oracle, order, hmem, hwritten, horder, hs⟩
        refine ⟨s, rfl, hk, tx', op', oracle, order, ?_, hwritten, horder, hs⟩
        -- The snapshot of the last operation is gone, so another one has left it.
        rcases List.mem_append.mp hmem with hinit | hlast
        · exact hinit
        · rw [List.mem_singleton, Prod.mk.injEq] at hlast
          rcases hlast with ⟨rfl, rfl⟩
          have hblock := (named_of_written hwritten).2
          have hkey : k = OracleSnapshot.idOf oracle.id block.height tx'.txid := by
            rw [hk, hs, OracleSnapshot.ofOracle, hblock]
            rfl
          rw [hkey, hsnapshot oracle hwritten] at hfound
          exact absurd hfound (by simp)
      · subst hmodel
        rcases hadmits rfl with ⟨node, rfl, hk, hbase | ⟨p, hp, hcreates, htxid⟩⟩
        · exact ⟨node, rfl, hk, Or.inl hbase⟩
        · refine ⟨node, rfl, hk, Or.inr ⟨p, ?_, hcreates, htxid⟩⟩
          -- So is the masternode that it creates.
          rcases List.mem_append.mp hp with hinit | hlast
          · exact hinit
          · rw [List.mem_singleton.mp hlast] at hcreates htxid
            rw [hk, ← htxid, hnode hcreates] at hfound
            exact absurd hfound (by simp)

/-- Under the key of a masternode there is one that is admitted. -/
theorem admitted (h : Between base block opened ops t) (hnodes : Typed Masternode base)
    {id : String} {found : Stored} (hfound : t.find (model Masternode) id = some found) :
    ∃ node : Masternode, found = stored node ∧ node.id = id ∧ AdmitsNode base ops node := by
  rcases h.fits _ _ found Recorded.model_ne_ledger hfound with hkept | ⟨_, hadmits, _⟩
  · rcases hnodes _ _ hkept with ⟨node, rfl, hk⟩
    exact ⟨node, rfl, hk.symm, Or.inl ⟨node, (show id = node.id from hk) ▸ hkept, rfl⟩⟩
  · rcases hadmits rfl with ⟨node, hstored, hk, hadmitted⟩
    exact ⟨node, hstored, hk.symm, hadmitted⟩

/-- At the height of the block there are no statistics but its own. -/
theorem own_stats (h : Between base block opened ops t) (hfresh : Fresh base block)
    {found : Stored}
    (hfound : t.find (model MasternodeStats) (MasternodeStats.keyAt block.height) = some found) :
    ∃ stats : MasternodeStats, found = stored stats ∧ stats.block.hash = block.hash := by
  rcases h.fits _ _ found Recorded.model_ne_ledger hfound with hkept | ⟨_, _, hstats⟩
  · rw [hfresh.keys _ _ (Or.inr (Or.inl ⟨rfl, rfl⟩))] at hkept
    exact absurd hkept (by simp)
  · exact hstats rfl

/-- With nothing left open the store holds what `base` holds. -/
theorem alike (h : Between base block (fun _ _ => False) [] t) (hbase : base.WF) :
    t.Alike base :=
  MemoryStore.alike_of_find h.wf hbase fun m k hm =>
    h.frame m k hm id fun _ hp => absurd hp List.not_mem_nil

end Between

end ChainIndex
