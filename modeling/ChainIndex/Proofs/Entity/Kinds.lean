import ChainIndex.Proofs.Entity.RoundTrip

/-!
# The kinds of record

Twelve kinds of record are kept. What is said of a kind of record by way of its class can
be said of all of them at once, since they are listed here: each is read back as it was
stored, has one entry in its indexes at most, and a model of its own.

## Main definitions

* `RecordKind`: The kinds of record, and `RecordKind.Value`, what each is about.
* `SinglyIndexed`: Values of this kind have one index entry at most.
* `RecordKind.ofModel?`: The kind that a model belongs to.

## Theorems

* `ofModel?_model`: Each kind has a model of its own.
-/

namespace ChainIndex

/-- A kind of record. -/
inductive RecordKind where
  /-- Blocks. -/
  | block
  /-- Transactions of blocks. -/
  | transaction
  /-- Outputs of transactions. -/
  | output
  /-- Tokens. -/
  | token
  /-- Oracles. -/
  | oracle
  /-- Oracles as of an appointment or an update. -/
  | snapshot
  /-- Oracles among those of a pair. -/
  | membership
  /-- Published prices. -/
  | feed
  /-- Averages of prices. -/
  | aggregate
  /-- Masternodes. -/
  | masternode
  /-- Statistics about masternodes. -/
  | stats
  /-- The ledger. -/
  | status
deriving DecidableEq

namespace RecordKind

/-- The kinds of record. -/
def all : List RecordKind :=
  [.block, .transaction, .output, .token, .oracle, .snapshot, .membership, .feed, .aggregate,
    .masternode, .stats, .status]

/-- What a record of a kind is about. -/
def Value : RecordKind → Type
  | .block => BlockRecord
  | .transaction => TransactionRecord
  | .output => OutputRecord
  | .token => Token
  | .oracle => Oracle
  | .snapshot => OracleSnapshot
  | .membership => Membership
  | .feed => PriceFeed
  | .aggregate => PriceAggregate
  | .masternode => Masternode
  | .stats => MasternodeStats
  | .status => SyncStatus

instance : (kind : RecordKind) → Entity kind.Value
  | .block => inferInstanceAs (Entity BlockRecord)
  | .transaction => inferInstanceAs (Entity TransactionRecord)
  | .output => inferInstanceAs (Entity OutputRecord)
  | .token => inferInstanceAs (Entity Token)
  | .oracle => inferInstanceAs (Entity Oracle)
  | .snapshot => inferInstanceAs (Entity OracleSnapshot)
  | .membership => inferInstanceAs (Entity Membership)
  | .feed => inferInstanceAs (Entity PriceFeed)
  | .aggregate => inferInstanceAs (Entity PriceAggregate)
  | .masternode => inferInstanceAs (Entity Masternode)
  | .stats => inferInstanceAs (Entity MasternodeStats)
  | .status => inferInstanceAs (Entity SyncStatus)

instance : (kind : RecordKind) → RoundTrip kind.Value
  | .block => inferInstanceAs (RoundTrip BlockRecord)
  | .transaction => inferInstanceAs (RoundTrip TransactionRecord)
  | .output => inferInstanceAs (RoundTrip OutputRecord)
  | .token => inferInstanceAs (RoundTrip Token)
  | .oracle => inferInstanceAs (RoundTrip Oracle)
  | .snapshot => inferInstanceAs (RoundTrip OracleSnapshot)
  | .membership => inferInstanceAs (RoundTrip Membership)
  | .feed => inferInstanceAs (RoundTrip PriceFeed)
  | .aggregate => inferInstanceAs (RoundTrip PriceAggregate)
  | .masternode => inferInstanceAs (RoundTrip Masternode)
  | .stats => inferInstanceAs (RoundTrip MasternodeStats)
  | .status => inferInstanceAs (RoundTrip SyncStatus)

/-- The kind that a model belongs to. -/
def ofModel? (m : String) : Option RecordKind :=
  all.find? fun kind => Entity.model kind.Value == m

/-- Each kind has a model of its own. -/
theorem ofModel?_model (kind : RecordKind) : ofModel? (Entity.model kind.Value) = some kind := by
  cases kind <;> decide

theorem eq_of_model_eq {kind other : RecordKind}
    (h : Entity.model kind.Value = Entity.model other.Value) : kind = other := by
  rw [← Option.some.injEq, ← ofModel?_model, ← ofModel?_model, h]

end RecordKind

/-- Values of this kind have one index entry at most. -/
class SinglyIndexed (α : Type) [Entity α] : Prop where
  length_entries_le : ∀ a : α, (Entity.entries a).length ≤ 1

instance (kind : RecordKind) : SinglyIndexed kind.Value where
  length_entries_le a := by
    cases kind <;> first | exact Nat.le_refl 1 | exact Nat.zero_le 1

end ChainIndex
