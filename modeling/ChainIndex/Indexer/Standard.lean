import ChainIndex.Indexer.Registry
import ChainIndex.Indexer.Transactions
import ChainIndex.Indexer.Tokens
import ChainIndex.Indexer.Oracles
import ChainIndex.Indexer.Prices
import ChainIndex.Indexer.Masternodes

/-!
# The standard indexers

The indexers of every kind of record, in the order of dispatch. Each operation has
exactly one. The indexer of blocks is not among them: the follower puts it last.

## Main definitions

* `Registry.standard`: The registry, given the symbol of the native token.
-/

namespace ChainIndex

/-- The indexers of every kind of record but blocks. -/
def Registry.standard (nativeSymbol : String) : Registry where
  indexers :=
    [.transactions, .tokens nativeSymbol, .appointOracle, .updateOracle, .removeOracle,
      .setOracleData, .createMasternode, .resignMasternode, .masternodeStats]

end ChainIndex
