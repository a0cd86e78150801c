import ChainIndex.Indexer.Basic
import ChainIndex.Entity.Token
import ChainIndex.Chain.Payload

/-!
# The indexer of tokens

Keeps the tokens that transactions create, and seeds the native one with the genesis
block. Taking a token back needs nothing but the transaction, so its payload is not
read again.

## Main definitions

* `Indexer.tokens`: The indexer, given the symbol of the native token.
-/

namespace ChainIndex

/-- The token that a transaction creates. -/
def CreateToken.toToken (data : CreateToken) (txid : String) (block : Block) : Token where
  id := txid
  symbol := data.symbol
  name := data.name
  decimal := data.decimal
  limit := data.limit
  isDat := data.isDat
  mintable := data.mintable
  tradeable := data.tradeable
  block := block.ref

/-- Writes the native token. A failure is one of the genesis block. -/
def seedNative (symbol : String) (block : Block) : Program Unit := do
  match ← (Entity.save (Token.native symbol block.ref)).attempt with
  | .ok () => return
  | .error e => throw (.genesis (.failed e.message))

/-- Keeps the tokens. -/
def Indexer.tokens (nativeSymbol : String) : Indexer where
  name := "token"
  ops := [.createToken]
  hook
    | .apply, .genesis, block => seedNative nativeSymbol block
    | .undo, .genesis, _ => Entity.remove Token Token.nativeId
    | .apply, .transaction tx op, block => do
      let data ← Program.ofExcept (decodePayload CreateToken.read tx op)
      Entity.save (data.toToken tx.txid block)
    | .undo, .transaction tx _, _ => Entity.remove Token tx.txid
    | _, _, _ => return

end ChainIndex
