import ChainIndex.Program.Basic

/-!
# Indexers

An indexer keeps the records of one kind in step with the chain. It says what it does
at each hook, and for which operations it wants the transactions. Its undo hooks have
to bear being run twice, and being run after an apply that was cut short or that never
was.

## Main definitions

* `Indexer`: A name, the operations it wants, and its hooks.
* `Indexer.external`: An indexer outside this library.
-/

namespace ChainIndex

/-- What keeps the records of one kind in step with the chain. -/
structure Indexer where
  /-- Its name. -/
  name : String
  /-- The operations whose transactions it wants. -/
  ops : List OpTag
  /-- What it does at a hook of a block. -/
  hook : Phase → Stage → Block → Program Unit

/-- An indexer outside this library: each of its hooks is one call. -/
def Indexer.external (name : String) (ops : List OpTag) : Indexer where
  name := name
  ops := ops
  hook phase stage block := Program.request (.hook name phase stage block)

end ChainIndex
