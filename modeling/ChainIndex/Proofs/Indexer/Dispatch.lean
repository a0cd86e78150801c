import ChainIndex.Follower.Step
import ChainIndex.Indexer.Standard

/-!
# How a block is dispatched to the standard indexers

Most hooks of most indexers do nothing, and every operation has exactly one indexer that
wants it. Written out for the standard indexers and the one of blocks behind them, the
dispatch of a block is a short sequence: the native token of the first block, the
transactions, the operations one after another, and at the end the aggregates, the
statistics and the record of the block. Undoing goes through the same sequence backwards.

## Main definitions

* `Registry.full`: The standard indexers and the one of blocks.
* `Indexer.ofTag`: The indexer that wants an operation.
* `Registry.applyAhead`, `Registry.undoAhead`: All but the statistics.

## Theorems

* `interested_standard`, `interested_full`: There is exactly one.
* `applyBlock_standard`, `undoBlock_standard`: The dispatch of a block, written out.
* `applyBlock_blocks`, `undoBlock_blocks`: What the indexer of blocks adds.
* `applyBlock_full`, `undoBlock_full`: The dispatch with the indexer of blocks, written out.
-/

namespace ChainIndex

/-- The standard indexers, and the one of blocks behind them. -/
def Registry.full (symbol : String) : Registry :=
  (Registry.standard symbol).add .blocks

/-- The indexer that wants an operation. -/
def Indexer.ofTag (symbol : String) : OpTag → Indexer
  | .createToken => .tokens symbol
  | .appointOracle => .appointOracle
  | .updateOracle => .updateOracle
  | .removeOracle => .removeOracle
  | .setOracleData => .setOracleData
  | .createMasternode => .createMasternode
  | .resignMasternode => .resignMasternode

namespace Registry

theorem interested_standard (symbol : String) (tag : OpTag) :
    (standard symbol).interested tag = [Indexer.ofTag symbol tag] := by
  cases tag <;> rfl

theorem interested_full (symbol : String) (tag : OpTag) :
    (full symbol).interested tag = [Indexer.ofTag symbol tag] := by
  cases tag <;> rfl

theorem forM_singleton {β : Type} (b : β) (f : β → Program PUnit) : [b].forM f = f b := by
  change (f b >>= fun _ => pure PUnit.unit) = f b
  exact bind_pure (f b)

/-- Applying a block with the standard indexers. -/
theorem applyBlock_standard (symbol : String) (block : Block) :
    (standard symbol).applyBlock block =
      ((if block.height = 0 then seedNative symbol block else pure ()) >>= fun _ =>
        (block.transactions.zipIdx.forM fun (tx, position) =>
          writeTransaction block position tx) >>= fun _ =>
        (block.ops.forM fun (tx, op) =>
          (Indexer.ofTag symbol op.tag).hook .apply (.transaction tx op) block) >>= fun _ =>
        Indexer.setOracleData.hook .apply .blockEnd block >>= fun _ =>
        Indexer.masternodeStats.hook .apply .blockEnd block) := by
  -- Few of the indexers have anything to do at a given stage.
  have hgenesis : (standard symbol).indexers.forM
      (fun indexer => indexer.hook .apply .genesis block)
      = seedNative symbol block := bind_pure (seedNative symbol block)
  have hstart : (standard symbol).indexers.forM
      (fun indexer => indexer.hook .apply .blockStart block)
      = block.transactions.zipIdx.forM fun (tx, position) =>
          writeTransaction block position tx := bind_pure (m := Program) _
  have hend : (standard symbol).indexers.forM
      (fun indexer => indexer.hook .apply .blockEnd block)
      = (Indexer.setOracleData.hook .apply .blockEnd block >>= fun _ =>
          Indexer.masternodeStats.hook .apply .blockEnd block >>= fun _ => pure ()) := rfl
  have hlast : (Indexer.masternodeStats.hook .apply .blockEnd block >>= fun _ => pure ())
      = Indexer.masternodeStats.hook .apply .blockEnd block := bind_pure (m := Program) _
  unfold applyBlock
  rw [hgenesis, hstart, hend, hlast]
  simp only [interested_standard, forM_singleton]
  by_cases hheight : block.height = 0
  · simp only [if_pos hheight]
  · simp only [if_neg hheight, pure_bind]

/-- Undoing a block with the standard indexers. -/
theorem undoBlock_standard (symbol : String) (block : Block) :
    (standard symbol).undoBlock block =
      (MasternodeStats.discard block >>= fun _ =>
        Indexer.setOracleData.hook .undo .blockEnd block >>= fun _ =>
        (block.ops.reverse.forM fun (tx, op) =>
          (Indexer.ofTag symbol op.tag).hook .undo (.transaction tx op) block) >>= fun _ =>
        block.transactions.reverse.forM eraseTransaction >>= fun _ =>
        if block.height = 0 then Entity.remove Token Token.nativeId else pure ()) := by
  have hend : (standard symbol).indexers.reverse.forM
      (fun indexer => indexer.hook .undo .blockEnd block)
      = (MasternodeStats.discard block >>= fun _ =>
          Indexer.setOracleData.hook .undo .blockEnd block >>= fun _ => pure ()) := rfl
  have hstart : (standard symbol).indexers.reverse.forM
      (fun indexer => indexer.hook .undo .blockStart block)
      = block.transactions.reverse.forM eraseTransaction := bind_pure (m := Program) _
  have hgenesis : (standard symbol).indexers.reverse.forM
      (fun indexer => indexer.hook .undo .genesis block)
      = Entity.remove Token Token.nativeId := bind_pure (m := Program) _
  unfold undoBlock
  rw [hend, hstart, hgenesis]
  simp only [interested_standard, List.reverse_singleton, forM_singleton, bind_assoc, pure_bind]

/-- What applying a block does ahead of the statistics, which are last. -/
def applyAhead (symbol : String) (block : Block) : Program Unit :=
  (if block.height = 0 then seedNative symbol block else pure ()) >>= fun _ =>
    (block.transactions.zipIdx.forM fun (tx, position) =>
      writeTransaction block position tx) >>= fun _ =>
    (block.ops.forM fun (tx, op) =>
      (Indexer.ofTag symbol op.tag).hook .apply (.transaction tx op) block) >>= fun _ =>
    Indexer.setOracleData.hook .apply .blockEnd block

/-- What undoing a block does once the statistics are gone. -/
def undoAhead (symbol : String) (block : Block) : Program Unit :=
  Indexer.setOracleData.hook .undo .blockEnd block >>= fun _ =>
    (block.ops.reverse.forM fun (tx, op) =>
      (Indexer.ofTag symbol op.tag).hook .undo (.transaction tx op) block) >>= fun _ =>
    block.transactions.reverse.forM eraseTransaction >>= fun _ =>
    if block.height = 0 then Entity.remove Token Token.nativeId else pure ()

theorem applyBlock_ahead (symbol : String) (block : Block) :
    (standard symbol).applyBlock block = (applyAhead symbol block >>= fun _ =>
      Indexer.masternodeStats.hook .apply .blockEnd block) := by
  rw [applyBlock_standard, applyAhead]
  simp only [LawfulMonad.bind_assoc]

theorem undoBlock_ahead (symbol : String) (block : Block) :
    (standard symbol).undoBlock block = (MasternodeStats.discard block >>= fun _ =>
      undoAhead symbol block) :=
  undoBlock_standard symbol block

/-- The indexer of blocks acts at the end of a block only, behind all others. -/
theorem applyBlock_blocks (symbol : String) (block : Block) :
    (full symbol).applyBlock block = ((standard symbol).applyBlock block >>= fun _ =>
      Entity.save (BlockRecord.ofBlock block)) := by
  have hadd : ∀ stage, (full symbol).indexers.forM (fun indexer => indexer.hook .apply stage block)
      = ((standard symbol).indexers.forM (fun indexer => indexer.hook .apply stage block) >>=
          fun _ => Indexer.blocks.hook .apply stage block) := by
    intro stage
    rw [← forM_singleton Indexer.blocks fun indexer => indexer.hook .apply stage block]
    exact List.forM_append
  have hpure : ∀ program : Program Unit, (program >>= fun _ => pure ()) = program :=
    fun program => bind_pure (m := Program) program
  unfold applyBlock
  rw [hadd, hadd, hadd]
  simp only [interested_full, interested_standard, Indexer.blocks, hpure]
  by_cases hheight : block.height = 0
  · simp only [if_pos hheight, LawfulMonad.bind_assoc]
  · simp only [if_neg hheight, LawfulMonad.bind_assoc]

/-- So it comes first when the block is undone. -/
theorem undoBlock_blocks (symbol : String) (block : Block) :
    (full symbol).undoBlock block =
      (Entity.remove BlockRecord block.hash >>= fun _ => (standard symbol).undoBlock block) := by
  have hadd : ∀ stage, (full symbol).indexers.reverse.forM
      (fun indexer => indexer.hook .undo stage block)
      = (Indexer.blocks.hook .undo stage block >>= fun _ =>
          (standard symbol).indexers.reverse.forM fun indexer => indexer.hook .undo stage block) :=
    fun _ => rfl
  unfold undoBlock
  rw [hadd, hadd, hadd]
  simp only [interested_full, interested_standard, Indexer.blocks, pure_bind,
    LawfulMonad.bind_assoc]

theorem applyBlock_full (symbol : String) (block : Block) :
    (full symbol).applyBlock block =
      ((if block.height = 0 then seedNative symbol block else pure ()) >>= fun _ =>
        (block.transactions.zipIdx.forM fun (tx, position) =>
          writeTransaction block position tx) >>= fun _ =>
        (block.ops.forM fun (tx, op) =>
          (Indexer.ofTag symbol op.tag).hook .apply (.transaction tx op) block) >>= fun _ =>
        Indexer.setOracleData.hook .apply .blockEnd block >>= fun _ =>
        Indexer.masternodeStats.hook .apply .blockEnd block >>= fun _ =>
        Entity.save (BlockRecord.ofBlock block)) := by
  rw [applyBlock_blocks, applyBlock_standard]
  simp only [LawfulMonad.bind_assoc]

theorem undoBlock_full (symbol : String) (block : Block) :
    (full symbol).undoBlock block =
      (Entity.remove BlockRecord block.hash >>= fun _ =>
        MasternodeStats.discard block >>= fun _ =>
        Indexer.setOracleData.hook .undo .blockEnd block >>= fun _ =>
        (block.ops.reverse.forM fun (tx, op) =>
          (Indexer.ofTag symbol op.tag).hook .undo (.transaction tx op) block) >>= fun _ =>
        block.transactions.reverse.forM eraseTransaction >>= fun _ =>
        if block.height = 0 then Entity.remove Token Token.nativeId else pure ()) := by
  rw [undoBlock_blocks, undoBlock_standard]

end Registry

end ChainIndex
