import ChainIndex.Proofs.Chain.Tables
import ChainIndex.Proofs.Follower.Settled

/-!
# Going on with a database

A follower that is let loose on a database goes on where the one before has left it. It is
only told what is in the database and what its own source says, and this decides every step.
While the source goes on from the chain in the database, a step applies the next block, and
when there is none it has nothing to do. When the source does not know the last block in the
database, the follower cannot undo it, since the block is what tells it what to undo; it says
so and has written nothing.

## Main definitions

* `Chain.KeptIn`: What a follower that has come to rest leaves of a chain in a database.
* `Follower.stepOn`: A step on a database.
* `Chain.TipsRead`: Wherever one stands on a chain, the tip can be read.
* `Chain.KeptIn.SteppedOn`: How a step onto the next block ends.

## Theorems

* `KeptIn.step_on`, `KeptIn.step_end`, `KeptIn.step_lost`: The steps.
* `KeptIn.run_on`: A cycle comes to the end of the chain.
* `KeptIn.of_run`: What a cycle that has succeeded says of the chain.
-/

namespace ChainIndex

open Entity Program Chain

/-! ## A source in memory -/

namespace MemorySource

variable {served : String → Option Block} {chain : List Block} {block : Block}

/-- A block of the chain is served under its hash. -/
theorem block_ofChain (h : Linked served chain) (hmem : block ∈ chain) :
    (ofChain chain).block block.hash = .ok block := by
  have hfound : (ofChain chain).seen.find? (fun other => other.hash == block.hash)
      = some block := by
    rcases hfind : (ofChain chain).seen.find? (fun other => other.hash == block.hash)
      with _ | other
    · rw [List.find?_eq_none] at hfind
      exact absurd (beq_self_eq_true _) (hfind block (by simp [ofChain, setChain, hmem]))
    · have hother := List.mem_of_find?_eq_some hfind
      have hhash : other.hash = block.hash := by
        have hpicked := List.find?_some hfind
        exact beq_iff_eq.mp hpicked
      simp only [ofChain, setChain, List.append_nil, List.mem_reverse] at hother
      refine hfind.trans ?_
      rw [← h.served other hother, hhash, h.served block hmem]
  rw [MemorySource.block, hfound]

/-- Another hash is not known. -/
theorem block_ofChain_of_not_mem {hash : String} (h : hash ∉ chain.map Block.hash) :
    (ofChain chain).block hash = .error (.source (.blockNotFound hash)) := by
  have hnone : (ofChain chain).seen.find? (fun other => other.hash == hash) = none := by
    rw [List.find?_eq_none]
    intro other hother heq
    simp only [ofChain, setChain, List.append_nil, List.mem_reverse] at hother
    exact h (List.mem_map.mpr ⟨other, hother, beq_iff_eq.mp heq⟩)
  rw [MemorySource.block, hnone]

theorem blockHash_ofChain (chain : List Block) (height : UInt32) :
    (ofChain chain).blockHash height = match chain[height.toNat]? with
      | some block => .ok block.hash
      | none => .error (.source (.heightOutOfRange height)) :=
  rfl

/-- The block at a height is the one at the position, if there is one. -/
theorem blockAt_ofChain (h : Linked served chain) (height : UInt32) :
    (ofChain chain).blockAt height = match chain[height.toNat]? with
      | some block => .ok block
      | none => .error (.source (.heightOutOfRange height)) := by
  rw [MemorySource.blockAt, blockHash_ofChain]
  rcases hget : chain[height.toNat]? with _ | block
  · rfl
  · exact block_ofChain h (List.mem_of_getElem? hget)

end MemorySource

theorem run_blockAt (height : UInt32) (world : World TableStore) :
    (blockAt height).run World.answer world = (world.source.blockAt height, world) := by
  change (Program.bind (request (.blockHash height)) fun hash =>
    request (.block hash)).run World.answer world = _
  rw [run_bind, MemorySource.blockAt]
  simp only [request, Program.run, World.answer]
  cases world.source.blockHash height with
  | error e => rfl
  | ok hash => rfl

/-- Hooks between two notes in the ledger. -/
theorem TableStore.run_recorded {block : Block} {before after : SyncPhase} {hooks : Program Unit}
    {tables behind : TableStore} {source : MemorySource} {now : Int64} {result : Except Error Unit}
    (hrun : hooks.run World.answer ⟨tables.put ledgerModel
        (toRecord (⟨block.hash, block.height, before, now⟩ : SyncStatus)), source, now⟩ =
      (result, ⟨behind, source, now⟩)) :
    (Follower.recorded block before after hooks).run World.answer ⟨tables, source, now⟩ =
      (result, ⟨behind.put ledgerModel (toRecord (⟨block.hash, block.height,
        if result.isOk then after else .error, now⟩ : SyncStatus)), source, now⟩) := by
  change (Program.bind (SyncStatus.write block.hash block.height before) fun _ =>
    Program.bind hooks.attempt _).run _ _ = _
  rw [run_bind]
  change (Program.bind hooks.attempt _).run World.answer ⟨tables.put ledgerModel
    (toRecord (⟨block.hash, block.height, before, now⟩ : SyncStatus)), source, now⟩ = _
  rw [run_bind, run_attempt, hrun]
  cases result with
  | ok u => rfl
  | error e => rfl

/-! ## A chain in a database -/

/-- What a follower that has come to rest leaves of a chain in a database: the rows that
    indexing the chain leaves, and a ledger that says that the last attempt has ended. -/
structure Chain.KeptIn (symbol : String) (chain : List Block) (tables : TableStore) : Prop where
  rows : Chain.tables symbol chain = .ok tables.outside
  ledger : tables.selectText ledgerModel SyncStatus.onlyKey = none ∨
    ∃ status : SyncStatus, status.phase.isTerminal = true ∧
      tables.selectText ledgerModel SyncStatus.onlyKey = some (toJson status).compact

/-- Wherever one stands on the rest of a chain, the tip can be read. -/
def Chain.TipsRead (chain rest : List Block) : Prop :=
  ∀ front, front <+: rest → ∃ tip, tipOf (chain ++ front) = .ok tip

/-- A chain for which a cycle has the patience leaves heights to spare. -/
theorem lt_size_of_patience {blocks : Nat} (h : 2 * blocks ≤ patience) : blocks < UInt32.size := by
  rw [patience] at h
  rw [UInt32.size]
  omega

/-- The tip can be read everywhere if the text of every difficulty is read as a double. -/
theorem Chain.tipsRead_of_difficulties {chain : List Block}
    (h : ∀ block ∈ chain, block.difficulty.reread.isSome = true) : TipsRead [] chain := by
  intro front hfront
  rw [List.nil_append, tipOf]
  rcases hlast : front.getLast? with _ | last
  · exact ⟨none, rfl⟩
  · have hmem := hfront.subset (List.mem_of_getLast? hlast)
    rcases Option.isSome_iff_exists.mp (h last hmem) with ⟨difficulty, hread⟩
    have hagain : (BlockRecord.ofBlock last).reread =
        some { BlockRecord.ofBlock last with difficulty } := by
      rw [BlockRecord.reread, show (BlockRecord.ofBlock last).difficulty = last.difficulty from rfl,
        hread]
      rfl
    exact ⟨_, by simp only [hagain]; rfl⟩

/-- A step of a follower on a database, with its flags as they are. -/
def Follower.stepOn (follower : Follower) (state : Guarded (World TableStore)) :
    Except Error SyncStep × Guarded (World TableStore) :=
  let (result, world) := follower.step.run World.answer state.world
  (result, { state with world })

namespace Chain.KeptIn

variable {symbol : String} {served : String → Option Block} {chain rest : List Block}
variable {tables : TableStore} {source : MemorySource} {now : Int64}

theorem empty (symbol : String) : KeptIn symbol [] .empty where
  rows := rfl
  ledger := Or.inl rfl

theorem listedIn (h : KeptIn symbol chain tables) : ListedIn chain tables :=
  (listedIn_of_tables h.rows).of_same (tables.sameModel_outside (by decide))

/-- Nothing has to be cleaned up. -/
theorem run_cleanup (h : KeptIn symbol chain tables) (follower : Follower)
    (source : MemorySource) (now : Int64) :
    follower.cleanup.run World.answer ⟨tables, source, now⟩ =
      (.ok (), ⟨tables, source, now⟩) := by
  have hread : SyncStatus.read?.run World.answer ⟨tables, source, now⟩ =
        (.ok none, ⟨tables, source, now⟩) ∨
      ∃ status : SyncStatus, status.phase.isTerminal = true ∧
        SyncStatus.read?.run World.answer ⟨tables, source, now⟩ =
          (.ok (some status), ⟨tables, source, now⟩) := by
    rcases h.ledger with hnone | ⟨status, hterminal, htext⟩
    · refine Or.inl (run_find?_of_absent ?_)
      change tables.get ledgerModel SyncStatus.onlyKey = _
      rw [TableStore.get, hnone]
    · refine Or.inr ⟨status, hterminal, run_find?_of_get ?_⟩
      change tables.get ledgerModel SyncStatus.onlyKey = _
      have hdecode : TableStore.decodeText (toJson status).compact = .ok (toJson status) :=
        status.readsBack
      rw [TableStore.get, htext]
      simp only [hdecode, Except.map]
  change (Program.bind SyncStatus.read? _).run _ _ = _
  rw [run_bind]
  rcases hread with hnone | ⟨status, hterminal, hsome⟩
  · rw [hnone]
    rfl
  · rw [hsome]
    simp only [hterminal, if_true]
    rfl

/-- A step goes by the tip. -/
theorem run_step (h : KeptIn symbol chain tables) (hnumbered : Numbered chain)
    (follower : Follower) (source : MemorySource) (now : Int64) :
    follower.step.run World.answer ⟨tables, source, now⟩ =
      match tipOf chain with
      | .error e => (.error e, ⟨tables, source, now⟩)
      | .ok none => follower.applyGenesis.run World.answer ⟨tables, source, now⟩
      | .ok (some tip) => (follower.advance tip).run World.answer ⟨tables, source, now⟩ := by
  change (Program.bind follower.cleanup fun _ => Program.bind BlockRecord.tip? _).run _ _ = _
  rw [run_bind, h.run_cleanup follower source now]
  simp only
  rw [run_bind, h.listedIn.run_tip? hnumbered source now]
  rcases tipOf chain with e | _ | tip
  · rfl
  · rfl
  · rfl

/-! ## Applying the next block -/

/-- The next block is applied, if it can be indexed. -/
theorem run_applyBlock (h : KeptIn symbol chain tables) (block : Block)
    (source : MemorySource) (now : Int64) :
    (∃ behind, ((Follower.ofRegistry (.standard symbol)).applyBlock block).run World.answer
          ⟨tables, source, now⟩ = (.ok (), ⟨behind, source, now⟩) ∧
        KeptIn symbol (chain ++ [block]) behind) ∨
      (∃ e world, ((Follower.ofRegistry (.standard symbol)).applyBlock block).run World.answer
          ⟨tables, source, now⟩ = (.error e, world)) ∧
        ∃ e, Chain.tables symbol (chain ++ [block]) = .error e := by
  let noted := tables.put ledgerModel
    (toRecord (⟨block.hash, block.height, .indexing, now⟩ : SyncStatus))
  rcases ChainIndex.run_applyBlock symbol block noted source now with
    ⟨result, behind, hrun, happlied, hledger⟩
  rw [show noted.outside = tables.outside from tables.outside_put_ledger rfl] at happlied
  have htables : Chain.tables symbol (chain ++ [block]) = result.map fun _ => behind.outside := by
    rw [tables_snoc, h.rows]
    exact happlied
  have hrecorded : ((Follower.ofRegistry (.standard symbol)).applyBlock block).run World.answer
      ⟨tables, source, now⟩ = _ := TableStore.run_recorded hrun
  rw [hrecorded]
  cases result with
  | error e => exact Or.inr ⟨⟨e, _, rfl⟩, e, htables⟩
  | ok u =>
      refine Or.inl ⟨_, rfl, ?_, Or.inr ⟨⟨block.hash, block.height, .indexed, now⟩, rfl, ?_⟩⟩
      · rw [htables, behind.outside_put_ledger rfl]
        rfl
      · rw [TableStore.selectText_put, if_pos ⟨rfl, rfl⟩]
        rfl

/-- How a step ends when there is a block above a chain in a database: it applies the block,
    or it fails because the tip cannot be read or the block cannot be indexed. -/
inductive SteppedOn (symbol : String) (chain : List Block) (next : Block)
    (source : MemorySource) (now : Int64) : Except Error SyncStep × World TableStore → Prop
  | applied {outcome : SyncStep} {behind : TableStore} (work : outcome.didWork = true)
      (read : ∃ tip, tipOf chain = .ok tip) (kept : KeptIn symbol (chain ++ [next]) behind) :
      SteppedOn symbol chain next source now (.ok outcome, ⟨behind, source, now⟩)
  | unread {e : Error} {world : World TableStore} (unread : ∃ e, tipOf chain = .error e) :
      SteppedOn symbol chain next source now (.error e, world)
  | refused {e : Error} {world : World TableStore}
      (refused : ∃ e, Chain.tables symbol (chain ++ [next]) = .error e) :
      SteppedOn symbol chain next source now (.error e, world)

/-- Whichever way the next block is found, it is applied then. -/
theorem run_applyNext (h : KeptIn symbol chain tables) (next : Block) (source : MemorySource)
    (now : Int64) {outcome : SyncStep} (hwork : outcome.didWork = true)
    (htip : ∃ tip, tipOf chain = .ok tip) :
    SteppedOn symbol chain next source now
      ((Program.bind ((Follower.ofRegistry (.standard symbol)).applyBlock next)
        fun _ => .done (.ok outcome)).run World.answer ⟨tables, source, now⟩) := by
  rw [run_bind]
  rcases h.run_applyBlock next source now with
    ⟨behind, hrun, hkept⟩ | ⟨⟨e, world, hrun⟩, htables⟩
  · rw [hrun]
    exact .applied hwork htip hkept
  · rw [hrun]
    exact .refused htables

/-- A step onto the block above a chain in a database. -/
theorem step_on {next : Block} (h : KeptIn symbol chain tables)
    (hlinked : Linked served (chain ++ next :: rest)) (now : Int64) :
    ∃ result, (Follower.ofRegistry (.standard symbol)).step.run World.answer
        ⟨tables, .ofChain (chain ++ next :: rest), now⟩ = result ∧
      SteppedOn symbol chain next (.ofChain (chain ++ next :: rest)) now result := by
  refine ⟨_, rfl, ?_⟩
  have hnumbered : Numbered chain := fun i block hget => hlinked.numbered i block (by
    rw [List.getElem?_append_left (List.getElem?_eq_some_iff.mp hget).1, hget])
  have hnumber : next.height.toNat = chain.length := hlinked.numbered _ _ (by simp)
  -- The source has the block at the height at which the follower looks for it.
  have hat : (MemorySource.ofChain (chain ++ next :: rest)).blockAt next.height = .ok next := by
    rw [MemorySource.blockAt_ofChain hlinked, hnumber, List.getElem?_append_right (Nat.le_refl _),
      Nat.sub_self]
    rfl
  rw [h.run_step hnumbered]
  cases chain using List.reverseRecOn with
  | nil =>
      have hzero : next.height = 0 := UInt32.toNat_inj.mp hnumber
      have hfound : (Follower.ofRegistry (.standard symbol)).applyGenesis.run World.answer
          ⟨tables, .ofChain ([] ++ next :: rest), now⟩ =
            (Program.bind ((Follower.ofRegistry (.standard symbol)).applyBlock next)
              fun _ => .done (.ok (.genesis next.hash))).run World.answer
                ⟨tables, .ofChain ([] ++ next :: rest), now⟩ := by
        change (Program.bind (blockAt 0).attempt _).run _ _ = _
        rw [run_bind, run_attempt, run_blockAt, ← hzero, hat]
        simp only [hzero, if_true]
        rfl
      have happly := h.run_applyNext next (.ofChain ([] ++ next :: rest)) now
        (show (SyncStep.genesis next.hash).didWork = true from rfl) ⟨none, rfl⟩
      rw [← hfound] at happly
      exact happly
  | append_singleton init last =>
      rw [tipOf_snoc]
      rcases hread : (BlockRecord.ofBlock last).reread with _ | tip
      · exact .unread ⟨_, by rw [tipOf_snoc, hread]⟩
      · rcases BlockRecord.of_reread hread with ⟨hhash, hheight⟩
        have hfollows : next.follows tip.hash tip.height = true := by
          rw [hhash, hheight]
          exact hlinked.follows
        have hfound : ((Follower.ofRegistry (.standard symbol)).advance tip).run World.answer
            ⟨tables, .ofChain (init ++ [last] ++ next :: rest), now⟩ =
              (Program.bind ((Follower.ofRegistry (.standard symbol)).applyBlock next)
                fun _ => .done (.ok (.indexed next.height next.hash))).run World.answer
                  ⟨tables, .ofChain (init ++ [last] ++ next :: rest), now⟩ := by
          change (Program.bind (blockAt (tip.height + 1)).attempt _).run _ _ = _
          rw [run_bind, run_attempt, run_blockAt, ← (Block.follows_iff.mp hfollows).1, hat]
          simp only [hfollows, if_true]
          rfl
        have happly := h.run_applyNext next (.ofChain (init ++ [last] ++ next :: rest)) now
          (show (SyncStep.indexed next.height next.hash).didWork = true from rfl)
          ⟨some tip, by rw [tipOf_snoc, hread]⟩
        rw [← hfound] at happly
        exact happly

/-! ## At the end, and off the chain -/

/-- At the end of the chain there is nothing to do, if the tip can be read. -/
theorem step_end (h : KeptIn symbol chain tables) (hlinked : Linked served chain)
    (hne : chain ≠ []) (hshort : chain.length < UInt32.size) (now : Int64) :
    (Follower.ofRegistry (.standard symbol)).step.run World.answer
        ⟨tables, .ofChain chain, now⟩ =
      ((tipOf chain).map fun _ => .upToDate, ⟨tables, .ofChain chain, now⟩) := by
  have hstep := h.run_step hlinked.numbered (.ofRegistry (.standard symbol)) (.ofChain chain) now
  cases chain using List.reverseRecOn with
  | nil => exact absurd rfl hne
  | append_singleton init last =>
      rw [hstep, tipOf_snoc]
      rcases hread : (BlockRecord.ofBlock last).reread with _ | tip
      · rfl
      · rcases BlockRecord.of_reread hread with ⟨hhash, hheight⟩
        have hnumber : tip.height.toNat = init.length := by
          rw [hheight]
          exact hlinked.numbered.height_last
        have hlast : (MemorySource.ofChain (init ++ [last])).blockHash tip.height
            = .ok tip.hash := by
          rw [MemorySource.blockHash_ofChain, hnumber,
            List.getElem?_append_right (Nat.le_refl _), Nat.sub_self, hhash]
          rfl
        have hend : (MemorySource.ofChain (init ++ [last])).blockAt (tip.height + 1)
            = .error (.source (.heightOutOfRange (tip.height + 1))) := by
          have hpast : (init ++ [last])[(tip.height + 1).toNat]? = none := by
            rw [show tip.height = last.height from hheight,
              hlinked.numbered.height_above hshort]
            exact List.getElem?_eq_none le_rfl
          rw [MemorySource.blockAt_ofChain hlinked, hpast]
        change (Program.bind (blockAt (tip.height + 1)).attempt _).run _ _ = _
        rw [run_bind, run_attempt, run_blockAt, hend]
        change (Program.bind (request (.blockHash tip.height)).attempt _).run _ _ = _
        rw [run_bind, run_attempt]
        simp only [request, Program.run, World.answer, hlast, if_true]
        rfl

/-- A tip that the source does not know cannot be undone, and nothing is written. -/
theorem step_lost {other : List Block} {init : List Block} {last : Block}
    (h : KeptIn symbol (init ++ [last]) tables) (hnumbered : Numbered (init ++ [last]))
    (hshort : (init ++ [last]).length < UInt32.size)
    (htip : ∃ tip, tipOf (init ++ [last]) = .ok tip) (hlinked : Linked served other)
    (hlost : last.hash ∉ other.map Block.hash) (now : Int64) :
    (Follower.ofRegistry (.standard symbol)).step.run World.answer
        ⟨tables, .ofChain other, now⟩ =
      (.error (.source (.blockNotFound last.hash)), ⟨tables, .ofChain other, now⟩) := by
  have hstep := h.run_step hnumbered (.ofRegistry (.standard symbol)) (.ofChain other) now
  rw [tipOf_snoc] at hstep htip
  rcases hread : (BlockRecord.ofBlock last).reread with _ | tip
  · rw [hread] at htip
    rcases htip with ⟨tip, htip⟩
    exact absurd htip (by simp)
  · rcases BlockRecord.of_reread hread with ⟨hhash, hheight⟩
    rw [hread] at hstep
    have hknown : tip.hash ∉ other.map Block.hash := by
      rw [hhash]
      exact hlost
    have hundo : ((Follower.ofRegistry (.standard symbol)).undoTip tip).run World.answer
        ⟨tables, .ofChain other, now⟩ =
          (.error (.source (.blockNotFound last.hash)), ⟨tables, .ofChain other, now⟩) := by
      change (Program.bind (Program.bind (request (.block tip.hash)) _) _).run _ _ = _
      rw [run_bind, run_bind]
      simp only [request, Program.run, World.answer, MemorySource.block_ofChain_of_not_mem hknown]
      rw [show tip.hash = last.hash from hhash]
    rw [hstep, ← hundo]
    change (Program.bind (blockAt (tip.height + 1)).attempt _).run _ _ = _
    rw [run_bind, run_attempt, run_blockAt, MemorySource.blockAt_ofChain hlinked]
    rcases hget : other[(tip.height + 1).toNat]? with _ | next
    · -- Above the tip there is nothing, and at its height there is another block or nothing.
      simp only [Error.isOutOfRange, if_true]
      change (Program.bind (request (.blockHash tip.height)).attempt _).run _ _ = _
      rw [run_bind, run_attempt]
      simp only [request, Program.run, World.answer, MemorySource.blockHash_ofChain]
      rcases hat : other[tip.height.toNat]? with _ | block
      · simp only [Error.isOutOfRange, if_true]
      · have hne : block.hash ≠ tip.hash := fun heq => hknown (List.mem_map.mpr
          ⟨block, List.mem_of_getElem? hat, heq⟩)
        simp only [if_neg hne]
    · -- The block before the one above the tip is of the chain, and so it is not the tip.
      have hfollows : next.follows tip.hash tip.height = false := by
        rw [← Bool.not_eq_true]
        intro hfollows
        rw [show tip.height = last.height from hheight, hnumbered.height_above hshort,
          List.length_append, List.length_singleton] at hget
        have hlt := (List.getElem?_eq_some_iff.mp hget).1
        have hbefore : other[init.length]? = some other[init.length] :=
          List.getElem?_eq_getElem (by omega)
        have hprevious := hlinked.linked _ _ _ hbefore hget
        rw [(Block.follows_iff.mp hfollows).2] at hprevious
        exact hknown (List.mem_map.mpr ⟨_, List.getElem_mem _, hprevious.symm⟩)
      simp only [hfollows, Bool.false_eq_true, if_false]

end Chain.KeptIn

/-! ## Cycles -/

namespace CyclePoint

variable {σ : Type} (step : Guarded σ → Except Error SyncStep × Guarded σ)

/-- Two actions of a cycle that may go on: it looks at its flag and takes a step. -/
theorem run_checking (actions steps : Nat) {state : Guarded σ}
    (hrunning : state.flags.running = true) :
    run step (actions + 2) (.checking steps) state = match step state with
      | (.ok outcome, next) =>
        if outcome.didWork then run step actions (.checking (steps + 1)) next
        else run step actions (.releasing (.ok (.completed steps))) next
      | (.error e, next) => run step actions (.releasing (.error e)) next := by
  simp only [run_succ, advance, hrunning, if_true]
  rcases step state with ⟨_ | outcome, next⟩
  · rfl
  · simp only
    split
    · rfl
    · rfl

theorem run_releasing (actions : Nat) (result : Except Error CycleOutcome) (state : Guarded σ) :
    run step (actions + 1) (.releasing result) state =
      some (result, { state with flags.indexing := false }) := by
  rw [run_succ]
  cases actions <;> rfl

/-- A cycle that has come to its end has let go of its flag. -/
theorem of_run_releasing {actions : Nat} {result result' : Except Error CycleOutcome}
    {state last : Guarded σ}
    (h : run step actions (.releasing result) state = some (result', last)) :
    0 < actions ∧ result = result' ∧ { state with flags.indexing := false } = last := by
  rcases actions with _ | actions
  · exact absurd h (by simp [run])
  · rw [run_releasing, Option.some.injEq, Prod.mk.injEq] at h
    exact ⟨Nat.succ_pos actions, h⟩

end CyclePoint

namespace Chain.KeptIn

variable {symbol : String} {served : String → Option Block} {chain rest : List Block}
variable {tables : TableStore} {now : Int64} {actions steps : Nat}

/-- A cycle over a chain that the database begins with comes to the end of the chain. -/
theorem run_on (h : KeptIn symbol chain tables) (hlinked : Linked served (chain ++ rest))
    (hne : chain ++ rest ≠ []) (hshort : (chain ++ rest).length < UInt32.size)
    (htips : TipsRead chain rest)
    (hindexed : ∃ after, Chain.tables symbol (chain ++ rest) = .ok after)
    (hactions : 2 * rest.length + 3 ≤ actions) (steps : Nat) (now : Int64) :
    ∃ behind, CyclePoint.run (Follower.ofRegistry (.standard symbol)).stepOn actions
        (.checking steps) ⟨⟨true, true⟩, ⟨tables, .ofChain (chain ++ rest), now⟩⟩ =
          some (.ok (.completed (steps + rest.length)),
            ⟨⟨true, false⟩, ⟨behind, .ofChain (chain ++ rest), now⟩⟩) ∧
      KeptIn symbol (chain ++ rest) behind ∧ (rest = [] → behind = tables) := by
  -- The induction is on the blocks to come. Each of them takes two actions, a look at the flag
  -- and a step, and three are left for one more look, the last step and the release.
  induction rest generalizing chain tables steps actions with
  | nil =>
      rw [List.append_nil] at hlinked hne hshort ⊢
      rcases Nat.exists_eq_add_of_le hactions with ⟨spare, rfl⟩
      rcases htips [] List.nil_prefix with ⟨tip, htip⟩
      rw [List.append_nil] at htip
      refine ⟨tables, ?_, h, fun _ => rfl⟩
      rw [List.length_nil, Nat.mul_zero, Nat.zero_add, Nat.add_comm 3 spare,
        CyclePoint.run_checking _ (spare + 1) steps rfl]
      simp only [Follower.stepOn, h.step_end hlinked hne hshort now, htip, Except.map,
        SyncStep.didWork, Bool.false_eq_true, if_false]
      exact CyclePoint.run_releasing _ spare _ _
  | cons next rest ih =>
      have hnext : chain ++ next :: rest = chain ++ [next] ++ rest := by simp
      rw [List.length_cons] at hactions
      rcases Nat.exists_eq_add_of_le (show 2 ≤ actions by omega) with ⟨left, rfl⟩
      -- Neither the tip nor the block can be in the way.
      rcases htips [] List.nil_prefix with ⟨tip, htip⟩
      rw [List.append_nil] at htip
      rcases hindexed with ⟨after, hafter⟩
      rcases tables_of_append (hnext ▸ hafter) with ⟨before, hbefore⟩
      rcases h.step_on hlinked now with
        ⟨_, hstep, ⟨hwork, _, hkept⟩ | ⟨e, he⟩ | ⟨e, he⟩⟩
      · rw [Nat.add_comm 2 left, CyclePoint.run_checking _ left steps rfl]
        simp only [Follower.stepOn, hstep, hwork, if_true]
        rw [hnext] at hlinked hne hshort hafter ⊢
        have htips' : TipsRead (chain ++ [next]) rest := by
          intro front hfront
          rw [List.append_assoc]
          exact htips (next :: front) (List.cons_prefix_cons.mpr ⟨rfl, hfront⟩)
        rcases ih hkept hlinked hne hshort htips' ⟨after, hafter⟩
          (show 2 * rest.length + 3 ≤ left by omega) (steps + 1) with ⟨last, hrun, hlast, _⟩
        refine ⟨last, ?_, hlast, fun hnil => absurd hnil (by simp)⟩
        rw [hrun, List.length_cons, Nat.add_assoc, Nat.add_comm 1]
      · rw [htip] at he
        exact absurd he (by simp)
      · rw [hbefore] at he
        exact absurd he (by simp)

/-- What a cycle that has succeeded says of its chain: it had enough actions, the tip could be
    read before every step, and it has come to the end. -/
theorem of_run (h : KeptIn symbol chain tables) (hlinked : Linked served (chain ++ rest))
    (hne : chain ++ rest ≠ []) (hfits : 2 * chain.length + actions ≤ patience)
    {outcome : CycleOutcome} {last : Guarded (World TableStore)}
    (hrun : CyclePoint.run (Follower.ofRegistry (.standard symbol)).stepOn actions
        (.checking steps) ⟨⟨true, true⟩, ⟨tables, .ofChain (chain ++ rest), now⟩⟩ =
      some (.ok outcome, last)) :
    2 * rest.length + 3 ≤ actions ∧ TipsRead chain rest ∧
      outcome = .completed (steps + rest.length) ∧
      KeptIn symbol (chain ++ rest) last.world.store := by
  -- A run that has come to an end had the actions for it, and a step that failed would have
  -- ended it with an error.
  induction rest generalizing chain tables steps actions with
  | nil =>
      rw [List.append_nil] at hlinked hne hrun ⊢
      rcases actions with _ | _ | actions
      · exact absurd hrun (by simp [CyclePoint.run])
      · exact absurd hrun (by simp [CyclePoint.run, CyclePoint.advance])
      · have hshort : chain.length < UInt32.size := lt_size_of_patience (by omega)
        rw [CyclePoint.run_checking _ actions steps rfl] at hrun
        simp only [Follower.stepOn, h.step_end hlinked hne hshort now] at hrun
        rcases htip : tipOf chain with e | tip
        · simp only [htip, Except.map] at hrun
          exact absurd (CyclePoint.of_run_releasing _ hrun).2.1 (by simp)
        · simp only [htip, Except.map, SyncStep.didWork, Bool.false_eq_true, if_false] at hrun
          rcases CyclePoint.of_run_releasing _ hrun with ⟨hactions, hresult, rfl⟩
          refine ⟨by rw [List.length_nil]; omega, fun front hfront => ⟨tip, ?_⟩,
            (Except.ok.inj hresult).symm, h⟩
          rw [List.prefix_nil.mp hfront, List.append_nil, htip]
  | cons next rest ih =>
      have hnext : chain ++ next :: rest = chain ++ [next] ++ rest := by simp
      rcases actions with _ | _ | actions
      · exact absurd hrun (by simp [CyclePoint.run])
      · exact absurd hrun (by simp [CyclePoint.run, CyclePoint.advance])
      · rw [CyclePoint.run_checking _ actions steps rfl] at hrun
        rcases h.step_on hlinked now with ⟨_, hstep, ⟨hwork, htip, hkept⟩ | _ | _⟩
        · simp only [Follower.stepOn, hstep, hwork, if_true] at hrun
          rw [hnext] at hlinked hne hrun ⊢
          rcases ih hkept hlinked hne (by simp; omega) hrun with
            ⟨hactions, htips, houtcome, hlast⟩
          refine ⟨by rw [List.length_cons]; omega, fun front hfront => ?_, ?_, hlast⟩
          · rcases List.prefix_cons_iff.mp hfront with rfl | ⟨behind, rfl, hbehind⟩
            · rw [List.append_nil]
              exact htip
            · have hread := htips behind hbehind
              rwa [List.append_assoc] at hread
          · rw [houtcome, List.length_cons, Nat.add_assoc, Nat.add_comm 1]
        · simp only [Follower.stepOn, hstep] at hrun
          exact absurd (CyclePoint.of_run_releasing _ hrun).2.1 (by simp)
        · simp only [Follower.stepOn, hstep] at hrun
          exact absurd (CyclePoint.of_run_releasing _ hrun).2.1 (by simp)

/-- A cycle over a chain without the tip of the database fails at once. -/
theorem run_lost {other init : List Block} {last : Block}
    (h : KeptIn symbol (init ++ [last]) tables) (hnumbered : Numbered (init ++ [last]))
    (hshort : (init ++ [last]).length < UInt32.size)
    (htip : ∃ tip, tipOf (init ++ [last]) = .ok tip) (hlinked : Linked served other)
    (hlost : last.hash ∉ other.map Block.hash) (now : Int64) :
    CyclePoint.run (Follower.ofRegistry (.standard symbol)).stepOn (actions + 3)
        (.checking steps) ⟨⟨true, true⟩, ⟨tables, .ofChain other, now⟩⟩ =
      some (.error (.source (.blockNotFound last.hash)),
        ⟨⟨true, false⟩, ⟨tables, .ofChain other, now⟩⟩) := by
  rw [CyclePoint.run_checking _ (actions + 1) steps rfl]
  simp only [Follower.stepOn, h.step_lost hnumbered hshort htip hlinked hlost now]
  exact CyclePoint.run_releasing _ actions _ _

end Chain.KeptIn

end ChainIndex
