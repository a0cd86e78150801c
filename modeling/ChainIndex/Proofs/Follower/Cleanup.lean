import ChainIndex.Proofs.Follower.Faithful
import ChainIndex.Proofs.Follower.History
import ChainIndex.Proofs.Indexer.Retract

/-!
# When cleaning up succeeds

A step begins with undoing the block of the attempt that is still open. The undo hooks cannot
know how far the attempt has come, and they mean to bear a block that was never applied. They do
not bear every block: a payload that could not be read when the block was applied cannot be read
when it is undone, and an oracle or a masternode that nobody knows is looked for again.

So cleaning up succeeds if and only if the block is retractable. Where it is not, the follower
is stuck: the step fails, the ledger still names the block, what is left is no easier to undo,
and the next step begins with the same block again, whatever has become of the best chain.

## Main definitions

* `CleanedUp`: What is left when the block of an attempt has been undone or could not be.

## Theorems

* `always_undo_retracts`, `always_cleanup_retracts`: Undoing the block that the ledger names.
* `cleanup_succeeds_iff_retractable`: Cleaning up succeeds if and only if the block is
  retractable.
-/

namespace ChainIndex

open Entity Program MemoryStore Follower

/-- What is left when the block of an attempt has been undone, or could not be. -/
def CleanedUp (store : MemoryStore) (block : Block) (result : Except Error Unit)
    (behind : MemoryStore) : Prop :=
  (result = .ok () ∧ Retractable store block ∧
      ∃ now, behind.Noted (some ⟨block.hash, block.height, .invalidated, now⟩)) ∨
    ((∃ e, result = .error e) ∧ ¬ Retractable store block ∧ ¬ Retractable behind block ∧
      ∃ now, behind.Noted (some ⟨block.hash, block.height, .error, now⟩))

section

variable {symbol : String} {source : MemorySource} {store : MemoryStore} {block : Block}

/-- Undoing a block in a world, between two notes in the ledger. -/
theorem always_undo_retracts (hlegible : store.Legible) :
    Always (.still source) (fun _ => True) (CleanedUp store block)
      ((Follower.standard symbol).work .undo block) store := by
  have hstatus : ∀ (status : SyncStatus) (behind : MemoryStore), Remaining store block behind →
      Remaining store block (saved behind status) :=
    fun status _ ⟨undone, h⟩ => ⟨undone, h.saved_status status⟩
  refine (always_work_of_runs (fun _ => True) (Remaining store block)
    (fun _ => Retractable store block) (¬ Retractable store block) trivial (fun _ _ _ => trivial)
    (fun behind status h => hstatus status behind h) (fun _ _ _ _ => trivial)
    fun now => runs_retractBlock symbol ((Remains.self hlegible).saved_status _)).mono ?_
  rintro result behind - (⟨rfl, last, now, -, hretractable, rfl⟩ | ⟨herror, hfaulty | hfailed⟩)
  · exact Or.inl ⟨rfl, hretractable, now, noted_saved _ _⟩
  · exact absurd hfaulty id
  · rcases hfailed with ⟨hnot, last, now, hlast, rfl⟩
    exact Or.inr ⟨herror, hnot, fun h => hnot ((hstatus _ last hlast).retractable h), now,
      noted_saved _ _⟩

/-- Cleaning up in a world whose source has the block that the ledger names. -/
theorem always_cleanup_retracts (hlegible : store.Legible) (hopen : store.Attempting block)
    (hserved : source.block block.hash = .ok block) :
    Always (.still source) (fun _ => True) (CleanedUp store block)
      (Follower.standard symbol).cleanup store := by
  rcases hopen with ⟨noted, hnoted, hhash, hheight, hphase⟩
  refine always_bind (always_read? hnoted trivial) ?_ ?_
  · rintro value behind - ⟨rfl, hvalue | ⟨_, hfaulty⟩⟩
    · rw [Except.ok.injEq] at hvalue
      subst hvalue
      simp only [hphase, Bool.false_eq_true, if_false]
      refine always_bind (q := fun answer after => after = behind ∧ answer = .ok block)
        (always_request trivial fun answer after hanswer => ⟨trivial, ?_⟩) ?_ ?_
      · rcases hanswer with ⟨hfaulty, _⟩ | ⟨other, now, rfl, hworld⟩
        · exact absurd hfaulty id
        · rw [hhash] at hworld
          simp only [World.answer, hserved, Prod.mk.injEq, World.mk.injEq] at hworld
          exact ⟨hworld.2.1.symm, hworld.1.symm⟩
      · rintro served after - ⟨rfl, hsame⟩
        rw [Except.ok.injEq] at hsame
        subst hsame
        simp only [if_pos hheight.symm]
        exact always_undo_retracts hlegible
      · exact fun _ _ _ h => absurd h.2 (by simp)
    · exact absurd hfaulty id
  · rintro e behind - ⟨_, hvalue | ⟨_, hfaulty⟩⟩
    · exact absurd hvalue (by simp)
    · exact absurd hfaulty id

end

/-- From every store that a follower may be met with, whatever the surroundings have been, and
    with an attempt on a block open that the source serves: if no call fails then cleaning up
    succeeds, and says so in the ledger, if and only if the block is retractable. Otherwise the
    whole step fails, and leaves a store from which the next one fails in turn. -/
theorem cleanup_succeeds_iff_retractable (symbol : String) (store : MemoryStore)
    (hmet : Met .lawless (.standard symbol) store) (block : Block) (hopen : store.Attempting block)
    (source : MemorySource) (hserved : source.block block.hash = .ok block) (now : Int64) :
    ∃ result last, (Follower.standard symbol).cleanup.run World.answer ⟨store, source, now⟩
        = (result, ⟨last, source, now⟩) ∧
      (result = .ok () ↔ Retractable store block) ∧
      (result = .ok () →
        ∃ time, last.Noted (some ⟨block.hash, block.height, .invalidated, time⟩)) ∧
      ∀ e, result = .error e →
        (Follower.standard symbol).step.run World.answer ⟨store, source, now⟩
            = (.error e, ⟨last, source, now⟩) ∧
          Met .lawless (.standard symbol) last ∧ last.Attempting block ∧
          ¬ Retractable last block := by
  rcases (always_cleanup_retracts hmet.legible hopen hserved).run now with
    ⟨result, last, hrun, -, ⟨rfl, hretractable, hnoted⟩ | ⟨⟨e, rfl⟩, hnot, hstill, hnoted⟩⟩
  · exact ⟨_, last, hrun, by simpa using hretractable, fun _ => hnoted,
      fun e he => absurd he (by simp)⟩
  · refine ⟨_, last, hrun, by simpa using hnot, fun he => absurd he (by simp), fun e' he => ?_⟩
    rw [Except.error.injEq] at he
    subst he
    -- The step goes no further than cleaning up.
    have hstep : (Follower.standard symbol).step.run World.answer ⟨store, source, now⟩
        = (.error e, ⟨last, source, now⟩) := by
      change (Program.bind (Follower.standard symbol).cleanup _).run World.answer _ = _
      rw [run_bind, hrun]
    have hsource : Surroundings.lawless.source source := trivial
    have hlast := hmet.step (reaches_run (Follower.standard symbol).step hsource now)
    rw [hstep] at hlast
    rcases hnoted with ⟨time, hnoted⟩
    exact ⟨hstep, hlast, ⟨_, hnoted, rfl, rfl, rfl⟩, hstill⟩

namespace Fork

/-- The store after a step from another one. -/
def stepped (source : MemorySource) (store : MemoryStore) : MemoryStore :=
  ((Follower.standard "DFI").step.run World.answer ⟨store, source, 0⟩).2.store

/-- The store after two steps over a best chain that has the block below the fork and another
    one. -/
def tried (block : Block) : MemoryStore :=
  stepped (.ofChain [root, block]) (stepped (.ofChain [root, block]) .empty)

/-- The source when its best chain has the left branch instead of the block. -/
def replacing (block : Block) : MemorySource :=
  (MemorySource.ofChain [root, block]).setChain [root, left]

theorem met_stepped (source : MemorySource) {store : MemoryStore}
    (h : Met .lawless (.standard "DFI") store) :
    Met .lawless (.standard "DFI") (stepped source store) := by
  have hsource : Surroundings.lawless.source source := trivial
  exact h.step (reaches_run (Follower.standard "DFI").step hsource 0)

theorem met_tried (block : Block) : Met .lawless (.standard "DFI") (tried block) := by
  unfold tried
  exact met_stepped _ (met_stepped _ .empty)

/-- A block that appoints an oracle, updates it, and creates a masternode without collateral. -/
def uncovered : Block :=
  .holding "c" "g" 1
    [.carrying "v" .appointOracle
        [("ownerAddress", .string "x"), ("priceFeeds", .array []), ("weightage", .int 1)],
      .carrying "w" .updateOracle
        [("oracleId", .string "v"), ("ownerAddress", .string "y"), ("priceFeeds", .array []),
          ("weightage", .int 2)],
      .carrying "m" .createMasternode []]

theorem attempting_uncovered : (tried uncovered).Attempting uncovered := by
  refine ⟨⟨"c", 1, .error, 0⟩, ?_, rfl, rfl, rfl⟩
  unfold Noted
  decide +kernel

theorem retractable_uncovered : Retractable (tried uncovered) uncovered := by
  have hall : ∀ p ∈ uncovered.ops, p.2.Readable ∧
      (∀ id, p.2.restored = some id →
        uncovered.createsBefore .appointOracle id p.1.txid = true) ∧ p.2.resigned = none := by
    intro p hp
    rcases List.mem_cons.mp hp with rfl | hp
    · exact ⟨⟨_, rfl⟩, fun id hid => absurd hid (by simp [DecodedOp.restored_of_ne]), rfl⟩
    rcases List.mem_cons.mp hp with rfl | hp
    · exact ⟨⟨_, rfl⟩, fun id hid => Option.some.inj hid ▸ rfl, rfl⟩
    rcases List.mem_cons.mp hp with rfl | hp
    · exact ⟨trivial, fun id hid => absurd hid (by simp [DecodedOp.restored_of_ne]), rfl⟩
    · exact absurd hp List.not_mem_nil
  exact retractable_of_own (fun p hp => (hall p hp).1) (fun p hp => (hall p hp).2.1)
    (fun p hp id hid => absurd (hid.symm.trans (hall p hp).2.2) (by simp)) _

end Fork

/-- The block is undone when the best chain no longer has it: the oracle that it updates is one
    that it appoints. -/
theorem cleanup_succeeds_iff_retractable_uncovered :
    ∃ last, (Follower.standard "DFI").cleanup.run World.answer
        ⟨Fork.tried Fork.uncovered, Fork.replacing Fork.uncovered, 0⟩
          = (.ok (), ⟨last, Fork.replacing Fork.uncovered, 0⟩) ∧
      ∃ time, last.Noted (some ⟨"c", 1, .invalidated, time⟩) := by
  rcases cleanup_succeeds_iff_retractable "DFI" (Fork.tried Fork.uncovered)
    (Fork.met_tried Fork.uncovered) Fork.uncovered Fork.attempting_uncovered
    (Fork.replacing Fork.uncovered) (by decide +kernel) 0 with ⟨result, last, hrun, hiff, hnoted, _⟩
  have hok := hiff.mpr Fork.retractable_uncovered
  exact ⟨last, hok ▸ hrun, hnoted hok⟩

namespace Fork

/-- A block with an appointment that cannot be read. -/
def garbled : Block :=
  .holding "c" "g" 1 [.carrying "v" .appointOracle []]

end Fork

/-- A block with a payload that cannot be read is never undone: when the best chain no longer has
    it no call fails and the source still serves it, but the next step fails as well, and the
    ledger does not come to say that it has been undone. -/
theorem cleanup_stuck_on_garbled :
    Met .lawless (.standard "DFI") (Fork.tried Fork.garbled) ∧
      (Fork.tried Fork.garbled).Noted (some ⟨"c", 1, .error, 0⟩) ∧
      (Fork.replacing Fork.garbled).block "c" = .ok Fork.garbled ∧
      ((Follower.standard "DFI").cleanup.run World.answer
        ⟨Fork.tried Fork.garbled, Fork.replacing Fork.garbled, 0⟩).1.isOk = false ∧
      (Fork.stepped (Fork.replacing Fork.garbled) (Fork.tried Fork.garbled)).Noted
        (some ⟨"c", 1, .error, 0⟩) := by
  refine ⟨Fork.met_tried _, ?_, by decide +kernel, by decide +kernel, ?_⟩
  · unfold Noted
    decide +kernel
  · unfold Noted
    decide +kernel

end ChainIndex
