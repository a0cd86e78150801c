import ChainIndex.Proofs.Follower.Settled

/-!
# Convergence

Once the source has settled, a cycle brings any store that a follower may be met in to a
mirror of the best chain, with the least work there can be: every block behind the fork is
undone, from the tip down, every block of the best chain behind the fork is applied, and
nothing else is done. What was left open is cleaned up within the first step, which is why
the chain that counts is the one that is stored after that.

The steps of the cycle are told by `Takes`. They are found by induction, first over the
blocks to undo and then over the blocks to apply; each of them is one move of the chain.

## Main definitions

* `Follower.Takes`: Steps in a world, one after another.
* `Follower.stepIn`: A step of a follower with its flags.

## Theorems

* `takes_undone`, `takes_applied`: The two halves of the way.
* `runCycle_of_ends`: A cycle takes steps until one has nothing to do or fails.
* `cycle_converges`: A cycle ends at the best chain, with the least work there can be.
-/

namespace ChainIndex

open Entity Program Chain MemoryStore

namespace Follower

/-- The follower takes these steps in the world, one after another and none with an error. -/
inductive Takes (follower : Follower) : World MemoryStore → List SyncStep → World MemoryStore →
    Prop where
  | nil (world : World MemoryStore) : Takes follower world [] world
  | cons {world next last : World MemoryStore} {outcome : SyncStep} {outcomes : List SyncStep}
    (hstep : follower.step.run World.answer world = (.ok outcome, next))
    (hrest : Takes follower next outcomes last) : Takes follower world (outcome :: outcomes) last

/-- A step of a follower, with its flags as they are. -/
def stepIn (follower : Follower) (state : Guarded (World MemoryStore)) :
    Except Error SyncStep × Guarded (World MemoryStore) :=
  let (result, world) := follower.step.run World.answer state.world
  (result, { state with world })

variable {follower : Follower} {world next last : World MemoryStore}

theorem Takes.single {outcome : SyncStep}
    (h : follower.step.run World.answer world = (.ok outcome, next)) :
    Takes follower world [outcome] next :=
  .cons h (.nil next)

theorem Takes.append {first second : List SyncStep} (h : Takes follower world first next)
    (hsecond : Takes follower next second last) : Takes follower world (first ++ second) last := by
  induction h with
  | nil world => exact hsecond
  | cons hstep _ ih => exact .cons hstep (ih hsecond)

theorem Takes.of_append {first second : List SyncStep}
    (h : Takes follower world (first ++ second) last) :
    ∃ between, Takes follower world first between ∧ Takes follower between second last := by
  induction first generalizing world with
  | nil => exact ⟨world, .nil world, h⟩
  | cons outcome rest ih =>
      cases h with
      | cons hstep hrest =>
          rcases ih hrest with ⟨between, hfirst, hsecond⟩
          exact ⟨between, .cons hstep hfirst, hsecond⟩

/-- From the check of its flag on, a cycle takes steps until one has nothing to do or fails,
    and ends as that one does. -/
theorem run_checking_of_takes {outcomes : List SyncStep} {result : Except Error SyncStep}
    {indexing : Bool} (hwork : ∀ outcome ∈ outcomes, outcome.didWork = true)
    (h : Takes follower world outcomes next)
    (hend : follower.step.run World.answer next = (result, last))
    (hresult : ∀ outcome, result = .ok outcome → outcome.didWork = false) (steps actions : Nat)
    (hactions : 2 * outcomes.length + 3 ≤ actions) :
    CyclePoint.run follower.stepIn actions (.checking steps) ⟨⟨true, indexing⟩, world⟩
      = some (result.map fun _ => .completed (steps + outcomes.length),
        ⟨⟨true, false⟩, last⟩) := by
  induction h generalizing steps actions with
  | nil world =>
      rcases Nat.exists_eq_add_of_le hactions with ⟨spare, rfl⟩
      rw [List.length_nil, Nat.mul_zero, Nat.zero_add, Nat.add_comm 3 spare]
      cases result with
      | error e =>
          simp only [CyclePoint.run_succ, CyclePoint.advance, stepIn, hend, if_true]
          cases spare <;> rfl
      | ok outcome =>
          simp only [CyclePoint.run_succ, CyclePoint.advance, stepIn, hend, hresult outcome rfl,
            if_true, Bool.false_eq_true, if_false]
          cases spare <;> rfl
  | @cons world next between outcome outcomes hstep _ ih =>
      rw [List.length_cons] at hactions
      rcases Nat.exists_eq_add_of_le (show 2 ≤ actions by omega) with ⟨left, rfl⟩
      have hdid := hwork outcome List.mem_cons_self
      rw [Nat.add_comm 2 left]
      simp only [CyclePoint.run_succ, CyclePoint.advance, stepIn, hstep, if_true, hdid]
      rw [ih (fun other hmem => hwork other (List.mem_cons_of_mem _ hmem)) hend (steps + 1) left
        (by omega), List.length_cons, Nat.add_assoc, Nat.add_comm 1]

/-- A cycle of a follower that is running takes steps until one has nothing to do or fails, and
    reports how many there were before. -/
theorem runCycle_of_ends {outcomes : List SyncStep} {result : Except Error SyncStep}
    (hwork : ∀ outcome ∈ outcomes, outcome.didWork = true)
    (h : Takes follower world outcomes next)
    (hend : follower.step.run World.answer next = (result, last))
    (hresult : ∀ outcome, result = .ok outcome → outcome.didWork = false) (actions : Nat)
    (hactions : 2 * outcomes.length + 5 ≤ actions) :
    runCycle follower.stepIn actions ⟨⟨true, false⟩, world⟩
      = some (result.map fun _ => .completed outcomes.length, ⟨⟨true, false⟩, last⟩) := by
  -- Two actions come before the first check: reading one flag and claiming the other.
  rcases Nat.exists_eq_add_of_le (show 2 ≤ actions by omega) with ⟨left, rfl⟩
  rw [runCycle, Nat.add_comm 2 left]
  simp only [CyclePoint.run_succ, CyclePoint.advance, if_true, Bool.false_eq_true, if_false]
  rw [run_checking_of_takes hwork h hend hresult 0 left (by omega), Nat.zero_add]

/-- A cycle that finds nothing more to do. -/
theorem runCycle_of_takes {outcomes : List SyncStep}
    (hwork : ∀ outcome ∈ outcomes, outcome.didWork = true)
    (h : Takes follower world (outcomes ++ [.upToDate]) last) (actions : Nat)
    (hactions : 2 * outcomes.length + 5 ≤ actions) :
    runCycle follower.stepIn actions ⟨⟨true, false⟩, world⟩
      = some (.ok (.completed outcomes.length), ⟨⟨true, false⟩, last⟩) := by
  rcases h.of_append with ⟨caught, htakes, hlast⟩
  cases hlast with
  | cons hend hrest =>
      cases hrest with
      | nil =>
          exact runCycle_of_ends hwork htakes hend
            (fun outcome heq => Except.ok.inj heq ▸ rfl) actions hactions

end Follower

open Follower

section

variable {symbol : String} {served : String → Option Block} {source : MemorySource}
variable {chain shared fresh : List Block} {store : MemoryStore}

/-- The blocks behind the fork are undone, from the tip down. -/
theorem Settled.takes_undone (h : Settled served source) (hserves : Serves symbol served)
    (hbest : source.best = shared ++ fresh) (now : Int64) (stale : List Block)
    (hdiverged : Diverged stale fresh)
    (hpending : Pending symbol served (shared ++ stale) store) :
    ∃ behind, Takes (.ofRegistry (.standard symbol)) ⟨store, source, now⟩
        (stale.reverse.map .undone) ⟨behind, source, now⟩ ∧
      Pending symbol served shared behind := by
  induction stale using List.reverseRecOn generalizing store with
  | nil => exact ⟨store, .nil _, by simpa using hpending⟩
  | append_singleton init tip ih =>
      have hlinked : Linked served (shared ++ (init ++ [tip])) := hpending.linked
      rcases h.run_step hserves hpending now with ⟨outcome, chain', behind, hrun, hmoves, hrest⟩
      rcases h.moves_back hserves hlinked hbest hdiverged hmoves with ⟨rfl, rfl⟩
      -- What is left behind the fork still goes another way than the best chain.
      have hinit : Diverged init fresh := by
        intro x y hx hy
        refine hdiverged x y ?_ hy
        rw [List.head?_append, hx]
        rfl
      rcases ih hinit (Or.inl hrest) with ⟨last, htakes, hlast⟩
      refine ⟨last, ?_, hlast⟩
      rw [List.reverse_append, List.reverse_singleton, List.singleton_append, List.map_cons]
      exact .cons hrun htakes

/-- The blocks of the best chain behind the fork are applied, one after another. -/
theorem Settled.takes_applied (h : Settled served source) (hserves : Serves symbol served)
    (now : Int64) (hbest : source.best = chain ++ fresh)
    (hpending : Pending symbol served chain store) :
    ∃ behind, Takes (.ofRegistry (.standard symbol)) ⟨store, source, now⟩
        (fresh.map .applied) ⟨behind, source, now⟩ ∧
      Pending symbol served source.best behind := by
  induction fresh generalizing chain store with
  | nil =>
      rw [List.append_nil] at hbest
      exact ⟨store, .nil _, hbest ▸ hpending⟩
  | cons next rest ih =>
      rcases h.run_step hserves hpending now with ⟨outcome, chain', behind, hrun, hmoves, hrest⟩
      rcases h.moves_on hbest hmoves with ⟨rfl, rfl⟩
      rcases ih (by rw [hbest, List.append_assoc]; rfl) (Or.inl hrest) with ⟨last, htakes, hlast⟩
      exact ⟨last, .cons hrun htakes, hlast⟩

/-- From any store that a follower may be met in, and with a source that has settled, one
    cycle undoes the blocks behind the fork from the tip down, applies the blocks of the best
    chain behind the fork, and ends with the replay of the best chain. -/
theorem cycle_converges (symbol : String) (served : String → Option Block)
    (hserves : Serves symbol served) (store : MemoryStore)
    (hreachable : Reachable served (.ofRegistry (.standard symbol)) store)
    (source : MemorySource) (hsettled : Settled served source) (now : Int64) :
    ∃ (held : List Block) (cleaned last : MemoryStore),
      let fork := (common held source.best).length
      let steps := (held.length - fork) + (source.best.length - fork)
      let follower := Follower.ofRegistry (.standard symbol)
      (follower.cleanup.run World.answer ⟨store, source, now⟩ = (.ok (), ⟨cleaned, source, now⟩) ∧
        Linked served held ∧ Holds cleaned held) ∧
      Takes follower ⟨store, source, now⟩
        ((held.drop fork).reverse.map .undone ++ (source.best.drop fork).map .applied
          ++ [.upToDate]) ⟨last, source, now⟩ ∧
      (∀ actions, 2 * steps + 5 ≤ actions →
        runCycle follower.stepIn actions ⟨⟨true, false⟩, ⟨store, source, now⟩⟩
          = some (.ok (.completed steps), ⟨⟨true, false⟩, ⟨last, source, now⟩⟩)) ∧
      Holds last source.best ∧ last.AtRest ∧
      ∃ replayed, build symbol source.best = .ok replayed ∧
        ∀ model, model ≠ ledgerModel → (last.model model).Same (replayed.model model) := by
  rcases hreachable.sound hserves with ⟨held, hpending⟩
  rcases (always_cleanup hserves hsettled.sourced hpending).run now with
    ⟨result, cleaned, hclean, _, hend⟩
  cases result with
  | error e => exact absurd hend id
  | ok u =>
      have hrest : Rest symbol served held cleaned := hend
      rcases common_fork held source.best with ⟨stale, fresh, hheld, hbest, hdiverged⟩
      have hstale : held.drop (common held source.best).length = stale := by
        have hdrop := congrArg (List.drop (common held source.best).length) hheld
        rwa [List.drop_left] at hdrop
      have hfresh : source.best.drop (common held source.best).length = fresh := by
        have hdrop := congrArg (List.drop (common held source.best).length) hbest
        rwa [List.drop_left] at hdrop
      -- Back to the fork, on to the best chain, and one step that finds nothing to do.
      rw [hheld] at hpending
      rcases hsettled.takes_undone hserves hbest now stale hdiverged hpending with
        ⟨forked, hundone, hpending⟩
      rcases hsettled.takes_applied hserves now hbest hpending with ⟨caught, happlied, hpending⟩
      rcases hsettled.run_step hserves hpending now with
        ⟨outcome, chain', last, hrun, hmoves, hlast⟩
      rcases hsettled.moves_rest hserves hmoves with ⟨rfl, rfl⟩
      have htakes := (hundone.append happlied).append (.single hrun)
      rw [← hstale, ← hfresh] at htakes
      refine ⟨held, cleaned, last, ⟨hclean, hrest.linked, hrest.holds hserves⟩, htakes, ?_,
        hlast.holds hserves, hlast.atRest, hlast.replay⟩
      intro actions hactions
      have hwork : ∀ outcome ∈ (held.drop (common held source.best).length).reverse.map
          SyncStep.undone ++ (source.best.drop (common held source.best).length).map
          SyncStep.applied, outcome.didWork = true := by
        intro outcome hmem
        rcases List.mem_append.mp hmem with hundone | happlied
        · rcases List.mem_map.mp hundone with ⟨block, _, rfl⟩
          rfl
        · rcases List.mem_map.mp happlied with ⟨block, _, rfl⟩
          exact SyncStep.didWork_applied block
      have hlength : ((held.drop (common held source.best).length).reverse.map SyncStep.undone
          ++ (source.best.drop (common held source.best).length).map SyncStep.applied).length
          = (held.length - (common held source.best).length)
            + (source.best.length - (common held source.best).length) := by
        simp
      have hcycle := runCycle_of_takes hwork htakes actions (by omega)
      rwa [hlength] at hcycle

end

namespace Fork

theorem settled : Settled served replaced where
  serves hash block := by
    refine ⟨served_of_block (by simp [replaced]), fun h => ?_⟩
    rcases mem_served h with ⟨rfl, rfl | rfl | rfl⟩
    · rfl
    · rfl
    · rfl
  linked := by
    have hroot : Linked served ([] ++ [root]) := Linked.nil.snoc rfl rfl (by simp)
    exact hroot.snoc rfl rfl fun parent hparent => Option.some.inj hparent ▸ rfl
  nonempty := by simp [replaced]

/-- The store after two steps up the left branch holds that branch, cleaned up or not. -/
theorem held_eq {held : List Block} {cleaned : MemoryStore}
    (hclean : (Follower.ofRegistry (Registry.standard "DFI")).cleanup.run World.answer
      ⟨second, replaced, 0⟩ = (.ok (), ⟨cleaned, replaced, 0⟩))
    (hlinked : Linked served held) (hholds : Holds cleaned held) : held = [root, left] := by
  have hfound : ((Follower.ofRegistry (Registry.standard "DFI")).cleanup.run World.answer
      ⟨second, replaced, 0⟩).2.store.find (model BlockRecord) "a"
        = some (stored (BlockRecord.ofBlock left)) := by decide +kernel
  rw [hclean] at hfound
  exact eq_of_holds left hlinked hholds hfound rfl (by decide +kernel)

end Fork

/-- The left branch is replaced by the right one: a block is undone, a block is applied. -/
theorem cycle_converges_fork :
    ∃ last : MemoryStore,
      Takes (.ofRegistry (.standard "DFI")) ⟨Fork.second, Fork.replaced, 0⟩
        [.undone Fork.left, .applied Fork.right, .upToDate] ⟨last, Fork.replaced, 0⟩ ∧
      runCycle (Follower.ofRegistry (.standard "DFI")).stepIn 9
          ⟨⟨true, false⟩, ⟨Fork.second, Fork.replaced, 0⟩⟩
        = some (.ok (.completed 2), ⟨⟨true, false⟩, ⟨last, Fork.replaced, 0⟩⟩) ∧
      Holds last [Fork.root, Fork.right] := by
  rcases cycle_converges "DFI" Fork.served Fork.serves Fork.second Fork.reachable_second
    Fork.replaced Fork.settled 0 with
    ⟨held, cleaned, last, ⟨hclean, hlinked, hholds⟩, htakes, hcycle, hlast, _⟩
  have hheld := Fork.held_eq hclean hlinked hholds
  subst hheld
  have hfork : common [Fork.root, Fork.left] Fork.replaced.best = [Fork.root] := by
    decide +kernel
  rw [hfork] at htakes hcycle
  exact ⟨last, htakes, hcycle 9 (by decide), hlast⟩

end ChainIndex
