import ChainIndex.Proofs.Chain.Mirror
import ChainIndex.Proofs.Follower.Ledger
import ChainIndex.Follower.Step

/-!
# Attempts on a block

At every point of its life the store of a follower is in one of two conditions. Either it is
at rest: it mirrors a chain of served blocks and the ledger names no attempt. Or an attempt
on a block is open: the ledger names the block, and the store lies between a mirror and what
the block makes of it. Which attempt it is, applying or undoing, does not matter, nor how
many have been cut off before.

The ledger is written ahead of the first hook and after the last. So an attempt leads from
one condition to the other through stores in which it is open, and if it does not come to
its end it stays open. Cleaning up ends it by undoing the block.

## Main definitions

* `Underway`: The store lies between a mirror of a chain and the next block.
* `Rest`, `Busy`: The two conditions.
* `Pending`, `Sound`: The store is in one of the two.

## Theorems

* `always_recorded`: The hooks of a block between two notes in the ledger.
* `always_applyBlock`, `always_invalidate`: Applying and undoing a block.
* `always_cleanup`: Cleaning up ends an attempt that is open.
-/

namespace ChainIndex

open Entity Program Chain MemoryStore

/-- The store lies between a mirror of the chain and what the block makes of it. -/
def Underway (symbol : String) (chain : List Block) (block : Block) (store : MemoryStore) : Prop :=
  ∃ base, Mirrors symbol chain base ∧ Between base block (BlockKeys block) block.ops store

/-- The store mirrors a chain of served blocks, and no attempt is open. -/
structure Rest (symbol : String) (served : String → Option Block) (chain : List Block)
    (store : MemoryStore) : Prop where
  linked : Linked served chain
  mirrors : Mirrors symbol chain store
  atRest : store.AtRest

/-- An attempt on the block behind the chain is open. -/
structure Busy (symbol : String) (served : String → Option Block) (chain : List Block)
    (block : Block) (store : MemoryStore) : Prop where
  linked : Linked served (chain ++ [block])
  underway : Underway symbol chain block store
  attempting : store.Attempting block

/-- The store mirrors the chain, or will when the attempt that is open is cleaned up. -/
def Pending (symbol : String) (served : String → Option Block) (chain : List Block)
    (store : MemoryStore) : Prop :=
  Rest symbol served chain store ∨ ∃ block, Busy symbol served chain block store

/-- A store in which a follower may be met. -/
def Sound (symbol : String) (served : String → Option Block) (store : MemoryStore) : Prop :=
  ∃ chain, Pending symbol served chain store

section

variable {symbol : String} {served : String → Option Block} {env : Surroundings}
variable {chain : List Block} {block : Block} {store : MemoryStore}

theorem Mirrors.saved_status (h : Mirrors symbol chain store) (status : SyncStatus) :
    Mirrors symbol chain (saved store status) :=
  h.alike (wf_saved h.wf status) (alike_saved_status h.wf status)

theorem Underway.saved_status (h : Underway symbol chain block store) (status : SyncStatus) :
    Underway symbol chain block (saved store status) := by
  rcases h with ⟨base, hbase, hbetween⟩
  exact ⟨base, hbase, hbetween.alike_behind (wf_saved hbetween.wf status)
    (alike_saved_status hbetween.wf status)⟩

/-- Before a block is applied the store lies between already. -/
theorem Mirrors.underway (h : Mirrors symbol chain store) (block : Block) :
    Underway symbol chain block store :=
  ⟨store, h, .self h.wf⟩

theorem attempting_saved (store : MemoryStore) (block : Block) (phase : SyncPhase)
    (hphase : phase.isTerminal = false) (now : Int64) :
    (saved store (⟨block.hash, block.height, phase, now⟩ : SyncStatus)).Attempting block :=
  ⟨_, noted_saved store _, rfl, rfl, hphase⟩

theorem atRest_saved (status : SyncStatus) (h : status.phase.isTerminal = true) :
    (saved store status).AtRest :=
  ⟨some status, noted_saved store status, fun _ heq => Option.some.inj heq ▸ h⟩

/-- The hooks of a block between two notes in the ledger. From the first note on the attempt
    is open, and the second ends it. -/
theorem always_recorded {done : List Block} {before after : SyncPhase} {hooks : Program Unit}
    (hlinked : Linked served (chain ++ [block])) (hdone : Linked served done)
    (hsound : Sound symbol served store) (hunderway : Underway symbol chain block store)
    (hbefore : before.isTerminal = false) (hafter : after.isTerminal = true)
    (hruns : ∀ status : SyncStatus, Runs (Underway symbol chain block) False
      (fun _ behind => Mirrors symbol done behind) hooks (saved store status)) :
    Always env (Sound symbol served)
      (Ends env.faulty fun _ behind => Rest symbol served done behind)
      (Follower.recorded block before after hooks) store := by
  have hbusy : ∀ {t : MemoryStore}, Underway symbol chain block t → t.Attempting block →
      Sound symbol served t := fun hu ha => ⟨chain, Or.inr ⟨block, hlinked, hu, ha⟩⟩
  refine always_bind (always_write hsound fun now => hbusy (hunderway.saved_status _)
    (attempting_saved store block before hbefore now)) ?_ ?_
  · -- The first note is written, so from here on the attempt is open.
    rintro _ first - (⟨-, now, rfl⟩ | ⟨⟨e, he⟩, _⟩)
    · have hopen := attempting_saved store block before hbefore now
      refine always_attempt (always_of_runs (hruns _) fun behind hu hkept =>
        hbusy hu (hopen.congr hkept)) ?_
      rintro result behind - ⟨hu, hkept, hmirrors, hfault⟩
      have hopen := hopen.congr hkept
      have hsound := hbusy hu hopen
      cases result with
      | ok u =>
          -- The hooks came to their end; the second note may still fail.
          have hmirror := hmirrors u rfl
          refine (always_write hsound fun now => ?_).mono fun result last _ hend => ?_
          · exact ⟨done, Or.inl ⟨hdone, hmirror.saved_status _, atRest_saved _ hafter⟩⟩
          · rcases hend with ⟨rfl, now, rfl⟩ | ⟨⟨e, rfl⟩, hfaulty, _⟩
            · exact ⟨hdone, hmirror.saved_status _, atRest_saved _ hafter⟩
            · exact hfaulty
      | error e =>
          -- A hook failed: what is noted of it names the same block, and the error is passed on.
          have hfaulty := (hfault e rfl).resolve_left id
          refine always_attempt ((always_write hsound fun now => ?_).mono
            fun _ _ _ _ => trivial) (q := fun _ _ => True) ?_
          · exact hbusy (hu.saved_status _) (attempting_saved _ block .error rfl now)
          · exact fun _ last hlast _ => always_throw hlast hfaulty
    · exact absurd he (by simp)
  · rintro e behind - (⟨he, _⟩ | ⟨_, hfaulty, _⟩)
    · exact absurd he (by simp)
    · exact hfaulty

/-- Applying the next block to a store at rest. -/
theorem always_applyBlock (hserves : Serves symbol served)
    (hrest : Rest symbol served chain store) (hlinked : Linked served (chain ++ [block])) :
    Always env (Sound symbol served)
      (Ends env.faulty fun _ behind => Rest symbol served (chain ++ [block]) behind)
      ((Follower.ofRegistry (Registry.standard symbol)).applyBlock block) store := by
  refine always_recorded hlinked hlinked ⟨chain, Or.inl hrest⟩ (hrest.mirrors.underway block)
    rfl rfl fun status => ?_
  have hmirrors := hrest.mirrors.saved_status status
  exact (hmirrors.runs_applyBlock hserves hlinked).weaken
    (fun _ hbetween => ⟨_, hmirrors, hbetween⟩) id

/-- Undoing a block from wherever the attempt before was left. -/
theorem always_undoBlock (hserves : Serves symbol served) (hsound : Sound symbol served store)
    (hlinked : Linked served (chain ++ [block])) (hunderway : Underway symbol chain block store) :
    Always env (Sound symbol served)
      (Ends env.faulty fun _ behind => Rest symbol served chain behind)
      ((Follower.ofRegistry (Registry.standard symbol)).undoBlock block) store := by
  refine always_recorded hlinked hlinked.of_snoc hsound hunderway rfl rfl fun status => ?_
  rcases hunderway.saved_status status with ⟨base, hbase, hbetween⟩
  exact (hbase.runs_undoBlock hserves hlinked hbetween).weaken
    (fun _ hmid => ⟨base, hbase, hmid⟩) id

/-- The block with a hash is the one that is served under it, and if nothing fails the source
    has it. -/
structure Surroundings.Sourced (env : Surroundings) (served : String → Option Block) : Prop where
  serves : ∀ source, env.source source → ∀ hash block, source.block hash = .ok block →
    served hash = some block
  keeps : env.faulty ∨ ∀ source, env.source source → ∀ hash block, served hash = some block →
    source.block hash = .ok block

/-- What the source may answer when it is asked for a block. -/
theorem Surroundings.Sourced.answers_block (h : env.Sourced served) {hash : String}
    {answer : Except Error Block} {behind : MemoryStore}
    (hanswer : env.Answers (.block hash) store answer behind) :
    (∀ block, answer = .ok block → served hash = some block) ∧
      ∀ e block, answer = .error e → served hash = some block → env.faulty := by
  rcases hanswer with ⟨hfaulty, ⟨e, rfl⟩, _⟩ | ⟨source, now, hsource, hworld⟩
  · exact ⟨fun _ hok => absurd hok (by simp), fun _ _ _ _ => hfaulty⟩
  · simp only [World.answer, Prod.mk.injEq] at hworld
    rcases hworld with ⟨rfl, _⟩
    refine ⟨fun block hok => h.serves source hsource hash block hok,
      fun e block herror hblock => ?_⟩
    -- A source that keeps what it served would have had the block.
    refine h.keeps.resolve_right fun hkeeps => ?_
    rw [hkeeps source hsource hash block hblock] at herror
    exact absurd herror (by simp)

/-- Undoing the block with a hash, at the height that was noted of it. -/
theorem always_invalidate (hserves : Serves symbol served) (hsourced : env.Sourced served)
    (hsound : Sound symbol served store) (hlinked : Linked served (chain ++ [block]))
    (hunderway : Underway symbol chain block store) :
    Always env (Sound symbol served)
      (Ends env.faulty fun _ behind => Rest symbol served chain behind)
      ((Follower.ofRegistry (Registry.standard symbol)).invalidate block.hash block.height)
      store := by
  refine always_bind (q := fun answer behind => behind = store ∧
    (∀ other, answer = .ok other → other = block) ∧ ∀ e, answer = .error e → env.faulty)
    (always_request hsound fun answer behind hanswer => ?_) ?_ ?_
  · have hkept := Surroundings.answers_keeps hanswer rfl
    have hblock := hsourced.answers_block hanswer
    refine ⟨hkept ▸ hsound, hkept, fun other hother => ?_, fun e he => ?_⟩
    · exact Option.some.inj ((hblock.1 other hother).symm.trans hlinked.served_last)
    · exact hblock.2 e block he hlinked.served_last
  · rintro other behind - ⟨rfl, hother, -⟩
    rw [hother other rfl, if_pos rfl]
    exact always_undoBlock hserves hsound hlinked hunderway
  · exact fun e behind _ hend => hend.2.2 e rfl

theorem Pending.linked (h : Pending symbol served chain store) : Linked served chain := by
  rcases h with hrest | ⟨block, hbusy⟩
  · exact hrest.linked
  · exact hbusy.linked.of_snoc

/-- The ledger tells which of the two conditions the store is in. -/
theorem Pending.noted (h : Pending symbol served chain store) :
    ∃ status, store.Noted status ∧
      ((∀ noted, status = some noted → noted.phase.isTerminal = true) ∧
          Rest symbol served chain store ∨
        ∃ noted block, status = some noted ∧ noted.phase.isTerminal = false ∧
          noted.hash = block.hash ∧ noted.height = block.height ∧
          Busy symbol served chain block store) := by
  rcases h with hrest | ⟨block, hbusy⟩
  · rcases hrest.atRest with ⟨status, hnoted, hterminal⟩
    exact ⟨status, hnoted, Or.inl ⟨hterminal, hrest⟩⟩
  · rcases hbusy.attempting with ⟨status, hnoted, hhash, hheight, hphase⟩
    exact ⟨some status, hnoted, Or.inr ⟨status, block, rfl, hphase, hhash, hheight, hbusy⟩⟩

/-- Cleaning up ends the attempt that is open, if one is. -/
theorem always_cleanup (hserves : Serves symbol served) (hsourced : env.Sourced served)
    (hpending : Pending symbol served chain store) :
    Always env (Sound symbol served)
      (Ends env.faulty fun _ behind => Rest symbol served chain behind)
      (Follower.ofRegistry (Registry.standard symbol)).cleanup store := by
  have hsound : Sound symbol served store := ⟨chain, hpending⟩
  rcases hpending.noted with ⟨status, hnoted, hcase⟩
  refine always_bind (always_read? hnoted hsound) ?_ ?_
  · rintro value behind - ⟨rfl, hvalue | ⟨⟨e, he⟩, _⟩⟩
    · rw [Except.ok.injEq] at hvalue
      subst hvalue
      rcases hcase with ⟨hterminal, hrest⟩ | ⟨noted, block, rfl, hphase, hhash, hheight, hbusy⟩
      · cases value with
        | none => exact always_pure hsound hrest
        | some noted =>
            simp only [if_pos (hterminal noted rfl)]
            exact always_pure hsound hrest
      · simp only [hphase, Bool.false_eq_true, if_false, hhash, hheight]
        exact always_invalidate hserves hsourced hsound hbusy.linked hbusy.underway
    · exact absurd he (by simp)
  · rintro e behind - ⟨_, hvalue | ⟨_, hfaulty⟩⟩
    · exact absurd hvalue (by simp)
    · exact hfaulty

end

end ChainIndex
