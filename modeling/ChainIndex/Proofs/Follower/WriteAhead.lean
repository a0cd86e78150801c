import ChainIndex.Proofs.Follower.Faithful
import ChainIndex.Proofs.Follower.History

/-!
# The ledger is written ahead

Recovery rests on the order of the writes. Whenever a call is about to write to a model of
records, the hooks of a block are running, and the ledger names that very block and what is
being done with it. From one block to another the ledger moves only by saying first that the
attempt on the one has ended, and it sets out on another only when that one is due.

`work_calls` lists the calls that working on a block makes, and `Orderly.calls` finds the call
of a step among them. The rest is about moves of the ledger alone.

## Main definitions

* `SyncPhase.onward`: What the ledger may say next of a block.
* `LedgerMove`: The moves of the ledger.
* `closing`: What is left of the work on a block when its hooks have ended.
* `Hooking`: The hooks of a block are running.

## Theorems

* `work_calls`: The calls that working on a block makes.
* `Orderly.calls`: Every call of a step is made while the ledger says what it is for.
* `ledger_is_written_ahead`: The ledger along every history.
-/

namespace ChainIndex

open Entity Program MemoryStore

/-! ## Moves of the ledger -/

/-- What the ledger may say next of a block of which it says this. Of one whose attempt has
    ended it says nothing more. -/
def SyncPhase.onward : SyncPhase → List SyncPhase
  | .indexing => [.indexed, .error, .invalidating]
  | .invalidating => [.invalidated, .error, .invalidating]
  | .error => [.invalidating]
  | .indexed => []
  | .invalidated => []

/-- An attempt that has not ended may always be undone. -/
theorem SyncPhase.invalidating_onward {phase : SyncPhase} (h : phase.isTerminal = false) :
    .invalidating ∈ phase.onward := by
  cases phase with
  | indexing | invalidating | error => decide
  | indexed | invalidated => exact absurd h (by decide)

/-- The moves of the ledger over a store, by what it says before and afterwards. With no
    attempt open it sets out on a block that follows the tip, on a first block when there is
    none, or on undoing the tip. From there it goes on with the same block. -/
inductive LedgerMove (store : MemoryStore) : Option SyncStatus → SyncStatus → Prop where
  | first {status : Option SyncStatus} {block : Block} {now : Int64}
    (hrest : ∀ noted, status = some noted → noted.phase.isTerminal = true)
    (hnone : store.NoBlocks) (hheight : block.height = 0) :
    LedgerMove store status ⟨block.hash, block.height, .indexing, now⟩
  | next {status : Option SyncStatus} {block : Block} {tip : BlockRecord} {now : Int64}
    (hrest : ∀ noted, status = some noted → noted.phase.isTerminal = true)
    (htip : store.IsTip tip) (hfollows : block.follows tip.hash tip.height = true) :
    LedgerMove store status ⟨block.hash, block.height, .indexing, now⟩
  | tip {status : Option SyncStatus} {tip : BlockRecord} {now : Int64}
    (hrest : ∀ noted, status = some noted → noted.phase.isTerminal = true)
    (htip : store.IsTip tip) :
    LedgerMove store status ⟨tip.hash, tip.height, .invalidating, now⟩
  | onward {noted : SyncStatus} {phase : SyncPhase} {now : Int64}
    (h : phase ∈ noted.phase.onward) :
    LedgerMove store (some noted) ⟨noted.hash, noted.height, phase, now⟩

/-- The ledger is left as it is, or moves. -/
def LedgerSteps (store behind : MemoryStore) : Prop :=
  ∃ status status', store.Noted status ∧ behind.Noted status' ∧
    (status' = status ∨ ∃ noted, status' = some noted ∧ LedgerMove store status noted)

theorem ledgerSteps_of_eq {store behind : MemoryStore} (h : store.Legible)
    (hledger : behind.model ledgerModel = store.model ledgerModel) : LedgerSteps store behind := by
  rcases h.ledger with ⟨status, hnoted⟩
  exact ⟨status, status, hnoted, hnoted.congr hledger, Or.inl rfl⟩

/-- Writing the ledger moves it, if the call does not fail. -/
theorem ledgerSteps_of_put {env : Surroundings} {store behind : MemoryStore}
    {status : Option SyncStatus} {noted : SyncStatus} (hnoted : store.Noted status)
    (hmove : LedgerMove store status noted) {answer : Except Error Unit}
    (hanswer : env.Answers (.put ledgerModel (toRecord noted)) store answer behind) :
    LedgerSteps store behind := by
  rcases Surroundings.answers_of_reply hanswer rfl with ⟨_, _, rfl⟩ | ⟨_, rfl⟩
  · exact ⟨status, status, hnoted, hnoted, Or.inl rfl⟩
  · exact ⟨status, some noted, hnoted, noted_saved store noted, Or.inr ⟨noted, rfl, hmove⟩⟩

theorem MemoryStore.AtRest.terminal {store : MemoryStore} {status : Option SyncStatus}
    (h : store.AtRest) (hnoted : store.Noted status) (noted : SyncStatus)
    (heq : status = some noted) : noted.phase.isTerminal = true := by
  rcases h with ⟨other, hother, hterminal⟩
  exact hterminal noted (noted_injective hother hnoted ▸ heq)

/-- The first note of the work on a block that is due is a move. -/
theorem Due.move {phase : Phase} {block : Block} {store : MemoryStore}
    {status : Option SyncStatus} (h : Due phase block store) (hnoted : store.Noted status)
    (now : Int64) : LedgerMove store status ⟨block.hash, block.height, phase.during, now⟩ := by
  cases h with
  | first hrest hnone hheight => exact .first (hrest.terminal hnoted) hnone hheight
  | next hrest htip hfollows => exact .next (hrest.terminal hnoted) htip hfollows
  | tip hrest htip hhash hheight =>
      rw [hhash, hheight]
      exact .tip (hrest.terminal hnoted) htip
  | opened hopen =>
      rcases hopen with ⟨noted, hopen, hhash, hheight, hphase⟩
      rw [noted_injective hnoted hopen, ← hhash, ← hheight]
      exact .onward (SyncPhase.invalidating_onward hphase)

/-! ## The calls of the work on a block -/

section

variable {env : Surroundings} {symbol : String} {store last : MemoryStore}

theorem write_calls {hash : String} {height : UInt32} {phase : SyncPhase} {c : Call}
    {next : Except Error c.Answer → Program Unit}
    (h : Reaches env (SyncStatus.write hash height phase) store (.call c next) last) :
    last = store ∧ (c = .clock ∨
      ∃ now, c = .put ledgerModel (toRecord (⟨hash, height, phase, now⟩ : SyncStatus))) := by
  rcases reaches_bind_call h with ⟨inner, hinner, _⟩ | ⟨now, behind, hclock, hput⟩
  · cases hinner with
    | here => exact ⟨rfl, Or.inl rfl⟩
    | call _ hdone => cases hdone
  · -- Reading the clock leaves the store as it is.
    have hkept : behind = store := by
      cases hclock with
      | call hanswer hdone =>
          cases hdone
          exact Surroundings.answers_keeps hanswer rfl
    subst hkept
    cases hput with
    | here => exact ⟨rfl, Or.inr ⟨now, rfl⟩⟩
    | call _ hdone => cases hdone

/-- What is left of the work on a block when its hooks have ended: a note that they have come
    to their end, or of their error. -/
def closing (phase : Phase) (block : Block) : Except Error Unit → Program Unit
  | .ok () => SyncStatus.write block.hash block.height phase.ended
  | .error e => do
    let _ ← (SyncStatus.write block.hash block.height .error).attempt
    throw e

theorem closing_calls {phase : Phase} {block : Block} {result : Except Error Unit} {c : Call}
    {next : Except Error c.Answer → Program Unit}
    (h : Reaches env (closing phase block result) store (.call c next) last) :
    last = store ∧ (c = .clock ∨ ∃ after now, after ∈ phase.during.onward ∧
      c = .put ledgerModel (toRecord (⟨block.hash, block.height, after, now⟩ : SyncStatus))) := by
  have hended : phase.ended ∈ phase.during.onward := by cases phase <;> decide
  have herror : .error ∈ phase.during.onward := by cases phase <;> decide
  cases result with
  | ok u =>
      exact (write_calls h).imp_right fun hcall => hcall.imp_right fun ⟨now, hput⟩ =>
        ⟨phase.ended, now, hended, hput⟩
  | error e =>
      rcases reaches_attempt_call h with ⟨inner, hinner, _⟩ | ⟨_, _, _, hthrow⟩
      · exact (write_calls hinner).imp_right fun hcall => hcall.imp_right fun ⟨now, hput⟩ =>
          ⟨.error, now, herror, hput⟩
      · cases hthrow

/-- The calls that working on a block makes: the clock and the ledger before the hooks, those
    of the hooks, and the clock and the ledger after them. From the first note on the ledger
    names the block. -/
theorem work_calls {phase : Phase} {block : Block} {c : Call}
    {next : Except Error c.Answer → Program Unit} (hlegible : store.Legible)
    (h : Reaches env ((Follower.standard symbol).work phase block) store (.call c next) last) :
    c = .clock ∨
      (∃ now, last = store ∧ c = .put ledgerModel
        (toRecord (⟨block.hash, block.height, phase.during, now⟩ : SyncStatus))) ∨
      ∃ now, last.Noted (some ⟨block.hash, block.height, phase.during, now⟩) ∧
        ((∃ after now', after ∈ phase.during.onward ∧ c = .put ledgerModel
            (toRecord (⟨block.hash, block.height, after, now'⟩ : SyncStatus))) ∨
          c.OnRecords ∧ ∃ first inner tail,
            Reaches env ((Follower.standard symbol).work phase block) store
              (((Registry.full symbol).hooks phase block).attempt >>= tail) first ∧
            Reaches env ((Registry.full symbol).hooks phase block) first (.call c inner) last ∧
            next = fun answer => (inner answer).attempt >>= tail) := by
  have hwrite : Always env Legible (fun result behind =>
      (result = .ok () ∧ ∃ now, behind = saved store
        (⟨block.hash, block.height, phase.during, now⟩ : SyncStatus)) ∨
      ((∃ e, result = .error e) ∧ env.faulty ∧ behind = store))
      (SyncStatus.write block.hash block.height phase.during) store :=
    always_write hlegible fun now => hlegible.saved_status _
  rcases reaches_bind_call h with ⟨inner, hinner, _⟩ | ⟨u, first, hfirst, hrest⟩
  · rcases write_calls hinner with ⟨rfl, hclock | hput⟩
    · exact Or.inl hclock
    · rcases hput with ⟨now, hput⟩
      exact Or.inr (Or.inl ⟨now, rfl, hput⟩)
  rcases hwrite.reaches_done hfirst with ⟨-, now, rfl⟩ | ⟨⟨e, he⟩, _⟩
  · -- The first note is there, and the hooks leave the ledger alone.
    have hnoted := noted_saved store (⟨block.hash, block.height, phase.during, now⟩ : SyncStatus)
    have hruns := runs_hooks symbol phase block (hwrite.reaches hfirst)
    have hkept : ∀ behind : MemoryStore, behind.Legible → behind.model ledgerModel =
        (saved store (⟨block.hash, block.height, phase.during, now⟩ : SyncStatus)).model
          ledgerModel →
        behind.Noted (some ⟨block.hash, block.height, phase.during, now⟩) :=
      fun behind _ hledger => hnoted.congr hledger
    have hnotes : ∀ {rest : Program Unit} {behind : MemoryStore},
        Reaches env ((Registry.full symbol).hooks phase block)
          (saved store (⟨block.hash, block.height, phase.during, now⟩ : SyncStatus)) rest behind →
        behind.Noted (some ⟨block.hash, block.height, phase.during, now⟩) :=
      fun hreaches => (always_of_runs hruns hkept).reaches hreaches
    rcases reaches_attempt_call hrest with ⟨inner, hinner, hnext⟩ | ⟨result, behind, hend, htail⟩
    · exact Or.inr (Or.inr ⟨now, hnotes hinner, Or.inr ⟨hruns.onRecords hinner, _,
        inner, _, hfirst.bind _, hinner, hnext⟩⟩)
    · have hclosing : Reaches env (closing phase block result) behind (.call c next) last := by
        cases result with
        | ok u => exact htail
        | error e => exact htail
      rcases closing_calls hclosing with ⟨rfl, hclock | hput⟩
      · exact Or.inl hclock
      · exact Or.inr (Or.inr ⟨now, hnotes hend, Or.inl hput⟩)
  · exact absurd he (by simp)

/-- The call is made by the hooks of a block, in a run that came to them. -/
def MadeByHooks (env : Surroundings) (symbol : String) (program : Program SyncStep)
    (store : MemoryStore) (phase : Phase) (block : Block) (c : Call)
    (next : Except Error c.Answer → Program SyncStep) (last : MemoryStore) : Prop :=
  ∃ first inner tail,
    Reaches env program store (((Registry.full symbol).hooks phase block).attempt >>= tail)
      first ∧
    Reaches env ((Registry.full symbol).hooks phase block) first (.call c inner) last ∧
    next = fun answer => (inner answer).attempt >>= tail

theorem MadeByHooks.before {program middle : Program SyncStep} {behind : MemoryStore}
    {phase : Phase} {block : Block} {c : Call} {next : Except Error c.Answer → Program SyncStep}
    (h : MadeByHooks env symbol middle behind phase block c next last)
    (hreaches : Reaches env program store middle behind) :
    MadeByHooks env symbol program store phase block c next last := by
  rcases h with ⟨first, inner, tail, hfirst, hrest⟩
  exact ⟨first, inner, tail, hreaches.trans hfirst, hrest⟩

/-- What is to be said of a call: if it writes to a model of records then the hooks of a block
    make it and the ledger names the block, and what it does to the ledger is a move. -/
structure WrittenAhead (env : Surroundings) (symbol : String) (program : Program SyncStep)
    (store : MemoryStore) (c : Call) (next : Except Error c.Answer → Program SyncStep)
    (last : MemoryStore) : Prop where
  hooks : ∀ write, c.write? = some write → write.target.1 ≠ ledgerModel →
    ∃ phase block now, MadeByHooks env symbol program store phase block c next last ∧
      last.Noted (some ⟨block.hash, block.height, phase.during, now⟩)
  moves : ∀ answer behind, env.Answers c last answer behind → LedgerSteps last behind

/-- A call that writes nothing needs no note. -/
theorem writtenAhead_of_read {program : Program SyncStep} {c : Call}
    {next : Except Error c.Answer → Program SyncStep} (hlegible : last.Legible)
    (hread : c.write? = none) : WrittenAhead env symbol program store c next last where
  hooks write hwrite := absurd hwrite (by simp [hread])
  moves answer behind hanswer := by
    rw [Surroundings.answers_read hanswer hread]
    exact ledgerSteps_of_eq hlegible rfl

/-- Neither does a call that writes the ledger. -/
theorem writtenAhead_of_put {program : Program SyncStep} {status : Option SyncStatus}
    {noted : SyncStatus} {next : Except Error Unit → Program SyncStep}
    (hnoted : last.Noted status) (hmove : LedgerMove last status noted) :
    WrittenAhead env symbol program store (.put ledgerModel (toRecord noted)) next last where
  hooks write hwrite hmodel := by
    rw [Call.write?, Option.some.injEq] at hwrite
    exact absurd rfl (hwrite ▸ hmodel)
  moves _ _ hanswer := ledgerSteps_of_put hnoted hmove hanswer

/-- Every call of an orderly program is made while the ledger says what it is for. -/
theorem Orderly.calls {post : Except Error SyncStep → MemoryStore → Prop}
    {program : Program SyncStep} {c : Call} {next : Except Error c.Answer → Program SyncStep}
    (h : Orderly env (.standard symbol) post program store) (hlegible : store.Legible)
    (hreaches : Reaches env program store (.call c next) last) :
    WrittenAhead env symbol program store c next last := by
  have hlast := (h.legible hlegible).reaches hreaches
  induction h with
  | done => cases hreaches
  | ask hread _ ih =>
      cases hreaches with
      | here => exact writtenAhead_of_read hlegible hread
      | call hanswer hrest =>
          have hkept := Surroundings.answers_read hanswer hread
          subst hkept
          have hcall := ih _ hanswer hlegible hrest
          refine ⟨fun write hwrite hmodel => ?_, hcall.moves⟩
          rcases hcall.hooks write hwrite hmodel with ⟨phase, block, now, hmade, hnoted⟩
          exact ⟨phase, block, now, hmade.before (.call hanswer (.here _ _)), hnoted⟩
  | @work phase block k store hdue _ _ _ ih =>
      rcases reaches_bind_call hreaches with ⟨inner, hinner, rfl⟩ | ⟨⟨⟩, behind, hend, hrest⟩
      · rcases work_calls hlegible hinner with rfl | ⟨now, rfl, rfl⟩ |
          ⟨now, hnoted, ⟨after, now', hafter, rfl⟩ | ⟨hrecords, first, inner', tail, hfirst,
            hmade, rfl⟩⟩
        · exact writtenAhead_of_read hlast rfl
        · rcases hlegible.ledger with ⟨status, hstatus⟩
          exact writtenAhead_of_put hstatus (hdue.move hstatus now)
        · exact writtenAhead_of_put hnoted (.onward hafter)
        · refine ⟨fun write _ _ => ⟨phase, block, now, ⟨first, inner', fun result =>
            tail result >>= k, ?_, hmade, ?_⟩, hnoted⟩, fun answer after hanswer => ?_⟩
          · rw [← LawfulMonad.bind_assoc]
            exact hfirst.bind k
          · funext answer
            exact LawfulMonad.bind_assoc _ _ _
          · -- A call on records leaves the ledger alone, whether it fails or not.
            refine ledgerSteps_of_eq hlast ?_
            rcases hrecords.replied last with ⟨replied, behind, hreply⟩
            rcases Surroundings.answers_of_reply hanswer hreply with ⟨_, _, rfl⟩ | ⟨_, rfl⟩
            · rfl
            · exact model_ledger_reply c hrecords replied hreply
      · have hdone := (always_work symbol phase block hlegible).reaches_done hend () rfl
        have hcall := ih behind hdone hdone.legible hrest
        refine ⟨fun write hwrite hmodel => ?_, hcall.moves⟩
        rcases hcall.hooks write hwrite hmodel with ⟨phase', block', now, hmade, hnoted⟩
        exact ⟨phase', block', now, hmade.before (hend.bind k), hnoted⟩

end

/-! ## Histories -/

/-- The hooks of a block are running: a history has come to where they begin, and from there to
    this point of them. -/
def Hooking (env : Surroundings) (follower : Follower) (phase : Phase) (block : Block)
    (work : Work) : Prop :=
  ∃ first inner tail,
    Turns env follower (.start follower)
      ⟨(follower.registry.hooks phase block).attempt >>= tail, first⟩ ∧
    Reaches env (follower.registry.hooks phase block) first inner work.store ∧
    work.left = inner.attempt >>= tail

section

variable {env : Surroundings} {symbol : String} {work work' : Work}

/-- A move of a follower leaves the ledger as it is, or moves it. -/
theorem Turn.ledgerSteps (h : Turns env (.standard symbol) (.start (.standard symbol)) work)
    (hturn : Turn env (.standard symbol) work work') : LedgerSteps work.store work'.store := by
  rcases h.begun with ⟨begun, hbegun, hreaches⟩
  have hlegible : begun.Legible := Met.legible ⟨_, hbegun⟩
  cases hturn with
  | call hanswer => exact ((orderly_step hlegible).calls hlegible hreaches).moves _ _ hanswer
  | begin left store => exact ledgerSteps_of_eq (Met.legible ⟨_, h⟩) rfl

/-- From an attempt that has not ended the ledger goes on with the same block. -/
theorem LedgerMove.of_open {store : MemoryStore} {noted later : SyncStatus}
    (h : LedgerMove store (some noted) later) (hopen : noted.phase.isTerminal = false) :
    later.hash = noted.hash ∧ later.height = noted.height ∧
      later.phase ∈ noted.phase.onward := by
  have hno : ¬ ∀ other, some noted = some other → other.phase.isTerminal = true := fun hrest => by
    rw [hrest noted rfl] at hopen
    exact absurd hopen (by decide)
  cases h with
  | first hrest => exact absurd hrest hno
  | next hrest => exact absurd hrest hno
  | tip hrest => exact absurd hrest hno
  | onward hphase => exact ⟨rfl, rfl, hphase⟩

/-- What follows on an open attempt is open, unless it is the end of it. -/
theorem SyncPhase.onward_cases {phase later : SyncPhase} (h : later ∈ phase.onward) :
    (later.isTerminal = false ∧ later ≠ .indexing) ∨ later = .invalidated ∨
      phase = .indexing ∧ later = .indexed := by
  cases phase <;> cases later <;> simp_all [onward, isTerminal]

/-- As long as an attempt has not ended the ledger names its block. -/
theorem open_until_ended {noted : SyncStatus}
    (hrun : Turns env (.standard symbol) (.start (.standard symbol)) work)
    (hnoted : work.store.Noted (some noted)) (hopen : noted.phase.isTerminal = false)
    (hturns : Turns env (.standard symbol) work work') :
    (∃ later, work'.store.Noted (some later) ∧ later.hash = noted.hash ∧
        later.height = noted.height ∧ later.phase.isTerminal = false ∧
        (later.phase = .indexing → noted.phase = .indexing)) ∨
      ∃ between ended, Turns env (.standard symbol) work between ∧
        Turns env (.standard symbol) between work' ∧ between.store.Noted (some ended) ∧
        ended.hash = noted.hash ∧ ended.height = noted.height ∧
        (ended.phase = .invalidated ∨ noted.phase = .indexing ∧ ended.phase = .indexed) := by
  induction hturns with
  | refl => exact Or.inl ⟨noted, hnoted, rfl, rfl, hopen, id⟩
  | @tail middle last hmiddle hturn ih =>
      rcases ih with ⟨later, hlater, hhash, hheight, hphase, hindexing⟩ | ⟨between, ended, hbefore,
        hafter, hended⟩
      · rcases hturn.ledgerSteps (hrun.trans hmiddle) with
          ⟨status, status', hstatus, hstatus', rfl | ⟨next, rfl, hmove⟩⟩
        · exact Or.inl ⟨later, noted_injective hlater hstatus ▸ hstatus', hhash, hheight, hphase,
            hindexing⟩
        · rw [noted_injective hstatus hlater] at hmove
          rcases hmove.of_open hphase with ⟨hhash', hheight', honward⟩
          rcases SyncPhase.onward_cases honward with ⟨hopen', hne⟩ | hended | ⟨hwas, hended⟩
          · exact Or.inl ⟨next, hstatus', hhash'.trans hhash, hheight'.trans hheight, hopen',
              fun heq => absurd heq hne⟩
          · exact Or.inr ⟨last, next, hmiddle.tail hturn, .refl, hstatus', hhash'.trans hhash,
              hheight'.trans hheight, Or.inl hended⟩
          · exact Or.inr ⟨last, next, hmiddle.tail hturn, .refl, hstatus', hhash'.trans hhash,
              hheight'.trans hheight, Or.inr ⟨hindexing hwas, hended⟩⟩
      · exact Or.inr ⟨between, ended, hbefore, hafter.tail hturn, hended⟩

end

/-- Along every history, whatever fails and whatever the source is: a write to a model of
    records is made by the hooks of a block, while the ledger says of that block that they are
    running; every move leaves the ledger as it is or is one of its moves; and once it names an
    attempt that has not ended it names that block until it says that the attempt has ended. -/
theorem ledger_is_written_ahead (symbol : String) (work : Work)
    (hrun : Turns .lawless (.standard symbol) (.start (.standard symbol)) work) :
    ∃ status, work.store.Noted status ∧
      (∀ c write, work.left.next? = some c → c.write? = some write →
        write.target.1 ≠ ledgerModel →
        ∃ phase block now, Hooking .lawless (.standard symbol) phase block work ∧
          status = some ⟨block.hash, block.height, phase.during, now⟩) ∧
      (∀ work', Turn .lawless (.standard symbol) work work' →
        ∃ status', work'.store.Noted status' ∧
          (status' = status ∨
            ∃ noted, status' = some noted ∧ LedgerMove work.store status noted)) ∧
      ∀ noted, status = some noted → noted.phase.isTerminal = false →
        ∀ work', Turns .lawless (.standard symbol) work work' →
          (∃ later, work'.store.Noted (some later) ∧ later.hash = noted.hash ∧
              later.height = noted.height ∧ later.phase.isTerminal = false) ∨
            ∃ between ended, Turns .lawless (.standard symbol) work between ∧
              Turns .lawless (.standard symbol) between work' ∧
              between.store.Noted (some ended) ∧ ended.hash = noted.hash ∧
              ended.height = noted.height ∧
              (ended.phase = .invalidated ∨
                noted.phase = .indexing ∧ ended.phase = .indexed) := by
  rcases (Met.legible ⟨_, hrun⟩ : work.store.Legible).ledger with ⟨status, hstatus⟩
  refine ⟨status, hstatus, fun c write hnext hwrite hmodel => ?_, fun work' hturn => ?_,
    fun noted hnoted hopen work' hturns => ?_⟩
  · rcases hrun.begun with ⟨begun, hbegun, hreaches⟩
    have hlegible : begun.Legible := Met.legible ⟨_, hbegun⟩
    rcases work with ⟨left, store⟩
    cases left with
    | done result => exact absurd hnext (by simp [Program.next?])
    | call c' next =>
        rw [Program.next?, Option.some.injEq] at hnext
        subst hnext
        rcases ((orderly_step hlegible).calls hlegible hreaches).hooks write hwrite hmodel with
          ⟨phase, block, now, ⟨first, inner, tail, hfirst, hmade, rfl⟩, hnoted⟩
        exact ⟨phase, block, now, ⟨first, .call c' inner, tail, hbegun.trans hfirst.turns, hmade,
          rfl⟩, noted_injective hstatus hnoted⟩
  · rcases hturn.ledgerSteps hrun with ⟨other, status', hother, hstatus', hmoves⟩
    rw [noted_injective hother hstatus] at hmoves
    exact ⟨status', hstatus', hmoves⟩
  · subst hnoted
    rcases open_until_ended hrun hstatus hopen hturns with
      ⟨later, hlater, hhash, hheight, hphase, _⟩ | hended
    · exact Or.inl ⟨later, hlater, hhash, hheight, hphase⟩
    · exact Or.inr hended

namespace Fork

/-- The first step over an empty store, when it is about to write the oracle that the block
    below the fork appoints. -/
def appointing : Work :=
  let (left, world) :=
    (Follower.standard "DFI").step.after 8 (⟨.empty, source, 0⟩ : World MemoryStore)
  ⟨left, world.store⟩

theorem turns_appointing :
    Turns .lawless (.standard "DFI") (.start (.standard "DFI")) appointing :=
  have hsource : Surroundings.lawless.source source := trivial
  (reaches_after 8 (Follower.standard "DFI").step hsource 0).turns

end Fork

/-- The oracle is written while the hooks of the block that appoints it are running, and the
    ledger says so. -/
theorem ledger_is_written_ahead_appointing :
    Fork.appointing.left.next? = some (.put (model Oracle) (toRecord
      (⟨"o", "x", 1, [], Fork.root.ref⟩ : Oracle))) ∧
    ∃ phase block now, Hooking .lawless (.standard "DFI") phase block Fork.appointing ∧
      Fork.appointing.store.Noted (some ⟨block.hash, block.height, phase.during, now⟩) ∧
      block.hash = "g" := by
  have hnext : Fork.appointing.left.next? = some (.put (model Oracle) (toRecord
      (⟨"o", "x", 1, [], Fork.root.ref⟩ : Oracle))) := by decide +kernel
  rcases ledger_is_written_ahead "DFI" Fork.appointing Fork.turns_appointing with
    ⟨status, hnoted, hhooks, _⟩
  rcases hhooks _ _ hnext rfl (by decide) with ⟨phase, block, now, hhooking, rfl⟩
  refine ⟨hnext, phase, block, now, hhooking, hnoted, ?_⟩
  have hledger : Fork.appointing.store.Noted (some ⟨"g", 0, .indexing, 0⟩) := by
    unfold Noted
    decide +kernel
  have heq := noted_injective hnoted hledger
  rw [Option.some.injEq, SyncStatus.mk.injEq] at heq
  exact heq.1

end ChainIndex
