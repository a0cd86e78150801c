import ChainIndex.Proofs.Follower.Hooks
import ChainIndex.Proofs.Follower.Steps

/-!
# The conduct of a follower

All that a follower ever does is to ask the source, to read its store, and to work on a block:
to apply it or to undo it, between two notes in the ledger. When it sets about a block, the
block is `Due`: the follower has found out that this is the one to work on. When it is done the
ledger says so, and the record of the block is there or gone.

`Orderly` says this of a program and a store, and `orderly_step` says it of a step. The step is
taken apart here once. What is to be known of its calls, of the chain that it leaves or of the
number of its steps is got from this by induction over what is orderly, and what is left to
show is about the work on one block. Nothing is assumed of the blocks, of the source or of what
may fail.

## Main definitions

* `Phase.during`, `Phase.ended`: What the ledger says while the hooks of a block run and when
  they have come to their end.
* `Follower.work`: Applies or undoes a block.
* `Due`: When a follower sets about a block.
* `Done`: What is left when it has finished.
* `Orderly`: A program that asks, reads and works on blocks that are due.
* `Cleaned`, `Went`: What a step has done.

## Theorems

* `always_work_of_runs`, `always_work`: Working on a block.
* `orderly_step`: A step is orderly.
* `Orderly.always`: What the work on a block keeps is kept by an orderly program.
-/

namespace ChainIndex

open Entity Program MemoryStore

/-! ## Working on a block -/

/-- What the ledger says while the hooks of a block run. -/
def Phase.during : Phase → SyncPhase
  | .apply => .indexing
  | .undo => .invalidating

/-- What the ledger says when they have come to their end. -/
def Phase.ended : Phase → SyncPhase
  | .apply => .indexed
  | .undo => .invalidated

theorem Phase.during_open (phase : Phase) : phase.during.isTerminal = false := by
  cases phase <;> rfl

theorem Phase.ended_terminal (phase : Phase) : phase.ended.isTerminal = true := by
  cases phase <;> rfl

/-- Applies or undoes a block. -/
def Follower.work (follower : Follower) (phase : Phase) (block : Block) : Program Unit :=
  recorded block phase.during phase.ended (follower.registry.hooks phase block)

theorem Follower.applyBlock_eq_work (follower : Follower) (block : Block) :
    follower.applyBlock block = follower.work .apply block :=
  rfl

theorem Follower.undoBlock_eq_work (follower : Follower) (block : Block) :
    follower.undoBlock block = follower.work .undo block :=
  rfl

/-- The follower over the standard indexers. -/
abbrev Follower.standard (symbol : String) : Follower :=
  .ofRegistry (.standard symbol)

/-- A source may have the block under its hash. -/
def Surroundings.Provides (env : Surroundings) (block : Block) : Prop :=
  ∃ source, env.source source ∧ source.block block.hash = .ok block

/-- When a follower sets about a block. No attempt is open, and the block is the first one,
    follows the tip or is the tip; or the attempt that is open is on the block. -/
inductive Due : Phase → Block → MemoryStore → Prop where
  | first {block : Block} {store : MemoryStore} (hrest : store.AtRest) (hnone : store.NoBlocks)
    (hheight : block.height = 0) : Due .apply block store
  | next {block : Block} {tip : BlockRecord} {store : MemoryStore} (hrest : store.AtRest)
    (htip : store.IsTip tip) (hfollows : block.follows tip.hash tip.height = true) :
    Due .apply block store
  | tip {block : Block} {tip : BlockRecord} {store : MemoryStore} (hrest : store.AtRest)
    (htip : store.IsTip tip) (hhash : block.hash = tip.hash) (hheight : block.height = tip.height) :
    Due .undo block store
  | opened {block : Block} {store : MemoryStore} (hopen : store.Attempting block) :
    Due .undo block store

/-- What is left when a follower has finished with a block. -/
structure Done (phase : Phase) (block : Block) (store behind : MemoryStore) : Prop where
  legible : behind.Legible
  noted : ∃ now, behind.Noted (some ⟨block.hash, block.height, phase.ended, now⟩)
  blocks : ∀ k, behind.find (model BlockRecord) k =
    if k = block.hash then phase.left block else store.find (model BlockRecord) k

theorem Done.atRest {phase : Phase} {block : Block} {store behind : MemoryStore}
    (h : Done phase block store behind) : behind.AtRest := by
  rcases h.noted with ⟨now, hnoted⟩
  exact ⟨_, hnoted, fun noted heq => Option.some.inj heq ▸ phase.ended_terminal⟩

section

variable {env : Surroundings} {store : MemoryStore}

/-- The rule for working on a block. `opened` is what the hooks keep at every point, which is
    enough as long as the ledger names the block; `ended` is what they leave when they come to
    their end, which is enough when the ledger says that they have. -/
theorem always_work_of_runs {follower : Follower} {phase : Phase} {block : Block}
    (mid opened ended : MemoryStore → Prop) (fail : Prop) (hmid : mid store)
    (hopen : ∀ behind, opened behind → behind.Attempting block → mid behind)
    (hnote : ∀ behind (status : SyncStatus), opened behind → opened (saved behind status))
    (hended : ∀ behind now, opened behind → ended behind →
      mid (saved behind (⟨block.hash, block.height, phase.ended, now⟩ : SyncStatus)))
    (hruns : ∀ now, Runs opened fail (fun _ behind => ended behind)
      (follower.registry.hooks phase block)
      (saved store (⟨block.hash, block.height, phase.during, now⟩ : SyncStatus))) :
    Always env mid (fun result behind =>
        (result = .ok () ∧ ∃ last now, opened last ∧ ended last ∧
          behind = saved last (⟨block.hash, block.height, phase.ended, now⟩ : SyncStatus)) ∨
        ((∃ e, result = .error e) ∧ (env.faulty ∨ fail ∧ ∃ last now, opened last ∧
          behind = saved last (⟨block.hash, block.height, .error, now⟩ : SyncStatus))))
      (follower.work phase block) store := by
  have hnames : ∀ {t : MemoryStore} {phase' : SyncPhase} (now : Int64),
      phase'.isTerminal = false →
      (saved t (⟨block.hash, block.height, phase', now⟩ : SyncStatus)).Attempting block :=
    fun {t _} now hphase => attempting_saved t block _ hphase now
  refine always_bind (always_write hmid fun now => hopen _ (hruns now).here
    (hnames now phase.during_open)) ?_ ?_
  · rintro _ first - (⟨-, now, rfl⟩ | ⟨⟨e, he⟩, _⟩)
    · refine always_attempt (always_of_runs (hruns now) fun behind hbehind hledger =>
        hopen behind hbehind ((hnames now phase.during_open).congr hledger)) ?_
      rintro result behind - ⟨hbehind, hledger, hok, hfail⟩
      have hmid := hopen behind hbehind ((hnames now phase.during_open).congr hledger)
      cases result with
      | ok u =>
          -- The hooks have come to their end; the second note may still fail.
          refine (always_write hmid fun now => hended behind now hbehind (hok u rfl)).mono ?_
          rintro result last - (⟨rfl, now, rfl⟩ | ⟨herror, hfaulty, _⟩)
          · exact Or.inl ⟨rfl, behind, now, hbehind, hok u rfl, rfl⟩
          · exact Or.inr ⟨herror, Or.inl hfaulty⟩
      | error e =>
          refine always_attempt (always_write hmid fun now =>
            hopen _ (hnote behind _ hbehind) (hnames now rfl)) ?_
          rintro result last hlast hend
          refine always_throw hlast (Or.inr ⟨⟨e, rfl⟩, ?_⟩)
          rcases hend with ⟨-, now, rfl⟩ | ⟨_, hfaulty, _⟩
          · exact (hfail e rfl).symm.imp_right fun h => ⟨h, behind, now, hbehind, rfl⟩
          · exact Or.inl hfaulty
    · exact absurd he (by simp)
  · rintro e behind - (⟨he, _⟩ | ⟨_, hfaulty, _⟩)
    · exact absurd he (by simp)
    · exact Or.inr ⟨⟨e, rfl⟩, Or.inl hfaulty⟩

/-- Working on a block. If it comes to its end, what is left is what its hooks leave. -/
theorem always_work (symbol : String) (phase : Phase) (block : Block)
    (hlegible : store.Legible) :
    Always env Legible (fun result behind => ∀ u, result = .ok u → Done phase block store behind)
      ((Follower.standard symbol).work phase block) store := by
  refine (always_work_of_runs Legible Legible
    (fun behind => ∀ k, behind.find (model BlockRecord) k =
      if k = block.hash then phase.left block else store.find (model BlockRecord) k)
    True hlegible (fun _ h _ => h) (fun _ status h => h.saved_status status)
    (fun _ _ h _ => h.saved_status _) fun now => ?_).mono ?_
  · refine (runs_hooks symbol phase block (hlegible.saved_status _)).mono
      fun _ behind _ hblocks k => ?_
    rw [hblocks, find_saved_status _ _ _ Recorded.model_ne_ledger]
  · rintro result behind hbehind (⟨-, last, now, -, hblocks, rfl⟩ | ⟨⟨e, rfl⟩, _⟩) u hu
    · refine ⟨hbehind, ⟨now, noted_saved _ _⟩, fun k => ?_⟩
      rw [find_saved_status _ _ _ Recorded.model_ne_ledger, hblocks]
    · exact absurd hu (by simp)

/-! ## Orderly programs -/

/-- The program asks and reads, works on blocks that are due, and goes on when it has finished
    with one. -/
inductive Orderly (env : Surroundings) (follower : Follower) {α : Type}
    (post : Except Error α → MemoryStore → Prop) : Program α → MemoryStore → Prop where
  | done {result : Except Error α} {store : MemoryStore} (hpost : post result store) :
    Orderly env follower post (.done result) store
  | ask {c : Call} {next : Except Error c.Answer → Program α} {store : MemoryStore}
    (hread : c.write? = none)
    (hrest : ∀ answer, env.Answers c store answer store →
      Orderly env follower post (next answer) store) :
    Orderly env follower post (.call c next) store
  | work {phase : Phase} {block : Block} {next : Unit → Program α} {store : MemoryStore}
    (hdue : Due phase block store) (hprovides : env.Provides block)
    (hrest : ∀ behind, Done phase block store behind →
      Orderly env follower post (next ()) behind)
    (hfail : ∀ e behind, behind.Legible → post (.error e) behind) :
    Orderly env follower post (follower.work phase block >>= next) store

/-- The program writes nothing. -/
def Reads {α : Type} : Program α → Prop
  | .done _ => True
  | .call c next => c.write? = none ∧ ∀ answer, Reads (next answer)

theorem Program.Quiet.reads {α : Type} {program : Program α} (h : Quiet program) :
    Reads program := by
  induction program with
  | done result => trivial
  | call c next ih =>
      refine ⟨h.2.1, fun answer => ?_⟩
      cases answer with
      | ok answer => exact ih _ (h.2.2.2 answer)
      | error e =>
          rcases h.2.2.1 e with ⟨e', he'⟩
          rw [he']
          trivial

/-- A call that writes nothing leaves the store as it is. -/
theorem Surroundings.answers_read {c : Call} {answer : Except Error c.Answer}
    {behind : MemoryStore} (h : env.Answers c store answer behind) (hread : c.write? = none) :
    behind = store := by
  rcases h with ⟨_, _, rfl⟩ | ⟨source, now, _, hworld⟩
  · rfl
  · cases c with
    | put | delete => simp [Call.write?] at hread
    | _ =>
        simp only [World.answer, Prod.mk.injEq, World.mk.injEq] at hworld
        exact hworld.2.1.symm

section Rules

variable {follower : Follower} {α β : Type} {post : Except Error α → MemoryStore → Prop}

theorem orderly_bind {q : Except Error β → MemoryStore → Prop} {program : Program β}
    {f : β → Program α} (h : Orderly env follower q program store)
    (hf : ∀ b behind, q (.ok b) behind → Orderly env follower post (f b) behind)
    (herror : ∀ e behind, q (.error e) behind → post (.error e) behind) :
    Orderly env follower post (program >>= f) store := by
  induction h with
  | @done result store hpost =>
      cases result with
      | ok b => exact hf b store hpost
      | error e => exact .done (herror e store hpost)
  | ask hread _ ih => exact .ask hread ih
  | work hdue hprovides hrest hfail ih =>
      rw [LawfulMonad.bind_assoc]
      exact .work hdue hprovides ih fun e behind hlegible =>
        herror e behind (hfail e behind hlegible)

theorem Orderly.mono {post' : Except Error α → MemoryStore → Prop} {program : Program α}
    (h : Orderly env follower post program store)
    (hpost : ∀ result behind, post result behind → post' result behind) :
    Orderly env follower post' program store := by
  induction h with
  | done h => exact .done (hpost _ _ h)
  | ask hread _ ih => exact .ask hread ih
  | work hdue hprovides _ hfail ih =>
      exact .work hdue hprovides ih fun e behind hlegible => hpost _ _ (hfail e behind hlegible)

/-- A program that writes nothing, and what is done about its result or its error. -/
theorem orderly_attempt {q : Except Error β → MemoryStore → Prop} {program : Program β}
    {f : Except Error β → Program α} (hreads : Reads program)
    (h : Always env (fun behind => behind = store) q program store)
    (hf : ∀ result, q result store → Orderly env follower post (f result) store) :
    Orderly env follower post (program.attempt >>= f) store := by
  change Orderly env follower post (program.attempt.bind f) store
  induction program with
  | done result => exact hf result h.2
  | call c next ih =>
      exact .ask hreads.1 fun answer hanswer =>
        ih answer (hreads.2 answer) (h.2 answer store hanswer)

/-- A program that writes nothing, and what is done about its result. -/
theorem orderly_read {q : Except Error β → MemoryStore → Prop} {program : Program β}
    {f : β → Program α} (hreads : Reads program)
    (h : Always env (fun behind => behind = store) q program store)
    (hf : ∀ b, q (.ok b) store → Orderly env follower post (f b) store)
    (herror : ∀ e, q (.error e) store → post (.error e) store) :
    Orderly env follower post (program >>= f) store := by
  change Orderly env follower post (program.bind f) store
  induction program with
  | done result =>
      cases result with
      | ok b => exact hf b h.2
      | error e => exact .done (herror e h.2)
  | call c next ih =>
      exact .ask hreads.1 fun answer hanswer =>
        ih answer (hreads.2 answer) (h.2 answer store hanswer)

/-- Work on a block that is due, and a report of it. -/
theorem orderly_work {phase : Phase} {block : Block} {a : α} (hdue : Due phase block store)
    (hprovides : env.Provides block)
    (hdone : ∀ behind, Done phase block store behind → post (.ok a) behind)
    (hfail : ∀ e behind, behind.Legible → post (.error e) behind) :
    Orderly env follower post (follower.work phase block >>= fun _ => pure a) store :=
  .work hdue hprovides (fun behind h => .done (hdone behind h)) hfail

end Rules

/-! ## A step -/

/-- What cleaning up has done: nothing, or the attempt that was open has been undone. -/
def Cleaned (store behind : MemoryStore) : Prop :=
  (store.AtRest ∧ behind = store) ∨
    ∃ block, store.Attempting block ∧ Done .undo block store behind

/-- Why a tip is undone: the block at the next height does not follow it, or there is none and
    it is not what the source has at its own height. -/
def Outdated (env : Surroundings) (tip : BlockRecord) : Prop :=
  (∃ next, env.BlockAt (tip.height + 1) (.ok next) ∧
      next.follows tip.hash tip.height = false) ∨
    (∃ e, env.BlockAt (tip.height + 1) (.error e)) ∧
      ((∃ hash, env.HashAt tip.height (.ok hash) ∧ hash ≠ tip.hash) ∨
        ∃ e, env.HashAt tip.height (.error e))

/-- What a step has done to a store in which no attempt is open, by what it reports. -/
inductive Went (env : Surroundings) (store : MemoryStore) : SyncStep → MemoryStore → Prop where
  | genesis {block : Block} {behind : MemoryStore} (hnone : store.NoBlocks)
    (hat : env.BlockAt 0 (.ok block)) (hheight : block.height = 0)
    (hdone : Done .apply block store behind) : Went env store (.genesis block.hash) behind
  | indexed {tip : BlockRecord} {block : Block} {behind : MemoryStore} (htip : store.IsTip tip)
    (hat : env.BlockAt (tip.height + 1) (.ok block))
    (hfollows : block.follows tip.hash tip.height = true)
    (hdone : Done .apply block store behind) :
    Went env store (.indexed block.height block.hash) behind
  | invalidated {tip : BlockRecord} {block : Block} {behind : MemoryStore}
    (htip : store.IsTip tip) (hhash : block.hash = tip.hash) (hwhy : Outdated env tip)
    (hdone : Done .undo block store behind) :
    Went env store (.invalidated tip.height tip.hash) behind
  | upToDate {tip : BlockRecord} (htip : store.IsTip tip) : Went env store .upToDate store

/-- What a step leaves: a legible store, and if there was no error one that tells what the step
    has done. -/
def Stepped (env : Surroundings) (store : MemoryStore) (result : Except Error SyncStep)
    (behind : MemoryStore) : Prop :=
  behind.Legible ∧ ∀ outcome, result = .ok outcome →
    ∃ cleaned, Cleaned store cleaned ∧ Went env cleaned outcome behind

/-- The source has a block under the hash that it is asked for. -/
theorem MemorySource.hash_of_block {source : MemorySource} {hash : String} {block : Block}
    (h : source.block hash = .ok block) : block.hash = hash := by
  rw [MemorySource.block] at h
  split at h
  · next found hfound =>
    rw [Except.ok.injEq] at h
    subst h
    simpa using List.find?_some hfound
  · exact absurd h (by simp)

/-- A block that was answered with is one that the source has. -/
theorem Surroundings.provides_of_answers {hash : String} {block : Block} {behind : MemoryStore}
    (h : env.Answers (.block hash) store (.ok block) behind) :
    block.hash = hash ∧ env.Provides block := by
  rcases h with ⟨_, ⟨e, he⟩, _⟩ | ⟨source, now, hsource, hworld⟩
  · exact absurd he (by simp)
  · have hblock : source.block hash = .ok block := (Prod.mk.inj hworld).1
    have hhash := MemorySource.hash_of_block hblock
    exact ⟨hhash, source, hsource, hhash ▸ hblock⟩

theorem Surroundings.BlockAt.provides {height : UInt32} {block : Block}
    (h : env.BlockAt height (.ok block)) : env.Provides block := by
  rcases h with ⟨e, _, he⟩ | ⟨hash, _, _, _, hanswer⟩
  · exact absurd he (by simp)
  · exact (provides_of_answers hanswer).2

section Steps

variable {symbol : String}

theorem reads_blockAt (height : UInt32) : Reads (blockAt height) := by
  refine ⟨rfl, fun answer => ?_⟩
  cases answer with
  | ok hash => exact ⟨rfl, fun _ => trivial⟩
  | error e => trivial

theorem reads_read? : Reads SyncStatus.read? := by
  refine ⟨rfl, fun answer => ?_⟩
  cases answer with
  | error e => trivial
  | ok value =>
      cases value with
      | none => trivial
      | some value =>
          change Reads (Program.bind (.done (decode value)) _)
          cases (decode value : Except Error SyncStatus) <;> trivial

/-- Undoing the block with a hash, once it is known to be due. -/
theorem orderly_invalidate {α : Type} {post : Except Error α → MemoryStore → Prop} {a : α}
    {hash : String} {height : UInt32} (hlegible : store.Legible)
    (hdue : ∀ block : Block, block.hash = hash → block.height = height → Due .undo block store)
    (hdone : ∀ block behind, block.hash = hash → block.height = height →
      Done .undo block store behind → post (.ok a) behind)
    (hfail : ∀ e behind, behind.Legible → post (.error e) behind) :
    Orderly env (.standard symbol) post
      ((Follower.standard symbol).invalidate hash height >>= fun _ => pure a) store := by
  refine .ask rfl fun answer hanswer => ?_
  cases answer with
  | error e => exact .done (hfail e store hlegible)
  | ok block =>
      rcases Surroundings.provides_of_answers hanswer with ⟨hhash, hprovides⟩
      by_cases hheight : block.height = height
      · change Orderly env _ post (Program.bind (if block.height = height then _ else _) _) store
        rw [if_pos hheight, Follower.undoBlock_eq_work]
        exact orderly_work (hdue block hhash hheight) hprovides
          (fun behind => hdone block behind hhash hheight) hfail
      · change Orderly env _ post (Program.bind (if block.height = height then _ else _) _) store
        rw [if_neg hheight]
        exact .done (hfail _ store hlegible)

/-- Cleaning up undoes the block of the attempt that is open, if one is. -/
theorem orderly_cleanup (hlegible : store.Legible) :
    Orderly env (.standard symbol)
      (fun result behind => behind.Legible ∧ ∀ u, result = .ok u → Cleaned store behind)
      (Follower.standard symbol).cleanup store := by
  rcases hlegible.ledger with ⟨status, hnoted⟩
  refine orderly_read reads_read? (always_read? hnoted rfl) ?_
    fun e _ => ⟨hlegible, fun _ h => absurd h (by simp)⟩
  rintro value ⟨-, hvalue | ⟨⟨e, he⟩, _⟩⟩
  · rw [Except.ok.injEq] at hvalue
    subst hvalue
    have hidle : (∀ noted, value = some noted → noted.phase.isTerminal = true) →
        store.Legible ∧ ∀ u : Unit, (Except.ok () : Except Error Unit) = .ok u →
          Cleaned store store :=
      fun hterminal => ⟨hlegible, fun _ _ => Or.inl ⟨⟨value, hnoted, hterminal⟩, rfl⟩⟩
    cases value with
    | none => exact .done (hidle fun _ h => absurd h (by simp))
    | some noted =>
        rcases hphase : noted.phase.isTerminal with _ | _
        · simp only [hphase, Bool.false_eq_true, if_false]
          have hopen : ∀ block : Block, block.hash = noted.hash → block.height = noted.height →
              store.Attempting block := fun block hhash hheight =>
            ⟨noted, hnoted, hhash.symm, hheight.symm, hphase⟩
          have hpure : ((Follower.standard symbol).invalidate noted.hash noted.height >>= fun _ =>
              pure ()) = (Follower.standard symbol).invalidate noted.hash noted.height :=
            Program.bind_pure _
          rw [← hpure]
          exact orderly_invalidate hlegible
            (fun block hhash hheight => .opened (hopen block hhash hheight))
            (fun block behind hhash hheight hdone =>
              ⟨hdone.legible, fun _ _ => Or.inr ⟨block, hopen block hhash hheight, hdone⟩⟩)
            fun e behind hbehind => ⟨hbehind, fun _ h => absurd h (by simp)⟩
        · simp only [hphase, if_true]
          exact .done (hidle fun other heq => Option.some.inj heq ▸ hphase)
  · exact absurd he (by simp)

/-- What a step has done after cleaning up. -/
def WentFrom (env : Surroundings) (store : MemoryStore) (result : Except Error SyncStep)
    (behind : MemoryStore) : Prop :=
  behind.Legible ∧ ∀ outcome, result = .ok outcome → Went env store outcome behind

theorem wentFrom_error {e : Error} {behind : MemoryStore} (h : behind.Legible) :
    WentFrom env store (.error e) behind :=
  ⟨h, fun _ heq => absurd heq (by simp)⟩

theorem wentFrom_ok {outcome : SyncStep} {behind : MemoryStore} (h : behind.Legible)
    (hwent : Went env store outcome behind) : WentFrom env store (.ok outcome) behind :=
  ⟨h, fun _ heq => Except.ok.inj heq ▸ hwent⟩

theorem orderly_applyGenesis (hlegible : store.Legible) (hrest : store.AtRest)
    (hnone : store.NoBlocks) :
    Orderly env (.standard symbol) (WentFrom env store)
      (Follower.standard symbol).applyGenesis store := by
  refine orderly_attempt (reads_blockAt 0) (always_blockAt 0 rfl) ?_
  rintro answer ⟨-, hat⟩
  cases answer with
  | error e => exact .done (wentFrom_error hlegible)
  | ok block =>
      by_cases hheight : block.height = 0
      · simp only [if_pos hheight, Follower.applyBlock_eq_work]
        exact orderly_work (.first hrest hnone hheight) hat.provides
          (fun behind hdone => wentFrom_ok hdone.legible (.genesis hnone hat hheight hdone))
          fun e behind hbehind => wentFrom_error hbehind
      · simp only [if_neg hheight]
        exact .done (wentFrom_error hlegible)

theorem orderly_undoTip {tip : BlockRecord} (hlegible : store.Legible) (hrest : store.AtRest)
    (htip : store.IsTip tip) (hwhy : Outdated env tip) :
    Orderly env (.standard symbol) (WentFrom env store)
      ((Follower.standard symbol).undoTip tip) store :=
  orderly_invalidate hlegible (fun _ hhash hheight => .tip hrest htip hhash hheight)
    (fun _ _ hhash _ hdone => wentFrom_ok hdone.legible (.invalidated htip hhash hwhy hdone))
    fun _ _ hbehind => wentFrom_error hbehind

theorem orderly_verifyTip {tip : BlockRecord} {e : Error} (hlegible : store.Legible)
    (hrest : store.AtRest) (htip : store.IsTip tip)
    (hend : env.BlockAt (tip.height + 1) (.error e)) :
    Orderly env (.standard symbol) (WentFrom env store)
      ((Follower.standard symbol).verifyTip tip) store := by
  refine orderly_attempt ⟨rfl, fun _ => trivial⟩ (always_hashAt tip.height rfl) ?_
  rintro answer ⟨-, hat⟩
  cases answer with
  | ok hash =>
      by_cases hhash : hash = tip.hash
      · simp only [if_pos hhash]
        exact .done (wentFrom_ok hlegible (.upToDate htip))
      · simp only [if_neg hhash]
        exact orderly_undoTip hlegible hrest htip
          (Or.inr ⟨⟨e, hend⟩, Or.inl ⟨hash, hat, hhash⟩⟩)
  | error e' =>
      by_cases hrange : e'.isOutOfRange = true
      · simp only [if_pos hrange]
        exact orderly_undoTip hlegible hrest htip (Or.inr ⟨⟨e, hend⟩, Or.inr ⟨e', hat⟩⟩)
      · simp only [if_neg hrange]
        exact .done (wentFrom_error hlegible)

theorem orderly_advance {tip : BlockRecord} (hlegible : store.Legible) (hrest : store.AtRest)
    (htip : store.IsTip tip) :
    Orderly env (.standard symbol) (WentFrom env store)
      ((Follower.standard symbol).advance tip) store := by
  refine orderly_attempt (reads_blockAt _) (always_blockAt (tip.height + 1) rfl) ?_
  rintro answer ⟨-, hat⟩
  cases answer with
  | ok block =>
      by_cases hfollows : block.follows tip.hash tip.height = true
      · simp only [if_pos hfollows, Follower.applyBlock_eq_work]
        exact orderly_work (.next hrest htip hfollows) hat.provides
          (fun behind hdone => wentFrom_ok hdone.legible (.indexed htip hat hfollows hdone))
          fun e behind hbehind => wentFrom_error hbehind
      · simp only [if_neg hfollows]
        exact orderly_undoTip hlegible hrest htip
          (Or.inl ⟨block, hat, by simpa using hfollows⟩)
  | error e =>
      by_cases hrange : e.isOutOfRange = true
      · simp only [if_pos hrange]
        exact orderly_verifyTip hlegible hrest htip hat
      · simp only [if_neg hrange]
        exact .done (wentFrom_error hlegible)

/-- A step is orderly. -/
theorem orderly_step (hlegible : store.Legible) :
    Orderly env (.standard symbol) (Stepped env store) (Follower.standard symbol).step store := by
  refine orderly_bind (orderly_cleanup hlegible) ?_
    fun e behind h => ⟨h.1, fun _ heq => absurd heq (by simp)⟩
  rintro u cleaned ⟨hcleaned, hclean⟩
  have hclean := hclean u rfl
  have hrest : cleaned.AtRest := by
    rcases hclean with ⟨hrest, rfl⟩ | ⟨_, _, hdone⟩
    · exact hrest
    · exact hdone.atRest
  have hgo : ∀ result behind, WentFrom env cleaned result behind →
      Stepped env store result behind := fun _ _ h =>
    ⟨h.1, fun outcome heq => ⟨cleaned, hclean, h.2 outcome heq⟩⟩
  refine orderly_read (quiet_first? BlockRecord _ _).reads
    (always_of_runs hcleaned.runs_tip? fun _ heq _ => heq) ?_
    fun e _ => ⟨hcleaned, fun _ heq => absurd heq (by simp)⟩
  rintro tip ⟨-, -, hread, -⟩
  rcases hread tip rfl with ⟨rfl, hnone⟩ | ⟨tip, rfl, htip⟩
  · exact (orderly_applyGenesis hcleaned hrest hnone).mono hgo
  · exact (orderly_advance hcleaned hrest htip).mono hgo

end Steps

/-! ## What is kept -/

/-- What the work on every block that is due keeps is kept by an orderly program. -/
theorem Orderly.always {symbol : String} {α : Type}
    {post : Except Error α → MemoryStore → Prop} {program : Program α}
    (h : Orderly env (.standard symbol) post program store) (hlegible : store.Legible)
    (mid : MemoryStore → Prop) (hmid : mid store)
    (hwork : ∀ phase block store, store.Legible → mid store → Due phase block store →
      env.Provides block →
      Always env mid (fun _ _ => True) ((Follower.standard symbol).work phase block) store) :
    Always env (fun behind => behind.Legible ∧ mid behind) post program store := by
  induction h with
  | done hpost => exact ⟨⟨hlegible, hmid⟩, hpost⟩
  | ask hread _ ih =>
      refine ⟨⟨hlegible, hmid⟩, fun answer behind hanswer => ?_⟩
      have hkept := Surroundings.answers_read hanswer hread
      subst hkept
      exact ih answer hanswer hlegible hmid
  | work hdue hprovides _ hfail ih =>
      refine always_bind ((always_work symbol _ _ hlegible).and
        (hwork _ _ _ hlegible hmid hdue hprovides)) ?_ ?_
      · rintro ⟨⟩ behind ⟨hbehind, hkept⟩ ⟨hdone, -⟩
        exact ih behind (hdone () rfl) hbehind hkept
      · exact fun e behind hbehind _ => hfail e behind hbehind.1

/-- An orderly program keeps a store legible. -/
theorem Orderly.legible {symbol : String} {α : Type}
    {post : Except Error α → MemoryStore → Prop} {program : Program α}
    (h : Orderly env (.standard symbol) post program store) (hlegible : store.Legible) :
    Always env Legible post program store :=
  (h.always hlegible Legible hlegible fun phase block _ hlegible _ _ _ =>
    (always_work symbol phase block hlegible).mono fun _ _ _ _ => trivial).weaken
      fun _ hboth => hboth.1

end

end ChainIndex
