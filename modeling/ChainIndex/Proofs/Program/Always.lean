import ChainIndex.Proofs.Program.Records

/-!
# Programs in changing surroundings

A follower does not run in a world that keeps still. Any of its calls may fail, the source
may change its best chain between any two of them, and the follower may be stopped at any
point and started again. `Surroundings` says what may happen to a call: whether it may fail,
and which sources it may be put to. A call that fails leaves the store as it is.

`Always` is the predicate of programs in such surroundings: whatever the calls are answered
with, `mid` holds of the store at every point and `post` at the end. The rules follow the
program as those of `Runs` do, and what `Runs` says of the hooks of a block carries over,
since the hooks end with the first call that fails.

Surroundings in which nothing fails and the source stays as it is are those of a world. What
always holds in them holds of the run of the program in that world.

## Main definitions

* `Surroundings`: What may happen to a call.
* `Program.Reaches`: A point that a run may come to.
* `Program.Always`: What holds whatever the calls are answered with.
* `Program.Ends`: What holds at the end, and when there may be an error.

## Theorems

* `always_bind`, `always_attempt`: The rules for sequences and for errors that are kept.
* `always_of_runs`: The hooks of a block.
* `Always.reaches`: What always holds at every point holds at every point of a run.
* `Always.run`: What always holds in a world holds of the run in it.
-/

namespace ChainIndex

/-- What may happen to the calls of a program. -/
structure Surroundings where
  /-- May calls fail? -/
  faulty : Prop
  /-- May the source be this one when a call is made? -/
  source : MemorySource → Prop

/-- A call changes the store of a world at most. -/
theorem World.answer_keeps (c : Call) (store : MemoryStore) (source : MemorySource)
    (now : Int64) : ∃ answer behind,
      World.answer c ⟨store, source, now⟩ = (answer, ⟨behind, source, now⟩) := by
  cases c <;> exact ⟨_, _, rfl⟩

namespace Surroundings

/-- A call may be answered so, and leave this store behind: it fails and changes nothing, or
    it is answered by a world with one of the sources. -/
def Answers (env : Surroundings) (c : Call) (store : MemoryStore)
    (answer : Except Error c.Answer) (behind : MemoryStore) : Prop :=
  (env.faulty ∧ (∃ e, answer = .error e) ∧ behind = store) ∨
    ∃ source now, env.source source ∧
      World.answer c ⟨store, source, now⟩ = (answer, ⟨behind, source, now⟩)

/-- Nothing fails, and the source stays as it is. -/
def still (source : MemorySource) : Surroundings :=
  ⟨False, fun other => other = source⟩

variable {env : Surroundings} {store behind : MemoryStore}

/-- A call to the store fails or is answered as the store replies. -/
theorem answers_of_reply {c : Call} {answer : Except Error c.Answer}
    (h : env.Answers c store answer behind) {replied : c.Answer} {after : MemoryStore}
    (hreply : store.reply c = some (replied, after)) :
    (env.faulty ∧ (∃ e, answer = .error e) ∧ behind = store) ∨
      (answer = .ok replied ∧ behind = after) := by
  rcases h with hfault | ⟨source, now, _, hanswer⟩
  · exact Or.inl hfault
  · rw [World.answer_of_reply c replied hreply, Prod.mk.injEq, World.mk.injEq] at hanswer
    exact Or.inr ⟨hanswer.1.symm, hanswer.2.1.symm⟩

/-- A call that is not to the store leaves it as it is. -/
theorem answers_keeps {c : Call} {answer : Except Error c.Answer}
    (h : env.Answers c store answer behind) (hc : c.model? = none) : behind = store := by
  rcases h with ⟨_, _, rfl⟩ | ⟨source, now, _, hanswer⟩
  · rfl
  · cases c with
    -- Only the calls to the store have a model.
    | get | put | delete | scan | extent => simp [Call.model?] at hc
    | blockHash | block | connectionCount | chainInfo | clock | hook =>
        simp only [World.answer, Prod.mk.injEq, World.mk.injEq] at hanswer
        exact hanswer.2.1.symm

end Surroundings

namespace Program

variable {α β : Type}

/-- A run of the program from the store may come to a point at which this is left of it, with
    that store. -/
inductive Reaches (env : Surroundings) : Program α → MemoryStore → Program α → MemoryStore →
    Prop where
  | here (program : Program α) (store : MemoryStore) : Reaches env program store program store
  | call {c : Call} {next : Except Error c.Answer → Program α} {store behind last : MemoryStore}
    {answer : Except Error c.Answer} {rest : Program α}
    (hanswer : env.Answers c store answer behind)
    (hrest : Reaches env (next answer) behind rest last) :
    Reaches env (.call c next) store rest last

/-- Whatever the calls are answered with, `mid` holds of the store at every point and `post`
    at the end. -/
def Always (env : Surroundings) (mid : MemoryStore → Prop)
    (post : Except Error α → MemoryStore → Prop) : Program α → MemoryStore → Prop
  | .done result, store => mid store ∧ post result store
  | .call c next, store =>
    mid store ∧ ∀ answer behind, env.Answers c store answer behind →
      Always env mid post (next answer) behind

/-- `post` holds of the result, and there is an error only if `fail`. -/
def Ends (fail : Prop) (post : α → MemoryStore → Prop) : Except Error α → MemoryStore → Prop
  | .ok a, behind => post a behind
  | .error _, _ => fail

section Rules

variable {env : Surroundings} {mid : MemoryStore → Prop}
variable {post : Except Error α → MemoryStore → Prop} {store : MemoryStore}

theorem always_pure {a : α} (hmid : mid store) (hpost : post (.ok a) store) :
    Always env mid post (pure a) store :=
  ⟨hmid, hpost⟩

theorem always_throw {e : Error} (hmid : mid store) (hpost : post (.error e) store) :
    Always env mid post (throw e : Program α) store :=
  ⟨hmid, hpost⟩

theorem always_request {c : Call} {post : Except Error c.Answer → MemoryStore → Prop}
    (hmid : mid store) (hanswer : ∀ answer behind, env.Answers c store answer behind →
      mid behind ∧ post answer behind) : Always env mid post (request c) store :=
  ⟨hmid, hanswer⟩

/-- One program and, unless it ended with an error, another. -/
theorem always_bind {q : Except Error β → MemoryStore → Prop} {program : Program β}
    {f : β → Program α} (h : Always env mid q program store)
    (hf : ∀ b behind, mid behind → q (.ok b) behind → Always env mid post (f b) behind)
    (herror : ∀ e behind, mid behind → q (.error e) behind → post (.error e) behind) :
    Always env mid post (program >>= f) store := by
  change Always env mid post (program.bind f) store
  induction program generalizing store with
  | done result =>
      cases result with
      | ok b => exact hf b store h.1 h.2
      | error e => exact ⟨h.1, herror e store h.1 h.2⟩
  | call c next ih =>
      exact ⟨h.1, fun answer behind hanswer => ih answer (h.2 answer behind hanswer)⟩

/-- One program whose error is kept as a result, and another that looks at it. -/
theorem always_attempt {q : Except Error β → MemoryStore → Prop} {program : Program β}
    {f : Except Error β → Program α} (h : Always env mid q program store)
    (hf : ∀ result behind, mid behind → q result behind →
      Always env mid post (f result) behind) :
    Always env mid post (program.attempt >>= f) store := by
  change Always env mid post (program.attempt.bind f) store
  induction program generalizing store with
  | done result => exact hf result store h.1 h.2
  | call c next ih =>
      exact ⟨h.1, fun answer behind hanswer => ih answer (h.2 answer behind hanswer)⟩

/-- One program and then another, both of which end with an error only if they may. -/
theorem always_seq {fail fail' : Prop} {q : β → MemoryStore → Prop}
    {post : α → MemoryStore → Prop} {program : Program β} {f : β → Program α}
    (h : Always env mid (Ends fail q) program store)
    (hf : ∀ b behind, mid behind → q b behind →
      Always env mid (Ends fail' post) (f b) behind)
    (hfail : fail → fail') : Always env mid (Ends fail' post) (program >>= f) store :=
  always_bind h hf fun _ _ _ hfailed => hfail hfailed

/-- What holds at the end may be weakened, given that `mid` holds there too. -/
theorem Always.mono {post' : Except Error α → MemoryStore → Prop} {program : Program α}
    (h : Always env mid post program store)
    (hpost : ∀ result behind, mid behind → post result behind → post' result behind) :
    Always env mid post' program store := by
  induction program generalizing store with
  | done result => exact ⟨h.1, hpost result store h.1 h.2⟩
  | call c next ih =>
      exact ⟨h.1, fun answer behind hanswer => ih answer (h.2 answer behind hanswer)⟩

/-- The same for what holds at every point. -/
theorem Always.weaken {mid' : MemoryStore → Prop} {program : Program α}
    (h : Always env mid post program store) (hmid : ∀ behind, mid behind → mid' behind) :
    Always env mid' post program store := by
  induction program generalizing store with
  | done result => exact ⟨hmid store h.1, h.2⟩
  | call c next ih =>
      exact ⟨hmid store h.1, fun answer behind hanswer => ih answer (h.2 answer behind hanswer)⟩

/-- Two things that always hold, hold together. -/
theorem Always.and {mid' : MemoryStore → Prop} {post' : Except Error α → MemoryStore → Prop}
    {program : Program α} (h : Always env mid post program store)
    (h' : Always env mid' post' program store) :
    Always env (fun behind => mid behind ∧ mid' behind)
      (fun result behind => post result behind ∧ post' result behind) program store := by
  induction program generalizing store with
  | done result => exact ⟨⟨h.1, h'.1⟩, h.2, h'.2⟩
  | call c next ih =>
      exact ⟨⟨h.1, h'.1⟩, fun answer behind hanswer =>
        ih answer (h.2 answer behind hanswer) (h'.2 answer behind hanswer)⟩

/-- A program that is always run within bounds, with the ledger as it is. It ends with an
    error only if it may or if calls may fail. -/
theorem always_of_runs {mid' : MemoryStore → Prop} {fail : Prop}
    {post : α → MemoryStore → Prop} {program : Program α} (h : Runs mid fail post program store)
    (hmid : ∀ behind, mid behind → behind.model ledgerModel = store.model ledgerModel →
      mid' behind) :
    Always env mid' (fun result behind =>
      mid behind ∧ behind.model ledgerModel = store.model ledgerModel ∧
        (∀ a, result = .ok a → post a behind) ∧ (∀ e, result = .error e → fail ∨ env.faulty))
      program store := by
  induction program generalizing store with
  | done result =>
      refine ⟨hmid store h.here rfl, h.here, rfl, fun a ha => ?_, fun e he => Or.inl ?_⟩
      · subst ha
        exact h.2
      · subst he
        exact h.2
  | call c next ih =>
      have hbefore := h.here
      rcases h with ⟨_, hrecords, herror, replied, after, hreply, hrest⟩
      refine ⟨hmid store hbefore rfl, fun answer behind hanswer => ?_⟩
      -- The call is answered as the store replies, unless it fails.
      have hledger := MemoryStore.model_ledger_reply c hrecords replied hreply
      rcases Surroundings.answers_of_reply hanswer hreply with ⟨hfaulty, ⟨e, rfl⟩, rfl⟩ | ⟨rfl, rfl⟩
      · -- The first call that fails ends the program.
        rcases herror e with ⟨e', he'⟩
        rw [he']
        exact ⟨hmid behind hbefore rfl, hbefore, rfl, fun _ ha => absurd ha (by simp),
          fun _ _ => Or.inr hfaulty⟩
      · refine (ih _ hrest fun last hlast hkept => hmid last hlast (hkept.trans hledger)).mono ?_
        exact fun result last _ hend => ⟨hend.1, hend.2.1.trans hledger, hend.2.2⟩

end Rules

/-! ## What a run comes to -/

section Outcome

variable {env : Surroundings} {mid : MemoryStore → Prop}
variable {post : Except Error α → MemoryStore → Prop} {store : MemoryStore}

theorem Always.here {program : Program α} (h : Always env mid post program store) : mid store := by
  cases program with
  | done result => exact h.1
  | call c next => exact h.1

/-- What always holds at every point holds at every point that a run may come to. -/
theorem Always.reaches {program rest : Program α} {last : MemoryStore}
    (h : Always env mid post program store) (hreaches : Reaches env program store rest last) :
    mid last := by
  induction hreaches with
  | here program store => exact h.here
  | call hanswer _ ih => exact ih (h.2 _ _ hanswer)

/-- What always holds at the end holds at the end of the run in a world. -/
theorem Always.run {program : Program α} {source : MemorySource}
    (h : Always (.still source) mid post program store) (now : Int64) :
    ∃ result behind,
      program.run World.answer ⟨store, source, now⟩ = (result, ⟨behind, source, now⟩) ∧
        mid behind ∧ post result behind := by
  induction program generalizing store with
  | done result => exact ⟨result, store, rfl, h.1, h.2⟩
  | call c next ih =>
      rcases World.answer_keeps c store source now with ⟨answer, behind, hanswer⟩
      rcases ih answer (h.2 answer behind (Or.inr ⟨source, now, rfl, hanswer⟩)) with
        ⟨result, last, hrun, hend⟩
      refine ⟨result, last, ?_, hend⟩
      rw [Program.run, hanswer]
      exact hrun

/-- The run in a world is one that the program may come to, when the source of the world is
    one of the sources. -/
theorem reaches_run (program : Program α) {source : MemorySource} (hsource : env.source source)
    (now : Int64) :
    Reaches env program store (.done (program.run World.answer ⟨store, source, now⟩).1)
      (program.run World.answer ⟨store, source, now⟩).2.store := by
  induction program generalizing store with
  | done result => exact .here _ _
  | call c next ih =>
      rcases World.answer_keeps c store source now with ⟨answer, behind, hanswer⟩
      rw [Program.run, hanswer]
      exact .call (Or.inr ⟨source, now, hsource, hanswer⟩) (ih answer)

end Outcome

end Program

end ChainIndex
