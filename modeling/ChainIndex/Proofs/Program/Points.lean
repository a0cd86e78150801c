import ChainIndex.Proofs.Program.Always

/-!
# The points of a run

A run of a program made of two comes to a point of the first or, when the first has ended, to
a point of the second. Here this is said of the points at which a call is made, since a point
at which the first program has just ended is one of the second already. With it the next call
of a long program is traced back to the part that makes it.

## Main definitions

* `Program.next?`: The call that a program makes next.
* `Program.after`: What is left of a program after some calls in a world.
* `Program.runFailing`: A run in which one call fails.

## Theorems

* `Reaches.bind`, `Reaches.trans`: Points of the parts are points of the whole.
* `reaches_bind_call`, `reaches_attempt_call`: A call of the whole is a call of a part.
* `reaches_runFailing`: What is left when a call has failed is a point of a run.
* `Runs.onRecords`: The hooks of a block call nothing but records.
-/

namespace ChainIndex

namespace Program

variable {α β : Type}

/-- The call that a program makes next, if it is not done. -/
def next? : Program α → Option Call
  | .done _ => none
  | .call c _ => some c

/-- What is left of a program after some calls in a world, and the world by then. -/
def after {σ : Type} [KeyedStore σ] : Nat → Program α → World σ → Program α × World σ
  | 0, program, world => (program, world)
  | _, .done result, world => (.done result, world)
  | calls + 1, .call c next, world =>
    after calls (next (World.answer c world).1) (World.answer c world).2

/-- Runs a program in a world in which the call behind so many others fails, and no other. -/
def runFailing {σ : Type} [KeyedStore σ] (e : Error) :
    Nat → Program α → World σ → Except Error α × World σ
  | _, .done result, world => (result, world)
  | 0, .call _ next, world => (next (.error e)).run World.answer world
  | calls + 1, .call c next, world =>
    runFailing e calls (next (World.answer c world).1) (World.answer c world).2

section

variable {env : Surroundings} {store behind last : MemoryStore} {program rest : Program α}

theorem Reaches.trans {program middle rest : Program α}
    (h : Reaches env program store middle behind)
    (hrest : Reaches env middle behind rest last) : Reaches env program store rest last := by
  induction h with
  | here => exact hrest
  | call hanswer _ ih => exact .call hanswer (ih hrest)

/-- One more call. -/
theorem Reaches.answer {c : Call} {next : Except Error c.Answer → Program α}
    {answer : Except Error c.Answer} (h : Reaches env program store (.call c next) behind)
    (hanswer : env.Answers c behind answer last) : Reaches env program store (next answer) last :=
  h.trans (.call hanswer (.here _ _))

/-- A point of the first of two programs. -/
theorem Reaches.bind {program rest : Program β} (h : Reaches env program store rest last)
    (f : β → Program α) : Reaches env (program >>= f) store (rest >>= f) last := by
  induction h with
  | here => exact .here _ _
  | call hanswer _ ih => exact .call hanswer ih

/-- A call of two programs is made by the first, or by the second when the first has ended. -/
theorem reaches_bind_call {program : Program β} {f : β → Program α} {c : Call}
    {next : Except Error c.Answer → Program α}
    (h : Reaches env (program >>= f) store (.call c next) last) :
    (∃ inner, Reaches env program store (.call c inner) last ∧
        next = fun answer => inner answer >>= f) ∨
      ∃ b behind, Reaches env program store (.done (.ok b)) behind ∧
        Reaches env (f b) behind (.call c next) last := by
  change Reaches env (program.bind f) store (.call c next) last at h
  induction program generalizing store with
  | done result =>
      cases result with
      | ok b => exact Or.inr ⟨b, store, .here _ _, h⟩
      | error e => cases h
  | call c' next' ih =>
      cases h with
      | here => exact Or.inl ⟨next', .here _ _, rfl⟩
      | call hanswer hrest =>
          rcases ih _ hrest with ⟨inner, hinner, rfl⟩ | ⟨b, behind, hend, hbehind⟩
          · exact Or.inl ⟨inner, .call hanswer hinner, rfl⟩
          · exact Or.inr ⟨b, behind, .call hanswer hend, hbehind⟩

/-- The same where the second program looks at the error of the first. -/
theorem reaches_attempt_call {program : Program β} {f : Except Error β → Program α} {c : Call}
    {next : Except Error c.Answer → Program α}
    (h : Reaches env (program.attempt >>= f) store (.call c next) last) :
    (∃ inner, Reaches env program store (.call c inner) last ∧
        next = fun answer => (inner answer).attempt >>= f) ∨
      ∃ result behind, Reaches env program store (.done result) behind ∧
        Reaches env (f result) behind (.call c next) last := by
  change Reaches env (program.attempt.bind f) store (.call c next) last at h
  induction program generalizing store with
  | done result => exact Or.inr ⟨result, store, .here _ _, h⟩
  | call c' next' ih =>
      cases h with
      | here => exact Or.inl ⟨next', .here _ _, rfl⟩
      | call hanswer hrest =>
          rcases ih _ hrest with ⟨inner, hinner, rfl⟩ | ⟨result, behind, hend, hbehind⟩
          · exact Or.inl ⟨inner, .call hanswer hinner, rfl⟩
          · exact Or.inr ⟨result, behind, .call hanswer hend, hbehind⟩

/-- What always holds at the end holds when a run has come to its end. -/
theorem Always.reaches_done {mid : MemoryStore → Prop} {post : Except Error α → MemoryStore → Prop}
    {result : Except Error α} (h : Always env mid post program store)
    (hreaches : Reaches env program store (.done result) last) : post result last := by
  generalize hrest : Program.done result = rest at hreaches
  induction hreaches with
  | here program store =>
      subst hrest
      exact h.2
  | call hanswer _ ih => exact ih (h.2 _ _ hanswer) hrest

/-- The hooks of a block call nothing but records. -/
theorem Runs.onRecords {mid : MemoryStore → Prop} {fail : Prop} {post : α → MemoryStore → Prop}
    {c : Call} {next : Except Error c.Answer → Program α}
    (h : Runs mid fail post program store)
    (hreaches : Reaches env program store (.call c next) last) : c.OnRecords := by
  induction program generalizing store with
  | done result => cases hreaches
  | call c' next' ih =>
      rcases h with ⟨_, hrecords, herror, replied, after, hreply, hrest⟩
      cases hreaches with
      | here => exact hrecords
      | call hanswer hbehind =>
          rcases Surroundings.answers_of_reply hanswer hreply with ⟨_, ⟨e, rfl⟩, _⟩ | ⟨rfl, rfl⟩
          · -- A call that fails is the last one.
            rcases herror e with ⟨e', he'⟩
            rw [he'] at hbehind
            cases hbehind
          · exact ih _ hrest hbehind

/-- What is left after some calls in a world is a point of the run. -/
theorem reaches_after (calls : Nat) (program : Program α) {source : MemorySource}
    (hsource : env.source source) (now : Int64) :
    Reaches env program store (program.after calls ⟨store, source, now⟩).1
      (program.after calls ⟨store, source, now⟩).2.store := by
  induction calls generalizing program store with
  | zero => exact .here _ _
  | succ calls ih =>
      cases program with
      | done result => exact .here _ _
      | call c next =>
          rcases World.answer_keeps c store source now with ⟨answer, behind, hanswer⟩
          rw [after, hanswer]
          exact .call (Or.inr ⟨source, now, hsource, hanswer⟩) (ih (next answer))

/-- A run in which a call fails is one that the program may come to, where calls may fail. -/
theorem reaches_runFailing (hfaulty : env.faulty) (e : Error) (calls : Nat) (program : Program α)
    {source : MemorySource} (hsource : env.source source) (now : Int64) :
    Reaches env program store (.done (program.runFailing e calls ⟨store, source, now⟩).1)
      (program.runFailing e calls ⟨store, source, now⟩).2.store := by
  induction calls generalizing program store with
  | zero =>
      cases program with
      | done result => exact .here _ _
      | call c next =>
          -- The call fails and leaves the store alone. From here on none fails.
          exact .call (Or.inl ⟨hfaulty, ⟨e, rfl⟩, rfl⟩) (reaches_run (next (.error e)) hsource now)
  | succ calls ih =>
      cases program with
      | done result => exact .here _ _
      | call c next =>
          rcases World.answer_keeps c store source now with ⟨answer, behind, hanswer⟩
          rw [runFailing, hanswer]
          exact .call (Or.inr ⟨source, now, hsource, hanswer⟩) (ih (next answer))

end

end Program

end ChainIndex
