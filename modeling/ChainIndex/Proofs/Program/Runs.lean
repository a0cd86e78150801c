import ChainIndex.Proofs.Store.Scanning
import ChainIndex.Entity.SyncStatus
import ChainIndex.Rehearsal.Rig

/-!
# Runs of programs on a store

What the hooks of a block do is said with one predicate. `Runs mid fail post program s`
speaks of the run of `program` from the store `s`: at every point of it the store satisfies
`mid`, if it ends with a result then `post` holds of the result and the store, and it ends
with an error only if `fail`. Since `mid` holds at every point, it holds wherever the run is
cut off.

The predicate also asks that every call is to a model of records, so that a run leaves the
ledger alone, and that a call that fails ends the program. The hooks of the indexers are
such programs, and only the follower around them looks at errors.

The rules follow the program: one for a call, one for a sequence, one for a loop. What they
give is read off at the end by `runs_run`, `runs_cut` and `runs_alike`, which are about the
run of the program in a world.

## Main definitions

* `ledgerModel`: The model that holds the ledger.
* `Call.OnRecords`: A call to a model of records.
* `MemoryStore.reply`: What the store answers a call with.
* `MemoryStore.Alike`: Two stores hold the same records, apart from the ledger.
* `Program.Runs`: What holds at every point of a run, and at its end.
* `Program.cut`: The world in which a program is cut off after some writes.

## Theorems

* `runs_bind`, `runs_forM`: The rules for sequences and loops.
* `runs_run`: A run ends as the predicate says, and leaves the ledger alone.
* `runs_cut`, `runs_cuts`: A run that is cut off leaves a store that satisfies `mid`.
* `runs_alike`: Stores that hold the same records are not told apart.
-/

namespace ChainIndex

/-- The model that holds the ledger. -/
def ledgerModel : String := Entity.model SyncStatus

/-- The model that a call to the store reads or writes. -/
def Call.model? : Call → Option String
  | .get model _ => some model
  | .put model _ => some model
  | .delete model _ => some model
  | .scan model _ => some model
  | .extent model => some model
  | _ => none

/-- The call is to a model of records, not to the ledger. -/
def Call.OnRecords (c : Call) : Prop :=
  ∃ model, c.model? = some model ∧ model ≠ ledgerModel

namespace MemoryStore

/-- What the store answers a call with, and the store behind it. -/
def reply (store : MemoryStore) : (c : Call) → Option (c.Answer × MemoryStore)
  | .get model key => some (store.get model key, store)
  | .put model record => some ((), store.put model record)
  | .delete model key => some ((), store.delete model key)
  | .scan model scan => some (store.scan model scan, store)
  | .extent model => some (store.extent model, store)
  | _ => none

/-- Two stores hold the same records, apart from the ledger. -/
def Alike (a b : MemoryStore) : Prop :=
  ∀ model, model ≠ ledgerModel → (a.model model).Same (b.model model)

theorem Alike.refl (store : MemoryStore) : store.Alike store :=
  fun _ _ => ⟨fun _ => rfl, fun _ => rfl⟩

theorem Alike.symm {a b : MemoryStore} (h : a.Alike b) : b.Alike a :=
  fun model hmodel => ⟨fun key => ((h model hmodel).records key).symm,
    fun slot => ((h model hmodel).places slot).symm⟩

theorem Alike.trans {a b c : MemoryStore} (hab : a.Alike b) (hbc : b.Alike c) : a.Alike c :=
  fun model hmodel =>
    ⟨fun key => ((hab model hmodel).records key).trans ((hbc model hmodel).records key),
      fun slot => ((hab model hmodel).places slot).trans ((hbc model hmodel).places slot)⟩

theorem Alike.find {a b : MemoryStore} (h : a.Alike b) (model key : String)
    (hmodel : model ≠ ledgerModel) : a.find model key = b.find model key :=
  (h model hmodel).records key

/-- Stores in order are alike as soon as they hold the same under every key. -/
theorem alike_of_find {a b : MemoryStore} (ha : a.WF) (hb : b.WF)
    (h : ∀ model key, model ≠ ledgerModel → a.find model key = b.find model key) :
    a.Alike b :=
  fun model hmodel => MemoryModel.same_of_records (ha model) (hb model)
    fun key => h model key hmodel

/-- A reply leaves a store in order. -/
theorem WF.reply {store behind : MemoryStore} (h : store.WF) (c : Call) (answer : c.Answer)
    (hreply : store.reply c = some (answer, behind)) : behind.WF := by
  cases c with
  | put model record =>
      simp only [MemoryStore.reply, Option.some.injEq, Prod.mk.injEq] at hreply
      rw [← hreply.2]
      exact h.put model record
  | delete model key =>
      simp only [MemoryStore.reply, Option.some.injEq, Prod.mk.injEq] at hreply
      rw [← hreply.2]
      exact h.delete model key
  | get model key =>
      simp only [MemoryStore.reply, Option.some.injEq, Prod.mk.injEq] at hreply
      rw [← hreply.2]
      exact h
  | scan model scan =>
      simp only [MemoryStore.reply, Option.some.injEq, Prod.mk.injEq] at hreply
      rw [← hreply.2]
      exact h
  | extent model =>
      simp only [MemoryStore.reply, Option.some.injEq, Prod.mk.injEq] at hreply
      rw [← hreply.2]
      exact h
  | _ => simp only [MemoryStore.reply, reduceCtorEq] at hreply

/-- A call to a model of records leaves the ledger as it is. -/
theorem model_ledger_reply {store behind : MemoryStore} (c : Call) (hrecords : c.OnRecords)
    (answer : c.Answer) (hreply : store.reply c = some (answer, behind)) :
    behind.model ledgerModel = store.model ledgerModel := by
  rcases hrecords with ⟨model, hmodel, hne⟩
  cases c with
  | put other record =>
      simp only [Call.model?, Option.some.injEq] at hmodel
      simp only [MemoryStore.reply, Option.some.injEq, Prod.mk.injEq] at hreply
      rw [← hreply.2, model_put, hmodel, if_neg (Ne.symm hne)]
  | delete other key =>
      simp only [Call.model?, Option.some.injEq] at hmodel
      simp only [MemoryStore.reply, Option.some.injEq, Prod.mk.injEq] at hreply
      rw [← hreply.2, model_delete, hmodel, if_neg (Ne.symm hne)]
  | get other key =>
      simp only [MemoryStore.reply, Option.some.injEq, Prod.mk.injEq] at hreply
      rw [← hreply.2]
  | scan other scan =>
      simp only [MemoryStore.reply, Option.some.injEq, Prod.mk.injEq] at hreply
      rw [← hreply.2]
  | extent other =>
      simp only [MemoryStore.reply, Option.some.injEq, Prod.mk.injEq] at hreply
      rw [← hreply.2]
  | _ => simp only [MemoryStore.reply, reduceCtorEq] at hreply

/-- Stores that hold the same records answer a call on them alike, and hold the same
    afterwards. -/
theorem Alike.reply {a b a' : MemoryStore} (h : a.Alike b) (ha : a.WF) (hb : b.WF) (c : Call)
    (hrecords : c.OnRecords) (answer : c.Answer) (hreply : a.reply c = some (answer, a')) :
    ∃ b', b.reply c = some (answer, b') ∧ a'.Alike b' := by
  -- The store behind `a` is in order, so it may be compared under every key.
  have hwf := ha.reply c answer hreply
  rcases hrecords with ⟨model, hmodel, hne⟩
  cases c with
  | get other key =>
      simp only [Call.model?, Option.some.injEq] at hmodel
      subst hmodel
      simp only [MemoryStore.reply, Option.some.injEq, Prod.mk.injEq] at hreply ⊢
      refine ⟨b, ⟨?_, rfl⟩, hreply.2 ▸ h⟩
      rw [← hreply.1, MemoryStore.get, MemoryStore.get, (h other hne).records key]
  | put other record =>
      simp only [MemoryStore.reply, Option.some.injEq, Prod.mk.injEq] at hreply ⊢
      -- What the write puts in place is the same on both sides.
      refine ⟨b.put other record, ⟨trivial, rfl⟩, alike_of_find hwf (hb.put other record) ?_⟩
      intro model key hmodel'
      rw [← hreply.2, find_put, find_put, h.find model key hmodel']
  | delete other key =>
      simp only [MemoryStore.reply, Option.some.injEq, Prod.mk.injEq] at hreply ⊢
      refine ⟨b.delete other key, ⟨trivial, rfl⟩, alike_of_find hwf (hb.delete other key) ?_⟩
      intro model key' hmodel'
      rw [← hreply.2, find_delete, find_delete, h.find model key' hmodel']
  | scan other scan =>
      simp only [Call.model?, Option.some.injEq] at hmodel
      subst hmodel
      simp only [MemoryStore.reply, Option.some.injEq, Prod.mk.injEq] at hreply ⊢
      refine ⟨b, ⟨?_, rfl⟩, hreply.2 ▸ h⟩
      rw [← hreply.1]
      refine (MemoryModel.scan_congr (ha other) (hb other) scan fun key stored _ => ?_).symm
      rw [(h other hne).records key]
  | extent other =>
      simp only [Call.model?, Option.some.injEq] at hmodel
      subst hmodel
      simp only [MemoryStore.reply, Option.some.injEq, Prod.mk.injEq] at hreply ⊢
      refine ⟨b, ⟨?_, rfl⟩, hreply.2 ▸ h⟩
      rw [← hreply.1]
      exact (MemoryModel.extent_congr (ha other) (hb other) (h other hne)).symm
  | _ => simp only [MemoryStore.reply, reduceCtorEq] at hreply

end MemoryStore

/-- A call to a model of records is answered by every store. -/
theorem Call.OnRecords.replied {c : Call} (h : c.OnRecords) (store : MemoryStore) :
    ∃ answer behind, store.reply c = some (answer, behind) := by
  rcases h with ⟨model, hmodel, _⟩
  cases c with
  | get | put | delete | scan | extent => exact ⟨_, _, rfl⟩
  | _ => simp only [Call.model?, reduceCtorEq] at hmodel

/-- In a world a call to the store is answered by the store. -/
theorem World.answer_of_reply {store behind : MemoryStore} (c : Call) (a : c.Answer)
    (hreply : store.reply c = some (a, behind)) (source : MemorySource) (now : Int64) :
    World.answer c ⟨store, source, now⟩ = (.ok a, ⟨behind, source, now⟩) := by
  cases c with
  | get | put | delete | scan | extent =>
      cases hreply
      rfl
  | _ => simp only [MemoryStore.reply, reduceCtorEq] at hreply

namespace Program

variable {α β γ : Type}

/-- A run of the program from a store: `mid` holds at every point of it, `post` at the end
    if it ends with a result, and it ends with an error only if `fail`. -/
def Runs (mid : MemoryStore → Prop) (fail : Prop) (post : α → MemoryStore → Prop) :
    Program α → MemoryStore → Prop
  | .done (.ok a), store => mid store ∧ post a store
  | .done (.error _), store => mid store ∧ fail
  | .call c next, store =>
    mid store ∧ c.OnRecords ∧ (∀ e, ∃ e', next (.error e) = .done (.error e')) ∧
      ∃ answer behind, store.reply c = some (answer, behind) ∧
        Runs mid fail post (next (.ok answer)) behind

section Rules

variable {mid : MemoryStore → Prop} {fail : Prop} {post : α → MemoryStore → Prop}

theorem Runs.here {program : Program α} {store : MemoryStore}
    (h : Runs mid fail post program store) : mid store := by
  cases program with
  | done result =>
      cases result with
      | ok a => exact h.1
      | error e => exact h.1
  | call c next => exact h.1

theorem runs_pure {a : α} {store : MemoryStore} (hmid : mid store) (hpost : post a store) :
    Runs mid fail post (pure a) store :=
  ⟨hmid, hpost⟩

theorem runs_ofExcept {result : Except Error α} {store : MemoryStore} (hmid : mid store)
    (hpost : ∀ a, result = .ok a → post a store) (hfail : ∀ e, result = .error e → fail) :
    Runs mid fail post (ofExcept result) store := by
  cases result with
  | ok a => exact ⟨hmid, hpost a rfl⟩
  | error e => exact ⟨hmid, hfail e rfl⟩

/-- What is known to be a result is that result. -/
theorem runs_ofExcept_eq {result : Except Error α} {a : α} {store : MemoryStore}
    (h : result = .ok a) (hmid : mid store) :
    Runs mid fail (fun b behind => behind = store ∧ b = a) (ofExcept result) store :=
  h ▸ runs_pure hmid ⟨rfl, rfl⟩

/-- What goes on behind a check knows that the check went well. -/
theorem runs_ofExcept_ok {result : Except Error α} {store : MemoryStore} (hmid : mid store) :
    Runs mid True (fun a behind => behind = store ∧ result = .ok a) (ofExcept result) store :=
  runs_ofExcept hmid (fun _ h => ⟨rfl, h⟩) fun _ _ => trivial

theorem runs_throw {e : Error} {store : MemoryStore} (hmid : mid store) (hfail : fail) :
    Runs mid fail post (throw e : Program α) store :=
  ⟨hmid, hfail⟩

theorem runs_request {c : Call} {store behind : MemoryStore}
    {post : c.Answer → MemoryStore → Prop} {answer : c.Answer} (hrecords : c.OnRecords)
    (hreply : store.reply c = some (answer, behind)) (hbefore : mid store) (hafter : mid behind)
    (hpost : post answer behind) : Runs mid fail post (request c) store :=
  ⟨hbefore, hrecords, fun e => ⟨e, rfl⟩, answer, behind, hreply, hafter, hpost⟩

/-- One program and then another: what the first leaves is where the second starts. -/
theorem runs_bind {q : β → MemoryStore → Prop} {program : Program β}
    {f : β → Program α} {store : MemoryStore} (h : Runs mid fail q program store)
    (hf : ∀ b behind, mid behind → q b behind → Runs mid fail post (f b) behind) :
    Runs mid fail post (program >>= f) store := by
  change Runs mid fail post (program.bind f) store
  induction program generalizing store with
  | done result =>
      cases result with
      | ok b => exact hf b store h.1 h.2
      | error e => exact h
  | call c next ih =>
      rcases h with ⟨hmid, hrecords, herror, answer, behind, hreply, hrest⟩
      -- A call that fails ends the first program, and with it the sequence.
      refine ⟨hmid, hrecords, fun e => ?_, answer, behind, hreply, ih _ hrest⟩
      rcases herror e with ⟨e', he'⟩
      exact ⟨e', by simp only [he', bind_done_error]⟩

/-- What holds at the end may be weakened, given that `mid` holds there too. -/
theorem Runs.mono {post' : α → MemoryStore → Prop} {program : Program α} {store : MemoryStore}
    (h : Runs mid fail post program store)
    (hpost : ∀ a behind, mid behind → post a behind → post' a behind) :
    Runs mid fail post' program store := by
  -- To go on with `pure` is to stop there.
  have hbind : Runs mid fail post' (program >>= pure) store :=
    runs_bind h fun a behind hmid ha => runs_pure hmid (hpost a behind hmid ha)
  change Runs mid fail post' (program.bind fun a => .done (.ok a)) store at hbind
  rwa [bind_pure] at hbind

/-- The same for what holds at every point, and for when the program may fail. -/
theorem Runs.weaken {mid' : MemoryStore → Prop} {fail' : Prop} {program : Program α}
    {store : MemoryStore} (h : Runs mid fail post program store)
    (hmid : ∀ store, mid store → mid' store) (hfail : fail → fail') :
    Runs mid' fail' post program store := by
  induction program generalizing store with
  | done result =>
      cases result with
      | ok a => exact ⟨hmid _ h.1, h.2⟩
      | error e => exact ⟨hmid _ h.1, hfail h.2⟩
  | call c next ih =>
      rcases h with ⟨hbefore, hrecords, herror, answer, behind, hreply, hrest⟩
      exact ⟨hmid _ hbefore, hrecords, herror, answer, behind, hreply, ih _ hrest⟩

/-- What two predicates say of the end of a run holds there together. -/
theorem Runs.and {mid' : MemoryStore → Prop} {fail' : Prop} {post' : α → MemoryStore → Prop}
    {program : Program α} {store : MemoryStore} (h : Runs mid fail post program store)
    (h' : Runs mid' fail' post' program store) :
    Runs mid fail (fun a behind => post a behind ∧ post' a behind) program store := by
  induction program generalizing store with
  | done result =>
      cases result with
      | ok a => exact ⟨h.1, h.2, h'.2⟩
      | error e => exact h
  | call c next ih =>
      rcases h with ⟨hmid, hrecords, herror, answer, behind, hreply, hrest⟩
      rcases h' with ⟨_, _, _, answer', behind', hreply', hrest'⟩
      -- There is one answer to a call, so both runs go on alike.
      rw [hreply, Option.some.injEq, Prod.mk.injEq] at hreply'
      rcases hreply' with ⟨rfl, rfl⟩
      exact ⟨hmid, hrecords, herror, answer, behind, hreply, ih _ hrest hrest'⟩

/-- A loop over a list. The invariant speaks of what has been done and of what is left. -/
theorem runs_forM {f : β → Program PUnit} (inv : List β → List β → MemoryStore → Prop)
    (items : List β) {store : MemoryStore} (hmid : mid store) (hstart : inv [] items store)
    (hstep : ∀ done b rest behind, done ++ b :: rest = items → mid behind →
      inv done (b :: rest) behind →
      Runs mid fail (fun _ after => inv (done ++ [b]) rest after) (f b) behind) :
    Runs mid fail (fun _ after => inv items [] after) (items.forM f) store := by
  -- The induction is on what is left of the list, whatever has been done of it.
  suffices hall : ∀ rest done (behind : MemoryStore), done ++ rest = items → mid behind →
      inv done rest behind →
      Runs mid fail (fun _ after => inv items [] after) (rest.forM f) behind from
    hall items [] store rfl hmid hstart
  intro rest
  induction rest with
  | nil =>
      intro done behind hitems hbehind hinv
      rw [List.append_nil] at hitems
      exact runs_pure hbehind (hitems ▸ hinv)
  | cons b rest ih =>
      intro done behind hitems hbehind hinv
      change Runs mid fail _ (f b >>= fun _ => rest.forM f) behind
      refine runs_bind (hstep done b rest behind hitems hbehind hinv) fun _ after hafter hdone => ?_
      exact ih (done ++ [b]) after (by rw [← hitems, List.append_assoc]; rfl) hafter hdone

/-- A loop each round of which keeps an invariant. -/
theorem runs_forM_keeps {f : β → Program PUnit} (inv : MemoryStore → Prop) (items : List β)
    {store : MemoryStore} (hmid : mid store) (hstart : inv store)
    (hstep : ∀ b ∈ items, ∀ behind, mid behind → inv behind →
      Runs mid fail (fun _ after => inv after) (f b) behind) :
    Runs mid fail (fun _ after => inv after) (items.forM f) store :=
  runs_forM (fun _ _ after => inv after) items hmid hstart
    fun done b _ behind hitems hbehind hinv =>
      hstep b (hitems ▸ List.mem_append_right done List.mem_cons_self) behind hbehind hinv

end Rules

/-! ## Programs that only read -/

/-- The program reads records and nothing else, whatever it is answered with. -/
def Quiet : Program α → Prop
  | .done _ => True
  | .call c next =>
    c.OnRecords ∧ c.write? = none ∧ (∀ e, ∃ e', next (.error e) = .done (.error e')) ∧
      ∀ answer, Quiet (next (.ok answer))

theorem quiet_request {c : Call} (hrecords : c.OnRecords) (hread : c.write? = none) :
    Quiet (request c) :=
  ⟨hrecords, hread, fun e => ⟨e, rfl⟩, fun _ => trivial⟩

theorem quiet_ofExcept (result : Except Error α) : Quiet (ofExcept result) := trivial

theorem quiet_bind {program : Program β} {f : β → Program α} (h : Quiet program)
    (hf : ∀ b, Quiet (f b)) : Quiet (program >>= f) := by
  change Quiet (program.bind f)
  induction program with
  | done result =>
      cases result with
      | ok b => exact hf b
      | error e => trivial
  | call c next ih =>
      rcases h with ⟨hrecords, hread, herror, hrest⟩
      refine ⟨hrecords, hread, fun e => ?_, fun answer => ih _ (hrest answer)⟩
      rcases herror e with ⟨e', he'⟩
      exact ⟨e', by simp only [he', bind_done_error]⟩

theorem quiet_foldlM {f : β → γ → Program β} (items : List γ) (b : β)
    (h : ∀ b c, Quiet (f b c)) : Quiet (items.foldlM f b) := by
  induction items generalizing b with
  | nil => exact trivial
  | cons c rest ih =>
      rw [List.foldlM_cons]
      exact quiet_bind (h b c) ih

/-- A program that only reads leaves the store as it is. -/
theorem Quiet.runs {mid : MemoryStore → Prop} {program : Program α} (h : Quiet program)
    {store : MemoryStore} (hmid : mid store) :
    Runs mid True (fun _ behind => behind = store) program store := by
  induction program with
  | done result =>
      cases result with
      | ok a => exact ⟨hmid, rfl⟩
      | error e => exact ⟨hmid, trivial⟩
  | call c next ih =>
      rcases h with ⟨hrecords, hread, herror, hrest⟩
      -- Every call on records that is not a write is a read, and a read changes nothing.
      have hreply : ∃ answer, store.reply c = some (answer, store) := by
        rcases hrecords with ⟨model, hmodel, _⟩
        cases c with
        | get | scan | extent => exact ⟨_, rfl⟩
        | put | delete => simp only [Call.write?, reduceCtorEq] at hread
        | _ => simp only [Call.model?, reduceCtorEq] at hmodel
      rcases hreply with ⟨answer, hreply⟩
      exact ⟨hmid, hrecords, herror, answer, store, hreply, ih _ (hrest answer)⟩

/-! ## What a run comes to -/

/-- The world in which a program is cut off right before its write number `writes`, counted
    from zero, or at its end. -/
def cut {σ : Type} [KeyedStore σ] : Nat → Program α → World σ → World σ
  | _, .done _, world => world
  | writes, .call c next, world =>
    match c.write?, writes with
    | some _, 0 => world
    | some _, left + 1 =>
      cut left (next (World.answer c world).1) (World.answer c world).2
    | none, left => cut left (next (World.answer c world).1) (World.answer c world).2

section Outcome

variable {mid : MemoryStore → Prop} {fail : Prop} {post : α → MemoryStore → Prop}

/-- A run ends as the predicate says. -/
theorem runs_run {program : Program α} {store : MemoryStore}
    (h : Runs mid fail post program store) (source : MemorySource) (now : Int64) :
    ∃ result behind,
      program.run World.answer ⟨store, source, now⟩ = (result, ⟨behind, source, now⟩) ∧
        mid behind ∧ behind.model ledgerModel = store.model ledgerModel ∧
        (∀ a, result = .ok a → post a behind) ∧ (∀ e, result = .error e → fail) := by
  induction program generalizing store with
  | done result =>
      refine ⟨result, store, rfl, h.here, rfl, fun a ha => ?_, fun e he => ?_⟩
      · subst ha
        exact h.2
      · subst he
        exact h.2
  | call c next ih =>
      rcases h with ⟨_, hrecords, _, answer, behind, hreply, hrest⟩
      rcases ih _ hrest with ⟨result, last, hrun, hmid, hledger, hend⟩
      refine ⟨result, last, ?_, hmid, ?_, hend⟩
      · rw [run, World.answer_of_reply c answer hreply]
        exact hrun
      · rw [hledger, MemoryStore.model_ledger_reply c hrecords answer hreply]

/-- A run that cannot fail ends with a result. -/
theorem Runs.ends {program : Program α} {store : MemoryStore}
    (h : Runs mid False post program store) (source : MemorySource) (now : Int64) :
    ∃ a behind, program.run World.answer ⟨store, source, now⟩ = (.ok a, ⟨behind, source, now⟩) ∧
      mid behind ∧ post a behind := by
  rcases runs_run h source now with ⟨result, behind, hrun, hmid, _, hok, hfail⟩
  cases result with
  | ok a => exact ⟨a, behind, hrun, hmid, hok a rfl⟩
  | error e => exact (hfail e rfl).elim

/-- What holds where a run has ended with a result. -/
theorem Runs.post_of_run {program : Program α} {store last : MemoryStore} {a : α}
    {source : MemorySource} {now : Int64} (h : Runs mid fail post program store)
    (hrun : program.run World.answer ⟨store, source, now⟩ = (.ok a, ⟨last, source, now⟩)) :
    mid last ∧ post a last := by
  rcases runs_run h source now with ⟨result, behind, hrun', hmid, _, hpost, _⟩
  rw [hrun, Prod.mk.injEq, World.mk.injEq] at hrun'
  rcases hrun' with ⟨hresult, rfl, _⟩
  exact ⟨hmid, hpost a hresult.symm⟩

/-- Nothing else can come of a program than what its run in a world has shown. -/
theorem Runs.of_run {program : Program α} {store last : MemoryStore}
    {result : Except Error α} {source : MemorySource} {now : Int64}
    (h : Runs mid fail post program store)
    (hrun : program.run World.answer ⟨store, source, now⟩ = (result, ⟨last, source, now⟩)) :
    Runs mid (∃ e, result = .error e)
      (fun a behind => result = .ok a ∧ behind = last ∧ post a behind) program store := by
  induction program generalizing store with
  | done ended =>
      simp only [run, Prod.mk.injEq, World.mk.injEq, and_true] at hrun
      rcases hrun with ⟨rfl, rfl⟩
      cases ended with
      | ok a => exact ⟨h.1, rfl, rfl, h.2⟩
      | error e => exact ⟨h.1, e, rfl⟩
  | call c next ih =>
      rcases h with ⟨hmid, hrecords, herror, answer, behind, hreply, hrest⟩
      refine ⟨hmid, hrecords, herror, answer, behind, hreply, ih _ hrest ?_⟩
      rw [run, World.answer_of_reply c answer hreply] at hrun
      exact hrun

/-- A run that is cut off leaves a store that satisfies `mid`. -/
theorem runs_cut {program : Program α} {store : MemoryStore}
    (h : Runs mid fail post program store) (source : MemorySource) (now : Int64)
    (writes : Nat) :
    ∃ behind, program.cut writes ⟨store, source, now⟩ = ⟨behind, source, now⟩ ∧ mid behind ∧
      behind.model ledgerModel = store.model ledgerModel := by
  induction program generalizing store writes with
  | done result => exact ⟨store, rfl, h.here, rfl⟩
  | call c next ih =>
      have hmid := h.here
      rcases h with ⟨_, hrecords, _, answer, behind, hreply, hrest⟩
      have hworld := World.answer_of_reply c answer hreply source now
      -- However many writes are left, what follows the call is cut by the hypothesis.
      have honward : ∀ left, ∃ last,
          cut left (next (World.answer c ⟨store, source, now⟩).1)
            (World.answer c ⟨store, source, now⟩).2 = ⟨last, source, now⟩ ∧ mid last ∧
            last.model ledgerModel = store.model ledgerModel := by
        intro left
        rcases ih _ hrest left with ⟨last, hcut, hlast, hledger⟩
        refine ⟨last, by rw [hworld]; exact hcut, hlast, ?_⟩
        rw [hledger, MemoryStore.model_ledger_reply c hrecords answer hreply]
      rcases hwrite : c.write? with _ | write
      · simp only [cut, hwrite]
        exact honward writes
      · cases writes with
        -- The cut falls right before this write.
        | zero =>
            simp only [cut, hwrite]
            exact ⟨store, rfl, hmid, rfl⟩
        | succ left =>
            simp only [cut, hwrite]
            exact honward left

/-- So does any number of runs that are cut off one after another, if the predicate holds of
    the program from every store that satisfies `mid`. -/
theorem runs_cuts {program : Program α}
    (h : ∀ store, mid store → Runs mid fail post program store) (source : MemorySource)
    (now : Int64) (cuts : List Nat) {store : MemoryStore} (hmid : mid store) :
    ∃ behind, cuts.foldl (fun world writes => program.cut writes world) ⟨store, source, now⟩
        = ⟨behind, source, now⟩ ∧ mid behind ∧
      behind.model ledgerModel = store.model ledgerModel := by
  induction cuts generalizing store with
  | nil => exact ⟨store, rfl, hmid, rfl⟩
  | cons writes rest ih =>
      rcases runs_cut (h store hmid) source now writes with ⟨behind, hcut, hbehind, hledger⟩
      rcases ih hbehind with ⟨last, hrest, hlast, hkept⟩
      refine ⟨last, ?_, hlast, hkept.trans hledger⟩
      rw [List.foldl_cons, hcut, hrest]

/-- From a store that holds the same records the program ends with the same result, and
    leaves a store that holds the same. -/
theorem runs_alike {program : Program α} {store other : MemoryStore}
    (h : Runs mid fail post program store) (halike : store.Alike other) (hstore : store.WF)
    (hother : other.WF) (source : MemorySource) (now : Int64) :
    ∃ result behind behind',
      program.run World.answer ⟨store, source, now⟩ = (result, ⟨behind, source, now⟩) ∧
        program.run World.answer ⟨other, source, now⟩ = (result, ⟨behind', source, now⟩) ∧
        behind.Alike behind' ∧ behind'.WF ∧
        behind'.model ledgerModel = other.model ledgerModel := by
  induction program generalizing store other with
  | done result => exact ⟨result, store, other, rfl, rfl, halike, hother, rfl⟩
  | call c next ih =>
      rcases h with ⟨_, hrecords, _, answer, behind, hreply, hrest⟩
      -- Both stores give the same answer, so what is left of the program is the same.
      rcases halike.reply hstore hother c hrecords answer hreply with ⟨behind', hreply', hbehind⟩
      rcases ih _ hrest hbehind (hstore.reply c answer hreply)
        (hother.reply c answer hreply') with
        ⟨result, last, last', hrun, hrun', hlast, hwf, hledger⟩
      refine ⟨result, last, last', ?_, ?_, hlast, hwf, ?_⟩
      · rw [run, World.answer_of_reply c answer hreply]
        exact hrun
      · rw [run, World.answer_of_reply c answer hreply']
        exact hrun'
      · rw [hledger, MemoryStore.model_ledger_reply c hrecords answer hreply']

end Outcome

end Program

end ChainIndex
