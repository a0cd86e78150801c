import ChainIndex.Proofs.Program.Records

/-!
# What a program may write

What the hooks of a block do to a store depends on what they read in it, but where they may
write can be told from the block alone. `Makes allowed program` is about the program as a
tree, with no store in sight: whatever its calls are answered with, each of them is allowed,
is to a model of records, and ends the program when it fails.

From there it is one step to what a run keeps. If every allowed call keeps something of a
store, so does the run of the program from any store.

## Main definitions

* `Program.Makes`: Every call of the program is allowed.
* `Call.Within`: The call writes nothing but whole records under certain keys.
* `MemoryStore.SameOutside`: Two stores hold the same but under certain keys.

## Theorems

* `makes_bind`, `makes_forM`, `makes_save`, `makes_remove`: The rules follow the program.
* `Makes.runs`: What every allowed call keeps is kept by a run.
-/

namespace ChainIndex

open Entity

/-- A record of a kind that is read back by undoing or by a step is a whole value of it. -/
def WholeRecord (m : String) (record : Record) : Prop :=
  (m = model BlockRecord → ∃ a : BlockRecord, record = toRecord a) ∧
  (m = model OracleSnapshot → ∃ a : OracleSnapshot, record = toRecord a) ∧
  (m = model Masternode → ∃ a : Masternode, record = toRecord a) ∧
  (m = model MasternodeStats → ∃ a : MasternodeStats, record = toRecord a)

/-- What is saved of a value is whole. -/
class Whole (α : Type) [Entity α] : Prop where
  record : ∀ a : α, WholeRecord (model α) (toRecord a)

theorem whole_of_ne {α : Type} [Entity α]
    (h : model α ∉ [model BlockRecord, model OracleSnapshot, model Masternode,
      model MasternodeStats]) : Whole α where
  record a := by
    simp only [List.mem_cons, List.not_mem_nil, or_false, not_or] at h
    exact ⟨fun hc => absurd hc h.1, fun hc => absurd hc h.2.1, fun hc => absurd hc h.2.2.1,
      fun hc => absurd hc h.2.2.2⟩

instance : Whole Token := whole_of_ne (by decide)
instance : Whole Oracle := whole_of_ne (by decide)
instance : Whole Membership := whole_of_ne (by decide)
instance : Whole PriceFeed := whole_of_ne (by decide)
instance : Whole PriceAggregate := whole_of_ne (by decide)
instance : Whole TransactionRecord := whole_of_ne (by decide)
instance : Whole OutputRecord := whole_of_ne (by decide)

instance : Whole BlockRecord where
  record a := ⟨fun _ => ⟨a, rfl⟩, by simp [Entity.model], by simp [Entity.model],
    by simp [Entity.model]⟩

instance : Whole OracleSnapshot where
  record a := ⟨by simp [Entity.model], fun _ => ⟨a, rfl⟩, by simp [Entity.model],
    by simp [Entity.model]⟩

instance : Whole Masternode where
  record a := ⟨by simp [Entity.model], by simp [Entity.model], fun _ => ⟨a, rfl⟩,
    by simp [Entity.model]⟩

instance : Whole MasternodeStats where
  record a := ⟨by simp [Entity.model], by simp [Entity.model], by simp [Entity.model],
    fun _ => ⟨a, rfl⟩⟩

/-- The call writes nothing but whole records under these keys. -/
def Call.Within (keys : String → String → Prop) : Call → Prop
  | .put m record => keys m record.key ∧ WholeRecord m record
  | .delete m k => keys m k
  | _ => True

theorem Call.Within.mono {keys keys' : String → String → Prop} {c : Call} (h : c.Within keys)
    (hkeys : ∀ m k, keys m k → keys' m k) : c.Within keys' := by
  cases c with
  | put m record => exact ⟨hkeys _ _ h.1, h.2⟩
  | delete m k => exact hkeys _ _ h
  | _ => trivial

theorem Call.within_of_read {keys : String → String → Prop} {c : Call} (h : c.write? = none) :
    c.Within keys := by
  cases c with
  | put | delete => simp [Call.write?] at h
  | _ => trivial

namespace MemoryStore

/-- Two stores hold the same but under these keys. -/
def SameOutside (keys : String → String → Prop) (store behind : MemoryStore) : Prop :=
  ∀ m k, ¬ keys m k → behind.find m k = store.find m k

variable {keys : String → String → Prop} {store behind after : MemoryStore}

theorem SameOutside.refl (keys : String → String → Prop) (store : MemoryStore) :
    SameOutside keys store store :=
  fun _ _ _ => rfl

theorem SameOutside.trans (h : SameOutside keys store behind)
    (hafter : SameOutside keys behind after) : SameOutside keys store after :=
  fun m k hk => (hafter m k hk).trans (h m k hk)

theorem SameOutside.saved {α : Type} [Entity α] (h : SameOutside keys store behind) (a : α)
    (hkey : keys (Entity.model α) (key a)) : SameOutside keys store (saved behind a) := by
  refine h.trans fun m k hk => ?_
  rw [find_saved, if_neg]
  rintro ⟨rfl, rfl⟩
  exact hk hkey

theorem SameOutside.removed {α : Type} [Entity α] (h : SameOutside keys store behind)
    {k : String} (hkey : keys (Entity.model α) k) :
    SameOutside keys store (removed α behind k) := by
  refine h.trans fun m k' hk => ?_
  rw [find_removed, if_neg]
  rintro ⟨rfl, rfl⟩
  exact hk hkey

/-- A reply changes nothing but what is held under the keys that the call writes to. -/
theorem SameOutside.reply {c : Call} (h : c.Within keys) (answer : c.Answer)
    (hreply : store.reply c = some (answer, behind)) : SameOutside keys store behind := by
  intro m k hk
  cases c with
  | put m' record =>
      simp only [MemoryStore.reply, Option.some.injEq, Prod.mk.injEq] at hreply
      rw [← hreply.2, find_put, if_neg]
      rintro ⟨rfl, rfl⟩
      exact hk h.1
  | delete m' k' =>
      simp only [MemoryStore.reply, Option.some.injEq, Prod.mk.injEq] at hreply
      rw [← hreply.2, find_delete, if_neg]
      rintro ⟨rfl, rfl⟩
      exact hk h
  | get | scan | extent =>
      simp only [MemoryStore.reply, Option.some.injEq, Prod.mk.injEq] at hreply
      rw [← hreply.2]
  | _ => simp only [MemoryStore.reply, reduceCtorEq] at hreply

end MemoryStore

namespace Program

variable {α β γ : Type}

/-- Every call of the program is to a model of records, is allowed, and ends the program when
    it fails, whatever the calls before were answered with. -/
def Makes (allowed : Call → Prop) : Program α → Prop
  | .done _ => True
  | .call c next =>
    c.OnRecords ∧ allowed c ∧ (∀ e, ∃ e', next (.error e) = .done (.error e')) ∧
      ∀ answer, Makes allowed (next (.ok answer))

section Rules

variable {allowed : Call → Prop} {keys : String → String → Prop}

theorem makes_done (result : Except Error α) : Makes allowed (.done result) := trivial

theorem makes_bind {program : Program β} {f : β → Program α} (h : Makes allowed program)
    (hf : ∀ b, Makes allowed (f b)) : Makes allowed (program >>= f) := by
  change Makes allowed (program.bind f)
  induction program with
  | done result =>
      cases result with
      | ok b => exact hf b
      | error e => trivial
  | call c next ih =>
      rcases h with ⟨hrecords, hallowed, herror, hrest⟩
      refine ⟨hrecords, hallowed, fun e => ?_, fun answer => ih _ (hrest answer)⟩
      rcases herror e with ⟨e', he'⟩
      exact ⟨e', by simp only [he', bind_done_error]⟩

/-- A result or an error, and what is done with the result. -/
theorem makes_ofExcept {result : Except Error β} {f : β → Program α}
    (hf : ∀ b, result = .ok b → Makes allowed (f b)) :
    Makes allowed (ofExcept result >>= f) := by
  cases result with
  | ok b => exact hf b rfl
  | error e => trivial

theorem makes_forM {f : β → Program PUnit} (items : List β)
    (h : ∀ b ∈ items, Makes allowed (f b)) : Makes allowed (items.forM f) := by
  induction items with
  | nil => trivial
  | cons b rest ih =>
      exact makes_bind (h b List.mem_cons_self)
        fun _ => ih fun c hc => h c (List.mem_cons_of_mem b hc)

theorem Makes.mono {allowed' : Call → Prop} {program : Program α} (h : Makes allowed program)
    (hallowed : ∀ c, allowed c → allowed' c) : Makes allowed' program := by
  induction program with
  | done result => trivial
  | call c next ih => exact ⟨h.1, hallowed c h.2.1, h.2.2.1, fun answer => ih _ (h.2.2.2 answer)⟩

/-- A program that only reads makes no other calls than those. -/
theorem Quiet.makes_of {program : Program α} (h : Quiet program)
    (hread : ∀ c : Call, c.write? = none → allowed c) : Makes allowed program := by
  induction program with
  | done result => trivial
  | call c next ih =>
      exact ⟨h.1, hread c h.2.1, h.2.2.1, fun answer => ih _ (h.2.2.2 answer)⟩

/-- So it writes nowhere. -/
theorem Quiet.makes {program : Program α} (h : Quiet program) :
    Makes (Call.Within keys) program :=
  h.makes_of fun _ => Call.within_of_read

theorem makes_save [Entity α] [Recorded α] [Whole α] (a : α) (hkey : keys (model α) (key a)) :
    Makes (Call.Within keys) (save a) :=
  ⟨⟨model α, rfl, Recorded.model_ne_ledger⟩, ⟨hkey, Whole.record a⟩, fun e => ⟨e, rfl⟩,
    fun _ => trivial⟩

variable (α) in
theorem makes_remove [Entity α] [Recorded α] {k : String} (hkey : keys (model α) k) :
    Makes (Call.Within keys) (remove α k) :=
  ⟨⟨model α, rfl, Recorded.model_ne_ledger⟩, hkey, fun e => ⟨e, rfl⟩, fun _ => trivial⟩

end Rules

/-- What every allowed call keeps of a store is kept by a run of the program. -/
theorem Makes.runs {allowed : Call → Prop} {mid : MemoryStore → Prop} {program : Program α}
    {store : MemoryStore} (h : Makes allowed program) (hmid : mid store)
    (hkeep : ∀ (c : Call) (answer : c.Answer) (before behind : MemoryStore), c.OnRecords →
      allowed c → mid before → before.reply c = some (answer, behind) → mid behind) :
    Runs mid True (fun _ _ => True) program store := by
  induction program generalizing store with
  | done result =>
      cases result with
      | ok a => exact ⟨hmid, trivial⟩
      | error e => exact ⟨hmid, trivial⟩
  | call c next ih =>
      rcases h with ⟨hrecords, hallowed, herror, hrest⟩
      rcases hrecords.replied store with ⟨answer, behind, hreply⟩
      exact ⟨hmid, hrecords, herror, answer, behind, hreply,
        ih _ (hrest answer) (hkeep c answer store behind hrecords hallowed hmid hreply)⟩

end Program

end ChainIndex
