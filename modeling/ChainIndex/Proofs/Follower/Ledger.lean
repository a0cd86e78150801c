import ChainIndex.Proofs.Program.Always

/-!
# The ledger of a follower

The ledger is one record. What it says, and what is known after it has been written or read
in surroundings where every call may fail: a write that fails has not happened.

## Main definitions

* `MemoryStore.Noted`: What the ledger says.
* `MemoryStore.AtRest`: It names no attempt that has not ended.
* `MemoryStore.Attempting`: It names an attempt on a block that has not ended.

## Theorems

* `always_write`, `always_read?`: Writing and reading the ledger.
* `alike_saved_status`: Writing the ledger changes no records.
-/

namespace ChainIndex

open Entity Program

namespace MemoryStore

/-- The ledger says this, or nothing. -/
def Noted (store : MemoryStore) (status : Option SyncStatus) : Prop :=
  store.find ledgerModel SyncStatus.onlyKey = status.map stored

/-- The ledger is empty, or says that the last attempt has ended. -/
def AtRest (store : MemoryStore) : Prop :=
  ∃ status, store.Noted status ∧ ∀ noted, status = some noted → noted.phase.isTerminal = true

/-- The ledger says that an attempt on the block has not ended. -/
def Attempting (store : MemoryStore) (block : Block) : Prop :=
  ∃ status, store.Noted (some status) ∧ status.hash = block.hash ∧
    status.height = block.height ∧ status.phase.isTerminal = false

theorem noted_saved (store : MemoryStore) (status : SyncStatus) :
    (saved store status).Noted (some status) := by
  rw [Noted, find_saved]
  exact if_pos ⟨rfl, rfl⟩

theorem noted_injective {store : MemoryStore} {a b : Option SyncStatus} (ha : store.Noted a)
    (hb : store.Noted b) : a = b := by
  have h : a.map stored = b.map stored := ha.symm.trans hb
  cases a with
  | none =>
      cases b with
      | none => rfl
      | some b => exact absurd h (by simp)
  | some a =>
      cases b with
      | none => exact absurd h (by simp)
      | some b =>
          rw [Option.map_some, Option.map_some, Option.some.injEq] at h
          rw [stored_injective h]

/-- The ledger says the same as long as its model stays as it is. -/
theorem Noted.congr {store other : MemoryStore} {status : Option SyncStatus}
    (h : store.Noted status) (hledger : other.model ledgerModel = store.model ledgerModel) :
    other.Noted status := by
  rw [Noted, ← h]
  exact congrArg (fun held : MemoryModel => held.records[SyncStatus.onlyKey]?) hledger

theorem Attempting.congr {store other : MemoryStore} {block : Block}
    (h : store.Attempting block) (hledger : other.model ledgerModel = store.model ledgerModel) :
    other.Attempting block := by
  rcases h with ⟨status, hnoted, hrest⟩
  exact ⟨status, hnoted.congr hledger, hrest⟩

/-- An attempt that has not ended keeps the follower from its rest. -/
theorem Attempting.not_atRest {store : MemoryStore} {block : Block} (h : store.Attempting block) :
    ¬ store.AtRest := by
  rintro ⟨status, hnoted, hterminal⟩
  rcases h with ⟨other, hother, _, _, hphase⟩
  have := hterminal other (noted_injective hnoted hother)
  rw [hphase] at this
  exact absurd this (by decide)

theorem find_saved_status (store : MemoryStore) (status : SyncStatus) {m : String} (k : String)
    (hm : m ≠ ledgerModel) : (saved store status).find m k = store.find m k := by
  rw [find_saved]
  exact if_neg fun hc => hm hc.1

/-- Writing the ledger changes no records. -/
theorem alike_saved_status {store : MemoryStore} (hwf : store.WF) (status : SyncStatus) :
    store.Alike (saved store status) :=
  alike_of_find hwf (wf_saved hwf status) fun _ k hm =>
    (find_saved_status store status k hm).symm

end MemoryStore

open MemoryStore

variable {env : Surroundings} {mid : MemoryStore → Prop} {store : MemoryStore}

/-- The ledger has been written, or a call has failed and it has not. -/
theorem always_write {hash : String} {height : UInt32} {phase : SyncPhase} (hmid : mid store)
    (hsaved : ∀ now, mid (saved store (⟨hash, height, phase, now⟩ : SyncStatus))) :
    Always env mid (fun result behind =>
        (result = .ok () ∧ ∃ now, behind = saved store (⟨hash, height, phase, now⟩ : SyncStatus)) ∨
          ((∃ e, result = .error e) ∧ env.faulty ∧ behind = store))
      (SyncStatus.write hash height phase) store := by
  refine always_bind (q := fun answer behind => behind = store ∧
    ∀ e, answer = .error e → env.faulty) (always_request hmid fun answer behind hanswer => ?_)
    ?_ fun e behind _ hend => Or.inr ⟨⟨e, rfl⟩, hend.2 e rfl, hend.1⟩
  · have hkept := Surroundings.answers_keeps hanswer rfl
    refine ⟨hkept ▸ hmid, hkept, fun e he => ?_⟩
    -- The clock answers unless the call fails.
    rcases hanswer with ⟨hfaulty, _⟩ | ⟨source, now, _, hworld⟩
    · exact hfaulty
    · simp only [he, World.answer, Prod.mk.injEq, reduceCtorEq, false_and] at hworld
  · rintro now behind - ⟨rfl, -⟩
    refine always_request hmid fun answer after hanswer => ?_
    rcases Surroundings.answers_of_reply hanswer rfl with ⟨hfaulty, herror, rfl⟩ | ⟨rfl, rfl⟩
    · exact ⟨hmid, Or.inr ⟨herror, hfaulty, rfl⟩⟩
    · exact ⟨hsaved now, Or.inl ⟨rfl, now, rfl⟩⟩

/-- The ledger is read as it is, or a call has failed. -/
theorem always_read? {status : Option SyncStatus} (hnoted : store.Noted status)
    (hmid : mid store) :
    Always env mid (fun result behind =>
        behind = store ∧ (result = .ok status ∨ (∃ e, result = .error e) ∧ env.faulty))
      SyncStatus.read? store := by
  refine always_bind (q := fun answer behind => behind = store ∧
    (answer = .ok (status.map toJson) ∨ (∃ e, answer = .error e) ∧ env.faulty))
    (always_request hmid fun answer behind hanswer => ?_) ?_ ?_
  · have hget : store.get (model SyncStatus) SyncStatus.onlyKey = status.map toJson := by
      change (store.find ledgerModel SyncStatus.onlyKey).map Prod.fst = _
      rw [hnoted, Option.map_map]
      rfl
    rcases Surroundings.answers_of_reply hanswer rfl with ⟨hfaulty, herror, rfl⟩ | ⟨rfl, rfl⟩
    · exact ⟨hmid, rfl, Or.inr ⟨herror, hfaulty⟩⟩
    · exact ⟨hmid, rfl, Or.inl (congrArg Except.ok hget)⟩
  · rintro value behind - ⟨rfl, hvalue | ⟨⟨e, he⟩, _⟩⟩
    · rw [Except.ok.injEq] at hvalue
      subst hvalue
      cases status with
      | none => exact always_pure hmid ⟨rfl, Or.inl rfl⟩
      | some status =>
          simp only [Option.map_some, RoundTrip.decode_toJson]
          exact always_pure hmid ⟨rfl, Or.inl rfl⟩
    · exact absurd he (by simp)
  · rintro e behind - ⟨rfl, hvalue | ⟨_, hfaulty⟩⟩
    · exact absurd hvalue (by simp)
    · exact ⟨rfl, Or.inr ⟨⟨e, rfl⟩, hfaulty⟩⟩

end ChainIndex
