import ChainIndex.Proofs.Indexer.Writes

/-!
# Hooks that are taken back

An undo hook is run long after the hook that it takes back, and on a store that has been
written to and restored again in between. What it can count on is that the store says the
same as the one that the hook had left, and of the models that matter here only. So that is
what taking back means: `Reverts models undo after before` says that `undo`, run on any store
that says the same of `models` as `after`, leaves one that says the same as `before`.

That is kept when hooks are put together. A block that applies its hooks one after another
and undoes them backwards is taken back as soon as each of its hooks is, and a hook that does
not write to the models at all is taken back by any that does not either. What is left to show
of a model are the hooks that write to it.

## Main definitions

* `MemoryStore.Agree`: Two stores hold the same of some models.
* `Reverts`: A program takes back what has led from one store to another.

## Theorems

* `Makes.runs_outside`, `Makes.agrees`: A program leaves alone where it does not write.
* `Reverts.seq`: What is put together is taken back.
* `Reverts.of_free`, `Reverts.of_held`: A single save.
* `runs_operations`: The operations of a block, one after another.
* `runs_applyAhead_reverts`, `runs_applyBlock_reverts`: A whole block.
-/

namespace ChainIndex

open Entity

namespace MemoryStore

/-- Two stores hold the same records of some models. -/
def Agree (models : List String) (a b : MemoryStore) : Prop :=
  ∀ m ∈ models, ∀ k, a.find m k = b.find m k

variable {models : List String} {a b c : MemoryStore}

theorem Agree.refl (models : List String) (a : MemoryStore) : a.Agree models a :=
  fun _ _ _ => rfl

theorem Agree.symm (h : a.Agree models b) : b.Agree models a :=
  fun m hm k => (h m hm k).symm

theorem Agree.trans (hab : a.Agree models b) (hbc : b.Agree models c) : a.Agree models c :=
  fun m hm k => (hab m hm k).trans (hbc m hm k)

/-- A save of another kind leaves these models as they are. -/
theorem agree_saved {α : Type} [Entity α] (hother : Entity.model α ∉ models)
    (store : MemoryStore) (value : α) : (saved store value).Agree models store := by
  intro m hm k
  rw [find_saved, if_neg]
  rintro ⟨rfl, _⟩
  exact hother hm

end MemoryStore

open MemoryStore

namespace Program

variable {models others : List String} {α : Type}

/-- A program leaves the store in order and alone where it does not write. -/
theorem Makes.runs_outside {keys : String → String → Prop} {program : Program α}
    (h : Makes (Call.Within keys) program) {store : MemoryStore} (hwf : store.WF) :
    Runs MemoryStore.WF True (fun _ behind => SameOutside keys store behind) program store := by
  have hruns : Runs (fun behind => behind.WF ∧ SameOutside keys store behind) True
      (fun _ _ => True) program store :=
    h.runs ⟨hwf, .refl _ store⟩ fun c answer before behind _ hwithin hbefore hreply =>
      ⟨hbefore.1.reply c answer hreply, hbefore.2.trans (.reply hwithin answer hreply)⟩
  exact (hruns.mono fun _ _ hmid _ => hmid.2).weaken (fun _ hmid => hmid.1) id

/-- A program that writes to other models leaves these as they are. -/
theorem Makes.agrees {program : Program α} (h : Makes (Call.Within (KeysOf others)) program)
    (hothers : ∀ m ∈ models, m ∉ others) {store : MemoryStore} (hwf : store.WF) :
    Runs MemoryStore.WF True (fun _ behind => behind.Agree models store) program store :=
  (h.runs_outside hwf).mono fun _ _ _ hsame m hm k => hsame m k (hothers m hm)

end Program

open Program

/-- Undoing takes back what has led from `before` to `after`: run on any store that says the
    same of `models` as `after`, it leaves one that says the same as `before`. -/
def Reverts (models : List String) (undo : Program Unit) (after before : MemoryStore) : Prop :=
  ∀ start : MemoryStore, start.WF → start.Agree models after →
    Runs MemoryStore.WF True (fun _ behind => behind.Agree models before) undo start

namespace Reverts

variable {models others : List String} {undo first second : Program Unit}
variable {before mid after : MemoryStore}

/-- What is put together is taken back, the last part first. -/
theorem seq (hsecond : Reverts models second after mid) (hfirst : Reverts models first mid before) :
    Reverts models (second >>= fun _ => first) after before :=
  fun start hwf hagree => runs_bind (hsecond start hwf hagree)
    fun _ behind hbehind hmid => hfirst behind hbehind hmid

/-- Where nothing was written there is nothing to take back. -/
theorem of_agree (hundo : Makes (Call.Within (KeysOf others)) undo)
    (hothers : ∀ m ∈ models, m ∉ others) (h : after.Agree models before) :
    Reverts models undo after before :=
  fun _ hwf hagree => (hundo.agrees hothers hwf).mono
    fun _ _ _ hbehind => hbehind.trans (hagree.trans h)

/-- It is enough to say the same as what was left. -/
theorem congr (h : Reverts models undo after before) {after' : MemoryStore}
    (hagree : after'.Agree models after) : Reverts models undo after' before :=
  fun start hwf hstart => h start hwf (hstart.trans hagree)

/-- A value under a key that was free is taken back by its removal. -/
theorem of_free {α : Type} [Entity α] [Recorded α] {a : α}
    (hfree : before.find (model α) (key a) = none) :
    Reverts models (remove α (key a)) (saved before a) before := by
  intro start hwf hagree
  refine runs_remove hwf (wf_removed hwf _) fun m hm k => ?_
  rw [find_removed, hagree m hm, find_saved]
  by_cases hk : m = model α ∧ k = key a
  · rw [if_pos hk, hk.1, hk.2, hfree]
  · rw [if_neg hk, if_neg hk]

/-- A value in place of another one is taken back by a save of that one. -/
theorem of_held {α : Type} [Entity α] [Recorded α] {a b : α} (hheld : Held before b)
    (hk : key a = key b) : Reverts models (save b) (saved before a) before := by
  intro start hwf hagree
  refine runs_save hwf (wf_saved hwf _) fun m hm k => ?_
  rw [find_saved, hagree m hm, find_saved, hk]
  by_cases hkey : m = model α ∧ k = key b
  · rw [if_pos hkey, hkey.1, hkey.2]
    exact hheld.symm
  · rw [if_neg hkey, if_neg hkey]

end Reverts

section

variable {models : List String} (symbol : String) {block : Block} {base : MemoryStore}
variable {Inv : List (Transaction × DecodedOp) → MemoryStore → Prop}

/-- The operations of a block keep an invariant and are taken back from the last if each of
    them does and is. -/
theorem runs_operations
    (hstep : ∀ init tx op rest before, block.ops = init ++ (tx, op) :: rest → before.WF →
      Inv init before → Runs MemoryStore.WF True
        (fun _ after => Inv (init ++ [(tx, op)]) after ∧ Reverts models
          ((Indexer.ofTag symbol op.tag).hook .undo (.transaction tx op) block) after before)
        ((Indexer.ofTag symbol op.tag).hook .apply (.transaction tx op) block) before)
    (hwf : base.WF) (hstart : Inv [] base) :
    Runs MemoryStore.WF True
      (fun _ after => Inv block.ops after ∧ Reverts models
        (block.ops.reverse.forM fun (tx, op) =>
          (Indexer.ofTag symbol op.tag).hook .undo (.transaction tx op) block) after base)
      (block.ops.forM fun (tx, op) =>
        (Indexer.ofTag symbol op.tag).hook .apply (.transaction tx op) block) base := by
  refine runs_forM (fun done _ after => Inv done after ∧ Reverts models
    (done.reverse.forM fun (tx, op) =>
      (Indexer.ofTag symbol op.tag).hook .undo (.transaction tx op) block) after base)
    block.ops hwf ⟨hstart, fun start hstart hagree => runs_pure hstart hagree⟩ ?_
  rintro done ⟨tx, op⟩ rest before hops hbefore ⟨hinv, hreverts⟩
  refine (hstep done tx op rest before hops.symm hbefore hinv).mono
    fun _ after _ hafter => ⟨hafter.1, ?_⟩
  rw [List.reverse_append, List.reverse_singleton, List.singleton_append]
  exact hafter.2.seq hreverts

theorem makes_writeTransaction (position : Nat) (tx : Transaction) :
    Makes (Call.Within (KeysOf chainModels)) (writeTransaction block position tx) :=
  makes_bind (makes_forM _ fun _ _ =>
      makes_save _ (by decide : model OutputRecord ∈ chainModels)) fun _ =>
    makes_save _ (by decide : model TransactionRecord ∈ chainModels)

/-- A block lists its transactions ahead of its operations. -/
theorem makes_listing :
    Makes (Call.Within (KeysOf chainModels))
      (block.transactions.zipIdx.forM fun (tx, position) =>
        writeTransaction block position tx) :=
  makes_forM _ fun p _ => makes_writeTransaction p.2 p.1

/-- The first block seeds the native token. -/
theorem makes_seedFirst :
    Makes (Call.Within (KeysOf [model Token]))
      (if block.height = 0 then seedNative symbol block else pure ()) := by
  split
  · exact makes_seedNative symbol block
  · exact makes_done _

/-- Undoing a block, its transactions go behind its operations. -/
theorem makes_unlisting :
    Makes (Call.Within (KeysOf chainModels))
      (block.transactions.reverse.forM eraseTransaction) :=
  makes_forM _ fun _ _ =>
    makes_bind (makes_remove TransactionRecord (by decide : _ ∈ chainModels)) fun _ =>
      makes_forM _ fun _ _ => makes_remove OutputRecord (by decide : _ ∈ chainModels)

/-- And the native token with the first block. -/
theorem makes_unseedFirst :
    Makes (Call.Within (KeysOf [model Token]))
      (if block.height = 0 then Entity.remove Token Token.nativeId else pure ()) := by
  split
  · exact makes_remove Token (by decide : model Token ∈ [model Token])
  · exact makes_done _

/-- What applying a block does ahead of the statistics is taken back if its operations are,
    where only these concern the models. What is kept along may only be about the models. -/
theorem runs_applyAhead_reverts
    (hothers : ∀ m ∈ models, m ∉ model Token :: model PriceAggregate :: chainModels)
    (hcongr : ∀ done before after, Inv done before → after.WF → after.Agree models before →
      Inv done after)
    (hstep : ∀ init tx op rest before, block.ops = init ++ (tx, op) :: rest → before.WF →
      Inv init before → Runs MemoryStore.WF True
        (fun _ after => Inv (init ++ [(tx, op)]) after ∧ Reverts models
          ((Indexer.ofTag symbol op.tag).hook .undo (.transaction tx op) block) after before)
        ((Indexer.ofTag symbol op.tag).hook .apply (.transaction tx op) block) before)
    (hwf : base.WF) (hstart : Inv [] base) :
    Runs MemoryStore.WF True
      (fun _ after => Inv block.ops after ∧
        Reverts models (Registry.undoAhead symbol block) after base)
      (Registry.applyAhead symbol block) base := by
  have htoken : ∀ m ∈ models, m ∉ [model Token] := fun m hm hc =>
    hothers m hm (List.mem_cons.mpr (Or.inl (List.mem_singleton.mp hc)))
  have haggregate : ∀ m ∈ models, m ∉ [model PriceAggregate] := fun m hm hc =>
    hothers m hm (List.mem_cons_of_mem _ (List.mem_cons.mpr (Or.inl (List.mem_singleton.mp hc))))
  have hchain : ∀ m ∈ models, m ∉ chainModels := fun m hm hc =>
    hothers m hm (List.mem_cons_of_mem _ (List.mem_cons_of_mem _ hc))
  -- Ahead of the operations nothing is written that concerns the models.
  refine runs_bind ((makes_seedFirst symbol).agrees htoken hwf) fun _ seeded hseeded hagree => ?_
  refine runs_bind (makes_listing.agrees hchain hseeded) fun _ listed hlisted hsame => ?_
  have hinv := hcongr [] base listed hstart hlisted (hsame.trans hagree)
  refine runs_bind (runs_operations symbol hstep hlisted hinv)
    fun _ operated hoperated hdone => ?_
  refine ((makes_aggregates block .apply).agrees haggregate hoperated).mono
    fun _ priced hpriced hkept => ⟨hcongr _ _ priced hdone.1 hpriced hkept, ?_⟩
  exact (Reverts.of_agree (makes_aggregates block .undo) haggregate hkept).seq (hdone.2.seq
    ((Reverts.of_agree makes_unlisting hchain hsame).seq
      (.of_agree makes_unseedFirst htoken hagree)))

/-- A block is taken back if its operations are and its statistics. -/
theorem runs_applyBlock_reverts {Post : MemoryStore → Prop}
    (hothers : ∀ m ∈ models, m ∉ model Token :: model PriceAggregate :: chainModels)
    (hcongr : ∀ done before after, Inv done before → after.WF → after.Agree models before →
      Inv done after)
    (hstep : ∀ init tx op rest before, block.ops = init ++ (tx, op) :: rest → before.WF →
      Inv init before → Runs MemoryStore.WF True
        (fun _ after => Inv (init ++ [(tx, op)]) after ∧ Reverts models
          ((Indexer.ofTag symbol op.tag).hook .undo (.transaction tx op) block) after before)
        ((Indexer.ofTag symbol op.tag).hook .apply (.transaction tx op) block) before)
    (hstats : ∀ before, before.WF → Inv block.ops before → Runs MemoryStore.WF True
      (fun _ after => Post after ∧ Reverts models (MasternodeStats.discard block) after before)
      (Indexer.masternodeStats.hook .apply .blockEnd block) before)
    (hwf : base.WF) (hstart : Inv [] base) :
    Runs MemoryStore.WF True
      (fun _ after => Post after ∧
        Reverts models ((Registry.standard symbol).undoBlock block) after base)
      ((Registry.standard symbol).applyBlock block) base := by
  rw [Registry.applyBlock_ahead, Registry.undoBlock_ahead]
  refine runs_bind (runs_applyAhead_reverts symbol hothers hcongr hstep hwf hstart)
    fun _ behind hbehind hahead => ?_
  exact (hstats behind hbehind hahead.1).mono
    fun _ after _ hafter => ⟨hafter.1, hafter.2.seq hahead.2⟩

end

end ChainIndex
