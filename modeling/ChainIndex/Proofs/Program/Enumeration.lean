import ChainIndex.Proofs.Program.Records
import Mathlib.Data.List.Nodup
import Mathlib.Data.List.Perm.Basic

/-!
# All values of a kind

A store can be asked for everything that it holds of a kind, and what comes back is a list.
What is counted or summed up over that list depends on the records alone: if every record was
stored as a value, under the key of that value, then the list has each value that is held once.

A save either adds a value to the list or takes the place of one. In both cases the rest of
the list stays, up to its order, and no order matters to a count or a sum.

## Main definitions

* `Entity.all`: All values of a kind that a store holds.

## Theorems

* `mem_all`, `nodup_all`: The values that are held, each of them once.
* `all_congr`: Two stores with the same records.
* `all_saved_fresh`, `all_saved_held`: What a save makes of the list.
-/

namespace ChainIndex

namespace Entity

variable {α : Type} [Entity α] {store after : MemoryStore}

variable (α) in
/-- All values of a kind that a store holds, in the order of their keys. -/
def all (store : MemoryStore) : List α :=
  (store.dump (model α)).filterMap fun record => (decode record.2).toOption

theorem mem_dump (store : MemoryStore) (m k : String) (value : Json) :
    (k, value) ∈ store.dump m ↔ ∃ entries, store.find m k = some (value, entries) := by
  rw [MemoryStore.dump, List.mem_map]
  constructor
  · rintro ⟨⟨key, found, entries⟩, hmem, heq⟩
    rw [Prod.mk.injEq] at heq
    rcases heq with ⟨rfl, rfl⟩
    exact ⟨entries, Std.TreeMap.mem_toList_iff_getElem?_eq_some.mp hmem⟩
  · rintro ⟨entries, hfind⟩
    exact ⟨(k, value, entries), Std.TreeMap.mem_toList_iff_getElem?_eq_some.mpr hfind, rfl⟩

variable (α) in
/-- What is held of a kind depends on the records of that kind alone. -/
theorem all_congr (h : ∀ k, after.find (model α) k = store.find (model α) k) :
    all α after = all α store := by
  have hlist : (after.model (model α)).records.toList = (store.model (model α)).records.toList :=
    Std.TreeMap.Equiv.toList_eq (Std.TreeMap.Equiv.of_forall_constGet?_eq h)
  rw [all, all, MemoryStore.dump, MemoryStore.dump, hlist]

variable [RoundTrip α]

theorem mem_all (h : Typed α store) (a : α) : a ∈ all α store ↔ Held store a := by
  rw [all, List.mem_filterMap]
  constructor
  · rintro ⟨⟨k, value⟩, hmem, hdecode⟩
    rcases (mem_dump store (model α) k value).mp hmem with ⟨entries, hfind⟩
    rcases h k _ hfind with ⟨b, hb, rfl⟩
    -- What was stored is read back, so it is the value that was found.
    rw [show value = toJson b from congrArg Prod.fst hb, RoundTrip.decode_toJson] at hdecode
    rw [← Option.some.inj hdecode, Held, hfind, hb]
  · intro hheld
    refine ⟨(key a, toJson a), (mem_dump _ _ _ _).mpr ⟨entries a, hheld⟩, ?_⟩
    simp only [RoundTrip.decode_toJson, Except.toOption]

/-- No two values are under the same key. -/
theorem nodup_all (h : Typed α store) : (all α store).Nodup := by
  have hkeys : (all α store).map key = (store.dump (model α)).map Prod.fst := by
    rw [all, List.map_filterMap, ← List.filterMap_eq_map]
    refine List.filterMap_congr fun record hmem => ?_
    rcases record with ⟨k, value⟩
    rcases (mem_dump store (model α) k value).mp hmem with ⟨entries, hfind⟩
    rcases h k _ hfind with ⟨b, hb, rfl⟩
    rw [show value = toJson b from congrArg Prod.fst hb, RoundTrip.decode_toJson]
    rfl
  refine List.Nodup.of_map key ?_
  rw [hkeys, MemoryStore.dump, List.map_map]
  refine List.pairwise_map.mpr (Std.TreeMap.distinct_keys_toList.imp fun hne heq => hne ?_)
  exact Std.LawfulEqCmp.compare_eq_iff_eq.mpr heq

/-- A save takes the place of what was under the key of the value. -/
theorem all_saved (h : Typed α store) (a : α) :
    (all α (saved store a)).Perm (a :: (all α store).filter fun b => key b ≠ key a) := by
  have hrest : a ∉ (all α store).filter fun b => key b ≠ key a := by simp
  refine (List.perm_ext_iff_of_nodup (nodup_all (h.saved a))
    (List.nodup_cons.mpr ⟨hrest, (nodup_all h).filter _⟩)).mpr fun b => ?_
  rw [mem_all (h.saved a), List.mem_cons, List.mem_filter, mem_all h, Held, find_saved]
  by_cases hk : key b = key a
  · rw [if_pos ⟨rfl, hk⟩, Option.some.injEq]
    constructor
    · exact fun heq => Or.inl (stored_injective heq).symm
    · rintro (rfl | ⟨_, hne⟩)
      · rfl
      · exact absurd hk (by simpa using hne)
  · rw [if_neg fun hc => hk hc.2]
    constructor
    · exact fun hheld => Or.inr ⟨hheld, by simpa using hk⟩
    · rintro (rfl | ⟨hheld, _⟩)
      · exact absurd rfl hk
      · exact hheld

/-- Under a free key a save adds a value. -/
theorem all_saved_fresh (h : Typed α store) {a : α} (hfree : store.find (model α) (key a) = none) :
    (all α (saved store a)).Perm (a :: all α store) := by
  have hall : (all α store).filter (fun b => key b ≠ key a) = all α store := by
    refine List.filter_eq_self.mpr fun b hb => ?_
    have hheld := (mem_all h b).mp hb
    refine decide_eq_true fun hk => ?_
    rw [Held, hk, hfree] at hheld
    exact absurd hheld (by simp)
  exact hall ▸ all_saved h a

/-- Under the key of a value that is held it puts another one in its place. -/
theorem all_saved_held (h : Typed α store) {a b : α} (hheld : Held store b)
    (hk : key a = key b) :
    ∃ rest, (all α store).Perm (b :: rest) ∧ (all α (saved store a)).Perm (a :: rest) := by
  refine ⟨(all α store).filter fun c => key c ≠ key b, ?_, hk ▸ all_saved h a⟩
  -- To save what is held changes nothing.
  have hsame : all α (saved store b) = all α store := by
    refine all_congr α fun k => ?_
    rw [find_saved]
    by_cases hkey : k = key b
    · rw [if_pos ⟨rfl, hkey⟩, hkey]
      exact hheld.symm
    · rw [if_neg fun hc => hkey hc.2]
  exact hsame ▸ all_saved h b

end Entity

end ChainIndex
