import ChainIndex.Proofs.Chain.Mirror

/-!
# Forks

Two chains of served blocks share the blocks up to where they fork and none behind: a block
names the one before it by hash, and there is one block for each hash, so chains that share
a block share everything below it.

## Main definitions

* `Chain.common`: The blocks that two chains begin with.
* `Chain.Diverged`: Two chains begin with different blocks.

## Theorems

* `common_fork`: Two chains are what they have in common and two that diverge.
* `Linked.agree`: Chains that share a block share all the blocks below.
* `Linked.not_shared`: Behind a fork no block is shared.
-/

namespace ChainIndex

namespace Chain

/-- The blocks that two chains begin with. -/
def common : List Block → List Block → List Block
  | x :: xs, y :: ys => if x = y then x :: common xs ys else []
  | _, _ => []

/-- If neither chain is empty, they begin with different blocks. -/
def Diverged (a b : List Block) : Prop :=
  ∀ x y, a.head? = some x → b.head? = some y → x ≠ y

/-- Two chains are what they have in common and two that diverge. -/
theorem common_fork (a b : List Block) :
    ∃ stale fresh, a = common a b ++ stale ∧ b = common a b ++ fresh ∧ Diverged stale fresh := by
  induction a generalizing b with
  | nil => exact ⟨[], b, rfl, rfl, by simp [Diverged]⟩
  | cons x xs ih =>
      cases b with
      | nil => exact ⟨x :: xs, [], rfl, rfl, by simp [Diverged]⟩
      | cons y ys =>
          by_cases heq : x = y
          · rcases ih ys with ⟨stale, fresh, hstale, hfresh, hdiverged⟩
            refine ⟨stale, fresh, ?_, ?_, hdiverged⟩
            · rw [common, if_pos heq, List.cons_append, ← hstale]
            · rw [common, if_pos heq, List.cons_append, ← hfresh, heq]
          · refine ⟨x :: xs, y :: ys, ?_, ?_, ?_⟩
            · rw [common, if_neg heq, List.nil_append]
            · rw [common, if_neg heq, List.nil_append]
            · intro x' y' hx hy
              rw [← Option.some.inj hx, ← Option.some.inj hy]
              exact heq

variable {served : String → Option Block} {a b : List Block}

/-- Chains that share a block share all the blocks below. -/
theorem Linked.agree (ha : Linked served a) (hb : Linked served b) {n : Nat} {block : Block}
    (han : a[n]? = some block) (hbn : b[n]? = some block) :
    ∀ i, i ≤ n → a[i]? = b[i]? := by
  induction n generalizing block with
  | zero =>
      intro i hi
      rw [Nat.le_zero.mp hi, han, hbn]
  | succ n ih =>
      have halt := (List.getElem?_eq_some_iff.mp han).1
      have hblt := (List.getElem?_eq_some_iff.mp hbn).1
      have hget : a[n]? = some a[n] := List.getElem?_eq_getElem (by omega)
      have hget' : b[n]? = some b[n] := List.getElem?_eq_getElem (by omega)
      -- The two parents have one hash, and so they are one block.
      have hhash : a[n].hash = b[n].hash :=
        (ha.linked n a[n] block hget han).symm.trans (hb.linked n b[n] block hget' hbn)
      have hparent : a[n] = b[n] := by
        rw [← Option.some.injEq, ← ha.served _ (List.getElem_mem _), hhash,
          hb.served _ (List.getElem_mem _)]
      intro i hi
      rcases Nat.lt_or_eq_of_le hi with hlt | rfl
      · exact ih hget (hparent ▸ hget') i (by omega)
      · rw [han, hbn]

/-- Behind a fork no block is shared. -/
theorem Linked.not_shared {shared init fresh : List Block} {tip : Block}
    (ha : Linked served (shared ++ (init ++ [tip]))) (hb : Linked served (shared ++ fresh))
    (hdiverged : Diverged (init ++ [tip]) fresh) :
    (shared ++ fresh)[(shared ++ init).length]? ≠ some tip := by
  intro hget
  have htip : (shared ++ (init ++ [tip]))[(shared ++ init).length]? = some tip := by
    rw [← List.append_assoc, List.getElem?_append_right (Nat.le_refl _)]
    simp
  have hfork := ha.agree hb htip hget shared.length (by simp)
  rw [List.getElem?_append_right (Nat.le_refl _), List.getElem?_append_right (Nat.le_refl _),
    Nat.sub_self, ← List.head?_eq_getElem?, ← List.head?_eq_getElem?] at hfork
  cases init with
  | nil => exact hdiverged tip tip rfl hfork.symm rfl
  | cons x rest => exact hdiverged x x rfl hfork.symm rfl

end Chain

end ChainIndex
