import Mathlib.Data.Set.Finite.Basic
import Mathlib.Data.Fintype.Pigeonhole
import Mathlib.Logic.Relation
import Mathlib.Logic.Function.Iterate

/-!
What reference counting keeps. An object goes when no root and no other object refers to it; one
that is anchored, by a root or by a cycle of references, stays, and among finitely many objects
nothing else stays in the end.
-/

namespace GameScript.Counting

open Relation

variable {α : Type} {refers refers' : α → α → Prop} {root root' : α → Prop} {x y z : α}

/-- `x` is reached from a root or from a cycle of references. -/
def Anchored (refers : α → α → Prop) (root : α → Prop) (x : α) : Prop :=
  (∃ r, root r ∧ ReflTransGen refers r x) ∨ ∃ y, TransGen refers y y ∧ ReflTransGen refers y x

theorem Anchored.of_root (h : root x) : Anchored refers root x := .inl ⟨x, h, .refl⟩

theorem Anchored.of_self (h : refers x x) : Anchored refers root x := .inr ⟨x, .single h, .refl⟩

theorem Anchored.step (h : Anchored refers root x) (hxy : refers x y) :
    Anchored refers root y := by
  rcases h with ⟨r, hr, hreach⟩ | ⟨c, hcycle, hreach⟩
  · exact .inl ⟨r, hr, hreach.tail hxy⟩
  · exact .inr ⟨c, hcycle, hreach.tail hxy⟩

/-- More references and more roots keep more. -/
theorem Anchored.mono (h : Anchored refers root x) (hrefers : ∀ a b, refers a b → refers' a b)
    (hroot : ∀ a, root a → root' a) : Anchored refers' root' x := by
  rcases h with ⟨r, hr, hreach⟩ | ⟨c, hcycle, hreach⟩
  · exact .inl ⟨r, hroot r hr, ReflTransGen.mono hrefers _ _ hreach⟩
  · exact .inr ⟨c, TransGen.mono hrefers _ _ hcycle, ReflTransGen.mono hrefers _ _ hreach⟩

/-- Something refers to what is anchored. -/
theorem Anchored.holder (h : Anchored refers root x) : root x ∨ ∃ y, refers y x := by
  rcases h with ⟨r, hr, hreach⟩ | ⟨c, hcycle, hreach⟩
  · rcases ReflTransGen.cases_tail hreach with rfl | ⟨y, -, hyx⟩
    · exact .inl hr
    · exact .inr ⟨y, hyx⟩
  · right
    rcases ReflTransGen.cases_tail hreach with rfl | ⟨y, -, hyx⟩
    · obtain ⟨y, -, hyx⟩ := TransGen.tail'_iff.mp hcycle
      exact ⟨y, hyx⟩
    · exact ⟨y, hyx⟩

/-- A path that starts elsewhere does not come by an object nothing refers to. -/
theorem reach_without (hz : ∀ a, ¬ refers a z) (hx : x ≠ z) (h : ReflTransGen refers x y) :
    ReflTransGen (fun a b => a ≠ z ∧ refers a b) x y ∧ y ≠ z := by
  induction h with
  | refl => exact ⟨.refl, hx⟩
  | tail _ hbc ih =>
      refine ⟨ih.1.tail ⟨ih.2, hbc⟩, ?_⟩
      rintro rfl
      exact hz _ hbc

/-- What is anchored stays anchored when an object goes that nothing refers to. -/
theorem Anchored.without (h : Anchored refers root x) (hroot : ¬ root z)
    (hz : ∀ a, ¬ refers a z) : Anchored (fun a b => a ≠ z ∧ refers a b) root x := by
  rcases h with ⟨r, hr, hreach⟩ | ⟨c, hcycle, hreach⟩
  · left
    have hne : r ≠ z := by
      rintro rfl
      exact hroot hr
    exact ⟨r, hr, (reach_without hz hne hreach).1⟩
  · right
    obtain ⟨b, hcb, hbc⟩ := TransGen.tail'_iff.mp hcycle
    have hne : c ≠ z := by
      rintro rfl
      exact hz b hbc
    have hcb' := reach_without hz hne hcb
    exact ⟨c, TransGen.tail' hcb'.1 ⟨hcb'.2, hbc⟩, (reach_without hz hne hreach).1⟩

/-- When finitely many objects are left and something refers to each, each is anchored. -/
theorem anchored_of_settled {s : Set α} (hfin : s.Finite)
    (hheld : ∀ x ∈ s, root x ∨ ∃ y ∈ s, refers y x) : ∀ x ∈ s, Anchored refers root x := by
  by_contra hnot
  push Not at hnot
  obtain ⟨x, hx, hloose⟩ := hnot
  let loose := {y // y ∈ s ∧ ¬ Anchored refers root y}
  have hback : ∀ y : loose, ∃ y' : loose, refers y'.1 y.1 := by
    rintro ⟨y, hy, hy'⟩
    rcases hheld y hy with hroot | ⟨a, ha, hay⟩
    · exact absurd (.of_root hroot) hy'
    · exact ⟨⟨a, ha, fun hanchor => hy' (hanchor.step hay)⟩, hay⟩
  choose back hback using hback
  -- going back from `x` comes to some object twice
  let walk : Nat → loose := fun n => back^[n] ⟨x, hx, hloose⟩
  have hwalk : ∀ n k, TransGen refers (walk (n + k + 1)).1 (walk n).1 := by
    intro n k
    induction k with
    | zero =>
        apply TransGen.single
        simp only [walk, Nat.add_zero, Function.iterate_succ', Function.comp_apply]
        exact hback _
    | succ k ih =>
        refine TransGen.head ?_ ih
        simp only [walk, ← Nat.add_assoc, Function.iterate_succ', Function.comp_apply]
        exact hback _
  have hfinite : Finite loose := (hfin.subset fun y (hy : y ∈ s ∧ _) => hy.1).to_subtype
  obtain ⟨i, j, hne, heq⟩ := Finite.exists_ne_map_eq_of_infinite walk
  have hcycle : ∀ i j, i < j → walk i = walk j → False := by
    intro i j hij heq
    obtain ⟨k, rfl⟩ : ∃ k, j = i + k + 1 := ⟨j - i - 1, by omega⟩
    have h := hwalk i k
    rw [← heq] at h
    exact (walk i).2.2 (.inr ⟨_, h, .refl⟩)
  rcases Nat.lt_or_gt_of_ne hne with hij | hji
  · exact hcycle i j hij heq
  · exact hcycle j i hji heq.symm

end GameScript.Counting
