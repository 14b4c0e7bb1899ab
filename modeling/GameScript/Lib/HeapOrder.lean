/-!
Heaps in a list whose index 0 is the root: the node `i` has the children `2i` and
`2i + 1`, as far as they are other nodes, so that 0 has the one child 1. `le` is
the order, with the greatest element at the root.

`HeapBut` has a hole, a node that may be less than its children; swapping it with
its greatest child moves the hole down, and a hole that is not less than its
children is none.
-/

namespace GameScript.HeapOrder

variable {α : Type} {le : α → α → Prop} {l l' : List α} {bottom : Nat}

/-- Among the indices up to `bottom`, no node from `lo` on is less than a child. -/
def HeapFrom (le : α → α → Prop) (l : List α) (lo bottom : Nat) : Prop :=
  ∀ j x y, 0 < j → j ≤ bottom → lo ≤ j / 2 → l[j]? = some x → l[j / 2]? = some y → le x y

/-- The same but for the children of `hole`, which are not greater than its parent. -/
structure HeapBut (le : α → α → Prop) (l : List α) (lo bottom hole : Nat) : Prop where
  edge : ∀ j x y, 0 < j → j ≤ bottom → lo ≤ j / 2 → j / 2 ≠ hole → l[j]? = some x →
    l[j / 2]? = some y → le x y
  grand : ∀ j x y, 0 < j → j ≤ bottom → j / 2 = hole → 0 < hole → lo ≤ hole / 2 →
    l[j]? = some x → l[hole / 2]? = some y → le x y

/-- Above the last node that has a child, there is nothing to be out of order. -/
theorem heapFrom_of_half {lo : Nat} (h : bottom / 2 < lo) : HeapFrom le l lo bottom := by
  intro j x y _ hj hlo
  omega

/-- The hole that is put in front of a heap. -/
theorem HeapFrom.toBut {lo : Nat} (h : HeapFrom le l (lo + 1) bottom) :
    HeapBut le l lo bottom lo where
  edge j x y hpos hj hlo hne := h j x y hpos hj (by omega)
  grand j x y hpos hj hhole hlo hle := by omega

/-- The root is the greatest of its heap. -/
theorem HeapFrom.root (hrefl : ∀ x ∈ l, le x x)
    (htrans : ∀ x ∈ l, ∀ y ∈ l, ∀ z ∈ l, le x y → le y z → le x z)
    (h : HeapFrom le l 0 bottom) (hlen : bottom < l.length) {j : Nat} (hj : j ≤ bottom) {x r : α}
    (hx : l[j]? = some x) (hr : l[0]? = some r) : le x r := by
  induction j using Nat.strongRecOn generalizing x with
  | ind j ih =>
      rcases Nat.eq_zero_or_pos j with rfl | hpos
      · rw [hx] at hr
        cases hr
        exact hrefl _ (List.mem_of_getElem? hx)
      · have hhalf : j / 2 < l.length := by omega
        have hy := List.getElem?_eq_getElem hhalf
        have hxy := h j x _ hpos hj (Nat.zero_le _) hx hy
        have hyr := ih (j / 2) (by omega) (by omega) hy
        exact htrans _ (List.mem_of_getElem? hx) _ (List.mem_of_getElem? hy) _
          (List.mem_of_getElem? hr) hxy hyr

/-! ### Swapping two elements -/

/-- `l` with `y` at `i` and `x` at `j`. -/
def swapped (l : List α) (i j : Nat) (x y : α) : List α := (l.set i y).set j x

section

variable {i j : Nat} {x y : α}

theorem swapped_length : (swapped l i j x y).length = l.length := by
  simp [swapped]

theorem swapped_left (hx : l[i]? = some x) (hy : l[j]? = some y) :
    (swapped l i j x y)[i]? = some y := by
  have hi : i < l.length := (List.getElem?_eq_some_iff.mp hx).1
  by_cases hij : i = j
  · subst hij
    rw [hx] at hy
    cases hy
    simp [swapped, hi]
  · rw [swapped, List.getElem?_set_ne (Ne.symm hij), List.getElem?_set_self hi]

theorem swapped_right (hy : l[j]? = some y) : (swapped l i j x y)[j]? = some x := by
  have hj : j < l.length := (List.getElem?_eq_some_iff.mp hy).1
  rw [swapped, List.getElem?_set_self (by simpa using hj)]

theorem swapped_other {k : Nat} (hi : k ≠ i) (hj : k ≠ j) : (swapped l i j x y)[k]? = l[k]? := by
  rw [swapped, List.getElem?_set_ne (Ne.symm hj), List.getElem?_set_ne (Ne.symm hi)]

theorem swapped_perm (hx : l[i]? = some x) (hy : l[j]? = some y) :
    (swapped l i j x y).Perm l := by
  obtain ⟨hi, rfl⟩ := List.getElem?_eq_some_iff.mp hx
  obtain ⟨hj, rfl⟩ := List.getElem?_eq_some_iff.mp hy
  exact List.set_set_perm hi hj

end

/-- `l'` has the elements of `l`, in another order up to `bottom` only. -/
structure Rearranged (l l' : List α) (bottom : Nat) : Prop where
  perm : l'.Perm l
  beyond : ∀ k, bottom < k → l'[k]? = l[k]?
  within : ∀ k, k ≤ bottom → ∃ i, i ≤ bottom ∧ l'[k]? = l[i]?

theorem Rearranged.refl (l : List α) (bottom : Nat) : Rearranged l l bottom :=
  ⟨.refl l, fun _ _ => rfl, fun k hk => ⟨k, hk, rfl⟩⟩

theorem Rearranged.trans {l'' : List α} (h : Rearranged l l' bottom)
    (h' : Rearranged l' l'' bottom) : Rearranged l l'' bottom where
  perm := h'.perm.trans h.perm
  beyond k hk := (h'.beyond k hk).trans (h.beyond k hk)
  within k hk := by
    obtain ⟨i, hi, hk⟩ := h'.within k hk
    obtain ⟨j, hj, hi⟩ := h.within i hi
    exact ⟨j, hj, hk.trans hi⟩

theorem Rearranged.swapped {i j : Nat} {x y : α} (hx : l[i]? = some x) (hy : l[j]? = some y)
    (hi : i ≤ bottom) (hj : j ≤ bottom) : Rearranged l (swapped l i j x y) bottom where
  perm := swapped_perm hx hy
  beyond k hk := swapped_other (by omega) (by omega)
  within k hk := by
    by_cases hki : k = i
    · subst hki
      exact ⟨j, hj, (swapped_left hx hy).trans hy.symm⟩
    · by_cases hkj : k = j
      · subst hkj
        exact ⟨i, hi, (swapped_right hy).trans hx.symm⟩
      · exact ⟨k, hk, swapped_other hki hkj⟩

/-! ### Moving the hole -/

/-- `child` holds the greatest of the children of `root`; it may be `root` itself
where that is its own child. -/
def MaxChild (le : α → α → Prop) (l : List α) (bottom root child : Nat) : Prop :=
  child / 2 = root ∧ child ≤ bottom ∧
    ∀ j x y, 0 < j → j ≤ bottom → j / 2 = root → l[j]? = some x → l[child]? = some y → le x y

/-- A hole that is not less than its greatest child is none. -/
theorem HeapBut.close {lo hole child : Nat} (h : HeapBut le l lo bottom hole)
    (htrans : ∀ x ∈ l, ∀ y ∈ l, ∀ z ∈ l, le x y → le y z → le x z)
    (hchild : MaxChild le l bottom hole child) {x y : α} (hx : l[child]? = some x)
    (hy : l[hole]? = some y) (hle : le x y) : HeapFrom le l lo bottom := by
  intro j z w hpos hj hlo hz hw
  by_cases hhole : j / 2 = hole
  · subst hhole
    rw [hy] at hw
    cases hw
    exact htrans _ (List.mem_of_getElem? hz) _ (List.mem_of_getElem? hx) _
      (List.mem_of_getElem? hy) (hchild.2.2 j z x hpos hj rfl hz hx) hle
  · exact h.edge j z w hpos hj hlo hhole hz hw

/-- A hole without children is none. -/
theorem HeapBut.leaf {lo hole : Nat} (h : HeapBut le l lo bottom hole) (hleaf : bottom < hole * 2) :
    HeapFrom le l lo bottom := by
  intro j z w hpos hj hlo
  exact h.edge j z w hpos hj hlo (by omega)

/-- The greatest child takes the place of the hole, and the hole its. -/
theorem HeapBut.descend {lo hole child : Nat} (h : HeapBut le l lo bottom hole) (hlo : lo ≤ hole)
    (hchild : MaxChild le l bottom hole child) (hne : hole ≠ child) {x y : α}
    (hx : l[hole]? = some x) (hy : l[child]? = some y) (hle : le x y) :
    HeapBut le (swapped l hole child x y) lo bottom child where
  edge j z w hpos hj hlo' hnot hz hw := by
    have hdown : hole < child := by
      have hhalf := hchild.1
      omega
    by_cases hhole : j / 2 = hole
    · -- a child of the old hole, which holds what was the greatest child now
      rw [hhole, swapped_left hx hy] at hw
      cases hw
      by_cases hjc : j = child
      · rw [hjc, swapped_right hy] at hz
        cases hz
        exact hle
      · by_cases hjh : j = hole
        · omega
        · rw [swapped_other hjh hjc] at hz
          exact hchild.2.2 j z y hpos hj hhole hz hy
    · rw [swapped_other hhole hnot] at hw
      by_cases hjh : j = hole
      · -- the old hole under its parent
        subst hjh
        rw [swapped_left hx hy] at hz
        cases hz
        exact h.grand child _ w (by omega) hchild.2.1 hchild.1 hpos hlo' hy hw
      · have hjc : j ≠ child := by
          rintro rfl
          exact hhole hchild.1
        rw [swapped_other hjh hjc] at hz
        exact h.edge j z w hpos hj hlo' hhole hz hw
  grand j z w hpos hj hjc hcpos hlo' hz hw := by
    have hdown : hole < child := by
      have hhalf := hchild.1
      omega
    rw [hchild.1, swapped_left hx hy] at hw
    cases hw
    rw [swapped_other (by omega) (by omega)] at hz
    exact h.edge j z y hpos hj (by omega) (by omega) hz (by rw [hjc]; exact hy)

/-! ### Taking the greatest out -/

/-- The elements behind `i` are in order, and none before them is greater. -/
structure Extracted (le : α → α → Prop) (l : List α) (i : Nat) : Prop where
  heap : HeapFrom le l 0 i
  below : ∀ j k x y, j ≤ i → i < k → l[j]? = some x → l[k]? = some y → le x y
  sorted : ∀ k x y, i < k → l[k]? = some x → l[k + 1]? = some y → le x y

theorem Extracted.start (h : HeapFrom le l 0 bottom) (hlen : l.length ≤ bottom + 1) :
    Extracted le l bottom where
  heap := h
  below j k x y _ hk _ hy := by
    have hlt := (List.getElem?_eq_some_iff.mp hy).1
    omega
  sorted k x y hk hx _ := by
    have hlt := (List.getElem?_eq_some_iff.mp hx).1
    omega

/-- At the first element all are in order. -/
theorem Extracted.done (h : Extracted le l 0) (k : Nat) (x y : α) (hx : l[k]? = some x)
    (hy : l[k + 1]? = some y) : le x y := by
  rcases Nat.eq_zero_or_pos k with rfl | hpos
  · exact h.below 0 1 x y (Nat.le_refl 0) Nat.one_pos hx hy
  · exact h.sorted k x y hpos hx hy

/-- Behind the swap of the root with the last node of the heap, that node is out
of the heap, and the root is a hole. -/
theorem Extracted.swap {i : Nat} (h : Extracted le l (i + 1))
    (hrefl : ∀ x ∈ l, le x x) (htrans : ∀ x ∈ l, ∀ y ∈ l, ∀ z ∈ l, le x y → le y z → le x z)
    {x y : α} (hx : l[0]? = some x) (hy : l[i + 1]? = some y) :
    HeapBut le (swapped l 0 (i + 1) x y) 0 i 0 ∧
      (∀ j k z w, j ≤ i → i < k → (swapped l 0 (i + 1) x y)[j]? = some z →
        (swapped l 0 (i + 1) x y)[k]? = some w → le z w) ∧
      ∀ k z w, i < k → (swapped l 0 (i + 1) x y)[k]? = some z →
        (swapped l 0 (i + 1) x y)[k + 1]? = some w → le z w := by
  have hlen : i + 1 < l.length := (List.getElem?_eq_some_iff.mp hy).1
  have hroot : ∀ j z, j ≤ i + 1 → l[j]? = some z → le z x := fun j z hj hz =>
    h.heap.root hrefl htrans hlen hj hz hx
  -- what is up to `i` now was up to `i + 1` before
  have hbefore : ∀ j z, j ≤ i → (swapped l 0 (i + 1) x y)[j]? = some z →
      ∃ j', j' ≤ i + 1 ∧ l[j']? = some z := by
    intro j z hj hz
    rcases Nat.eq_zero_or_pos j with rfl | hpos
    · rw [swapped_left hx hy] at hz
      exact ⟨i + 1, Nat.le_refl _, hy.trans hz⟩
    · rw [swapped_other (by omega) (by omega)] at hz
      exact ⟨j, by omega, hz⟩
  refine ⟨⟨?_, ?_⟩, ?_, ?_⟩
  · intro j z w hpos hj _ hne hz hw
    rw [swapped_other (by omega) (by omega)] at hz
    rw [swapped_other hne (by omega)] at hw
    exact h.heap j z w hpos (by omega) (Nat.zero_le _) hz hw
  · intro j z w _ _ _ hpos
    exact absurd hpos (Nat.lt_irrefl 0)
  · intro j k z w hj hk hz hw
    obtain ⟨j', hj', hz'⟩ := hbefore j z hj hz
    by_cases hki : k = i + 1
    · rw [hki, swapped_right hy] at hw
      cases hw
      exact hroot j' z hj' hz'
    · rw [swapped_other (by omega) hki] at hw
      exact h.below j' k z w hj' (by omega) hz' hw
  · intro k z w hk hz hw
    rw [swapped_other (k := k + 1) (by omega) (by omega)] at hw
    by_cases hki : k = i + 1
    · rw [hki, swapped_right hy] at hz
      cases hz
      exact h.below 0 (k + 1) _ w (Nat.zero_le _) (by omega) hx hw
    · rw [swapped_other (by omega) hki] at hz
      exact h.sorted k z w (by omega) hz hw

/-- Sifting the new root down gives the next heap. -/
theorem Extracted.next {i : Nat}
    (hbelow : ∀ j k x y, j ≤ i → i < k → l[j]? = some x → l[k]? = some y → le x y)
    (hsorted : ∀ k x y, i < k → l[k]? = some x → l[k + 1]? = some y → le x y)
    (hheap : HeapFrom le l' 0 i) (hre : Rearranged l l' i) : Extracted le l' i where
  heap := hheap
  below j k x y hj hk hx hy := by
    obtain ⟨j', hj', hsame⟩ := hre.within j hj
    rw [hre.beyond k hk] at hy
    exact hbelow j' k x y hj' hk (hsame.symm.trans hx) hy
  sorted k x y hk hx hy := by
    rw [hre.beyond k hk] at hx
    rw [hre.beyond (k + 1) (by omega)] at hy
    exact hsorted k x y hk hx hy

end GameScript.HeapOrder
