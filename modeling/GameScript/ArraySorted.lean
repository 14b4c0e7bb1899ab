import Mathlib.Data.List.Permutation
import GameScript.ArraySort
import GameScript.VM.FloatOrder

/-!
With a comparison that orders the elements and leaves the array alone, `sort`
puts them in order. Up to the last element of the heap no node is less than its
children; sifting a root down fills the hole that it makes in the heap.

Main result: `sort_sorts`, for any such comparison, and for `ObjCmp` exactly on the
values that it orders.
-/

namespace GameScript.ArraySort

open Effect GameScript.VM HeapOrder

variable {World : Type} {fl : FloatOps} {cmp : Comparison World}
  {c : Object → Object → GSInteger} {S : Object → Prop}

/-- `c` compares the values of `S` as an order of theirs does. -/
structure TotalPreorder (c : Object → Object → GSInteger) (S : Object → Prop) : Prop where
  antisymm : ∀ a b, S a → S b → (c a b).toInt.sign = -(c b a).toInt.sign
  trans : ∀ a b d, S a → S b → S d → (c a b).toInt ≤ 0 → (c b d).toInt ≤ 0 → (c a d).toInt ≤ 0

/-- The comparison of `a` and `b` in `S` is always `c a b`, and it leaves the array as it is. -/
def Comparison.Decides (fl : FloatOps) (c : Object → Object → GSInteger) (S : Object → Prop) :
    Comparison World → Prop
  | .closure call => ∀ a b, S a → S b → ∀ s, ∃ v s', call a b s = .ok v s' ∧
      getInteger fl v = some (c a b) ∧ s'.values = s.values ∧ s'.vals = s.vals
  | .objCmp compare => ∀ a b, S a → S b → ∀ s, ∃ s', compare a b s = .ok (c a b) s' ∧
      s'.values = s.values

/-- `a` does not come after `b`. -/
def Le (c : Object → Object → GSInteger) (a b : Object) : Prop := (c a b).toInt ≤ 0

theorem TotalPreorder.mono (hc : TotalPreorder c S) {T : Object → Prop} (h : ∀ a, T a → S a) :
    TotalPreorder c T :=
  ⟨fun a b ha hb => hc.antisymm a b (h a ha) (h b hb),
    fun a b d ha hb hd => hc.trans a b d (h a ha) (h b hb) (h d hd)⟩

theorem TotalPreorder.self (hc : TotalPreorder c S) {a : Object} (ha : S a) :
    (c a a).toInt = 0 := by
  have hsign := hc.antisymm a a ha ha
  refine Int.sign_eq_zero_iff_zero.mp ?_
  omega

theorem TotalPreorder.refl (hc : TotalPreorder c S) {a : Object} (ha : S a) : Le c a a :=
  Int.le_of_eq (hc.self ha)

theorem TotalPreorder.le_of_not_neg (hc : TotalPreorder c S) {a b : Object} (ha : S a) (hb : S b)
    (h : ¬ (c a b).toInt < 0) : Le c b a := by
  have hsign := hc.antisymm a b ha hb
  unfold Le
  refine Int.not_lt.mp fun hpos => h ?_
  rw [Int.sign_eq_one_of_pos hpos] at hsign
  exact Int.sign_eq_neg_one_iff_neg.mp hsign

/-! ### One comparison -/

theorem delivers_sortCompare (hcmp : cmp.Decides fl c S) {a b : Object} (ha : S a) (hb : S b)
    (s : Machine World) :
    Delivers (sortCompare fl cmp a b) s fun ret s' => ret = c a b ∧ s'.values = s.values := by
  cases cmp with
  | objCmp compare =>
      obtain ⟨s', hcall, hvalues⟩ := hcmp a b ha hb s
      refine ⟨c a b, s', ?_, rfl, hvalues⟩
      simp [sortCompare, runScript, hcall]
  | closure call =>
      obtain ⟨v, s', hcall, hv, hvalues, hvals⟩ := hcmp a b ha hb s
      have hfunc : callFunc (call a b) s = .ok v s' := by simp [callFunc, hcall]
      refine delivers_get_bind ?_
      refine Delivers.bind (q := fun v₁ s₁ => v₁ = v ∧ s₁ = s') ⟨v, s', hfunc, rfl, rfl⟩ ?_
      rintro _ _ ⟨rfl, rfl⟩
      rw [hv]
      refine delivers_get_bind ?_
      rw [if_neg (by simp [hvalues, hvals])]
      exact delivers_pure ⟨rfl, hvalues⟩

theorem delivers_element {i : Nat} {s : Machine World} (hi : i < s.values.length) :
    Delivers (element i : SortM World Object) s fun o s' => s.values[i]? = some o ∧ s' = s :=
  ⟨s.values[i], s, by rw [element_apply, List.getElem?_eq_getElem hi],
    List.getElem?_eq_getElem hi, rfl⟩

/-- Two elements are compared, and the array stays as it is. -/
theorem delivers_compare (hcmp : cmp.Decides fl c S) {s : Machine World}
    (hS : ∀ x ∈ s.values, S x) {i j : Nat} (hi : i < s.values.length) (hj : j < s.values.length)
    {α : Type} {k : GSInteger → SortM World α} {q : α → Machine World → Prop}
    (hk : ∀ a b s', s.values[i]? = some a → s.values[j]? = some b → s'.values = s.values →
      Delivers (k (c a b)) s' q) :
    Delivers (do
      let a ← element i
      let b ← element j
      let ret ← sortCompare fl cmp a b
      k ret) s q := by
  refine (delivers_element hi).bind ?_
  rintro a _ ⟨ha, rfl⟩
  refine (delivers_element hj).bind ?_
  rintro b _ ⟨hb, rfl⟩
  have hSa := hS a (List.mem_of_getElem? ha)
  have hSb := hS b (List.mem_of_getElem? hb)
  refine (delivers_sortCompare hcmp hSa hSb _).bind ?_
  rintro ret s' ⟨rfl, hvalues⟩
  exact hk a b s' ha hb hvalues

theorem delivers_swap {s : Machine World} {i j : Nat} {x y : Object}
    (hx : s.values[i]? = some x) (hy : s.values[j]? = some y) :
    Delivers (swap i j : SortM World Unit) s fun _ s' => s'.values = swapped s.values i j x y := by
  refine ⟨(), { s with values := swapped s.values i j x y }, ?_, rfl⟩
  simp [swap, bind_apply, element_apply, hx, hy]
  rfl

/-! ### One sift -/

/-- A child is the first or the second. -/
theorem maxChild_of_two {le : Object → Object → Prop} {l : List Object} {bottom root child : Nat}
    (hdown : child / 2 = root) (hle : child ≤ bottom)
    (hfirst : ∀ x y, l[root * 2]? = some x → l[child]? = some y → le x y)
    (hsecond : ∀ x y, root * 2 + 1 ≤ bottom → l[root * 2 + 1]? = some x → l[child]? = some y →
      le x y) : MaxChild le l bottom root child := by
  refine ⟨hdown, hle, fun j x y _ hj hhalf hx hy => ?_⟩
  obtain rfl | rfl : j = root * 2 ∨ j = root * 2 + 1 := by omega
  · exact hfirst x y hx hy
  · exact hsecond x y hj hx hy

theorem delivers_maxChild (hcmp : cmp.Decides fl c S) (hc : TotalPreorder c S)
    {s : Machine World} (hS : ∀ x ∈ s.values, S x) {bottom root : Nat}
    (hlen : bottom < s.values.length) (hroot : root * 2 ≤ bottom) :
    Delivers (maxChild fl cmp bottom (root * 2)) s fun child s' =>
      s'.values = s.values ∧ MaxChild (Le c) s.values bottom root child := by
  have hself : ∀ (i : Nat) (x y : Object), s.values[i]? = some x → s.values[i]? = some y → Le c x y := by
    intro i x y hx hy
    rw [hx] at hy
    cases hy
    exact hc.refl (hS x (List.mem_of_getElem? hx))
  unfold maxChild
  split
  · next hend =>
      refine delivers_pure ⟨rfl, maxChild_of_two (by omega) hroot (hself _) ?_⟩
      intro x y hle
      omega
  · next hend =>
      refine delivers_compare hcmp hS (by omega) (by omega) fun a b s' ha hb hvalues => ?_
      have hSa := hS a (List.mem_of_getElem? ha)
      have hSb := hS b (List.mem_of_getElem? hb)
      refine delivers_pure ⟨hvalues, ?_⟩
      split
      · next hpos =>
          refine maxChild_of_two (by omega) hroot (hself _) fun x y _ hx hy => ?_
          rw [hb] at hx
          rw [ha] at hy
          cases hx
          cases hy
          exact hc.le_of_not_neg hSa hSb (by omega)
      · next hpos =>
          refine maxChild_of_two (by omega) (by omega) (fun x y hx hy => ?_) fun x y _ => hself _ x y
          rw [ha] at hx
          rw [hb] at hy
          cases hx
          cases hy
          exact Int.not_lt.mp hpos

theorem TotalPreorder.le_trans (hc : TotalPreorder c S) {l : List Object} (hS : ∀ x ∈ l, S x) :
    ∀ x ∈ l, ∀ y ∈ l, ∀ z ∈ l, Le c x y → Le c y z → Le c x z :=
  fun x hx y hy z hz => hc.trans x y z (hS x hx) (hS y hy) (hS z hz)

theorem delivers_siftDown (hcmp : cmp.Decides fl c S) (hc : TotalPreorder c S) {bottom lo : Nat} :
    ∀ (fuel root : Nat) (s : Machine World), bottom - root < fuel → (∀ x ∈ s.values, S x) →
      bottom < s.values.length → lo ≤ root → HeapBut (Le c) s.values lo bottom root →
      Delivers (siftDown fl cmp bottom fuel root) s fun _ s' =>
        HeapFrom (Le c) s'.values lo bottom ∧ Rearranged s.values s'.values bottom
  | 0, _, _, hfuel, _, _, _, _ => absurd hfuel (Nat.not_lt_zero _)
  | fuel + 1, root, s, hfuel, hS, hlen, hlo, hbut => by
      unfold siftDown
      split
      · next hroot =>
          refine (delivers_maxChild hcmp hc hS hlen hroot).bind ?_
          rintro child s₁ ⟨hvalues, hchild⟩
          rw [← hvalues] at hS hlen hbut hchild ⊢
          have hdown := hchild.1
          have hle := hchild.2.1
          refine delivers_compare hcmp hS (by omega) (by omega) fun a b s₂ ha hb hvalues₂ => ?_
          have hSa := hS a (List.mem_of_getElem? ha)
          have hSb := hS b (List.mem_of_getElem? hb)
          rw [← hvalues₂] at hS hlen hbut hchild ha hb ⊢
          split
          · next hneg =>
              split
              · next heq =>
                  -- an element is never less than itself
                  subst heq
                  rw [ha] at hb
                  cases hb
                  rw [hc.self hSa] at hneg
                  exact absurd hneg (Int.lt_irrefl 0)
              · next hne =>
                  refine (delivers_swap ha hb).bind ?_
                  rintro _ s₃ hvalues₃
                  have hre := Rearranged.swapped ha hb (by omega) hle
                  have hbut' := hbut.descend hlo hchild hne ha hb (Int.le_of_lt hneg)
                  rw [← hvalues₃] at hre hbut'
                  refine (delivers_siftDown hcmp hc fuel child s₃ (by omega)
                    (fun x hx => hS x (hre.perm.mem_iff.mp hx)) (by rw [hre.perm.length_eq]; exact hlen)
                    (by omega) hbut').mono ?_
                  rintro _ s₄ ⟨hheap, hre'⟩
                  exact ⟨hheap, hre.trans hre'⟩
          · next hneg =>
              have hle' : Le c b a := hc.le_of_not_neg hSa hSb hneg
              exact delivers_pure ⟨hbut.close (hc.le_trans hS) hchild hb ha hle', .refl _ _⟩
      · next hroot => exact delivers_pure ⟨hbut.leaf (by omega), .refl _ _⟩

/-! ### The two loops -/

theorem delivers_hsortBuild (hcmp : cmp.Decides fl c S) (hc : TotalPreorder c S) {bottom : Nat} :
    ∀ (count : Nat) (s : Machine World), (∀ x ∈ s.values, S x) → bottom < s.values.length →
      HeapFrom (Le c) s.values count bottom →
      Delivers (hsortBuild fl cmp bottom count) s fun _ s' =>
        HeapFrom (Le c) s'.values 0 bottom ∧ s'.values.Perm s.values
  | 0, s, _, _, hheap => delivers_pure ⟨hheap, .refl _⟩
  | count + 1, s, hS, hlen, hheap => by
      refine (delivers_siftDown hcmp hc (bottom + 2) count s (by omega) hS hlen (Nat.le_refl _)
        hheap.toBut).bind ?_
      rintro _ s₁ ⟨hheap₁, hre⟩
      refine (delivers_hsortBuild hcmp hc count s₁ (fun x hx => hS x (hre.perm.mem_iff.mp hx))
        (by rw [hre.perm.length_eq]; exact hlen) hheap₁).mono ?_
      rintro _ s₂ ⟨hheap₂, hperm⟩
      exact ⟨hheap₂, hperm.trans hre.perm⟩

theorem delivers_hsortExtract (hcmp : cmp.Decides fl c S) (hc : TotalPreorder c S) :
    ∀ (i : Nat) (s : Machine World), (∀ x ∈ s.values, S x) → i < s.values.length →
      Extracted (Le c) s.values i →
      Delivers (hsortExtract fl cmp i) s fun _ s' =>
        Extracted (Le c) s'.values 0 ∧ s'.values.Perm s.values
  | 0, s, _, _, h => delivers_pure ⟨h, .refl _⟩
  | i + 1, s, hS, hlen, h => by
      have hx := List.getElem?_eq_getElem (Nat.lt_of_le_of_lt (Nat.zero_le (i + 1)) hlen)
      have hy := List.getElem?_eq_getElem hlen
      refine (delivers_swap hx hy).bind ?_
      rintro _ s₁ hvalues₁
      have hperm₁ := swapped_perm hx hy
      obtain ⟨hbut, hbelow, hsorted⟩ :=
        h.swap (fun x hx => hc.refl (hS x hx)) (hc.le_trans hS) hx hy
      rw [← hvalues₁] at hperm₁ hbut hbelow hsorted
      have hS₁ : ∀ x ∈ s₁.values, S x := fun x hx => hS x (hperm₁.mem_iff.mp hx)
      have hlen₁ : i + 1 < s₁.values.length := by rw [hperm₁.length_eq]; exact hlen
      refine (delivers_siftDown hcmp hc (i + 2) 0 s₁ (by omega) hS₁ (by omega) (Nat.le_refl _)
        hbut).bind ?_
      rintro _ s₂ ⟨hheap₂, hre⟩
      refine (delivers_hsortExtract hcmp hc i s₂ (fun x hx => hS₁ x (hre.perm.mem_iff.mp hx))
        (by rw [hre.perm.length_eq]; omega) (.next hbelow hsorted hheap₂ hre)).mono ?_
      rintro _ s₃ ⟨hdone, hperm₃⟩
      exact ⟨hdone, hperm₃.trans (hre.perm.trans hperm₁)⟩

/-- The elements of `s` in the order `le`. -/
def SortedTo (le : Object → Object → Prop) (s s' : Machine World) : Prop :=
  s'.values.Perm s.values ∧
    ∀ i a b, s'.values[i]? = some a → s'.values[i + 1]? = some b → le a b

theorem delivers_sort (s : Machine World) (hcmp : cmp.Decides fl c (· ∈ s.values))
    (hc : TotalPreorder c (· ∈ s.values)) :
    Delivers (sort fl cmp) s fun _ s' => SortedTo (Le c) s s' := by
  refine delivers_get_bind ?_
  split
  · next hsize =>
      refine delivers_get_bind ?_
      refine (delivers_hsortBuild hcmp hc _ s (fun x hx => hx) (by omega)
        (heapFrom_of_half (by omega))).bind ?_
      rintro _ s₁ ⟨hheap, hperm⟩
      have hlen := hperm.length_eq
      refine (delivers_hsortExtract hcmp hc _ s₁ (fun x hx => hperm.mem_iff.mp hx) (by omega)
        (.start hheap (by omega))).mono ?_
      rintro _ s₂ ⟨hdone, hperm₂⟩
      exact ⟨hperm₂.trans hperm, hdone.done⟩
  · next hsize =>
      refine delivers_pure ⟨.refl _, fun i a b _ hb => ?_⟩
      have hlt := (List.getElem?_eq_some_iff.mp hb).1
      omega

/-! ### The default comparison -/

section

variable {rt : Runtime}

/-- `compare` is `ObjCmp`: where that has a result and leaves the machine as it is,
`compare` does too, and so it leaves the array. -/
def IsObjCmp (rt : Runtime) (compare : Object → Object → Script (VM rt.Heap) GSInteger) : Prop :=
  ∀ a b s r, ObjCmp rt a b s.world = .ok r s.world → compare a b s = .ok (Int64.ofInt r) s

/-- What `ObjCmp` answers in the state `vm`. -/
def compared (rt : Runtime) (vm : VM rt.Heap) (a b : Object) : GSInteger :=
  Int64.ofInt ((result (ObjCmp rt a b) vm).getD 0)

/-- `sort` with the default comparison ends with a permutation of the elements in
which none compares greater than the next. -/
def Sorts (rt : Runtime) (compare : Object → Object → Script (VM rt.Heap) GSInteger)
    (s : Machine (VM rt.Heap)) : Prop :=
  ∃ s', sort rt.fl (.objCmp compare) s = .ok () s' ∧ s'.values.Perm s.values ∧
    ∀ i a b, s'.values[i]? = some a → s'.values[i + 1]? = some b →
      ∃ r, r ≤ 0 ∧ ∀ vm, ObjCmp rt a b vm = .ok r vm

/-- The values of `S` can be compared with each other, without metamethods. -/
structure MutuallyComparable (rt : Runtime) (S : Object → Prop) : Prop where
  plain : ∀ a, S a → WithoutCmp rt a
  comparable : ∀ a b, S a → S b → Mutual a b

section

variable (hieee : IsIeee rt.fl) (hstrcmp : IsStrcmp rt.strcmp) (hS : MutuallyComparable rt S)
  (hord : Sortable rt.fl S)

include hieee hstrcmp hS hord

theorem compared_spec (vm : VM rt.Heap) {a b : Object} (ha : S a) (hb : S b) :
    ∃ r, (∀ vm', ObjCmp rt a b vm' = .ok r vm') ∧ (compared rt vm a b).toInt = r ∧
      (r < 0 ↔ Precedes rt.fl a b) ∧ (0 < r ↔ Precedes rt.fl b a) := by
  obtain ⟨r, hr, hlt, hgt, hlow, hhigh⟩ :=
    ObjCmp_ordered hieee hstrcmp hord ha hb (hS.plain a ha) (hS.comparable a b ha hb)
  refine ⟨r, hr, ?_, hlt, hgt⟩
  unfold compared
  rw [result_eq_some.mpr ⟨vm, hr vm⟩]
  exact Int64.toInt_ofInt_of_le (by simp only [Option.getD_some]; omega)
    (by simp only [Option.getD_some]; omega)

theorem compared_totalPreorder (vm : VM rt.Heap) : TotalPreorder (compared rt vm) S where
  antisymm a b ha hb := by
    obtain ⟨r, _, hr, hlt, hgt⟩ := compared_spec hieee hstrcmp hS hord vm ha hb
    obtain ⟨r', _, hr', hlt', hgt'⟩ := compared_spec hieee hstrcmp hS hord vm hb ha
    rw [hr, hr']
    exact sign_eq_neg (hlt.trans hgt'.symm) (hgt.trans hlt'.symm)
  trans a b d ha hb hd hab hbd := by
    obtain ⟨r, _, hr, _, hgt⟩ := compared_spec hieee hstrcmp hS hord vm ha hb
    obtain ⟨r', _, hr', _, hgt'⟩ := compared_spec hieee hstrcmp hS hord vm hb hd
    obtain ⟨r'', _, hr'', _, hgt''⟩ := compared_spec hieee hstrcmp hS hord vm ha hd
    rw [hr] at hab
    rw [hr'] at hbd
    have hnot := Precedes.trans_not hieee hord ha hb hd (hS.comparable a b ha hb)
      (hS.comparable b d hb hd) (mt hgt.mpr (Int.not_lt.mpr hab)) (mt hgt'.mpr (Int.not_lt.mpr hbd))
    rw [hr'']
    exact Int.not_lt.mp (mt hgt''.mp hnot)

variable {compare : Object → Object → Script (VM rt.Heap) GSInteger}
  (hcompare : IsObjCmp rt compare)

include hcompare

theorem objCmp_decides (vm : VM rt.Heap) :
    (Comparison.objCmp compare).Decides rt.fl (compared rt vm) S := by
  intro a b ha hb s
  obtain ⟨r, hrun, hr, _⟩ := compared_spec hieee hstrcmp hS hord vm ha hb
  refine ⟨s, ?_, rfl⟩
  rw [hcompare a b s r (hrun s.world), ← hr, Int64.ofInt_toInt]

/-- Sortable values are sorted. -/
theorem sorts_of_ordered (s : Machine (VM rt.Heap)) (hmem : ∀ a ∈ s.values, S a) :
    Sorts rt compare s := by
  have hdecides : (Comparison.objCmp compare).Decides rt.fl (compared rt s.world) (· ∈ s.values) :=
    fun a b ha hb =>
      objCmp_decides hieee hstrcmp hS hord hcompare s.world a b (hmem a ha) (hmem b hb)
  have horder := (compared_totalPreorder hieee hstrcmp hS hord s.world).mono hmem
  obtain ⟨_, s', hrun, hperm, hsorted⟩ := delivers_sort s hdecides horder
  refine ⟨s', hrun, hperm, fun i a b ha hb => ?_⟩
  have hin : ∀ {x : Object} {j : Nat}, s'.values[j]? = some x → S x :=
    fun hx => hmem _ (hperm.mem_iff.mp (List.mem_of_getElem? hx))
  obtain ⟨r, hr, heq, _⟩ := compared_spec hieee hstrcmp hS hord s.world (hin ha) (hin hb)
  refine ⟨r, ?_, hr⟩
  rw [← heq]
  exact hsorted i a b ha hb

end

/-! ### Values that are not sorted -/

/-- Two elements that come after each other are not sorted. -/
theorem not_sorts_pair {compare : Object → Object → Script (VM rt.Heap) GSInteger}
    {s : Machine (VM rt.Heap)} {a b : Object} (hvalues : s.values = [a, b])
    (hab : ∀ vm, ObjCmp rt a b vm = .ok 1 vm) (hba : ∀ vm, ObjCmp rt b a vm = .ok 1 vm) :
    ¬ Sorts rt compare s := by
  rintro ⟨s', -, hperm, hsorted⟩
  rw [hvalues, List.perm_pair] at hperm
  rcases hperm with h | h
  · obtain ⟨r, hr, hcmp⟩ := hsorted 0 a b (by rw [h]; rfl) (by rw [h]; rfl)
    cases (hcmp s.world).symm.trans (hab s.world)
    exact absurd hr (by decide)
  · obtain ⟨r, hr, hcmp⟩ := hsorted 0 b a (by rw [h]; rfl) (by rw [h]; rfl)
    cases (hcmp s.world).symm.trans (hba s.world)
    exact absurd hr (by decide)

/-- Two integers with a float between them that compares as equal to both leave
`sort` in the wrong order. -/
theorem not_sorts_rounded {compare : Object → Object → Script (VM rt.Heap) GSInteger}
    (hcompare : IsObjCmp rt compare) {s : Machine (VM rt.Heap)} {m n : GSInteger} {f : GSFloat}
    (hvalues : s.values = [.integer m, .float f, .integer n]) (hlt : m < n)
    (hm : ∀ vm, ObjCmp rt (.integer m) (.float f) vm = .ok 0 vm)
    (hn : ∀ vm, ObjCmp rt (.integer n) (.float f) vm = .ok 0 vm ∧
      ObjCmp rt (.float f) (.integer n) vm = .ok 0 vm) : ¬ Sorts rt compare s := by
  rintro ⟨s', hrun, -, hsorted⟩
  have hmf : ∀ s', compare (.integer m) (.float f) s' = .ok 0 s' :=
    fun s' => hcompare _ _ s' 0 (hm _)
  have hnf : ∀ s', compare (.integer n) (.float f) s' = .ok 0 s' :=
    fun s' => hcompare _ _ s' 0 (hn _).1
  have hfn : ∀ s', compare (.float f) (.integer n) s' = .ok 0 s' :=
    fun s' => hcompare _ _ s' 0 (hn _).2
  have hff : ∀ s', compare (.float f) (.float f) s' = .ok 0 s' :=
    fun s' => hcompare _ _ s' 0 (ObjCmp_self _ _)
  have hsort : sort rt.fl (.objCmp compare) s =
      .ok () { s with values := [.float f, .integer n, .integer m] } := by
    have hget : ∀ s : Machine (VM rt.Heap), (get : SortM (VM rt.Heap) _) s = .ok s s :=
      fun _ => rfl
    simp [sort, hsort, hsortBuild, hsortExtract, siftDown, maxChild, sortCompare, runScript, swap,
      swapped, element_apply, bind_apply, pure_apply, modify_apply, hget, hvalues, hmf, hnf, hfn, hff]
  rw [hsort] at hrun
  cases hrun
  obtain ⟨r, hr, hcmp⟩ := hsorted 1 _ _ rfl rfl
  have hone : ObjCmp rt (.integer n) (.integer m) s.world = .ok 1 s.world := by
    rw [ObjCmp_integer (Ne.symm (Int64.ne_of_lt hlt)), if_neg (Int64.lt_asymm hlt)]
  cases (hcmp s.world).symm.trans hone
  exact absurd hr (by decide)

/-- Values of which all arrays are sorted are ordered. -/
theorem ordered_of_sorts (hieee : IsIeee rt.fl)
    {compare : Object → Object → Script (VM rt.Heap) GSInteger} (hcompare : IsObjCmp rt compare)
    (s : Machine (VM rt.Heap))
    (hsorts : ∀ values, (∀ a ∈ values, S a) → Sorts rt compare { s with values := values }) :
    Sortable rt.fl S := by
  have hpair : ∀ a b, S a → S b → Sorts rt compare { s with values := [a, b] } :=
    fun a b ha hb => hsorts [a, b] (by simp [ha, hb])
  have hmixed : ∀ n f, S (.integer n) → S (.float f) → isNaN f = false := by
    intro n f hn hf
    refine Decidable.byContradiction fun hnan => ?_
    exact not_sorts_pair rfl (fun vm => (ObjCmp_nan hieee hnan n vm).1)
      (fun vm => (ObjCmp_nan hieee hnan n vm).2) (hpair _ _ hn hf)
  refine ⟨fun f g hf hg hne => ?_, hmixed, fun m n f hm hn hf hmf hnf => ?_⟩
  · refine Decidable.byContradiction fun hneither => ?_
    refine not_sorts_pair rfl (ObjCmp_neither hieee hne hneither)
      (ObjCmp_neither hieee hne.symm ?_) (hpair _ _ hf hg)
    exact fun h => hneither ⟨h.2.1, h.1, h.2.2.symm⟩
  · have hnumber := hmixed m f hm hf
    have hnot : ∀ {k l : GSInteger}, S (.integer k) → S (.integer l) →
        key (rt.fl.ofInteger k) = key f → key (rt.fl.ofInteger l) = key f → ¬ k < l := by
      intro k l hk hl hkf hlf hlt
      exact not_sorts_rounded hcompare rfl hlt (fun vm => (ObjCmp_rounded hieee hnumber hkf vm).1)
        (ObjCmp_rounded hieee hnumber hlf) (hsorts _ (by simp [hk, hl, hf]))
    exact Int64.le_antisymm (Int64.not_lt.mp (hnot hn hm hnf hmf))
      (Int64.not_lt.mp (hnot hm hn hmf hnf))

/-- `ObjCmp` in a machine whose array is not on the heap of the virtual machine. -/
def compareObjects (a b : Object) : Script (VM computing.Heap) GSInteger := fun s =>
  match ObjCmp computing a b s.world with
  | .ok r _ => .ok (Int64.ofInt r) s
  | .error _ _ => .error .null s

theorem isObjCmp_compareObjects : IsObjCmp computing compareObjects := by
  intro a b s r hr
  unfold compareObjects
  rw [hr]

/-- An array of `values`. -/
def arrayOf (values : List Object) : Machine (VM computing.Heap) := ⟨values, 0, holding 0 1 2⟩

/-- Numbers are compared without metamethods. -/
theorem mutuallyComparable_numbers {S : Object → Prop} (h : ∀ a, S a → a.isNumeric = true) :
    MutuallyComparable computing S where
  plain a ha := by
    rcases eq_number (h a ha) with ⟨n, rfl⟩ | ⟨f, rfl⟩ <;> exact nofun
  comparable a b ha hb := .inr ⟨h a ha, h b hb⟩

end

end GameScript.ArraySort
