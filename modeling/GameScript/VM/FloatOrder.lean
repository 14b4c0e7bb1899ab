import GameScript.VM.Ordering

/-!
The order of numbers. `ObjCmp` compares two floats with `<` alone, where its
branches for an integer and a float ask for equality first, and it converts the
integer to the type of the float. What it answers is an order of the values of
`S` when they are `Sortable`.

Main results: `ObjCmp_ordered` (on such values `ObjCmp` is the order `Precedes`)
and `Precedes.trans_not`.
-/

namespace GameScript.VM

open Effect

/-! ### Floats by their words -/

/-- Exponent and fraction. -/
def magnitude (f : GSFloat) : Nat := f.toNat % 2 ^ 31

/-- The exponent has all its bits and the fraction some. -/
def isNaN (f : GSFloat) : Bool := 0x7f800000 < magnitude f

/-- The sign with the magnitude. Floats that are numbers have the order of their
keys, and the two zeros have one key. -/
def key (f : GSFloat) : Int := if f.toNat < 2 ^ 31 then magnitude f else -magnitude f

/-- What is documented of `float`: the comparisons of IEEE 754, and a conversion of
integers that rounds, and so keeps their order and gives a number. -/
structure IsIeee (fl : FloatOps) : Prop where
  lt : ∀ f g, fl.lt f g = true ↔ isNaN f = false ∧ isNaN g = false ∧ key f < key g
  eq : ∀ f g, fl.eq f g = true ↔ isNaN f = false ∧ isNaN g = false ∧ key f = key g
  ofInteger_number : ∀ n, isNaN (fl.ofInteger n) = false
  ofInteger_mono : ∀ m n, m ≤ n → key (fl.ofInteger m) ≤ key (fl.ofInteger n)

/-! ### Values that can be compared -/

/-- `ObjCmp` has an answer: the values are comparable, or both are numbers. -/
def Mutual (o1 o2 : Object) : Prop :=
  Comparable o1 o2 ∨ (o1.isNumeric = true ∧ o2.isNumeric = true)

/-- The value has no metamethod to compare it with. -/
def WithoutCmp (rt : Runtime) (o : Object) : Prop :=
  o.type = .table ∨ o.type = .userdata ∨ o.type = .instance →
    ∀ o2 vm, rt.ask (.cmp o o2) vm = .ok [] vm

theorem eq_float {o : Object} (h : o.type = .float) : ∃ f, o = .float f := by
  cases o <;> first | exact ⟨_, rfl⟩ | cases h

theorem eq_number {o : Object} (h : o.isNumeric = true) :
    (∃ n, o = .integer n) ∨ ∃ f, o = .float f := by
  cases o <;> first | exact .inl ⟨_, rfl⟩ | exact .inr ⟨_, rfl⟩ | cases h

theorem Mutual.symm {o1 o2 : Object} (h : Mutual o1 o2) : Mutual o2 o1 :=
  h.imp Comparable.symm And.symm

/-- Neither is a float, or one is, and the other null or a number. -/
theorem Mutual.split {o1 o2 : Object} (h : Mutual o1 o2) :
    (Comparable o1 o2 ∧ o1.type ≠ .float ∧ o2.type ≠ .float) ∨
      (∃ f, o1 = .float f ∧ (o2 = .null ∨ (∃ n, o2 = .integer n) ∨ ∃ g, o2 = .float g)) ∨
      ∃ g, o2 = .float g ∧ (o1 = .null ∨ ∃ n, o1 = .integer n) := by
  rcases h with hcomp | ⟨h1, h2⟩
  · by_cases hf1 : o1.type = .float
    · obtain ⟨f, rfl⟩ := eq_float hf1
      rcases hcomp with htype | hnull | hnull
      · exact .inr (.inl ⟨f, rfl, .inr (.inr (eq_float htype.symm))⟩)
      · cases hnull
      · exact .inr (.inl ⟨f, rfl, .inl hnull⟩)
    · by_cases hf2 : o2.type = .float
      · obtain ⟨g, rfl⟩ := eq_float hf2
        rcases hcomp with htype | hnull | hnull
        · exact absurd htype hf1
        · exact .inr (.inr ⟨g, rfl, .inl hnull⟩)
        · cases hnull
      · exact .inl ⟨hcomp, hf1, hf2⟩
  · rcases eq_number h1 with ⟨m, rfl⟩ | ⟨f, rfl⟩
    · rcases eq_number h2 with ⟨n, rfl⟩ | ⟨g, rfl⟩
      · exact .inl ⟨.inl rfl, nofun, nofun⟩
      · exact .inr (.inr ⟨g, rfl, .inr ⟨m, rfl⟩⟩)
    · rcases eq_number h2 with hint | hfloat
      · exact .inr (.inl ⟨f, rfl, .inr (.inl hint)⟩)
      · exact .inr (.inl ⟨f, rfl, .inr (.inr hfloat)⟩)

/-! ### The order -/

/-- `o1` comes before `o2`: numbers by their keys where one is a float, the other
values as in `Below`. -/
def Precedes (fl : FloatOps) : Object → Object → Prop
  | .float f, .float g => key f < key g
  | .float f, .integer n => key f < key (fl.ofInteger n)
  | .integer m, .float g => key (fl.ofInteger m) < key g
  | o1, o2 => Below o1 o2

/-- Of two different floats in `S` one is less, and each float is equal to one
integer in `S` at most. -/
structure Sortable (fl : FloatOps) (S : Object → Prop) : Prop where
  /-- Different floats are numbers, and not the two zeros. -/
  floats : ∀ f g, S (.float f) → S (.float g) → f ≠ g →
    isNaN f = false ∧ isNaN g = false ∧ key f ≠ key g
  /-- A float beside an integer is a number. -/
  mixed : ∀ n f, S (.integer n) → S (.float f) → isNaN f = false
  /-- No two integers are rounded to one float. -/
  rounded : ∀ m n f, S (.integer m) → S (.integer n) → S (.float f) →
    key (fl.ofInteger m) = key f → key (fl.ofInteger n) = key f → m = n

theorem precedes_below {fl : FloatOps} {o1 o2 : Object}
    (h : o1.type ≠ .float ∧ o2.type ≠ .float ∨ o1 = .null ∨ o2 = .null) :
    Precedes fl o1 o2 ↔ Below o1 o2 := by
  unfold Precedes
  split
  all_goals first | exact Iff.rfl | simp [Object.type] at h

theorem Precedes.null_right {fl : FloatOps} (o : Object) : ¬ Precedes fl o .null := by
  rw [precedes_below (.inr (.inr rfl))]
  exact Below.null_right o

theorem precedes_null {fl : FloatOps} {o : Object} (h : o ≠ .null) : Precedes fl .null o := by
  rw [precedes_below (.inr (.inl rfl))]
  exact h

/-- The key of a number. -/
def numberKey (fl : FloatOps) : Object → Int
  | .integer n => key (fl.ofInteger n)
  | .float f => key f
  | _ => 0

section

variable {fl : FloatOps} {S : Object → Prop} {o1 o2 o3 : Object}

theorem numberKey_le (hieee : IsIeee fl) (h1 : o1.isNumeric = true) (h2 : o2.isNumeric = true)
    (hle : ¬ Precedes fl o2 o1) : numberKey fl o1 ≤ numberKey fl o2 := by
  rcases eq_number h1 with ⟨m, rfl⟩ | ⟨f, rfl⟩ <;> rcases eq_number h2 with ⟨n, rfl⟩ | ⟨g, rfl⟩
  · exact hieee.ofInteger_mono m n (Int64.not_lt.mp hle)
  · exact Int.not_lt.mp hle
  · exact Int.not_lt.mp hle
  · exact Int.not_lt.mp hle

/-- Numbers of which neither precedes the next: the third does not precede the first. -/
theorem Precedes.trans_number (hieee : IsIeee fl) (hord : Sortable fl S) (hs1 : S o1) (hs2 : S o2)
    (hs3 : S o3) (h1 : o1.isNumeric = true) (h2 : o2.isNumeric = true) (h3 : o3.isNumeric = true)
    (hle : ¬ Precedes fl o2 o1) (hle' : ¬ Precedes fl o3 o2) : ¬ Precedes fl o3 o1 := by
  have hkey := numberKey_le hieee h1 h2 hle
  have hkey' := numberKey_le hieee h2 h3 hle'
  rcases eq_number h1 with ⟨n1, rfl⟩ | ⟨f1, rfl⟩ <;>
    rcases eq_number h3 with ⟨n3, rfl⟩ | ⟨f3, rfl⟩
  · intro hlt
    rcases eq_number h2 with ⟨n2, rfl⟩ | ⟨f2, rfl⟩
    · exact hle' (Int64.lt_of_lt_of_le hlt (Int64.not_lt.mp hle))
    · -- a float between two integers the wrong way round is equal to both
      have hmono := hieee.ofInteger_mono n3 n1 (Int64.le_of_lt hlt)
      simp only [numberKey] at hkey hkey'
      have hsame := hord.rounded n1 n3 f2 hs1 hs3 hs2 (by omega) (by omega)
      subst hsame
      exact Int64.lt_irrefl hlt
  all_goals exact Int.not_lt.mpr (Int.le_trans hkey hkey')

theorem Mutual.number (h : Mutual o1 o2) (h1 : o1.isNumeric = true) (h2 : o2 ≠ .null) :
    o2.isNumeric = true := by
  rcases h with (htype | hnull | hnull) | ⟨_, h⟩
  · rcases eq_number h1 with ⟨n, rfl⟩ | ⟨f, rfl⟩
    · obtain ⟨n', rfl⟩ := eq_integer htype.symm
      rfl
    · obtain ⟨f', rfl⟩ := eq_float htype.symm
      rfl
  · subst hnull
    cases h1
  · exact absurd hnull h2
  · exact h

theorem type_ne_float (h : ¬ o1.isNumeric = true) : o1.type ≠ .float := by
  intro hfloat
  obtain ⟨f, rfl⟩ := eq_float hfloat
  exact h rfl

/-- **The order is transitive** on values of `S` that can be compared with each other. -/
theorem Precedes.trans_not (hieee : IsIeee fl) (hord : Sortable fl S) (hs1 : S o1) (hs2 : S o2)
    (hs3 : S o3) (h12 : Mutual o1 o2) (h23 : Mutual o2 o3) (hle : ¬ Precedes fl o2 o1)
    (hle' : ¬ Precedes fl o3 o2) : ¬ Precedes fl o3 o1 := by
  by_cases h1 : o1 = .null
  · subst h1
    exact Precedes.null_right o3
  · have h2 : o2 ≠ .null := by
      rintro rfl
      exact hle (precedes_null h1)
    have h3 : o3 ≠ .null := by
      rintro rfl
      exact hle' (precedes_null h2)
    by_cases hnum : o1.isNumeric = true
    · have hnum2 := h12.number hnum h2
      exact Precedes.trans_number hieee hord hs1 hs2 hs3 hnum hnum2 (h23.number hnum2 h3) hle hle'
    · have hnum2 : ¬ o2.isNumeric = true := fun h => hnum (h12.symm.number h h1)
      have hnum3 : ¬ o3.isNumeric = true := fun h => hnum2 (h23.symm.number h h2)
      rw [precedes_below (.inl ⟨type_ne_float ‹_›, type_ne_float ‹_›⟩)] at hle hle' ⊢
      exact (Below.trans_not (h12.resolve_right fun h => hnum h.1)
        (h23.resolve_right fun h => hnum2 h.1) hle hle').2

end

/-! ### What `ObjCmp` computes -/

variable {rt : Runtime} {S : Object → Prop}

theorem ObjCmp_float {f g : GSFloat} (h : f ≠ g) (vm : VM rt.Heap) :
    ObjCmp rt (.float f) (.float g) vm = .ok (if rt.fl.lt f g then -1 else 1) vm := by
  simp [ObjCmp, h]
  rfl

theorem ObjCmp_integer_float (n : GSInteger) (f : GSFloat) (vm : VM rt.Heap) :
    ObjCmp rt (.integer n) (.float f) vm = .ok (compareMixed rt.fl n f) vm := by
  simp [ObjCmp]
  rfl

theorem ObjCmp_float_integer (f : GSFloat) (n : GSInteger) (vm : VM rt.Heap) :
    ObjCmp rt (.float f) (.integer n) vm =
      .ok (if rt.fl.eq f (rt.fl.ofInteger n) then 0
        else if rt.fl.lt f (rt.fl.ofInteger n) then -1 else 1) vm := by
  simp [ObjCmp]
  rfl

/-- The answer of the branches that ask for equality first, on numbers. -/
theorem mixed_sign {fl : FloatOps} (hieee : IsIeee fl) {f g : GSFloat} (hf : isNaN f = false)
    (hg : isNaN g = false) {r : Int} (hr : r = if fl.eq f g then 0 else if fl.lt f g then -1 else 1) :
    (r < 0 ↔ key f < key g) ∧ (0 < r ↔ key g < key f) ∧ -2 ^ 31 ≤ r ∧ r < 2 ^ 31 := by
  have heq := hieee.eq f g
  have hlt := hieee.lt f g
  simp only [hf, hg, true_and] at heq hlt
  subst hr
  simp only [heq, hlt]
  split <;> (try split) <;> omega

/-- On ordered values that can be compared, `ObjCmp` is the order `Precedes`. -/
theorem ObjCmp_ordered (hieee : IsIeee rt.fl) (hstrcmp : IsStrcmp rt.strcmp)
    (hord : Sortable rt.fl S) {o1 o2 : Object} (hs1 : S o1) (hs2 : S o2) (hplain : WithoutCmp rt o1)
    (h : Mutual o1 o2) :
    ∃ r, (∀ vm, ObjCmp rt o1 o2 vm = .ok r vm) ∧ (r < 0 ↔ Precedes rt.fl o1 o2) ∧
      (0 < r ↔ Precedes rt.fl o2 o1) ∧ -2 ^ 31 ≤ r ∧ r < 2 ^ 31 := by
  rcases h.split with ⟨hcomp, hf1, hf2⟩ | ⟨f, rfl, rfl | ⟨n, rfl⟩ | ⟨g, rfl⟩⟩ |
    ⟨g, rfl, rfl | ⟨n, rfl⟩⟩
  · rw [precedes_below (.inl ⟨hf1, hf2⟩), precedes_below (.inl ⟨hf2, hf1⟩)]
    exact ObjCmp_comparable hstrcmp ⟨hf1, hplain⟩ hcomp
  · have hbelow : Precedes rt.fl .null (.float f) := precedes_null nofun
    refine ⟨1, fun vm => (ObjCmp_null (o := .float f) nofun vm).2, ?_⟩
    simp [hbelow, Precedes.null_right]
  · have hf := hord.mixed n f hs2 hs1
    exact ⟨_, ObjCmp_float_integer f n,
      mixed_sign hieee hf (hieee.ofInteger_number n) rfl⟩
  · by_cases hfg : f = g
    · subst hfg
      exact ⟨0, ObjCmp_self _, by simp [Precedes]⟩
    · obtain ⟨hf, hg, hkey⟩ := hord.floats f g hs1 hs2 hfg
      have hlt := hieee.lt f g
      simp only [hf, hg, true_and] at hlt
      refine ⟨_, ObjCmp_float hfg, ?_⟩
      simp only [Precedes, hlt]
      split <;> omega
  · have hbelow : Precedes rt.fl .null (.float g) := precedes_null nofun
    refine ⟨-1, fun vm => (ObjCmp_null (o := .float g) nofun vm).1, ?_⟩
    simp [hbelow, Precedes.null_right]
  · have hg := hord.mixed n g hs1 hs2
    exact ⟨_, ObjCmp_integer_float n g, mixed_sign hieee (hieee.ofInteger_number n) hg rfl⟩

/-! ### Values that are not ordered -/

/-- Two floats of which neither is less come after each other. -/
theorem ObjCmp_neither (hieee : IsIeee rt.fl) {f g : GSFloat} (hne : f ≠ g)
    (h : ¬ (isNaN f = false ∧ isNaN g = false ∧ key f ≠ key g)) (vm : VM rt.Heap) :
    ObjCmp rt (.float f) (.float g) vm = .ok 1 vm := by
  rw [ObjCmp_float hne, if_neg]
  intro hlt
  obtain ⟨hf, hg, hkey⟩ := (hieee.lt f g).mp hlt
  exact h ⟨hf, hg, Int.ne_of_lt hkey⟩

/-- A float that is no number and an integer come after each other. -/
theorem ObjCmp_nan (hieee : IsIeee rt.fl) {f : GSFloat} (h : ¬ isNaN f = false) (n : GSInteger)
    (vm : VM rt.Heap) : ObjCmp rt (.integer n) (.float f) vm = .ok 1 vm ∧
      ObjCmp rt (.float f) (.integer n) vm = .ok 1 vm := by
  constructor
  · rw [ObjCmp_integer_float, compareMixed, if_neg fun heq => h ((hieee.eq _ _).mp heq).2.1,
      if_neg fun hlt => h ((hieee.lt _ _).mp hlt).2.1]
  · rw [ObjCmp_float_integer, if_neg fun heq => h ((hieee.eq _ _).mp heq).1,
      if_neg fun hlt => h ((hieee.lt _ _).mp hlt).1]

/-- An integer and the float that it is rounded to compare as equal. -/
theorem ObjCmp_rounded (hieee : IsIeee rt.fl) {n : GSInteger} {f : GSFloat} (hf : isNaN f = false)
    (h : key (rt.fl.ofInteger n) = key f) (vm : VM rt.Heap) :
    ObjCmp rt (.integer n) (.float f) vm = .ok 0 vm ∧
      ObjCmp rt (.float f) (.integer n) vm = .ok 0 vm := by
  have hn := hieee.ofInteger_number n
  constructor
  · rw [ObjCmp_integer_float, compareMixed, if_pos ((hieee.eq _ _).mpr ⟨hn, hf, h⟩)]
  · rw [ObjCmp_float_integer, if_pos ((hieee.eq _ _).mpr ⟨hf, hn, h.symm⟩)]

/-! ### A conversion of small integers -/

/-- The comparisons of IEEE 754, and the conversion of the integers up to 3. -/
def smallNumbers : FloatOps :=
  { FloatOps.unused with
    ofInteger := fun n =>
      if n < 1 then 0 else if n < 2 then 0x3f800000 else if n < 3 then 0x40000000 else 0x40400000
    lt := fun f g => !isNaN f && !isNaN g && decide (key f < key g)
    eq := fun f g => !isNaN f && !isNaN g && decide (key f = key g) }

theorem isIeee_smallNumbers : IsIeee smallNumbers where
  lt f g := by simp [smallNumbers, and_assoc]
  eq f g := by simp [smallNumbers, and_assoc]
  ofInteger_number n := by
    unfold smallNumbers
    dsimp only
    split <;> (try split) <;> (try split) <;> decide
  ofInteger_mono m n hle := by
    have hmono : ∀ k : GSInteger, ¬ m < k → ¬ n < k := fun k hk hlt =>
      hk (Int64.lt_of_le_of_lt hle hlt)
    unfold smallNumbers
    dsimp only
    by_cases h1 : m < 1
    · rw [if_pos h1]
      split <;> (try split) <;> (try split) <;> decide
    · rw [if_neg h1, if_neg (hmono 1 h1)]
      by_cases h2 : m < 2
      · rw [if_pos h2]
        split <;> (try split) <;> decide
      · rw [if_neg h2, if_neg (hmono 2 h2)]
        by_cases h3 : m < 3
        · rw [if_pos h3]
          split <;> decide
        · simp only [if_neg h3, if_neg (hmono 3 h3), Int.le_refl]

/-- Compares strings as C does, and floats as IEEE 754 does. -/
def computing : Runtime := { comparing with fl := smallNumbers }

theorem isIeee_computing : IsIeee computing.fl := isIeee_smallNumbers

end GameScript.VM
