import GameScript.VM.IntegerOperators

/-!
The order of simple values. `ObjCmp` compares strings with C's `strcmp`, which
ends at the first NUL, while `IsEqual` compares the whole contents; null, the
booleans and the integers are compared in one way by both.
-/

namespace GameScript.VM

open Effect

/-! ### C's comparison of strings -/

/-- What a function of C sees of a string: the characters before the first NUL. -/
def cString (s : List UInt8) : List UInt8 := s.takeWhile (· ≠ 0)

/-- `strcmp`, of contents with a NUL behind them. -/
def strcmp : List UInt8 → List UInt8 → Int
  | [], [] => 0
  | [], c :: _ => if c = 0 then 0 else -1
  | c :: _, [] => if c = 0 then 0 else 1
  | c :: s, d :: t =>
      if c < d then -1
      else if d < c then 1
      else if c = 0 then 0
      else strcmp s t

/-- What is documented of `strcmp`: an `int` with the sign that the first
different character gives. -/
structure IsStrcmp (f : List UInt8 → List UInt8 → Int) : Prop where
  sign : ∀ s t, (f s t).sign = (strcmp s t).sign
  int : ∀ s t, -2 ^ 31 ≤ f s t ∧ f s t < 2 ^ 31

theorem cString_cons_zero (s : List UInt8) : cString (0 :: s) = [] := rfl

theorem cString_cons {c : UInt8} (hc : c ≠ 0) (s : List UInt8) :
    cString (c :: s) = c :: cString s := by
  simp [cString, hc]

/-- `strcmp` is the lexicographic order of what C sees of the strings. -/
theorem strcmp_order (s t : List UInt8) :
    (strcmp s t < 0 ↔ cString s < cString t) ∧ (0 < strcmp s t ↔ cString t < cString s) ∧
      (strcmp s t = 0 ↔ cString s = cString t) := by
  fun_induction strcmp s t with
  | case1 => simp [cString]
  | case2 t => simp [cString]
  | case3 c t hc => simp [cString, hc]
  | case4 s => simp [cString]
  | case5 c s hc => simp [cString, hc]
  | case6 c s d t hlt =>
      have hd : d ≠ 0 := by
        rintro rfl
        exact UInt8.not_lt_zero hlt
      rw [cString_cons hd]
      by_cases hc : c = 0
      · subst hc
        simp [cString_cons_zero]
      · rw [cString_cons hc]
        have hne : c ≠ d := UInt8.ne_of_lt hlt
        simp [List.cons_lt_cons_iff, hlt, UInt8.lt_asymm hlt, hne, hne.symm]
  | case7 c s d t hlt hgt =>
      have hc : c ≠ 0 := by
        rintro rfl
        exact UInt8.not_lt_zero hgt
      rw [cString_cons hc]
      by_cases hd : d = 0
      · subst hd
        simp [cString_cons_zero]
      · rw [cString_cons hd]
        have hne : c ≠ d := (UInt8.ne_of_lt hgt).symm
        simp [List.cons_lt_cons_iff, hlt, hgt, hne]
  | case8 s d t hlt hgt =>
      obtain rfl : d = 0 := UInt8.le_antisymm (UInt8.not_lt.mp hlt) (UInt8.zero_le)
      simp [cString_cons_zero]
  | case9 c s d t hlt hgt hc ih =>
      obtain rfl : c = d := UInt8.le_antisymm (UInt8.not_lt.mp hgt) (UInt8.not_lt.mp hlt)
      rw [cString_cons hc, cString_cons hc]
      simpa [List.cons_lt_cons_iff, hlt] using ih

theorem IsStrcmp.order {f : List UInt8 → List UInt8 → Int} (h : IsStrcmp f) (s t : List UInt8) :
    (f s t < 0 ↔ cString s < cString t) ∧ (0 < f s t ↔ cString t < cString s) := by
  obtain ⟨hlt, hgt, _⟩ := strcmp_order s t
  have hsign := h.sign s t
  rw [← hlt, ← hgt, ← Int.sign_eq_neg_one_iff_neg, ← Int.sign_eq_one_iff_pos, hsign,
    Int.sign_eq_neg_one_iff_neg, Int.sign_eq_one_iff_pos]
  exact ⟨Iff.rfl, Iff.rfl⟩

/-! ### The order of values -/

/-- Values of one type, or one of them null. -/
def Comparable (o1 o2 : Object) : Prop := o1.type = o2.type ∨ o1 = .null ∨ o2 = .null

theorem Comparable.symm {o1 o2 : Object} (h : Comparable o1 o2) : Comparable o2 o1 := by
  rcases h with h | h | h
  · exact .inl h.symm
  · exact .inr (.inr h)
  · exact .inr (.inl h)

/-- `o1` comes before `o2`: null before all, integers and strings by their values,
and the other values of one type by their words. -/
def Below : Object → Object → Prop
  | .null, o2 => o2 ≠ .null
  | .integer n1, .integer n2 => n1 < n2
  | .string s1, .string s2 => cString s1 < cString s2
  | o1, o2 => o1.type = o2.type ∧ rawval o1 < rawval o2

theorem eq_null {o : Object} (h : o.type = .null) : o = .null := by
  cases o <;> first | rfl | cases h

theorem eq_integer {o : Object} (h : o.type = .integer) : ∃ n, o = .integer n := by
  cases o <;> first | exact ⟨_, rfl⟩ | cases h

theorem eq_string {o : Object} (h : o.type = .string) : ∃ s, o = .string s := by
  cases o <;> first | exact ⟨_, rfl⟩ | cases h

theorem Below.irrefl (o : Object) : ¬ Below o o := by
  cases o <;> simp [Below, Int64.lt_irrefl, List.lt_irrefl]

theorem Below.null_right (o : Object) : ¬ Below o .null := by
  cases o <;> simp [Below, Object.type]

/-- Values that are compared by their words. -/
structure ByWord (o1 o2 : Object) : Prop where
  type : o1.type = o2.type
  null : o1.type ≠ .null
  integer : o1.type ≠ .integer
  string : o1.type ≠ .string

theorem ByWord.below {o1 o2 : Object} (h : ByWord o1 o2) :
    Below o1 o2 ↔ rawval o1 < rawval o2 := by
  unfold Below
  split
  · exact absurd rfl h.null
  · exact absurd rfl h.integer
  · exact absurd rfl h.string
  · exact and_iff_right h.type

theorem ByWord.symm {o1 o2 : Object} (h : ByWord o1 o2) : ByWord o2 o1 :=
  ⟨h.type.symm, h.type ▸ h.null, h.type ▸ h.integer, h.type ▸ h.string⟩

/-- The value of a type with a word; strings are not found by their words. -/
def ofRaw (type : ObjectType) (raw : Nat) : Object :=
  match type with
  | .null | .string => .null
  | .integer => .integer (UInt64.ofNat raw).toInt64
  | .bool => .bool (UInt64.ofNat raw).toInt64
  | .float => .float (BitVec.ofNat 32 raw)
  | .table => .table raw
  | .array => .array raw
  | .userdata => .userdata raw
  | .closure => .closure raw
  | .nativeclosure => .nativeclosure raw
  | .generator => .generator raw
  | .userpointer => .userpointer raw
  | .thread => .thread raw
  | .funcproto => .funcproto raw
  | .class => .class raw
  | .instance => .instance raw
  | .weakref => .weakref raw
  | .outer => .outer raw

theorem ofRaw_rawval {o : Object} (h : o.type ≠ .string) : ofRaw o.type (rawval o) = o := by
  cases o with
  | string s => exact absurd rfl h
  | integer n => simp [ofRaw, Object.type, rawval]
  | bool n => simp [ofRaw, Object.type, rawval]
  | float f => simp [ofRaw, Object.type, rawval]
  | _ => rfl

theorem ByWord.rawval_ne {o1 o2 : Object} (h : ByWord o1 o2) (hne : o1 ≠ o2) :
    rawval o1 ≠ rawval o2 := by
  intro heq
  refine hne ?_
  rw [← ofRaw_rawval h.string, ← ofRaw_rawval h.symm.string, h.type, heq]

theorem compareRefs_order {p1 p2 : Nat} (h : p1 ≠ p2) :
    (compareRefs p1 p2 < 0 ↔ p1 < p2) ∧ (0 < compareRefs p1 p2 ↔ p2 < p1) ∧
      -2 ^ 31 ≤ compareRefs p1 p2 ∧ compareRefs p1 p2 < 2 ^ 31 := by
  unfold compareRefs
  split <;> omega

/-- Of two values that are compared by their words or not, and so of three. -/
theorem byWord_or {o1 o2 : Object} (hcomp : Comparable o1 o2) (h1 : o1 ≠ .null)
    (h2 : o2 ≠ .null) :
    (∃ n1 n2, o1 = .integer n1 ∧ o2 = .integer n2) ∨
      (∃ s1 s2, o1 = .string s1 ∧ o2 = .string s2) ∨ ByWord o1 o2 := by
  rcases hcomp with htype | hnull | hnull
  · by_cases hint : o1.type = .integer
    · obtain ⟨n1, rfl⟩ := eq_integer hint
      obtain ⟨n2, rfl⟩ := eq_integer htype.symm
      exact .inl ⟨n1, n2, rfl, rfl⟩
    · by_cases hstr : o1.type = .string
      · obtain ⟨s1, rfl⟩ := eq_string hstr
        obtain ⟨s2, rfl⟩ := eq_string htype.symm
        exact .inr (.inl ⟨s1, s2, rfl, rfl⟩)
      · exact .inr (.inr ⟨htype, fun h => h1 (eq_null h), hint, hstr⟩)
  · exact absurd hnull h1
  · exact absurd hnull h2

/-- The order is transitive, also where values are told apart by nothing. -/
theorem Below.trans_not {o1 o2 o3 : Object} (h12 : Comparable o1 o2) (h23 : Comparable o2 o3)
    (hle : ¬ Below o2 o1) (hle' : ¬ Below o3 o2) : Comparable o1 o3 ∧ ¬ Below o3 o1 := by
  by_cases h1 : o1 = .null
  · subst h1
    exact ⟨.inr (.inl rfl), Below.null_right o3⟩
  · have h2 : o2 ≠ .null := by
      rintro rfl
      exact hle h1
    have h3 : o3 ≠ .null := by
      rintro rfl
      exact hle' h2
    rcases byWord_or h12 h1 h2 with ⟨n1, n2, rfl, rfl⟩ | ⟨s1, s2, rfl, rfl⟩ | hword
    · rcases byWord_or h23 h2 h3 with ⟨_, n3, ⟨⟩, rfl⟩ | ⟨_, _, ⟨⟩, _⟩ | hword
      · exact ⟨.inl rfl, fun h => hle' (Int64.lt_of_lt_of_le h (Int64.not_lt.mp hle))⟩
      · exact absurd rfl hword.integer
    · rcases byWord_or h23 h2 h3 with ⟨_, _, ⟨⟩, _⟩ | ⟨_, s3, ⟨⟩, rfl⟩ | hword
      · exact ⟨.inl rfl, List.le_trans hle hle'⟩
      · exact absurd rfl hword.string
    · have hword' : ByWord o2 o3 := by
        rcases byWord_or h23 h2 h3 with ⟨_, _, rfl, _⟩ | ⟨_, _, rfl, _⟩ | hword'
        · exact absurd rfl hword.symm.integer
        · exact absurd rfl hword.symm.string
        · exact hword'
      rw [hword.symm.below] at hle
      rw [hword'.symm.below] at hle'
      have hword'' : ByWord o3 o1 :=
        ⟨(hword.type.trans hword'.type).symm, hword'.symm.null, hword'.symm.integer,
          hword'.symm.string⟩
      rw [hword''.below]
      exact ⟨.inl hword''.type.symm, by omega⟩

/-! ### What `ObjCmp` computes -/

variable {rt : Runtime}

/-- A value that is no float and has no metamethod to compare it with. -/
structure PlainlyCompared (rt : Runtime) (o : Object) : Prop where
  notFloat : o.type ≠ .float
  noCmp : o.type = .table ∨ o.type = .userdata ∨ o.type = .instance →
    ∀ o2 vm, rt.ask (.cmp o o2) vm = .ok [] vm

theorem ObjCmp_self (o : Object) (vm : VM rt.Heap) : ObjCmp rt o o vm = .ok 0 vm := by
  unfold ObjCmp
  rw [if_pos rfl]
  rfl

theorem ObjCmp_string {s1 s2 : List UInt8} (h : s1 ≠ s2) (vm : VM rt.Heap) :
    ObjCmp rt (.string s1) (.string s2) vm = .ok (rt.strcmp s1 s2) vm := by
  simp [ObjCmp, h]
  rfl

theorem ObjCmp_integer {n1 n2 : GSInteger} (h : n1 ≠ n2) (vm : VM rt.Heap) :
    ObjCmp rt (.integer n1) (.integer n2) vm = .ok (if n1 < n2 then -1 else 1) vm := by
  simp [ObjCmp, h]
  rfl

theorem compareMeta_withoutCmp {o1 : Object} (h : ∀ o2 vm, rt.ask (.cmp o1 o2) vm = .ok [] vm)
    (o2 : Object) (vm : VM rt.Heap) :
    compareMeta rt o1 o2 vm = .ok (compareRefs (rawval o1) (rawval o2)) vm := by
  unfold compareMeta
  rw [bind_apply, h]
  rfl

theorem ObjCmp_byWord {o1 o2 : Object} (h : ByWord o1 o2) (hplain : PlainlyCompared rt o1)
    (hne : o1 ≠ o2)
    (vm : VM rt.Heap) : ObjCmp rt o1 o2 vm = .ok (compareRefs (rawval o1) (rawval o2)) vm := by
  unfold ObjCmp
  rw [if_neg hne]
  split
  · exact absurd rfl h.string
  · exact absurd rfl h.integer
  · exact absurd rfl hplain.notFloat
  · exact compareMeta_withoutCmp (hplain.noCmp (.inl rfl)) _ vm
  · exact compareMeta_withoutCmp (hplain.noCmp (.inr (.inl rfl))) _ vm
  · exact compareMeta_withoutCmp (hplain.noCmp (.inr (.inr rfl))) _ vm
  · exact absurd rfl h.integer
  · exact absurd rfl hplain.notFloat
  · rw [if_pos h.type]
    rfl

theorem ObjCmp_null {o : Object} (h : o ≠ .null) (vm : VM rt.Heap) :
    ObjCmp rt .null o vm = .ok (-1) vm ∧ ObjCmp rt o .null vm = .ok 1 vm := by
  cases o <;> first | exact absurd rfl h | exact ⟨rfl, rfl⟩

/-- Comparable plain values are always compared. -/
theorem ObjCmp_comparable (hstrcmp : IsStrcmp rt.strcmp) {o1 o2 : Object} (h1 : PlainlyCompared rt o1)
    (hcomp : Comparable o1 o2) :
    ∃ r, (∀ vm, ObjCmp rt o1 o2 vm = .ok r vm) ∧ (r < 0 ↔ Below o1 o2) ∧ (0 < r ↔ Below o2 o1) ∧
      -2 ^ 31 ≤ r ∧ r < 2 ^ 31 := by
  by_cases heq : o1 = o2
  · subst heq
    exact ⟨0, ObjCmp_self o1, by simp [Below.irrefl]⟩
  · by_cases hnull1 : o1 = .null
    · subst hnull1
      have hbelow : Below .null o2 := Ne.symm heq
      refine ⟨-1, fun vm => (ObjCmp_null (Ne.symm heq) vm).1, ?_⟩
      simp [hbelow, Below.null_right]
    · by_cases hnull2 : o2 = .null
      · subst hnull2
        have hbelow : Below .null o1 := hnull1
        refine ⟨1, fun vm => (ObjCmp_null hnull1 vm).2, ?_⟩
        simp [hbelow, Below.null_right]
      · rcases byWord_or hcomp hnull1 hnull2 with
          ⟨n1, n2, rfl, rfl⟩ | ⟨s1, s2, rfl, rfl⟩ | hword
        · have hne : n1 ≠ n2 := fun h => heq (congrArg Object.integer h)
          refine ⟨_, ObjCmp_integer hne, ?_⟩
          by_cases hlt : n1 < n2
          · simp [Below, hlt, Int64.lt_asymm hlt]
          · have hgt : n2 < n1 := Int64.lt_of_le_of_ne (Int64.not_lt.mp hlt) (Ne.symm hne)
            simp [Below, hlt, hgt]
        · have hne : s1 ≠ s2 := fun h => heq (congrArg Object.string h)
          obtain ⟨hlt, hgt⟩ := hstrcmp.order s1 s2
          exact ⟨_, ObjCmp_string hne, hlt, hgt, hstrcmp.int s1 s2⟩
        · refine ⟨_, ObjCmp_byWord hword h1 heq, ?_⟩
          rw [hword.below, hword.symm.below]
          exact compareRefs_order (hword.rawval_ne heq)

/-! ### Simple values -/

/-- Null, the booleans, the integers and the strings. -/
def Simple : Object → Prop
  | .null | .bool _ | .integer _ | .string _ => True
  | _ => False

theorem Simple.plainlyCompared {o : Object} (h : Simple o) : PlainlyCompared rt o := by
  cases o <;> first | exact h.elim | exact ⟨nofun, nofun⟩

/-- Values of two types, none of them null, raise an error. -/
theorem ObjCmp_incomparable {o1 o2 : Object} (h1 : Simple o1) (h2 : Simple o2)
    (hcomp : ¬ Comparable o1 o2) (vm : VM rt.Heap) :
    ∃ err, ObjCmp rt o1 o2 vm = .error (.raise err) vm := by
  unfold ObjCmp
  split
  · next heq => exact absurd (.inl (congrArg Object.type heq)) hcomp
  · split
    all_goals first | exact h1.elim | exact h2.elim | exact absurd (.inl rfl) hcomp | skip
    rw [if_neg fun htype => hcomp (.inl htype), if_neg fun hnull => hcomp (.inr (.inl hnull)),
      if_neg fun hnull => hcomp (.inr (.inr hnull))]
    exact ⟨_, rfl⟩

/-- A comparison that gives a result was one of comparable values. -/
theorem ObjCmp_ok (hstrcmp : IsStrcmp rt.strcmp) {o1 o2 : Object} (h1 : Simple o1)
    (h2 : Simple o2) {vm vm' : VM rt.Heap} {r : Int} (h : ObjCmp rt o1 o2 vm = .ok r vm') :
    Comparable o1 o2 ∧ (r < 0 ↔ Below o1 o2) ∧ (0 < r ↔ Below o2 o1) := by
  by_cases hcomp : Comparable o1 o2
  · obtain ⟨r', hr', hlt, hgt, _⟩ := ObjCmp_comparable hstrcmp h1.plainlyCompared hcomp
    rw [hr'] at h
    cases h
    exact ⟨hcomp, hlt, hgt⟩
  · obtain ⟨err, herr⟩ := ObjCmp_incomparable h1 h2 hcomp vm
    rw [herr] at h
    cases h

/-! ### The order and the equality agree -/

/-- On the values of `S`, compared in the state `vm`, comparison and equality are
those of one order. The operators are those of `CMP_OP`. -/
structure ConsistentOrder (rt : Runtime) (vm : VM rt.Heap) (S : Object → Prop) : Prop where
  /-- Values of one type are compared, and any value with null. -/
  answers : ∀ o1, S o1 → ∀ o2, S o2 → Comparable o1 o2 → ∃ r, ObjCmp rt o1 o2 vm = .ok r vm
  /-- The other way round the sign is the opposite one. -/
  antisymm : ∀ o1, S o1 → ∀ o2, S o2 → ∀ r r', ObjCmp rt o1 o2 vm = .ok r vm →
    ObjCmp rt o2 o1 vm = .ok r' vm → r.sign = -r'.sign
  trans : ∀ o1, S o1 → ∀ o2, S o2 → ∀ o3, S o3 → ∀ r r', ObjCmp rt o1 o2 vm = .ok r vm →
    ObjCmp rt o2 o3 vm = .ok r' vm → r ≤ 0 → r' ≤ 0 →
    ∃ r'', ObjCmp rt o1 o3 vm = .ok r'' vm ∧ r'' ≤ 0 ∧ (r < 0 ∨ r' < 0 → r'' < 0)
  zero : ∀ o1, S o1 → ∀ o2, S o2 → ∀ r, ObjCmp rt o1 o2 vm = .ok r vm →
    (r = 0 ↔ isEqual rt.fl o1 o2 = true)
  operators : ∀ o1, S o1 → ∀ o2, S o2 → Comparable o1 o2 → ∃ (le ge : Bool) (n : GSInteger),
    CMP_OP rt 4 o1 o2 vm = .ok (.ofBool le) vm ∧ CMP_OP rt 2 o1 o2 vm = .ok (.ofBool ge) vm ∧
    CMP_OP rt 5 o1 o2 vm = .ok (.integer n) vm ∧ (le = true ↔ n ≤ 0) ∧ (ge = true ↔ 0 ≤ n) ∧
    (le = true ∧ ge = true ↔ isEqual rt.fl o1 o2 = true)

/-- Simple values are equal when they are the same. -/
theorem isEqual_simple (fl : FloatOps) {o1 o2 : Object} (h1 : Simple o1) (h2 : Simple o2) :
    isEqual fl o1 o2 = true ↔ o1 = o2 := by
  cases o1 <;> cases o2 <;> first | exact h1.elim | exact h2.elim | simp [isEqual]

/-- No two different strings of `S` look the same to C. -/
def ToldApart (S : Object → Prop) : Prop :=
  ∀ s1 s2, S (.string s1) → S (.string s2) → cString s1 = cString s2 → s1 = s2

/-- Values that neither comes before the other of are the same. -/
theorem ToldApart.eq {S : Object → Prop} (h : ToldApart S) {o1 o2 : Object} (hmem1 : S o1)
    (hmem2 : S o2) (hcomp : Comparable o1 o2) (hle : ¬ Below o1 o2) (hge : ¬ Below o2 o1) :
    o1 = o2 := by
  by_cases hnull1 : o1 = .null
  · subst hnull1
    exact Eq.symm (Decidable.not_not.mp hle)
  · by_cases hnull2 : o2 = .null
    · subst hnull2
      exact Decidable.not_not.mp hge
    · rcases byWord_or hcomp hnull1 hnull2 with
        ⟨n1, n2, rfl, rfl⟩ | ⟨s1, s2, rfl, rfl⟩ | hword
      · rw [Int64.le_antisymm (Int64.not_lt.mp hge) (Int64.not_lt.mp hle)]
      · have hsame : cString s1 = cString s2 := List.le_antisymm hge hle
        rw [h s1 s2 hmem1 hmem2 hsame]
      · rw [hword.below] at hle
        rw [hword.symm.below] at hge
        refine Decidable.byContradiction fun hne => hword.rawval_ne hne ?_
        omega

theorem sign_eq_neg {r r' : Int} (hlt : r < 0 ↔ 0 < r') (hgt : 0 < r ↔ r' < 0) :
    r.sign = -r'.sign := by
  rcases Int.lt_trichotomy r 0 with h | h | h
  · rw [Int.sign_eq_neg_one_of_neg h, Int.sign_eq_one_of_pos (hlt.mp h)]
  · have h' : r' = 0 := by omega
    rw [h, h']
    rfl
  · rw [Int.sign_eq_one_of_pos h, Int.sign_eq_neg_one_of_neg (hgt.mp h)]
    rfl

/-- **Order and equality agree where C tells the strings apart.** Simple values
are compared consistently, in order and with equality, exactly when no two
different strings among them agree up to their first NUL. -/
theorem consistentOrder_iff_toldApart (rt : Runtime) (hstrcmp : IsStrcmp rt.strcmp)
    (vm : VM rt.Heap) (S : Object → Prop) (hsimple : ∀ o, S o → Simple o) :
    ConsistentOrder rt vm S ↔ ToldApart S := by
  constructor
  · intro h s1 s2 hmem1 hmem2 hsame
    refine Decidable.byContradiction fun hne => ?_
    have hcmp := ObjCmp_string hne vm
    obtain ⟨hlt, hgt⟩ := hstrcmp.order s1 s2
    rw [hsame] at hlt hgt
    have hzero : rt.strcmp s1 s2 = 0 := by
      have hnlt := mt hlt.mp (List.lt_irrefl _)
      have hngt := mt hgt.mp (List.lt_irrefl _)
      omega
    have heq := (h.zero _ hmem1 _ hmem2 _ hcmp).mp hzero
    have heq := (isEqual_simple rt.fl (hsimple _ hmem1) (hsimple _ hmem2)).mp heq
    cases heq
    exact hne rfl
  · intro h
    have hequal : ∀ o1, S o1 → ∀ o2, S o2 → ∀ r, ObjCmp rt o1 o2 vm = .ok r vm →
        (r = 0 ↔ isEqual rt.fl o1 o2 = true) := by
      intro o1 h1 o2 h2 r hr
      obtain ⟨hcomp, hlt, hgt⟩ := ObjCmp_ok hstrcmp (hsimple o1 h1) (hsimple o2 h2) hr
      rw [isEqual_simple rt.fl (hsimple o1 h1) (hsimple o2 h2)]
      constructor
      · rintro rfl
        exact h.eq h1 h2 hcomp (mt hlt.mpr (Int.lt_irrefl 0)) (mt hgt.mpr (Int.lt_irrefl 0))
      · rintro rfl
        have hnlt := mt hlt.mp (Below.irrefl o1)
        have hngt := mt hgt.mp (Below.irrefl o1)
        omega
    refine ⟨?_, ?_, ?_, hequal, ?_⟩
    · intro o1 h1 o2 h2 hcomp
      obtain ⟨r, hr, _⟩ := ObjCmp_comparable hstrcmp (hsimple o1 h1).plainlyCompared hcomp
      exact ⟨r, hr vm⟩
    · intro o1 h1 o2 h2 r r' hr hr'
      obtain ⟨_, hlt, hgt⟩ := ObjCmp_ok hstrcmp (hsimple o1 h1) (hsimple o2 h2) hr
      obtain ⟨_, hlt', hgt'⟩ := ObjCmp_ok hstrcmp (hsimple o2 h2) (hsimple o1 h1) hr'
      rw [← hgt'] at hlt
      rw [← hlt'] at hgt
      exact sign_eq_neg hlt hgt
    · intro o1 h1 o2 h2 o3 h3 r r' hr hr' hle hle'
      have hs1 := hsimple o1 h1
      have hs2 := hsimple o2 h2
      have hs3 := hsimple o3 h3
      obtain ⟨hcomp, hlt, hgt⟩ := ObjCmp_ok hstrcmp hs1 hs2 hr
      obtain ⟨hcomp', hlt', hgt'⟩ := ObjCmp_ok hstrcmp hs2 hs3 hr'
      have hle : ¬ Below o2 o1 := fun hb => Int.not_lt.mpr hle (hgt.mpr hb)
      have hle' : ¬ Below o3 o2 := fun hb => Int.not_lt.mpr hle' (hgt'.mpr hb)
      obtain ⟨hcomp'', hnot⟩ := Below.trans_not hcomp hcomp' hle hle'
      obtain ⟨r'', hr'', hlt'', hgt'', _⟩ := ObjCmp_comparable hstrcmp hs1.plainlyCompared hcomp''
      refine ⟨r'', hr'' vm, Int.not_lt.mp (mt hgt''.mp hnot), fun hstrict => hlt''.mpr ?_⟩
      -- were `o1` not before `o3`, it would not be before `o2` nor `o2` before `o3`
      refine Classical.byContradiction fun hnb => ?_
      rcases hstrict with h12 | h23
      · exact (Below.trans_not hcomp' hcomp''.symm hle' hnb).2 (hlt.mp h12)
      · exact (Below.trans_not hcomp''.symm hcomp hnb hle).2 (hlt'.mp h23)
    · intro o1 h1 o2 h2 hcomp
      obtain ⟨r, hr, _, _, hlow, hhigh⟩ :=
        ObjCmp_comparable hstrcmp (hsimple o1 h1).plainlyCompared hcomp
      have hint : (Int64.ofInt r).toInt = r := Int64.toInt_ofInt_of_le (by omega) (by omega)
      refine ⟨decide (r ≤ 0), decide (0 ≤ r), Int64.ofInt r, ?_, ?_, ?_, ?_, ?_, ?_⟩
      · simp [CMP_OP, bind_apply, hr]
        rfl
      · simp [CMP_OP, bind_apply, hr]
        rfl
      · simp [CMP_OP, bind_apply, hr]
        rfl
      · rw [Int64.le_iff_toInt_le, hint]
        simp
      · rw [Int64.le_iff_toInt_le, hint]
        simp
      · rw [← hequal o1 h1 o2 h2 r (hr vm), decide_eq_true_iff, decide_eq_true_iff]
        omega

theorem isStrcmp_strcmp : IsStrcmp strcmp where
  sign _ _ := rfl
  int s t := by fun_induction strcmp s t <;> first | assumption | decide

/-- Compares strings as C does. -/
def comparing : Runtime := { answering 0 with strcmp := strcmp }

theorem consistentOrder_iff_toldApart_one :
    ConsistentOrder comparing (holding 0 1 2) (fun o => o = .null ∨ o = .string [97, 0, 98]) ↔
      ToldApart fun o => o = .null ∨ o = .string [97, 0, 98] :=
  consistentOrder_iff_toldApart comparing isStrcmp_strcmp (holding 0 1 2) _ fun o ho => by
    rcases ho with rfl | rfl <;> trivial

/-- The strings `"a\x00b"` and `"a\x00c"` compare as equal and are not. -/
theorem not_consistentOrder :
    ¬ ∀ (rt : Runtime) (vm : VM rt.Heap) (S : Object → Prop), IsStrcmp rt.strcmp →
      (∀ o, S o → Simple o) → ConsistentOrder rt vm S := by
  intro h
  have hall := h comparing (holding 0 1 2) Simple isStrcmp_strcmp fun _ ho => ho
  have hzero := (hall.zero (.string [97, 0, 98]) trivial (.string [97, 0, 99]) trivial 0 rfl).mp rfl
  revert hzero
  decide

end GameScript.VM
