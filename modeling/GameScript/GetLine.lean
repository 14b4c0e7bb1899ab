import GameScript.FuncProto

/-!
`GetLine` (`GSobject.cpp`): the line of an instruction, by a binary search over the line
information of its function and a walk back over the entries that do not lie before it.
-/

namespace GameScript

/-- `_lineinfos[i]`. -/
def lineinfoAt (lineinfos : List LineInfo) (i : Int) : Option LineInfo :=
  if 0 ≤ i then lineinfos[i.toNat]? else none

/-- The first loop of `GetLine`, with its variables; the result is the `mid` it ends with, or
`none` where it would read outside of the table. -/
def searchLine (lineinfos : List LineInfo) (op : GSInteger) (low high mid : Int) : Option Int :=
  if low ≤ high then
    let mid := low + (high - low) / 2
    match lineinfoAt lineinfos mid with
    | none => none
    | some li =>
      if li.op > op then searchLine lineinfos op low (mid - 1) mid
      else if li.op < op then
        if mid < (lineinfos.length : Int) - 1 ∧
            ∃ next ∈ lineinfoAt lineinfos (mid + 1), next.op ≥ op then some mid
        else searchLine lineinfos op (mid + 1) high mid
      else some mid
  else some mid
termination_by (high + 1 - low).toNat
decreasing_by
  · omega
  · omega

/-- The second loop: back from `mid` over the entries that are not below `op`. -/
def walkBack (lineinfos : List LineInfo) (op : GSInteger) : Nat → Option Nat
  | 0 => some 0
  | mid + 1 =>
    match lineinfos[mid + 1]? with
    | none => none
    | some li => if li.op ≥ op then walkBack lineinfos op mid else some (mid + 1)

/-- `GetLine` of the instruction `op`. -/
def FunctionProto.GetLine (f : FunctionProto) (op : GSInteger) : Option GSInteger := do
  let _ ← lineinfoAt f.lineinfos 0
  let mid ← searchLine f.lineinfos op 0 (f.lineinfos.length - 1) 0
  let mid ← walkBack f.lineinfos op mid.toNat
  let li ← f.lineinfos[mid]?
  return li.line

/-! ### Sorted tables -/

variable {lineinfos : List LineInfo} {op : GSInteger}

/-- The entries are in the order of their instructions, of which some may be the same. -/
def SortedByOp (lineinfos : List LineInfo) : Prop := lineinfos.Pairwise (·.op ≤ ·.op)

/-- No entry behind `mid` is below `op`. -/
def NoneBehind (lineinfos : List LineInfo) (op : GSInteger) (mid : Nat) : Prop :=
  ∀ j li, mid < j → lineinfos[j]? = some li → op ≤ li.op

theorem SortedByOp.op_le (h : SortedByOp lineinfos) {i j : Nat} {a b : LineInfo} (hij : i ≤ j)
    (ha : lineinfos[i]? = some a) (hb : lineinfos[j]? = some b) : a.op ≤ b.op := by
  obtain ⟨hi, rfl⟩ := List.getElem?_eq_some_iff.mp ha
  obtain ⟨hj, rfl⟩ := List.getElem?_eq_some_iff.mp hb
  rcases Nat.eq_or_lt_of_le hij with rfl | hlt
  · exact Int64.le_refl _
  · exact List.pairwise_iff_getElem.mp h i j hi hj hlt

/-- Behind an entry that is not below `op` there is none either. -/
theorem SortedByOp.noneBehind (h : SortedByOp lineinfos) {i mid : Nat} {li : LineInfo}
    (hli : lineinfos[i]? = some li) (hop : op ≤ li.op) (hi : i ≤ mid + 1) :
    NoneBehind lineinfos op mid := by
  intro j a hj ha
  exact Int64.le_trans hop (h.op_le (by omega) hli ha)

theorem lineinfoAt_ofNat (i : Nat) : lineinfoAt lineinfos i = lineinfos[i]? := by
  unfold lineinfoAt
  rw [if_pos (Int.natCast_nonneg i), Int.toNat_natCast]

/-! ### The loops -/

/-- What the search keeps: `high` and `mid` are in the table, no entry behind `high` is below `op`,
and it does not end before `mid` is at `high`. -/
structure Searching (lineinfos : List LineInfo) (op : GSInteger) (low high mid : Int) : Prop where
  low_nonneg : 0 ≤ low
  high_lt : high < lineinfos.length
  mid_nonneg : 0 ≤ mid
  mid_lt : mid < lineinfos.length
  behind : ∀ (j : Nat) (li : LineInfo), high < (j : Int) → lineinfos[j]? = some li → op ≤ li.op
  ended : high < low → high ≤ mid

/-- Half way between `low` and `high` is an index between them. -/
theorem halfway {low high : Int} (hnonneg : 0 ≤ low) (h : low ≤ high) :
    ∃ k : Nat, low + (high - low) / 2 = k ∧ low ≤ k ∧ (k : Int) ≤ high := by
  obtain ⟨k, hk⟩ := Int.eq_ofNat_of_zero_le (show 0 ≤ low + (high - low) / 2 by omega)
  refine ⟨k, hk, ?_, ?_⟩
  · omega
  · omega

/-- The search ends at an entry of the table, with none behind it that is below `op`. -/
theorem searchLine_spec (h : SortedByOp lineinfos) {low high mid : Int}
    (hs : Searching lineinfos op low high mid) :
    ∃ m : Nat, searchLine lineinfos op low high mid = some (m : Int) ∧ m < lineinfos.length ∧
      NoneBehind lineinfos op m := by
  fun_induction searchLine lineinfos op low high mid with
  | case1 low high _ hle m hnone =>
    obtain ⟨k, hk, hlow, hhigh⟩ := halfway hs.low_nonneg hle
    have hlen := hs.high_lt
    have hm : m = (k : Int) := hk
    rw [hm, lineinfoAt_ofNat, List.getElem?_eq_none_iff] at hnone
    omega
  | case2 low high _ hle m li hli hgt ih =>
    obtain ⟨k, hk, hlow, hhigh⟩ := halfway hs.low_nonneg hle
    have hm : m = (k : Int) := hk
    rw [hm, lineinfoAt_ofNat] at hli
    have hlen := hs.high_lt
    have hnonneg := hs.low_nonneg
    apply ih
    constructor
    · exact hnonneg
    · omega
    · omega
    · omega
    · -- everything from `mid` on lies behind an entry above `op`
      intro j a hj ha
      exact Int64.le_trans (Int64.le_of_lt hgt) (h.op_le (by omega) hli ha)
    · omega
  | case3 low high _ hle m li hli _ hlt hnext =>
    obtain ⟨k, hk, hlow, hhigh⟩ := halfway hs.low_nonneg hle
    have hm : m = (k : Int) := hk
    obtain ⟨hlast, next, hnext, hop⟩ := hnext
    refine ⟨k, by rw [hm], by omega, ?_⟩
    have hat : lineinfoAt lineinfos (m + 1) = lineinfos[k + 1]? := by
      rw [hm]
      exact lineinfoAt_ofNat (k + 1)
    rw [hat] at hnext
    exact h.noneBehind hnext hop (Nat.le_refl _)
  | case4 low high _ hle m li hli _ hlt hnext ih =>
    obtain ⟨k, hk, hlow, hhigh⟩ := halfway hs.low_nonneg hle
    have hm : m = (k : Int) := hk
    have hlen := hs.high_lt
    have hnonneg := hs.low_nonneg
    apply ih
    constructor
    · omega
    · exact hs.high_lt
    · omega
    · omega
    · exact hs.behind
    · omega
  | case5 low high _ hle m li hli hgt hlt =>
    obtain ⟨k, hk, hlow, hhigh⟩ := halfway hs.low_nonneg hle
    have hm : m = (k : Int) := hk
    have hlen := hs.high_lt
    rw [hm, lineinfoAt_ofNat] at hli
    refine ⟨k, by rw [hm], by omega, ?_⟩
    exact h.noneBehind hli (Int64.not_lt.mp hlt) (Nat.le_succ k)
  | case6 low high mid hgt =>
    obtain ⟨k, hk⟩ := Int.eq_ofNat_of_zero_le hs.mid_nonneg
    have hlen := hs.mid_lt
    have hend := hs.ended (Int.not_le.mp hgt)
    refine ⟨k, by rw [hk], by omega, ?_⟩
    intro j a hj ha
    exact hs.behind j a (by omega) ha

/-- The walk back stops at the last entry that is below `op`, or at the first one. -/
theorem walkBack_spec {mid : Nat} (hmid : mid < lineinfos.length)
    (hbehind : NoneBehind lineinfos op mid) :
    ∃ m, walkBack lineinfos op mid = some m ∧ m < lineinfos.length ∧
      NoneBehind lineinfos op m ∧ (0 < m → ∀ li, lineinfos[m]? = some li → li.op < op) := by
  induction mid with
  | zero => exact ⟨0, rfl, hmid, hbehind, fun h => absurd h (Nat.lt_irrefl 0)⟩
  | succ mid ih =>
    have hli : lineinfos[mid + 1]? = some lineinfos[mid + 1] := List.getElem?_eq_getElem hmid
    unfold walkBack
    simp only [hli]
    split
    · rename_i hop
      apply ih (by omega)
      intro j li hj hj'
      rcases Nat.eq_or_lt_of_le (Nat.succ_le_of_lt hj) with rfl | hlt
      · rw [hli] at hj'
        obtain rfl := Option.some.inj hj'
        exact hop
      · exact hbehind j li hlt hj'
    · rename_i hop
      refine ⟨mid + 1, rfl, hmid, hbehind, ?_⟩
      intro _ li hli'
      rw [hli] at hli'
      obtain rfl := Option.some.inj hli'
      exact Int64.not_le.mp hop

/-- `GetLine` returns the line of an entry with none behind it that is below `op`, and which is
below `op` itself unless it is the first one. -/
theorem GetLine_spec (f : FunctionProto) (op : GSInteger) (hne : f.lineinfos ≠ [])
    (h : SortedByOp f.lineinfos) :
    ∃ m li, f.lineinfos[m]? = some li ∧ f.GetLine op = some li.line ∧
      NoneBehind f.lineinfos op m ∧ (0 < m → li.op < op) := by
  have hpos : 0 < f.lineinfos.length := List.length_pos_iff.mpr hne
  obtain ⟨k, hk, hklt, hkb⟩ := searchLine_spec h
    (show Searching f.lineinfos op 0 (f.lineinfos.length - 1) 0 by
      constructor
      · omega
      · omega
      · omega
      · omega
      · intro j li hj hli
        have := (List.getElem?_eq_some_iff.mp hli).1
        omega
      · omega)
  obtain ⟨m, hm, hmlt, hmb, hmop⟩ := walkBack_spec hklt hkb
  have hli : f.lineinfos[m]? = some f.lineinfos[m] := List.getElem?_eq_getElem hmlt
  refine ⟨m, f.lineinfos[m], hli, ?_, hmb, fun hpos => hmop hpos _ hli⟩
  have hfirst : lineinfoAt f.lineinfos 0 = some f.lineinfos[0] := by
    rw [show (0 : Int) = ((0 : Nat) : Int) from rfl, lineinfoAt_ofNat]
    exact List.getElem?_eq_getElem hpos
  unfold FunctionProto.GetLine
  simp [hfirst, hk, hm, hli]

/-! ### The last entry below an instruction -/

/-- Where the entries before `n` are below `op` and the others are not, the ones below are the
first `n`. -/
theorem filter_below {n : Nat} (hbelow : ∀ j li, j < n → lineinfos[j]? = some li → li.op < op)
    (habove : ∀ j li, n ≤ j → lineinfos[j]? = some li → op ≤ li.op) :
    lineinfos.filter (fun li => li.op < op) = lineinfos.take n := by
  have htake : (lineinfos.take n).filter (fun li => li.op < op) = lineinfos.take n := by
    rw [List.filter_eq_self]
    intro li hli
    obtain ⟨j, hj⟩ := List.mem_iff_getElem?.mp hli
    rw [List.getElem?_take] at hj
    split at hj
    · rename_i hlt
      exact decide_eq_true (hbelow j li hlt hj)
    · cases hj
  have hdrop : (lineinfos.drop n).filter (fun li => li.op < op) = [] := by
    rw [List.filter_eq_nil_iff]
    intro li hli
    obtain ⟨j, hj⟩ := List.mem_iff_getElem?.mp hli
    rw [List.getElem?_drop] at hj
    have hle := habove (n + j) li (Nat.le_add_right n j) hj
    simpa using hle
  calc lineinfos.filter (fun li => li.op < op)
      = (lineinfos.take n ++ lineinfos.drop n).filter (fun li => li.op < op) := by
        rw [List.take_append_drop]
    _ = lineinfos.take n := by rw [List.filter_append, htake, hdrop, List.append_nil]

/-- For a function with line information in the order of its instructions, `GetLine` returns the
line of the last entry below the instruction, or the first entry's when there is none. -/
theorem GetLine_eq (f : FunctionProto) (op : GSInteger) (hne : f.lineinfos ≠ [])
    (h : SortedByOp f.lineinfos) :
    f.GetLine op =
      some (((f.lineinfos.filter fun li => li.op < op).getLast?.getD
        (f.lineinfos.head hne)).line) := by
  obtain ⟨m, li, hli, hline, hbehind, hop⟩ := GetLine_spec f op hne h
  rw [hline]
  by_cases hlt : li.op < op
  · -- the entries below `op` end with the one found
    have hfilter : f.lineinfos.filter (fun li => li.op < op) = f.lineinfos.take (m + 1) := by
      apply filter_below
      · intro j a hj ha
        exact Int64.lt_of_le_of_lt (h.op_le (Nat.le_of_lt_succ hj) ha hli) hlt
      · intro j a hj ha
        exact hbehind j a hj ha
    have hlast : (f.lineinfos.take (m + 1)).getLast? = some li := by
      rw [List.take_add_one, hli]
      exact List.getLast?_concat
    rw [hfilter, hlast]
    rfl
  · -- the first entry is not below `op`, and so none is
    obtain rfl : m = 0 := Nat.eq_zero_of_not_pos fun hpos => hlt (hop hpos)
    have hfilter : f.lineinfos.filter (fun li => li.op < op) = f.lineinfos.take 0 := by
      apply filter_below
      · intro j a hj
        exact absurd hj (Nat.not_lt_zero j)
      · intro j a _ ha
        exact Int64.le_trans (Int64.not_lt.mp hlt) (h.op_le (Nat.zero_le j) hli ha)
    have hhead : f.lineinfos.head hne = li := by
      rw [List.head_eq_getElem]
      exact (List.getElem?_eq_some_iff.mp hli).2
    rw [hfilter, hhead]
    rfl

/-- A function with two entries for one instruction. -/
def repeatedEntry : FunctionProto := {
  sourcename := .null, name := .null, stacksize := 2, bgenerator := false, varparams := 0
  rettype := none, localvarinfos := [], lineinfos := [⟨1, 0⟩, ⟨2, 3⟩, ⟨5, 3⟩, ⟨6, 7⟩]
  literals := [], parameters := [], functions := [], outervalues := [], defaultparams := []
  instructions := List.replicate 9 { op := .LINE } }

/-- The last of two entries of one instruction counts for the next instructions, the first entry
for the first instruction. -/
theorem GetLine_repeatedEntry :
    repeatedEntry.GetLine 0 = some 1 ∧ repeatedEntry.GetLine 4 = some 5 := by
  have hsorted : SortedByOp repeatedEntry.lineinfos := by
    unfold SortedByOp
    decide
  constructor
  · exact GetLine_eq repeatedEntry 0 (List.cons_ne_nil _ _) hsorted
  · exact GetLine_eq repeatedEntry 4 (List.cons_ne_nil _ _) hsorted

end GameScript
