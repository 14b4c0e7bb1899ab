import GameScript.Gstd.Positions
import Mathlib.Data.List.DropRight
import Mathlib.Data.List.TakeWhile

/-!
`strip`, `lstrip` and `rstrip` (`gstdstring.cpp`): two scans for the ends of what is left of a
string, which is handed on with its length or without.
-/

namespace GameScript.Rex

/-! ### Scanning -/

/-- The loop of `__strip_l`, with a bound for the characters left. -/
def strip_lLoop (str : Text) : Nat → Int → Except Halt Int
  | 0, _ => throw .timeout
  | n + 1, t =>
      match str.get? t with
      | some c => if c ≠ 0 ∧ isSpace c then strip_lLoop str n (t + 1) else return t
      | none => throw .undefined

/-- `__strip_l`. -/
def strip_l (str : Text) : Except Halt Int := strip_lLoop str (str.chars.length + 1) 0

/-- The loop of `__strip_r`. -/
def strip_rLoop (str : Text) : Nat → Int → Except Halt Int
  | 0, _ => throw .timeout
  | n + 1, t =>
      if t ≥ 0 then
        match str.get? t with
        | some c => if isSpace c then strip_rLoop str n (t - 1) else return t
        | none => throw .undefined
      else return t

/-- `__strip_r`. -/
def strip_r (str : Text) (len : Nat) : Except Halt Int :=
  if len = 0 then return 0
  else do
    let t ← strip_rLoop str (len + 1) (len - 1)
    return t + 1

/-- `GS_pushstring` of a part of a string: of a negative length, it ends before the first NUL. -/
def pushstring (str : Text) (start len : Int) : Except Halt (List UInt8) :=
  if len < 0 then
    if 0 ≤ start ∧ start ≤ str.chars.length then
      return zeroTerminated (str.chars.drop start.toNat)
    else throw .undefined
  else str.read start len

def string_strip (str : Text) : Except Halt (List UInt8) := do
  let start ← strip_l str
  let last ← strip_r str str.chars.length
  pushstring str start (last - start)

def string_lstrip (str : Text) : Except Halt (List UInt8) := do
  let start ← strip_l str
  pushstring str start (-1)

def string_rstrip (str : Text) : Except Halt (List UInt8) := do
  let last ← strip_r str str.chars.length
  pushstring str 0 last

/-! ### What is asked of them -/

inductive Strip where
  | strip
  | lstrip
  | rstrip
deriving DecidableEq

def Strip.run (str : Text) : Strip → Except Halt (List UInt8)
  | .strip => string_strip str
  | .lstrip => string_lstrip str
  | .rstrip => string_rstrip str

/-- What is left without the longest whitespace prefix, the longest whitespace suffix, or both. -/
def Strip.stripped (s : List UInt8) : Strip → List UInt8
  | .strip => (s.dropWhile isSpace).rdropWhile isSpace
  | .lstrip => s.dropWhile isSpace
  | .rstrip => s.rdropWhile isSpace

/-! ### The scans -/

variable {str : Text}

theorem get?_of_lt {i : Nat} (h : i < str.chars.length) : str.get? i = some str.chars[i] := by
  unfold Text.get?
  rw [if_pos ⟨by omega, by omega⟩, Int.toNat_natCast, List.getD_eq_getElem?_getD,
    List.getElem?_eq_getElem h, Option.getD_some]

theorem get?_length (str : Text) : str.get? str.chars.length = some 0 := by
  unfold Text.get?
  rw [if_pos ⟨by omega, Int.le_refl _⟩, Int.toNat_natCast, List.getD_eq_getElem?_getD,
    List.getElem?_eq_none (Nat.le_refl _), Option.getD_none]

theorem strip_lLoop_eq (str : Text) : ∀ (n i : Nat), i ≤ str.chars.length →
    str.chars.length < n + i →
    strip_lLoop str n i = .ok ((i + ((str.chars.drop i).takeWhile isSpace).length : Nat) : Int)
  | 0, i, hi, hn => absurd hi (by omega)
  | n + 1, i, hi, hn => by
      rcases Nat.lt_or_eq_of_le hi with hlt | rfl
      · rw [strip_lLoop, get?_of_lt hlt, List.drop_eq_getElem_cons hlt]
        dsimp only
        by_cases hspace : isSpace str.chars[i] = true
        · have hzero : str.chars[i] ≠ 0 := fun h => by
            rw [h] at hspace
            cases hspace
          rw [if_pos ⟨hzero, hspace⟩, List.takeWhile_cons_of_pos hspace, List.length_cons]
          have hrest := strip_lLoop_eq str n (i + 1) hlt (by omega)
          rw [show ((i : Int) + 1) = ((i + 1 : Nat) : Int) by omega, hrest]
          congr 2
          omega
        · rw [if_neg fun h => hspace h.2, List.takeWhile_cons_of_neg hspace]
          rfl
      · rw [strip_lLoop, get?_length, List.drop_length]
        rfl

/-- `__strip_l` ends behind the longest whitespace prefix. -/
theorem strip_l_eq (str : Text) :
    strip_l str = .ok ((str.chars.takeWhile isSpace).length : Int) := by
  have hloop := strip_lLoop_eq str (str.chars.length + 1) 0 (Nat.zero_le _) (by omega)
  rwa [Nat.zero_add] at hloop

theorem strip_rLoop_eq (str : Text) : ∀ (n i : Nat), i ≤ str.chars.length → i < n →
    strip_rLoop str n ((i : Int) - 1) =
      .ok ((((str.chars.take i).rdropWhile isSpace).length : Int) - 1)
  | 0, i, hi, hn => absurd hn (Nat.not_lt_zero _)
  | n + 1, 0, hi, hn => rfl
  | n + 1, i + 1, hi, hn => by
      have hpos : ((i + 1 : Nat) : Int) - 1 = i := by omega
      rw [hpos, strip_rLoop, if_pos (by omega), get?_of_lt hi, List.take_succ_eq_append_getElem hi,
        List.rdropWhile_concat]
      dsimp only
      by_cases hspace : isSpace str.chars[i] = true
      · rw [if_pos hspace, if_pos hspace]
        exact strip_rLoop_eq str n i (Nat.le_of_lt hi) (Nat.lt_of_succ_lt_succ hn)
      · rw [if_neg hspace, if_neg hspace, List.length_append, List.length_take_of_le (Nat.le_of_lt hi)]
        show Except.ok (i : Int) = Except.ok _
        congr 1
        show (i : Int) = ((i + 1 : Nat) : Int) - 1
        omega

/-- `__strip_r` ends before the longest whitespace suffix. -/
theorem strip_r_eq (str : Text) :
    strip_r str str.chars.length = .ok ((str.chars.rdropWhile isSpace).length : Int) := by
  unfold strip_r
  split
  · next hnil =>
      rw [List.length_eq_zero_iff.mp hnil]
      rfl
  · have hloop := strip_rLoop_eq str (str.chars.length + 1) str.chars.length (Nat.le_refl _)
      (Nat.lt_succ_self _)
    rw [List.take_length] at hloop
    rw [hloop]
    show Except.ok (_ - 1 + 1) = _
    rw [Int.sub_add_cancel]

/-! ### What is left -/

theorem read_part (str : Text) {i n : Nat} (h : i + n ≤ str.chars.length) :
    str.read i n = .ok ((str.chars.drop i).take n) := by
  unfold Text.read
  rw [if_pos ⟨by omega, by omega, by omega⟩]
  rfl

theorem rdropWhile_append {p : UInt8 → Bool} (s : List UInt8) {t : List UInt8}
    (h : t.rdropWhile p ≠ []) : (s ++ t).rdropWhile p = s ++ t.rdropWhile p := by
  unfold List.rdropWhile at h ⊢
  have hne : (t.reverse.dropWhile p).isEmpty = false :=
    List.isEmpty_eq_false_iff.mpr fun hnil => h (by rw [hnil]; rfl)
  rw [List.reverse_append, List.dropWhile_append, hne, if_neg Bool.false_ne_true,
    List.reverse_append, List.reverse_reverse]

theorem drop_takeWhile (s : List UInt8) (p : UInt8 → Bool) :
    s.drop (s.takeWhile p).length = s.dropWhile p := by
  have hsplit : s.takeWhile p ++ s.dropWhile p = s := List.takeWhile_append_dropWhile
  calc s.drop (s.takeWhile p).length
      = (s.takeWhile p ++ s.dropWhile p).drop (s.takeWhile p).length := by rw [hsplit]
    _ = s.dropWhile p := List.drop_left ..

theorem length_takeWhile_le (s : List UInt8) (p : UInt8 → Bool) :
    (s.takeWhile p).length ≤ s.length := (List.takeWhile_prefix p).length_le

theorem length_rdropWhile_le (s : List UInt8) (p : UInt8 → Bool) :
    (s.rdropWhile p).length ≤ s.length := (List.rdropWhile_prefix p s).length_le

/-- What is blank behind its longest whitespace prefix is blank. -/
theorem dropWhile_eq_nil_of_blank {p : UInt8 → Bool} {s : List UInt8}
    (h : (s.dropWhile p).rdropWhile p = []) : s.dropWhile p = [] := by
  by_contra hne
  have hhead := List.head_dropWhile_not p hne
  exact Bool.eq_false_iff.mp hhead (List.rdropWhile_eq_nil_iff.mp h _ (List.head_mem hne))

/-- `strip` hands on what is between the scans, or nothing where they cross. -/
theorem string_strip_eq (str : Text) :
    string_strip str = .ok ((str.chars.dropWhile isSpace).rdropWhile isSpace) := by
  show strip_l str >>= (fun start => strip_r str _ >>= fun last =>
    pushstring str start (last - start)) = _
  rw [strip_l_eq, strip_r_eq]
  show pushstring str (str.chars.takeWhile isSpace).length
    ((str.chars.rdropWhile isSpace).length - (str.chars.takeWhile isSpace).length) = _
  have hsplit : str.chars.takeWhile isSpace ++ str.chars.dropWhile isSpace = str.chars :=
    List.takeWhile_append_dropWhile
  by_cases hblank : (str.chars.dropWhile isSpace).rdropWhile isSpace = []
  · have hdrop := dropWhile_eq_nil_of_blank hblank
    have hright : str.chars.rdropWhile isSpace = [] :=
      List.rdropWhile_eq_nil_iff.mpr (List.dropWhile_eq_nil_iff.mp hdrop)
    rw [hdrop, List.append_nil] at hsplit
    rw [hright, hblank, hsplit]
    cases hchars : str.chars with
    | nil =>
        have hread := read_part str (i := 0) (n := 0) (Nat.zero_le _)
        exact (if_neg (by decide)).trans hread
    | cons c s =>
        unfold pushstring
        rw [if_pos (by rw [List.length_cons, List.length_nil]; omega), hchars,
          if_pos ⟨by omega, Int.le_refl _⟩,
          Int.toNat_natCast, List.drop_length]
        rfl
  · have hright : str.chars.rdropWhile isSpace =
        str.chars.takeWhile isSpace ++ (str.chars.dropWhile isSpace).rdropWhile isSpace := by
      conv_lhs => rw [← hsplit]
      exact rdropWhile_append _ hblank
    have hkept := List.rdropWhile_prefix isSpace (str.chars.dropWhile isSpace)
    have hlen := congrArg List.length hsplit
    rw [List.length_append] at hlen
    have hle := hkept.length_le
    rw [hright, List.length_append]
    have hread := read_part str (i := (str.chars.takeWhile isSpace).length)
      (n := ((str.chars.dropWhile isSpace).rdropWhile isSpace).length) (by omega)
    rw [drop_takeWhile, ← List.prefix_iff_eq_take.mp hkept] at hread
    unfold pushstring
    rw [if_neg (by omega), ← hread]
    congr 1
    omega

theorem string_rstrip_eq (str : Text) :
    string_rstrip str = .ok (str.chars.rdropWhile isSpace) := by
  have hpush : pushstring str 0 (str.chars.rdropWhile isSpace).length = .ok _ :=
    (if_neg (by omega)).trans (read_part str (i := 0) (by
      rw [Nat.zero_add]
      exact length_rdropWhile_le str.chars isSpace))
  show strip_r str _ >>= pushstring str 0 = _
  rw [strip_r_eq]
  refine hpush.trans ?_
  rw [List.drop_zero, ← List.prefix_iff_eq_take.mp (List.rdropWhile_prefix isSpace str.chars)]

/-- `lstrip` hands on what is before the next NUL. -/
theorem string_lstrip_eq (str : Text) :
    string_lstrip str = .ok (zeroTerminated (str.chars.dropWhile isSpace)) := by
  have hlead := length_takeWhile_le str.chars isSpace
  show strip_l str >>= (fun start => pushstring str start (-1)) = _
  rw [strip_l_eq]
  show pushstring str _ (-1) = _
  unfold pushstring
  rw [if_pos (by decide), if_pos ⟨by omega, by omega⟩, Int.toNat_natCast, drop_takeWhile]
  rfl

theorem zeroTerminated_eq_iff {s : List UInt8} : zeroTerminated s = s ↔ 0 ∉ s := by
  unfold zeroTerminated
  rw [List.takeWhile_eq_self_iff]
  constructor
  · exact fun h hzero => of_decide_eq_true (h 0 hzero) rfl
  · exact fun h c hc => decide_eq_true fun hzero => h (hzero ▸ hc)

/-- A NUL is no whitespace. -/
theorem zero_mem_dropWhile {s : List UInt8} : 0 ∈ s.dropWhile isSpace ↔ 0 ∈ s := by
  conv_rhs => rw [← List.takeWhile_append_dropWhile (p := isSpace) (l := s), List.mem_append]
  refine (or_iff_right fun h => ?_).symm
  cases List.mem_takeWhile_imp h

/-- The outer whitespace is removed and nothing else, except that `lstrip` cuts a string that has a
NUL. -/
theorem strip_removes_iff (str : Text) (method : Strip) :
    method.run str = .ok (method.stripped str.chars) ↔ (method = .lstrip → 0 ∉ str.chars) := by
  cases method with
  | strip => exact iff_of_true (string_strip_eq str) nofun
  | rstrip => exact iff_of_true (string_rstrip_eq str) nofun
  | lstrip =>
      show string_lstrip str = .ok (str.chars.dropWhile isSpace) ↔ _
      rw [string_lstrip_eq, Except.ok.injEq, zeroTerminated_eq_iff, zero_mem_dropWhile]
      exact ⟨fun h _ => h, fun h => h rfl⟩

/-- `" a\0b"` is cut behind its `a`. -/
theorem lstrip_not_removes :
    ¬ Strip.lstrip.run ⟨0, [0x20, SC 'a', 0, SC 'b']⟩ =
      .ok (Strip.lstrip.stripped [0x20, SC 'a', 0, SC 'b']) := by
  intro h
  cases h

end GameScript.Rex
