import GameScript.Numbers
import Mathlib.Data.List.TakeWhile

/-!
Floating literals (`ReadNumber`, `GSlexer.cpp`): which runs of digits, points and exponents they are,
what `strtod` takes of them, and where the lexer accepts or refuses a run that it should not.
-/

namespace GameScript

namespace GSLexer

variable {strtod : List UInt8 → GSFloat} {l : GSLexer} {n : Nat}

/-! ### Floating literals -/

/-- The exponent of a floating literal: digits, behind an optional sign. -/
structure Exponent where
  letter : UInt8
  sign : List UInt8
  digits : List UInt8
  isLetter : isExponent letter = true
  isSign : sign = [] ∨ sign = [SC '+'] ∨ sign = [SC '-']
  digits_ne_nil : digits ≠ []
  isDigits : ∀ c ∈ digits, isDigit c = true

def Exponent.spelling (e : Exponent) : List UInt8 := e.letter :: (e.sign ++ e.digits)

/-- A floating literal: digits, at most one point with digits behind it, at most one exponent. -/
structure FloatLiteral where
  digits : List UInt8
  fraction : Option (List UInt8)
  exponent : Option Exponent
  digits_ne_nil : digits ≠ []
  isDigits : ∀ c ∈ digits, isDigit c = true
  isFraction : ∀ ds, fraction = some ds → ∀ c ∈ ds, isDigit c = true

def FloatLiteral.spelling (lit : FloatLiteral) : List UInt8 :=
  lit.digits ++ (lit.fraction.elim [] (SC '.' :: ·) ++ lit.exponent.elim [] Exponent.spelling)

def fractionEnd (s : List UInt8) : List UInt8 :=
  if s.headD 0 = SC '.' then s.tail.dropWhile isDigit else s

def exponentEnd (s : List UInt8) : List UInt8 :=
  if isExponent (s.headD 0) ∧ isDigit ((unsigned s.tail).headD 0) then
    (unsigned s.tail).dropWhile isDigit
  else s

/-- What `strtod` leaves of a text that begins with a digit (`sTemp`). -/
def strtodEnd (s : List UInt8) : List UInt8 :=
  exponentEnd (fractionEnd (s.dropWhile isDigit))

theorem dropWhile_digits {ds s : List UInt8} (hds : ∀ c ∈ ds, isDigit c = true)
    (hs : isDigit (s.headD 0) = false) : (ds ++ s).dropWhile isDigit = s := by
  rw [List.dropWhile_append_of_pos hds]
  cases s with
  | nil => rfl
  | cons c s => exact List.dropWhile_cons_of_neg (Bool.eq_false_iff.mp hs)

theorem isExponent_not_isDigit {c : UInt8} (h : isExponent c = true) : isDigit c = false :=
  Bool.eq_false_iff.mpr fun hdigit => by
    rw [isDigit_ne_exponent hdigit] at h
    cases h

theorem isDigit_headD {ds : List UInt8} (hne : ds ≠ []) (h : ∀ c ∈ ds, isDigit c = true) :
    isDigit (ds.headD 0) = true := by
  obtain ⟨d, ds, rfl⟩ := List.exists_cons_of_ne_nil hne
  exact h d List.mem_cons_self

theorem Exponent.unsigned_eq (e : Exponent) : unsigned (e.sign ++ e.digits) = e.digits := by
  rcases e.isSign with h | h | h <;> rw [h]
  · refine unsigned_of_not fun hsign => ?_
    have hdigit := isDigit_headD e.digits_ne_nil e.isDigits
    exact hsign.elim (ne_of_isDigit hdigit rfl) (ne_of_isDigit hdigit rfl)
  · rfl
  · rfl

/-- `strtod` takes all of a floating literal. -/
theorem exponentEnd_spelling (e : Option Exponent) :
    exponentEnd (e.elim [] Exponent.spelling) = [] := by
  cases e with
  | none => rfl
  | some e =>
      have hhead := isDigit_headD e.digits_ne_nil e.isDigits
      show exponentEnd (e.letter :: (e.sign ++ e.digits)) = []
      unfold exponentEnd
      rw [List.tail_cons, e.unsigned_eq, if_pos ⟨e.isLetter, hhead⟩]
      exact List.dropWhile_eq_nil_iff.mpr e.isDigits

theorem isDigit_exponent (e : Option Exponent) :
    isDigit ((e.elim [] Exponent.spelling).headD 0) = false := by
  cases e with
  | none => rfl
  | some e => exact isExponent_not_isDigit e.isLetter

/-- `strtod` reads the whole spelling of a literal. -/
theorem strtodEnd_spelling (lit : FloatLiteral) : strtodEnd lit.spelling = [] := by
  unfold strtodEnd FloatLiteral.spelling
  cases hfraction : lit.fraction with
  | none =>
      have hhead := isDigit_exponent lit.exponent
      show exponentEnd (fractionEnd (List.dropWhile _ (_ ++ lit.exponent.elim [] _))) = []
      rw [dropWhile_digits lit.isDigits hhead, fractionEnd, if_neg, exponentEnd_spelling]
      intro hpoint
      cases hexponent : lit.exponent with
      | none =>
          rw [hexponent] at hpoint
          cases hpoint
      | some e =>
          rw [hexponent] at hpoint
          have hletter := e.isLetter
          rw [show e.letter = SC '.' from hpoint] at hletter
          cases hletter
  | some ds =>
      rw [dropWhile_digits lit.isDigits rfl]
      show exponentEnd (List.dropWhile _ (ds ++ _)) = []
      rw [dropWhile_digits (lit.isFraction ds hfraction) (isDigit_exponent lit.exponent),
        exponentEnd_spelling]

/-! ### Which runs are floating literals -/

/-- What `numberRun` gives. -/
inductive IsRun : List UInt8 → Prop
  | nil : IsRun []
  | plain {c : UInt8} {s : List UInt8} : c = SC '.' ∨ isDigit c = true → IsRun s → IsRun (c :: s)
  | exponent {c : UInt8} {s : List UInt8} : isExponent c = true → IsRun (unsigned s) →
      IsRun (c :: s)

/-- A run does not begin with a sign. -/
theorem IsRun.unsigned_eq {s : List UInt8} (h : IsRun s) : unsigned s = s := by
  cases h with
  | nil => rfl
  | plain hc _ =>
      refine if_neg fun hsign => ?_
      rcases hc with rfl | hdigit
      · exact absurd hsign (by decide)
      · exact hsign.elim (ne_of_isDigit hdigit rfl) (ne_of_isDigit hdigit rfl)
  | exponent hc _ =>
      refine if_neg fun hsign => ?_
      rcases hsign with rfl | rfl <;> cases hc

theorem isRun_numberRun (s : List UInt8) : IsRun (numberRun s) := by
  fun_induction numberRun s with
  | case1 => exact .nil
  | case2 c h =>
      rcases h with h | h | h
      · exact .plain (.inr h) .nil
      · exact .plain (.inl h) .nil
      · exact .exponent h .nil
  | case3 => exact .nil
  | case4 c g s h ih => exact .plain h.symm ih
  | case5 c g s hplain hexp hg ih =>
      refine .exponent hexp ?_
      rwa [unsigned, if_pos hg]
  | case6 c g s hplain hexp hg ih => exact .exponent hexp (by rwa [ih.unsigned_eq])
  | case7 => exact .nil

theorem numberRun_isPrefix (s : List UInt8) : numberRun s <+: s := by
  fun_induction numberRun s with
  | case1 => exact List.nil_prefix
  | case2 => exact List.prefix_rfl
  | case3 => exact List.nil_prefix
  | case4 c g s h ih => exact (List.prefix_cons_inj c).mpr ih
  | case5 c g s hplain hexp hg ih =>
      exact (List.prefix_cons_inj c).mpr ((List.prefix_cons_inj g).mpr ih)
  | case6 c g s hplain hexp hg ih => exact (List.prefix_cons_inj c).mpr ih
  | case7 => exact List.nil_prefix

/-- What is behind a sign was there with it. -/
theorem mem_of_mem_unsigned {c : UInt8} {s : List UInt8} (h : c ∈ unsigned s) : c ∈ s := by
  cases s with
  | nil => exact h
  | cons g s =>
      rw [unsigned] at h
      by_cases hg : g = SC '+' ∨ g = SC '-'
      · rw [if_pos hg] at h
        exact List.mem_cons_of_mem _ h
      · rwa [if_neg hg] at h

/-- A sign is all that is dropped. -/
theorem mem_unsigned {c : UInt8} {s : List UInt8} (h : c ∈ s) :
    c ∈ unsigned s ∨ c = SC '+' ∨ c = SC '-' := by
  cases s with
  | nil => exact .inl h
  | cons g s =>
      rw [unsigned]
      by_cases hg : g = SC '+' ∨ g = SC '-'
      · rw [if_pos hg]
        exact (List.mem_cons.mp h).elim (fun hc => .inr (hc ▸ hg)) .inl
      · rw [if_neg hg]
        exact .inl h

/-- Neither a point nor an exponent. -/
def Unmarked (c : UInt8) : Prop := c ≠ SC '.' ∧ isExponent c = false

/-- What a character allows behind it: one point, and nothing but digits behind an exponent. -/
def Allows (c d : UInt8) : Prop :=
  (c = SC '.' ∨ isExponent c = true → d ≠ SC '.') ∧ (isExponent c = true → isExponent d = false)

/-- At most one point, at most one exponent, and no point behind the exponent. -/
def InOrder (run : List UInt8) : Prop := run.Pairwise Allows

instance (c d : UInt8) : Decidable (Allows c d) :=
  inferInstanceAs (Decidable ((_ → _) ∧ (_ → _)))

instance (run : List UInt8) : Decidable (InOrder run) :=
  inferInstanceAs (Decidable (run.Pairwise Allows))

theorem unmarked_of_isDigit {c : UInt8} (h : isDigit c = true) : Unmarked c :=
  ⟨ne_of_isDigit h rfl, isDigit_ne_exponent h⟩

theorem unmarked_of_sign {c : UInt8} (h : c = SC '+' ∨ c = SC '-') : Unmarked c := by
  rcases h with rfl | rfl <;> exact ⟨by decide, rfl⟩

theorem Unmarked.allows {c : UInt8} (h : Unmarked c) (d : UInt8) : Allows c d := by
  refine ⟨fun hmark => ?_, fun hexp => ?_⟩
  · exact absurd hmark (not_or.mpr ⟨h.1, by rw [h.2]; decide⟩)
  · rw [h.2] at hexp
    cases hexp

theorem Unmarked.allowed {d : UInt8} (h : Unmarked d) (c : UInt8) : Allows c d :=
  ⟨fun _ => h.1, fun _ => h.2⟩

/-- A run without marks is one of digits. -/
theorem IsRun.digits_iff {s : List UInt8} (h : IsRun s) :
    (∀ c ∈ s, isDigit c = true) ↔ ∀ c ∈ s, Unmarked c := by
  constructor
  · exact fun hs c hc => unmarked_of_isDigit (hs c hc)
  · intro hs
    induction h with
    | nil => exact fun c hc => absurd hc List.not_mem_nil
    | plain hc _ ih =>
        have hdigit := hc.resolve_left (hs _ List.mem_cons_self).1
        exact List.forall_mem_cons.mpr ⟨hdigit, ih fun c hc => hs c (List.mem_cons_of_mem _ hc)⟩
    | exponent hc =>
        have hhead := (hs _ List.mem_cons_self).2
        rw [hc] at hhead
        cases hhead

/-- Behind an exponent. -/
theorem forall_unmarked_unsigned {s : List UInt8} :
    (∀ c ∈ unsigned s, Unmarked c) ↔ ∀ c ∈ s, Unmarked c :=
  ⟨fun h c hc => (mem_unsigned hc).elim (h c) unmarked_of_sign,
    fun h c hc => h c (mem_of_mem_unsigned hc)⟩

/-- Behind an exponent nothing is in order but digits. -/
theorem inOrder_exponent {c : UInt8} {s : List UInt8} (h : isExponent c = true) :
    InOrder (c :: s) ↔ ∀ d ∈ s, Unmarked d := by
  constructor
  · intro horder d hd
    have hallows := (List.pairwise_cons.mp horder).1 d hd
    exact ⟨hallows.1 (.inr h), hallows.2 h⟩
  · intro hs
    refine List.pairwise_cons.mpr ⟨fun d hd => (hs d hd).allowed c, ?_⟩
    exact List.pairwise_of_forall_mem_list fun a ha b _ => (hs a ha).allows b

theorem inOrder_point {s : List UInt8} :
    InOrder (SC '.' :: s) ↔ (∀ d ∈ s, d ≠ SC '.') ∧ InOrder s := by
  refine List.pairwise_cons.trans (and_congr_left fun _ => forall₂_congr fun d _ => ?_)
  exact ⟨fun h => h.1 (.inl rfl), fun h => ⟨fun _ => h, nofun⟩⟩

theorem inOrder_digit {c : UInt8} {s : List UInt8} (h : isDigit c = true) :
    InOrder (c :: s) ↔ InOrder s :=
  List.pairwise_cons.trans
    (and_iff_right fun d _ => (unmarked_of_isDigit h).allows d)

/-- What is behind the digits at the beginning. -/
structure Behind (s rest : List UInt8) : Prop where
  isRun : IsRun rest
  done : exponentsDone rest = true
  headD : isDigit (rest.headD 0) = false
  inOrder : InOrder rest ↔ InOrder s
  points : (∀ c ∈ rest, c ≠ SC '.') ↔ ∀ c ∈ s, c ≠ SC '.'

/-- Dropping digits leaves a run behind the same marks. -/
theorem behind_dropWhile {s : List UInt8} (hrun : IsRun s) (hdone : exponentsDone s = true) :
    Behind s (s.dropWhile isDigit) := by
  induction hrun with
  | nil => exact ⟨.nil, rfl, rfl, Iff.rfl, Iff.rfl⟩
  | @plain c s hc hrun ih =>
      by_cases hdigit : isDigit c = true
      · rw [exponentsDone_plain (isDigit_ne_exponent hdigit)] at hdone
        have hbehind := ih hdone
        rw [List.dropWhile_cons_of_pos hdigit]
        refine { hbehind with
          inOrder := hbehind.inOrder.trans (inOrder_digit hdigit).symm
          points := hbehind.points.trans ?_ }
        rw [List.forall_mem_cons]
        exact (and_iff_right (ne_of_isDigit hdigit rfl)).symm
      · rw [List.dropWhile_cons_of_neg hdigit]
        exact ⟨.plain hc hrun, hdone, Bool.eq_false_iff.mpr hdigit, Iff.rfl, Iff.rfl⟩
  | exponent hc hrun =>
      have hdigit := isExponent_not_isDigit hc
      rw [List.dropWhile_cons_of_neg (by rw [hdigit]; decide)]
      exact ⟨.exponent hc hrun, hdone, hdigit, Iff.rfl, Iff.rfl⟩

/-- What starts with no digit is read as an exponent to its end exactly where
it holds no point and is in order. -/
theorem exponentEnd_eq_nil {s : List UInt8} (hrun : IsRun s) (hdone : exponentsDone s = true)
    (hhead : isDigit (s.headD 0) = false) :
    exponentEnd s = [] ↔ (∀ c ∈ s, c ≠ SC '.') ∧ InOrder s := by
  cases hrun with
  | nil => exact iff_of_true rfl ⟨fun c hc => absurd hc List.not_mem_nil, .nil⟩
  | @plain c s hc _ =>
      obtain rfl := hc.resolve_right (Bool.eq_false_iff.mp hhead)
      refine iff_of_false (fun h => ?_) fun h => h.1 _ List.mem_cons_self rfl
      rw [exponentEnd, if_neg fun h => Bool.noConfusion h.1] at h
      cases h
  | @exponent c s hc hrun =>
      have hdigit : isDigit ((unsigned s).headD 0) = true := by
        rw [exponentsDone, hc] at hdone
        exact (Bool.and_eq_true_iff.mp hdone).1
      rw [exponentEnd, List.tail_cons, if_pos ⟨hc, hdigit⟩, List.dropWhile_eq_nil_iff,
        hrun.digits_iff, forall_unmarked_unsigned, inOrder_exponent hc]
      refine ⟨fun h => ⟨List.forall_mem_cons.mpr ⟨?_, fun d hd => (h d hd).1⟩, h⟩, And.right⟩
      rintro rfl
      cases hc

/-- `strtod` takes all of a run whose marks are in order. -/
theorem strtodEnd_eq_nil {s : List UInt8} (hrun : IsRun s) (hdone : exponentsDone s = true) :
    strtodEnd s = [] ↔ InOrder s := by
  obtain ⟨hrun, hdone, hhead, horder, -⟩ := behind_dropWhile hrun hdone
  rw [← horder]
  unfold strtodEnd fractionEnd
  generalize s.dropWhile isDigit = r at hrun hdone hhead ⊢
  cases hrun with
  | nil => exact iff_of_true rfl .nil
  | @plain c r hc hrun =>
      obtain rfl := hc.resolve_right (Bool.eq_false_iff.mp hhead)
      rw [exponentsDone_plain rfl] at hdone
      obtain ⟨hrun, hdone, hhead, horder, hpoints⟩ := behind_dropWhile hrun hdone
      rw [if_pos (by rfl), List.tail_cons, exponentEnd_eq_nil hrun hdone hhead, hpoints, horder,
        inOrder_point]
  | @exponent c r hc hrun =>
      have hpoint : ¬ c = SC '.' := by
        rintro rfl
        cases hc
      rw [if_neg (by exact hpoint), exponentEnd_eq_nil (.exponent hc hrun) hdone hhead]
      refine and_iff_right_of_imp fun h => List.forall_mem_cons.mpr ⟨hpoint, fun d hd => ?_⟩
      exact ((inOrder_exponent hc).mp h d hd).1

theorem exponentsDone_exponent (e : Option Exponent) :
    exponentsDone (e.elim [] Exponent.spelling) = true := by
  cases e with
  | none => rfl
  | some e =>
      have hsign : exponentsDone (e.sign ++ e.digits) = true := by
        have hdigits := exponentsDone_digits e.isDigits
        rcases e.isSign with h | h | h <;> rw [h]
        · exact hdigits
        · exact (exponentsDone_plain rfl _).trans hdigits
        · exact (exponentsDone_plain rfl _).trans hdigits
      show exponentsDone (e.letter :: (e.sign ++ e.digits)) = true
      rw [exponentsDone, e.unsigned_eq, isDigit_headD e.digits_ne_nil e.isDigits, hsign, Bool.or_true]
      rfl

theorem exponentsDone_spelling (lit : FloatLiteral) : exponentsDone lit.spelling = true := by
  unfold FloatLiteral.spelling
  rw [exponentsDone_append lit.isDigits]
  cases hfraction : lit.fraction with
  | none => exact exponentsDone_exponent lit.exponent
  | some ds =>
      show exponentsDone (SC '.' :: (ds ++ _)) = true
      rw [exponentsDone_plain rfl, exponentsDone_append (lit.isFraction ds hfraction)]
      exact exponentsDone_exponent lit.exponent

theorem sign_unsigned (s : List UInt8) :
    ∃ sign, (sign = [] ∨ sign = [SC '+'] ∨ sign = [SC '-']) ∧ s = sign ++ unsigned s := by
  by_cases h : s.headD 0 = SC '+' ∨ s.headD 0 = SC '-'
  · cases s with
    | nil => exact absurd h (by decide)
    | cons g s =>
        rw [unsigned, if_pos (show g = SC '+' ∨ g = SC '-' from h)]
        exact ⟨[g], h.elim (fun hg => .inr (.inl (by rw [← hg]; rfl)))
          fun hg => .inr (.inr (by rw [← hg]; rfl)), rfl⟩
  · exact ⟨[], .inl rfl, (unsigned_of_not h).symm⟩

/-- What is read to its end as an exponent is the spelling of one, or empty.
-/
theorem exists_exponent {s : List UInt8} (h : exponentEnd s = []) :
    ∃ e : Option Exponent, e.elim [] Exponent.spelling = s := by
  unfold exponentEnd at h
  split at h
  · next hexp =>
      obtain ⟨sign, hsign, hs⟩ := sign_unsigned s.tail
      obtain ⟨c, t, rfl⟩ : ∃ c t, s = c :: t := by
        cases s with
        | nil => exact Bool.noConfusion hexp.1
        | cons c t => exact ⟨c, t, rfl⟩
      have hne : unsigned t ≠ [] := fun hnil => by
        have hdigit := hexp.2
        rw [List.tail_cons, hnil] at hdigit
        cases hdigit
      exact ⟨some ⟨c, sign, unsigned t, hexp.1, hsign, hne, List.dropWhile_eq_nil_iff.mp h⟩,
        congrArg (c :: ·) hs.symm⟩
  · exact ⟨none, h.symm⟩

theorem forall_takeWhile (s : List UInt8) : ∀ c ∈ s.takeWhile isDigit, isDigit c = true :=
  fun _ => List.mem_takeWhile_imp

/-- **What `strtod` reads to its end is the spelling of a literal.** -/
theorem exists_spelling {s : List UInt8} (hdigit : isDigit (s.headD 0) = true)
    (h : strtodEnd s = []) : ∃ lit : FloatLiteral, lit.spelling = s := by
  have hne : s.takeWhile isDigit ≠ [] := by
    cases s with
    | nil => cases hdigit
    | cons c s =>
        rw [List.takeWhile_cons_of_pos (show isDigit c = true from hdigit)]
        exact List.cons_ne_nil _ _
  have hsplit : s.takeWhile isDigit ++ s.dropWhile isDigit = s := List.takeWhile_append_dropWhile
  unfold strtodEnd fractionEnd at h
  split at h
  · next hpoint =>
      obtain ⟨e, he⟩ := exists_exponent h
      obtain ⟨c, t, ht⟩ : ∃ c t, s.dropWhile isDigit = c :: t := by
        cases hs : s.dropWhile isDigit with
        | nil =>
            rw [hs] at hpoint
            cases hpoint
        | cons c t => exact ⟨c, t, rfl⟩
      rw [ht] at hpoint he hsplit
      obtain rfl : c = SC '.' := hpoint
      refine ⟨⟨_, some (t.takeWhile isDigit), e, hne, forall_takeWhile s, ?_⟩, ?_⟩
      · rintro _ ⟨⟩
        exact forall_takeWhile t
      · have htail : t.takeWhile isDigit ++ e.elim [] Exponent.spelling = t := by
          rw [he]
          exact List.takeWhile_append_dropWhile
        show s.takeWhile isDigit ++ (SC '.' :: (t.takeWhile isDigit ++ _)) = s
        rw [htail, hsplit]
  · obtain ⟨e, he⟩ := exists_exponent h
    refine ⟨⟨_, none, e, hne, forall_takeWhile s, nofun⟩, ?_⟩
    show s.takeWhile isDigit ++ e.elim [] Exponent.spelling = s
    rw [he, hsplit]

/-- A run is a floating literal where its exponents have digits and its marks are in order. -/
theorem exists_spelling_iff {s : List UInt8} (hrun : IsRun s) (hdigit : isDigit (s.headD 0) = true) :
    (∃ lit : FloatLiteral, lit.spelling = s) ↔ exponentsDone s = true ∧ InOrder s := by
  constructor
  · rintro ⟨lit, rfl⟩
    have hdone := exponentsDone_spelling lit
    exact ⟨hdone, (strtodEnd_eq_nil hrun hdone).mp (strtodEnd_spelling lit)⟩
  · exact fun h => exists_spelling hdigit ((strtodEnd_eq_nil hrun h.1).mpr h.2)

/-! ### Floating tokens -/

/-- What is accepted as a floating number is one floating literal, all of which `strtod` takes;
a run of digits, points and exponents that is none is refused. -/
def FloatsMeet (strtod : List UInt8 → GSFloat) (n : Nat) (l : GSLexer) : Prop :=
  (∀ l', Lex strtod n l = .ok (.TK_FLOAT, l') → ∃ lit : FloatLiteral,
    l.text = lit.spelling ++ l'.text ∧ l'.fvalue = strtod lit.spelling ∧
      strtodEnd lit.spelling = []) ∧
  ((¬ ∃ lit : FloatLiteral, lit.spelling = numberRun l.text) →
    ∃ msg, Lex strtod n l = .error (.error msg))

/-- The number is read as an octal one. -/
def octalPrefix (s : List UInt8) : Bool := s.headD 0 = SC '0' ∧ isODigit (s.tail.headD 0)

/-- The runs that the lexer gets right: those with an exponent that has no digit, which it refuses,
and those whose marks are in order. Where it reads an octal number, it does not see the marks. -/
def RunRight (s : List UInt8) : Prop :=
  if octalPrefix s then
    isDigit ((s.tail.dropWhile isODigit).headD 0) = true ∨
      exponentsDone (numberRun s) = true ∧ InOrder (numberRun s)
  else exponentsDone (numberRun s) = true → InOrder (numberRun s)

/-- A number that is counted is no floating one, and no error. -/
theorem floatsMeet_counted {lit : IntegerLiteral} {rest : List UInt8}
    (h : Counted lit rest (Lex strtod n l)) :
    FloatsMeet strtod n l ↔ ∃ lit : FloatLiteral, lit.spelling = numberRun l.text := by
  obtain ⟨l', hlex, -⟩ := h
  constructor
  · intro hmeets
    by_contra hnone
    obtain ⟨msg, herror⟩ := hmeets.2 hnone
    rw [hlex] at herror
    cases herror
  · intro hspelling
    refine ⟨fun l'' hfloat => ?_, fun hnone => absurd hspelling hnone⟩
    rw [hlex] at hfloat
    cases hfloat

theorem floatsMeet_error {msg : String} (h : Lex strtod n l = .error (.error msg)) :
    FloatsMeet strtod n l := by
  refine ⟨fun l' hfloat => ?_, fun _ => ⟨msg, h⟩⟩
  rw [h] at hfloat
  cases hfloat

/-- Without a prefix, the whole run is the number. -/
theorem floatsMeet_decimal {d : UInt8} {s : List UInt8} (htext : l.text = d :: s)
    (hdigit : isDigit d = true) (hzero : ¬ (d = SC '0' ∧ isPrefixChar (s.headD 0) = true))
    (hn : s.length < n) :
    FloatsMeet strtod (n + 1) l ↔
      (exponentsDone (numberRun l.text) = true → InOrder (numberRun l.text)) := by
  have hlex : Lex strtod (n + 1) l = returnRead (ReadNumber strtod n _) :=
    Lex_number (CUR_CHAR_of_text htext ▸ hdigit) n
  rw [ReadNumber_decimal (l := { l with lasttokenline := l.currentline }) htext hzero hn] at hlex
  have hrun : numberRun l.text = d :: numberRun s := by rw [htext, numberRun_plain (.inr hdigit)]
  have hdone : exponentsDone (d :: numberRun s) = exponentsDone (numberRun s) :=
    exponentsDone_plain (isDigit_ne_exponent hdigit) _
  have hspelling := exists_spelling_iff (s := d :: numberRun s)
    (hrun ▸ isRun_numberRun l.text) hdigit
  rw [hrun, hdone]
  rw [hdone] at hspelling
  cases hexp : exponentsDone (numberRun s) with
  | false =>
      rw [hexp] at hlex
      exact iff_of_true (floatsMeet_error hlex) fun h => absurd h Bool.false_ne_true
  | true =>
      rw [hexp, if_pos rfl] at hlex
      rw [hexp] at hspelling
      constructor
      · intro hmeets _
        by_contra horder
        have hnone : ¬ ∃ lit : FloatLiteral, lit.spelling = numberRun l.text := by
          rw [hrun, hspelling]
          exact fun h => horder h.2
        obtain ⟨msg, herror⟩ := hmeets.2 hnone
        rw [hlex] at herror
        dsimp only at herror
        split at herror <;> cases herror
      · intro horder
        obtain ⟨lit, hlit⟩ := hspelling.mpr ⟨rfl, horder rfl⟩
        refine ⟨fun l' hfloat => ?_, fun hnone => absurd ⟨lit, hlit.trans hrun.symm⟩ hnone⟩
        rw [hlex] at hfloat
        dsimp only at hfloat
        split at hfloat
        · cases hfloat
          refine ⟨lit, ?_, by rw [hlit], strtodEnd_spelling lit⟩
          rw [hlit, htext]
          exact congrArg (d :: ·) (List.prefix_iff_eq_append.mp (numberRun_isPrefix s)).symm
        · cases hfloat

theorem headD_dropWhile {p : UInt8 → Bool} (hp : p 0 = false) (s : List UInt8) :
    p ((s.dropWhile p).headD 0) = false := by
  induction s with
  | nil => exact hp
  | cons c s ih =>
      cases hc : p c with
      | true => rwa [List.dropWhile_cons_of_pos hc]
      | false => rwa [List.dropWhile_cons_of_neg (Bool.eq_false_iff.mp hc)]

/-- With an octal prefix, the marks are left for the next token. -/
theorem floatsMeet_octal {s : List UInt8} (htext : l.text = SC '0' :: s)
    (hoctal : isODigit (s.headD 0) = true) (hn : l.text.length ≤ n) :
    FloatsMeet strtod (n + 1) l ↔
      isDigit ((s.dropWhile isODigit).headD 0) = true ∨
        exponentsDone (numberRun l.text) = true ∧ InOrder (numberRun l.text) := by
  have hlex : Lex strtod (n + 1) l = returnRead (ReadNumber strtod n _) :=
    Lex_number (CUR_CHAR_of_text htext ▸ rfl) n
  have hsplit : s = s.takeWhile isODigit ++ s.dropWhile isODigit :=
    List.takeWhile_append_dropWhile.symm
  have hne : s.takeWhile isODigit ≠ [] := by
    cases s with
    | nil => cases hoctal
    | cons c s =>
        rw [List.takeWhile_cons_of_pos (show isODigit c = true from hoctal)]
        exact List.cons_ne_nil _ _
  have hread := ReadNumber_octalDigits (l := { l with lasttokenline := l.currentline }) strtod hne
    (fun _ => List.mem_takeWhile_imp) (headD_dropWhile rfl s)
    (htext.trans (congrArg (SC '0' :: ·) hsplit)) hn
  cases hdigit : isDigit ((s.dropWhile isODigit).headD 0) with
  | true =>
      rw [hdigit, if_pos rfl] at hread
      rw [hread] at hlex
      exact iff_of_true (floatsMeet_error hlex) (.inl rfl)
  | false =>
      rw [hdigit] at hread
      have hcounted : Counted _ _ (Lex strtod (n + 1) l) := hlex ▸ hread.returnRead
      have hhead : isDigit ((numberRun l.text).headD 0) = true := by
        rw [isDigit_headD_numberRun, htext]
        rfl
      rw [floatsMeet_counted hcounted, exists_spelling_iff (isRun_numberRun l.text) hhead]
      exact (or_iff_right Bool.false_ne_true).symm

theorem numberRun_hexadecimal {x : UInt8} (hx : x = SC 'x' ∨ x = SC 'X') (s : List UInt8) :
    numberRun (SC '0' :: x :: s) = [SC '0'] := by
  rw [numberRun_plain (.inr rfl), numberRun_other]
  · rcases hx with rfl | rfl <;> decide
  · rcases hx with rfl | rfl <;> decide

/-- A hexadecimal number is no float. -/
theorem floatsMeet_hexadecimal {x : UInt8} {s : List UInt8} (htext : l.text = SC '0' :: x :: s)
    (hx : x = SC 'x' ∨ x = SC 'X') (hn : l.text.length ≤ n) : FloatsMeet strtod (n + 1) l := by
  have hlex : Lex strtod (n + 1) l = returnRead (ReadNumber strtod n _) :=
    Lex_number (CUR_CHAR_of_text htext ▸ rfl) n
  have hsplit : s = s.takeWhile isXDigit ++ s.dropWhile isXDigit :=
    List.takeWhile_append_dropWhile.symm
  have hbefore : (IntegerLiteral.hexadecimal x (s.takeWhile isXDigit)).Before
      (s.dropWhile isXDigit) :=
    ⟨hx, fun _ => List.mem_takeWhile_imp, headD_dropWhile rfl s⟩
  have hread := ReadNumber_hexadecimal (l := { l with lasttokenline := l.currentline }) strtod
    hbefore (htext.trans (congrArg (SC '0' :: x :: ·) hsplit)) hn
  split at hread
  · rw [hread] at hlex
    exact floatsMeet_error hlex
  · have hcounted : Counted _ _ (Lex strtod (n + 1) l) := hlex ▸ hread.returnRead
    rw [floatsMeet_counted hcounted, htext, numberRun_hexadecimal hx]
    exact (exists_spelling_iff (.plain (.inr rfl) .nil) rfl).mpr ⟨rfl, List.pairwise_singleton _ _⟩

/-- The floating numbers are the floating literals, exactly where the run is one that the lexer gets
right. -/
theorem floats_meet_iff (strtod : List UInt8 → GSFloat) {l : GSLexer} {n : Nat}
    (hdigit : isDigit l.CUR_CHAR = true) (hn : l.text.length < n) :
    FloatsMeet strtod n l ↔ RunRight l.text := by
  obtain ⟨n, rfl⟩ : ∃ k, n = k + 1 := ⟨n - 1, by omega⟩
  have hlen := Nat.le_of_lt_succ hn
  obtain ⟨d, s, htext⟩ : ∃ d s, l.text = d :: s := by
    cases htext : l.text with
    | nil =>
        rw [CUR_CHAR, htext] at hdigit
        cases hdigit
    | cons d s => exact ⟨d, s, rfl⟩
  have hprefixed : octalPrefix l.text = true ↔ d = SC '0' ∧ isODigit (s.headD 0) = true := by
    rw [octalPrefix, htext]
    exact decide_eq_true_iff
  unfold RunRight
  by_cases hzero : d = SC '0' ∧ isPrefixChar (s.headD 0) = true
  · obtain ⟨rfl, hchar⟩ := hzero
    by_cases hoctal : isODigit (s.headD 0) = true
    · rw [if_pos (hprefixed.mpr ⟨rfl, hoctal⟩), floatsMeet_octal htext hoctal hlen]
      rw [htext]
      rfl
    · rw [if_neg fun h => hoctal (hprefixed.mp h).2]
      have hx := (of_decide_eq_true hchar).resolve_left hoctal
      obtain ⟨x, s, rfl⟩ : ∃ x t, s = x :: t := by
        cases s with
        | nil => exact absurd hx (by decide)
        | cons x s => exact ⟨x, s, rfl⟩
      refine iff_of_true (floatsMeet_hexadecimal htext hx hlen) fun _ => ?_
      rw [htext, numberRun_hexadecimal (show x = SC 'x' ∨ x = SC 'X' from hx)]
      exact List.pairwise_singleton _ _
  · rw [if_neg fun h => hzero ⟨(hprefixed.mp h).1, decide_eq_true (.inl (hprefixed.mp h).2)⟩]
    refine floatsMeet_decimal htext ?_ hzero ?_
    · rwa [CUR_CHAR_of_text htext] at hdigit
    · rw [htext] at hlen
      exact hlen

/-- `1.5e-3` -/
theorem floats_meet_one : FloatsMeet (fun _ => 0) 8 { text := sc "1.5e-3;", fvalue := 0 } :=
  (floats_meet_iff (fun _ => 0) rfl (by decide)).mpr fun _ => by decide

/-- `1.2.3` is accepted, and `strtod` leaves `.3`. -/
theorem floats_not_meet : ¬ FloatsMeet (fun _ => 0) 8 { text := sc "1.2.3", fvalue := 0 } := by
  intro hmeets
  obtain ⟨lit, htext, -, hrest⟩ := hmeets.1 _ rfl
  have hspelling : lit.spelling = sc "1.2.3" := by
    rw [← List.append_nil lit.spelling]
    exact htext.symm
  rw [hspelling] at hrest
  cases hrest

end GSLexer

end GameScript
