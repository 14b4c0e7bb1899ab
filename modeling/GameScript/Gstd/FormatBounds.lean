import GameScript.Gstd.BlobMethods
import GameScript.Gstd.Format
import Mathlib.Data.List.TakeWhile

/-!
The buffers of `format`. The text and its terminator always stay inside what the scratch pad was
asked for. A specification may have as many characters as its buffer has, though the percent sign,
the conversion character, the length modifier and the terminator go there too.
-/

namespace GameScript.Format

open Rex (Halt zeroTerminated)

/-! ### Buffers -/

theorem store_ok {buf bytes : List UInt8} {off : Nat} (h : off + bytes.length ≤ buf.length) :
    store buf off bytes = .ok (Memory.overwrite buf off bytes) := if_pos h

theorem store_undefined {buf bytes : List UInt8} {off : Nat}
    (h : buf.length < off + bytes.length) : store buf off bytes = .error .undefined :=
  if_neg (Nat.not_le.mpr h)

theorem length_store {buf bytes : List UInt8} {off : Nat} (h : off + bytes.length ≤ buf.length) :
    (Memory.overwrite buf off bytes).length = buf.length := by
  rw [Memory.length_overwrite (by omega), Nat.max_eq_left h]

/-- What is stored behind a beginning of a buffer makes it longer. -/
theorem overwrite_behind {buf s bytes : List UInt8} (h : s <+: buf) :
    s ++ bytes <+: Memory.overwrite buf s.length bytes := by
  unfold Memory.overwrite
  rw [List.prefix_iff_eq_take.mp h, List.length_take_of_le h.length_le]
  exact ⟨_, rfl⟩

theorem zeroTerminated_eq {buf s : List UInt8} (h : s ++ [0] <+: buf) (hs : ∀ c ∈ s, c ≠ 0) :
    zeroTerminated buf = s := by
  obtain ⟨tail, rfl⟩ := h
  unfold zeroTerminated
  rw [List.append_assoc, List.takeWhile_append_of_pos fun c hc => decide_eq_true (hs c hc)]
  exact (congrArg (s ++ ·) (List.takeWhile_cons_of_neg (by decide))).trans (List.append_nil s)

/-! ### Specifications -/

/-- A specification without its percent sign and its conversion character. -/
structure Specification where
  flags : List UInt8
  width : List UInt8
  precision : Option (List UInt8)
  flags_all : ∀ c ∈ flags, isfmtchr c = true
  width_all : ∀ c ∈ width, isDigit c = true
  precision_all : ∀ digits ∈ precision, ∀ c ∈ digits, isDigit c = true

namespace Specification

variable (spec : Specification)

/-- What is written for the precision. -/
def precisionText : List UInt8 :=
  match spec.precision with
  | some digits => SC '.' :: digits
  | none => []

def text : List UInt8 := spec.flags ++ spec.width ++ spec.precisionText

/-- The least number of characters to print. -/
def fieldWidth : Nat := strtol spec.width

/-- The precision, and `default` without one. -/
def precisionOr (default : Nat) : Nat := (spec.precision.map strtol).getD default

end Specification

/-- The result lengths that `snprintf` is documented to have: a string is cut to the precision, a
64-bit integer has at most 22 digits, a sign or a prefix of two characters, and a `float` 39 digits
before the point. All are padded to the field width. -/
structure Documented (snprintf : Snprintf) : Prop where
  string : ∀ (spec : Specification) (ts : List UInt8),
    (snprintf (SC '%' :: (spec.text ++ [SC 's'])) (.s ts)).length ≤
      max spec.fieldWidth (min (spec.precisionOr ts.length) (zeroTerminated ts).length)
  integer : ∀ (spec : Specification) (c : UInt8) (ti : GSInteger), isInteger c = true →
    (snprintf (SC '%' :: (spec.text ++ PRINT_INT_PREC ++ [c])) (.i ti)).length ≤
      max spec.fieldWidth (max (spec.precisionOr 1) 22 + 2)
  char : ∀ (spec : Specification) (ti : GSInteger),
    (snprintf (SC '%' :: (spec.text ++ [SC 'c'])) (.i ti)).length ≤ max spec.fieldWidth 1
  float : ∀ (spec : Specification) (c : UInt8) (tf : GSFloat), isFloat c = true →
    (snprintf (SC '%' :: (spec.text ++ [c])) (.f tf)).length ≤
      max spec.fieldWidth (spec.precisionOr 6 + 41)

/-- `readDigits` takes digits off the text, or refuses it. -/
theorem readDigits_cases (tooLong : List UInt8) (src : List UInt8) :
    ∀ swidth, readDigits tooLong swidth src = .error (.error tooLong) ∨
      ∃ digits rest, readDigits tooLong swidth src = .ok (swidth ++ digits, rest) ∧
        src = digits ++ rest ∧ ∀ c ∈ digits, isDigit c = true := by
  induction src with
  | nil => exact fun swidth => .inr ⟨[], [], by rw [List.append_nil]; rfl, rfl, nofun⟩
  | cons c src ih =>
    intro swidth
    rw [readDigits]
    by_cases hdigit : isDigit c = true
    · rw [if_pos hdigit]
      by_cases hlong : swidth.length + 1 ≥ MAX_WFORMAT_LEN
      · rw [if_pos hlong]
        exact .inl rfl
      · rw [if_neg hlong]
        rcases ih (swidth ++ [c]) with herror | ⟨digits, rest, hok, hsrc, hall⟩
        · exact .inl herror
        · refine .inr ⟨c :: digits, rest, ?_, by rw [hsrc]; rfl, ?_⟩
          · rw [hok, List.append_assoc]
            rfl
          · exact List.forall_mem_cons.mpr ⟨hdigit, hall⟩
    · rw [if_neg hdigit]
      exact .inr ⟨[], c :: src, by rw [List.append_nil]; rfl, rfl, nofun⟩

/-- What is read of a format is a specification. -/
theorem readSpecification_cases (src : List UInt8) :
    (∃ msg, readSpecification src = .error (.error msg)) ∨
      ∃ (spec : Specification) (rest : List UInt8), src = spec.text ++ rest ∧
        readSpecification src = .ok (rest, spec.fieldWidth + spec.precisionOr 0) := by
  have hflags : ∀ c ∈ src.takeWhile isfmtchr, isfmtchr c = true := fun _ => List.mem_takeWhile_imp
  have hsrc : src = src.takeWhile isfmtchr ++ src.dropWhile isfmtchr :=
    List.takeWhile_append_dropWhile.symm
  unfold readSpecification
  rcases readDigits_cases (sc "width format too long") (src.dropWhile isfmtchr) [] with
    herror | ⟨width, rest, hwidth, hrest, hall⟩
  · exact .inl ⟨_, by rw [herror]; rfl⟩
  · rw [hwidth]
    cases rest with
    | nil =>
      refine .inr ⟨⟨_, width, none, hflags, hall, nofun⟩, [], ?_, rfl⟩
      exact hsrc.trans (by rw [hrest]; simp [Specification.text, Specification.precisionText])
    | cons c rest =>
      by_cases hdot : c = SC '.'
      · rcases readDigits_cases (sc "precision format too long") rest [] with
          herror | ⟨precision, rest', hprecision, hrest', hall'⟩
        · refine .inl ⟨sc "precision format too long", ?_⟩
          show (if c = SC '.' then _ else _) = _
          rw [if_pos hdot, herror]
          rfl
        · refine .inr ⟨⟨_, width, some precision, hflags, hall, ?_⟩, rest', ?_, ?_⟩
          · intro digits hdigits
            cases hdigits
            exact hall'
          · refine hsrc.trans ?_
            rw [hrest, hrest', hdot]
            simp [Specification.text, Specification.precisionText]
          · show (if c = SC '.' then _ else _) = _
            rw [if_pos hdot, hprecision]
            rfl
      · refine .inr ⟨⟨_, width, none, hflags, hall, nofun⟩, c :: rest, ?_, ?_⟩
        · exact hsrc.trans (by rw [hrest]; simp [Specification.text, Specification.precisionText])
        · show (if c = SC '.' then _ else _) = _
          rw [if_neg hdot]
          rfl

theorem isfmtchr_ne_zero {c : UInt8} (h : isfmtchr c = true) : c ≠ 0 := by
  rintro rfl
  exact absurd h (by decide)

theorem isDigit_ne_zero {c : UInt8} (h : isDigit c = true) : c ≠ 0 := by
  rintro rfl
  exact absurd h (by decide)

/-- A specification ends before the end of the format. -/
theorem Specification.ne_zero (spec : Specification) : ∀ c ∈ spec.text, c ≠ 0 := by
  intro c hc
  rcases List.mem_append.mp hc with hc | hc
  · rcases List.mem_append.mp hc with hc | hc
    · exact isfmtchr_ne_zero (spec.flags_all c hc)
    · exact isDigit_ne_zero (spec.width_all c hc)
  · unfold precisionText at hc
    cases hprecision : spec.precision with
    | none =>
      rw [hprecision] at hc
      cases hc
    | some digits =>
      rw [hprecision] at hc
      rcases List.mem_cons.mp hc with rfl | hc
      · decide
      · exact isDigit_ne_zero (spec.precision_all digits hprecision c hc)

/-! ### The buffer of the specification -/

/-- The specification at the beginning of a format is refused, or it fits the buffer with its
conversion character and, for an integer, the length modifier. -/
def Short (src : List UInt8) : Prop :=
  ∀ rest w, readSpecification src = .ok (rest, w) → src.length - rest.length ≤ MAX_FORMAT_LEN →
    src.length - rest.length + 3 ≤ MAX_FORMAT_LEN ∧
      (isInteger (rest.headD 0) = true →
        src.length - rest.length + PRINT_INT_PREC.length + 3 ≤ MAX_FORMAT_LEN)

/-- A specification is short enough exactly where the buffer holds it with
what is added. -/
theorem short_iff {spec : Specification} {src rest : List UInt8} {w : Nat}
    (hsrc : src = spec.text ++ rest) (hread : readSpecification src = .ok (rest, w)) :
    Short src ↔ (spec.text.length ≤ MAX_FORMAT_LEN → spec.text.length + 3 ≤ MAX_FORMAT_LEN ∧
      (isInteger (rest.headD 0) = true →
        spec.text.length + PRINT_INT_PREC.length + 3 ≤ MAX_FORMAT_LEN)) := by
  have hcount : src.length - rest.length = spec.text.length := by
    rw [hsrc, List.length_append]
    omega
  unfold Short
  rw [hread, ← hcount]
  constructor
  · exact fun h => h rest w rfl
  · rintro h rest' w' heq
    cases heq
    exact h

/-- What `validate_format` has left in the buffer. -/
structure Holds (fmt s : List UInt8) : Prop where
  length : fmt.length = MAX_FORMAT_LEN
  begins : s ++ [0] <+: fmt

/-- The copy of a specification stays inside the buffer or fails. -/
theorem copySpecification_eq (fmt : List UInt8) (spec : Specification) (rest : List UInt8) :
    copySpecification fmt (spec.text ++ rest) rest =
      if spec.text.length > MAX_FORMAT_LEN then throw (.error (sc "format too long"))
      else store fmt 1 (spec.text ++ [rest.headD 0]) >>= fun fmt =>
        store fmt (spec.text.length + 2) [0] := by
  have hcount : (spec.text ++ rest).length - rest.length = spec.text.length := by
    rw [List.length_append]
    omega
  unfold copySpecification
  dsimp only
  rw [hcount, List.take_left]

/-- What is written behind a beginning of the buffer, and a terminator, or they do not fit. -/
theorem terminate_cases {fmt s : List UInt8} (hfmt : fmt.length = MAX_FORMAT_LEN) (hs : s <+: fmt)
    (bytes : List UInt8) {off last : Nat} (hoff : off = s.length)
    (hlast : last = s.length + bytes.length) :
    if last + 1 ≤ MAX_FORMAT_LEN then
      ∃ fmt', (store fmt off bytes >>= fun fmt => store fmt last [0]) = Except.ok fmt' ∧
        Holds fmt' (s ++ bytes)
    else (store fmt off bytes >>= fun fmt => store fmt last [0]) = Except.error .undefined := by
  rw [hoff]
  by_cases hone : s.length + bytes.length ≤ fmt.length
  · have hlen := length_store hone
    have hbegins : s ++ bytes <+: Memory.overwrite fmt s.length bytes := overwrite_behind hs
    rw [store_ok hone]
    by_cases htwo : last + 1 ≤ MAX_FORMAT_LEN
    · have hroom : last + [(0 : UInt8)].length ≤
          (Memory.overwrite fmt s.length bytes).length := by
        rw [hlen, hfmt]
        exact htwo
      have hends : s ++ bytes ++ [0] <+: Memory.overwrite _ (s ++ bytes).length [0] :=
        overwrite_behind hbegins
      rw [List.length_append, ← hlast] at hends
      rw [if_pos htwo]
      exact ⟨_, store_ok hroom, (length_store hroom).trans (hlen.trans hfmt), hends⟩
    · rw [if_neg htwo]
      exact store_undefined (by rw [hlen, hfmt]; exact Nat.lt_of_not_le htwo)
  · rw [if_neg (by omega), store_undefined (Nat.lt_of_not_le hone)]
    rfl

/-- What is copied for a specification, and where it does not fit. -/
theorem copySpecification_cases {fmt : List UInt8} (hfmt : fmt.length = MAX_FORMAT_LEN)
    (hpercent : [SC '%'] <+: fmt) (spec : Specification) (rest : List UInt8)
    (hlen : spec.text.length ≤ MAX_FORMAT_LEN) :
    if spec.text.length + 3 ≤ MAX_FORMAT_LEN then
      ∃ fmt', copySpecification fmt (spec.text ++ rest) rest = .ok fmt' ∧
        Holds fmt' (SC '%' :: (spec.text ++ [rest.headD 0]))
    else copySpecification fmt (spec.text ++ rest) rest = .error .undefined := by
  have hlast : spec.text.length + 2 =
      [SC '%'].length + (spec.text ++ [rest.headD 0]).length := by
    rw [List.length_append, List.length_singleton, List.length_singleton]
    omega
  rw [copySpecification_eq, if_neg (Nat.not_lt.mpr hlen)]
  exact terminate_cases hfmt hpercent _ rfl hlast

/-- A specification is refused, written outside the buffer, or copied. -/
theorem validate_cases {fmt : List UInt8} (hfmt : fmt.length = MAX_FORMAT_LEN) (src : List UInt8) :
    (∃ msg, validate_format fmt src = .error (.error msg)) ∧ Short src ∨
      ∃ (spec : Specification) (rest : List UInt8), src = spec.text ++ rest ∧
        readSpecification src = .ok (rest, spec.fieldWidth + spec.precisionOr 0) ∧
        spec.text.length ≤ MAX_FORMAT_LEN ∧
        if spec.text.length + 3 ≤ MAX_FORMAT_LEN then
          ∃ fmt', validate_format fmt src =
              .ok (fmt', rest, spec.fieldWidth + spec.precisionOr 0) ∧
            Holds fmt' (SC '%' :: (spec.text ++ [rest.headD 0]))
        else validate_format fmt src = .error .undefined := by
  have hroom : (0 : Nat) + [SC '%'].length ≤ fmt.length := by
    rw [hfmt]
    decide
  have hpercent : [SC '%'] <+: Memory.overwrite fmt 0 [SC '%'] :=
    overwrite_behind (List.nil_prefix (l := fmt))
  have hfmt' := (length_store hroom).trans hfmt
  rcases readSpecification_cases src with ⟨msg, herror⟩ | ⟨spec, rest, hsrc, hread⟩
  · refine .inl ⟨⟨msg, ?_⟩, fun rest w hok => nomatch herror.symm.trans hok⟩
    unfold validate_format
    rw [store_ok hroom, herror]
    rfl
  · have hrun : validate_format fmt src =
        copySpecification (Memory.overwrite fmt 0 [SC '%']) (spec.text ++ rest) rest >>=
          fun fmt => pure (fmt, rest, spec.fieldWidth + spec.precisionOr 0) := by
      unfold validate_format
      rw [store_ok hroom, hread, hsrc]
      rfl
    rw [hrun]
    by_cases hlong : spec.text.length > MAX_FORMAT_LEN
    · rw [copySpecification_eq, if_pos hlong]
      exact .inl ⟨⟨_, rfl⟩, (short_iff hsrc hread).mpr fun hlen => absurd hlong hlen.not_gt⟩
    · have hlen := Nat.le_of_not_gt hlong
      have hcopy := copySpecification_cases hfmt' hpercent spec rest hlen
      refine .inr ⟨spec, rest, hsrc, hread, hlen, ?_⟩
      split at hcopy
      · next hshort =>
        obtain ⟨fmt', hok, hholds⟩ := hcopy
        rw [if_pos hshort, hok]
        exact ⟨fmt', rfl, hholds⟩
      · next hshort =>
        rw [if_neg hshort, hcopy]
        rfl

/-- The length modifier is put into the buffer, or it does not fit. -/
theorem insertPrec_cases {fmt s : List UInt8} {c : UInt8} (h : Holds fmt (s ++ [c]))
    (hs : ∀ d ∈ s ++ [c], d ≠ 0) :
    if s.length + PRINT_INT_PREC.length + 2 ≤ MAX_FORMAT_LEN then
      ∃ fmt', insertPrec fmt = .ok fmt' ∧ Holds fmt' (s ++ PRINT_INT_PREC ++ [c])
    else insertPrec fmt = .error .undefined := by
  have hfpos : (zeroTerminated fmt).length - 1 = s.length := by
    rw [zeroTerminated_eq h.begins hs, List.length_append, List.length_singleton]
    rfl
  have hs₀ : s <+: fmt := (List.prefix_append s ([c] ++ [0])).trans
    (List.append_assoc s [c] [0] ▸ h.begins)
  have hf : fmt.getD s.length 0 = c := by
    obtain ⟨tail, rfl⟩ := h.begins
    rw [List.getD_eq_getElem?_getD, List.append_assoc, List.append_assoc,
      List.getElem?_append_right (Nat.le_refl _), Nat.sub_self]
    rfl
  have hroom : s.length + PRINT_INT_PREC.length ≤ fmt.length := by
    have hle := h.begins.length_le
    rwa [List.length_append, List.length_append] at hle
  have hbegins : s ++ PRINT_INT_PREC <+: Memory.overwrite fmt s.length PRINT_INT_PREC :=
    overwrite_behind hs₀
  unfold insertPrec
  dsimp only
  rw [hfpos, hf, store_ok hroom]
  exact terminate_cases ((length_store hroom).trans h.length) hbegins [c]
    List.length_append.symm (by rw [List.length_append]; rfl)

/-! ### The text -/

section

variable (fl : FloatOps) {snprintf : Snprintf}

theorem Specification.precisionOr_le (spec : Specification) (default : Nat) :
    spec.precisionOr default ≤ spec.precisionOr 0 + default := by
  unfold precisionOr
  cases spec.precision with
  | none => exact Nat.le_add_left default 0
  | some digits => exact Nat.le_add_right (strtol digits) default

/-- What a conversion prints stays within the room that is asked for. -/
def Fits (snprintf : Snprintf) : List UInt8 × Nat × Arg → Prop
  | (fmt, addlen, arg) => fmt.length = MAX_FORMAT_LEN ∧
      (snprintf (zeroTerminated fmt) arg).length ≤ addlen

theorem zeroTerminated_spec {fmt : List UInt8} {spec : Specification} {c : UInt8}
    (h : Holds fmt (SC '%' :: (spec.text ++ [c]))) (hc : c ≠ 0) :
    zeroTerminated fmt = SC '%' :: (spec.text ++ [c]) :=
  zeroTerminated_eq h.begins (List.forall_mem_cons.mpr ⟨by decide,
    List.forall_mem_append.mpr ⟨spec.ne_zero, List.forall_mem_singleton.mpr hc⟩⟩)

theorem PRINT_INT_PREC_ne_zero : ∀ d ∈ PRINT_INT_PREC, d ≠ 0 :=
  List.forall_mem_cons.mpr ⟨by decide, List.forall_mem_singleton.mpr (by decide)⟩

theorem isInteger_ne_zero {c : UInt8} (h : isInteger c = true) : c ≠ 0 := by
  rintro rfl
  exact absurd h (by decide)

theorem isFloat_ne_zero {c : UInt8} (h : isFloat c = true) : c ≠ 0 := by
  rintro rfl
  exact absurd h (by decide)

theorem integerArgument_cases (w : Nat) (param : Object) :
    (∃ msg, integerArgument fl w param = .error (.error msg)) ∨
      ∃ ti, integerArgument fl w param = .ok (ADDITIONAL_FORMAT_SPACE + (w + 1), .i ti) := by
  unfold integerArgument
  cases param.getinteger fl with
  | none => exact .inl ⟨_, rfl⟩
  | some ti => exact .inr ⟨ti, rfl⟩

/-- The switch refuses the parameter or asks for enough room. -/
def Answers (snprintf : Snprintf) (result : Except Halt (List UInt8 × Nat × Arg)) : Prop :=
  (∃ msg, result = .error (.error msg)) ∨ ∃ answer, result = .ok answer ∧ Fits snprintf answer

section

variable (hdocumented : Documented snprintf) {fmt : List UInt8} {spec : Specification} {c : UInt8}
  (h : Holds fmt (SC '%' :: (spec.text ++ [c]))) (param : Object)

include hdocumented h

/-- The conversion `%s` writes no more than the width, the precision and the
string. -/
theorem answers_string (hc : c = SC 's') :
    Answers snprintf (argument fl fmt (spec.fieldWidth + spec.precisionOr 0) c param) := by
  unfold argument
  rw [if_pos hc]
  cases param with
  | string ts =>
    refine .inr ⟨_, rfl, h.length, ?_⟩
    have hlen := hdocumented.string spec ts
    have hts : (zeroTerminated ts).length ≤ ts.length := (List.takeWhile_sublist _).length_le
    rw [zeroTerminated_spec h (hc ▸ by decide), hc]
    omega
  | _ => exact .inl ⟨_, rfl⟩

/-- The conversion `%c` writes no more than the width and a character. -/
theorem answers_char (hc : c = SC 'c') :
    Answers snprintf (argument fl fmt (spec.fieldWidth + spec.precisionOr 0) c param) := by
  unfold argument
  rw [if_neg (hc ▸ by decide), if_neg (hc ▸ by decide), if_pos hc]
  rcases integerArgument_cases fl (spec.fieldWidth + spec.precisionOr 0) param with
    ⟨msg, herror⟩ | ⟨ti, hti⟩
  · exact .inl ⟨msg, by rw [herror]; rfl⟩
  · refine .inr ⟨_, by rw [hti]; rfl, h.length, ?_⟩
    have hlen := hdocumented.char spec ti
    have hspace : ADDITIONAL_FORMAT_SPACE = 100 := rfl
    show (snprintf (zeroTerminated fmt) (.i ti)).length ≤ ADDITIONAL_FORMAT_SPACE + _
    rw [zeroTerminated_spec h (hc ▸ by decide), hc]
    omega

/-- The conversions of floats write no more than the width, the precision and
a float. -/
theorem answers_float (hc : isFloat c = true) :
    Answers snprintf (argument fl fmt (spec.fieldWidth + spec.precisionOr 0) c param) := by
  have hs : c ≠ SC 's' := by
    rintro rfl
    exact absurd hc (by decide)
  have hchar : c ≠ SC 'c' := by
    rintro rfl
    exact absurd hc (by decide)
  have hint : ¬ isInteger c = true := by
    rcases of_decide_eq_true hc with rfl | rfl | rfl | rfl | rfl <;> decide
  unfold argument
  rw [if_neg hs, if_neg hint, if_neg hchar, if_pos hc]
  cases param.getfloat fl with
  | none => exact .inl ⟨_, rfl⟩
  | some tf =>
    refine .inr ⟨_, rfl, h.length, ?_⟩
    have hlen := hdocumented.float spec c tf hc
    have hprecision := spec.precisionOr_le 6
    have hspace : ADDITIONAL_FORMAT_SPACE = 100 := rfl
    rw [zeroTerminated_spec h (isFloat_ne_zero hc)]
    omega

/-- For an integer, the length modifier may be written outside the buffer. -/
theorem answers_integer (hc : isInteger c = true) :
    if spec.text.length + PRINT_INT_PREC.length + 3 ≤ MAX_FORMAT_LEN then
      Answers snprintf (argument fl fmt (spec.fieldWidth + spec.precisionOr 0) c param)
    else argument fl fmt (spec.fieldWidth + spec.precisionOr 0) c param = .error .undefined := by
  have hs : c ≠ SC 's' := by
    rintro rfl
    exact absurd hc (by decide)
  have hne : ∀ d ∈ SC '%' :: spec.text ++ [c], d ≠ 0 :=
    List.forall_mem_append.mpr ⟨List.forall_mem_cons.mpr ⟨by decide, spec.ne_zero⟩,
      List.forall_mem_singleton.mpr (isInteger_ne_zero hc)⟩
  have hprec : if (SC '%' :: spec.text).length + PRINT_INT_PREC.length + 2 ≤ MAX_FORMAT_LEN
      then _ else _ := insertPrec_cases h hne
  rw [List.length_cons] at hprec
  unfold argument
  rw [if_neg hs, if_pos hc]
  by_cases hshort : spec.text.length + PRINT_INT_PREC.length + 3 ≤ MAX_FORMAT_LEN
  · rw [if_pos (by omega)] at hprec
    obtain ⟨fmt', hok, hholds⟩ := hprec
    rw [if_pos hshort, hok]
    rcases integerArgument_cases fl (spec.fieldWidth + spec.precisionOr 0) param with
      ⟨msg, herror⟩ | ⟨ti, hti⟩
    · exact .inl ⟨msg, by rw [herror]; rfl⟩
    · refine .inr ⟨_, by rw [hti]; rfl, hholds.length, ?_⟩
      have hlen := hdocumented.integer spec c ti hc
      have hprecision := spec.precisionOr_le 1
      have hspace : ADDITIONAL_FORMAT_SPACE = 100 := rfl
      have hne' : ∀ d ∈ SC '%' :: spec.text ++ PRINT_INT_PREC ++ [c], d ≠ 0 :=
        List.forall_mem_append.mpr ⟨List.forall_mem_append.mpr
          ⟨List.forall_mem_cons.mpr ⟨by decide, spec.ne_zero⟩, PRINT_INT_PREC_ne_zero⟩,
            List.forall_mem_singleton.mpr (isInteger_ne_zero hc)⟩
      show (snprintf (zeroTerminated fmt') (.i ti)).length ≤ ADDITIONAL_FORMAT_SPACE + _
      rw [zeroTerminated_eq hholds.begins hne']
      show (snprintf (SC '%' :: (spec.text ++ PRINT_INT_PREC ++ [c])) (.i ti)).length ≤ _
      omega
  · rw [if_neg (by omega)] at hprec
    rw [if_neg hshort, hprec]
    rfl

/-- A conversion character that is none is refused. -/
theorem answers_cases :
    if isInteger c = true → spec.text.length + PRINT_INT_PREC.length + 3 ≤ MAX_FORMAT_LEN then
      Answers snprintf (argument fl fmt (spec.fieldWidth + spec.precisionOr 0) c param)
    else argument fl fmt (spec.fieldWidth + spec.precisionOr 0) c param = .error .undefined := by
  by_cases hint : isInteger c = true
  · have hinteger := answers_integer fl hdocumented h param hint
    split at hinteger
    · next hshort =>
      rw [if_pos fun _ => hshort]
      exact hinteger
    · next hshort =>
      rw [if_neg fun hall => hshort (hall hint)]
      exact hinteger
  · rw [if_pos fun hc => absurd hc hint]
    by_cases hs : c = SC 's'
    · exact answers_string fl hdocumented h param hs
    · by_cases hchar : c = SC 'c'
      · exact answers_char fl hdocumented h param hchar
      · by_cases hfloat : isFloat c = true
        · exact answers_float fl hdocumented h param hfloat
        · refine .inl ⟨sc "invalid format", ?_⟩
          unfold argument
          rw [if_neg hs, if_neg hint, if_neg hchar, if_neg hfloat]
          rfl

end

/-! ### The loop -/

/-- The scratch pad has the size that was asked for. -/
theorem le_GetScratchPad {size : Nat} (hsize : 0 < size) (pad : List UInt8) :
    size ≤ (GetScratchPad size pad).length := by
  unfold GetScratchPad
  cases hnew : Blob.newsize pad.length size with
  | none =>
    have hle := Blob.newsize_eq_none hnew (Int.natCast_pos.mpr hsize)
    exact Int.ofNat_le.mp hle
  | some n =>
    have hle : (size : Int) ≤ n := by
      unfold Blob.newsize at hnew
      rw [if_pos (Int.natCast_pos.mpr hsize)] at hnew
      split at hnew
      · rw [← Option.some.inj hnew]
        exact Int.le_max_right _ _
      · split at hnew
        · rw [← Option.some.inj hnew]
          exact Int.le_max_right _ _
        · cases hnew
    show size ≤ (pad.take n.toNat ++ List.replicate (n.toNat - pad.length) 0).length
    rw [List.length_append, List.length_take, List.length_replicate]
    omega

/-- There is room for what is left of the format, a terminator included, in what was asked for. -/
structure Roomy (st : State) : Prop where
  room : st.i + st.rest.length + 2 ≤ st.allocated
  granted : st.allocated ≤ st.dest.length
  fmt : st.fmt.length = MAX_FORMAT_LEN

/-- The conversion that comes next is short enough, if one does. -/
def ShortNext (st : State) : Prop :=
  ∀ src, st.rest = SC '%' :: src → src.headD 0 ≠ SC '%' → st.params ≠ [] → Short src

/-- A round raises an error or goes on with less of the format. -/
def Advances (st : State) (result : Except Halt State) : Prop :=
  (∃ msg, result = .error (.error msg)) ∨
    ∃ st', result = .ok st' ∧ Roomy st' ∧ st'.rest.length < st.rest.length

/-- What fits is printed into the room that is asked for. -/
theorem print_roomy {st : State} (hst : Roomy st) {rest : List UInt8}
    (hrest : rest.length < st.rest.length) (params : List Object)
    {answer : List UInt8 × Nat × Arg} (hanswer : Fits snprintf answer) :
    ∃ st', print snprintf st rest params answer = .ok st' ∧ Roomy st' ∧ st'.rest = rest := by
  obtain ⟨fmt, addlen, arg⟩ := answer
  obtain ⟨hfmt, hlen⟩ := hanswer
  have hroom := hst.room
  let allocated := st.allocated + (addlen + 1)
  let text := snprintf (zeroTerminated fmt) arg
  have hfits : text.length ≤ addlen := hlen
  have hpad : allocated ≤ (GetScratchPad allocated st.dest).length :=
    le_GetScratchPad (Nat.succ_pos _) st.dest
  have hwhole : text.take (allocated - 1) = text :=
    List.take_of_length_le (show text.length ≤ st.allocated + (addlen + 1) - 1 by omega)
  have hstore : st.i + (text.take (allocated - 1) ++ [0]).length ≤
      (GetScratchPad allocated st.dest).length := by
    rw [hwhole, List.length_append, List.length_singleton]
    refine Nat.le_trans ?_ hpad
    show st.i + (text.length + 1) ≤ st.allocated + (addlen + 1)
    omega
  let st' : State := {
    rest := rest
    params := params
    i := st.i + text.length
    allocated := allocated
    dest := Memory.overwrite (GetScratchPad allocated st.dest) st.i
      (text.take (allocated - 1) ++ [0])
    fmt := fmt }
  refine ⟨st', ?_, ⟨?_, ?_, hfmt⟩, rfl⟩
  · show (store (GetScratchPad allocated st.dest) st.i (text.take (allocated - 1) ++ [0]) >>= _) = _
    rw [store_ok hstore]
    rfl
  · show st.i + text.length + rest.length + 2 ≤ st.allocated + (addlen + 1)
    omega
  · exact hpad.trans (Nat.le_of_eq (length_store hstore).symm)

/-- A conversion keeps to the pad if its specification is short, and does not
otherwise. -/
theorem conversion_cases (hdocumented : Documented snprintf) {st : State} (hst : Roomy st)
    {src : List UInt8} (hrest : st.rest = SC '%' :: src) (param : Object) (params : List Object) :
    (Short src → Advances st (conversion fl snprintf st src param params)) ∧
      (¬ Short src → conversion fl snprintf st src param params = .error .undefined) := by
  unfold conversion
  rcases validate_cases hst.fmt src with
    ⟨⟨msg, herror⟩, hsrc⟩ | ⟨spec, rest, hsrc, hread, hlen, hcopy⟩
  · rw [herror]
    exact ⟨fun _ => .inl ⟨msg, rfl⟩, fun hlong => absurd hsrc hlong⟩
  · rw [short_iff hsrc hread]
    by_cases hthree : spec.text.length + 3 ≤ MAX_FORMAT_LEN
    · rw [if_pos hthree] at hcopy
      obtain ⟨fmt', hok, hholds⟩ := hcopy
      rw [hok]
      have hshorter : rest.tail.length < st.rest.length := by
        rw [hrest, hsrc, List.length_tail, List.length_cons, List.length_append]
        omega
      have hanswers := answers_cases fl hdocumented hholds param
      split at hanswers
      · next hinteger =>
        refine ⟨fun _ => ?_, fun hlong => absurd (fun _ => ⟨hthree, hinteger⟩) hlong⟩
        rcases hanswers with ⟨msg, herror⟩ | ⟨answer, hanswer, hfits⟩
        · exact .inl ⟨msg, congrArg (· >>= print snprintf st rest.tail params) herror⟩
        · obtain ⟨st', hprint, hst', hrest'⟩ := print_roomy hst hshorter params hfits
          refine .inr ⟨st', ?_, hst', hrest' ▸ hshorter⟩
          exact (congrArg (· >>= print snprintf st rest.tail params) hanswer).trans hprint
      · next hinteger =>
        refine ⟨fun h => absurd (h hlen).2 hinteger, fun _ => ?_⟩
        exact congrArg (· >>= print snprintf st rest.tail params) hanswers
    · rw [if_neg hthree] at hcopy
      rw [hcopy]
      exact ⟨fun h => absurd (h hlen).1 hthree, fun _ => rfl⟩

/-- A step keeps to the pad unless a specification that is too long is next.
-/
theorem step_cases (hdocumented : Documented snprintf) {st : State} (hst : Roomy st) {c : UInt8}
    {src : List UInt8} (hrest : st.rest = c :: src) :
    (ShortNext st → Advances st (step fl snprintf st c src)) ∧
      (¬ ShortNext st → step fl snprintf st c src = .error .undefined) := by
  have hroom := hst.room
  have hgranted := hst.granted
  rw [hrest, List.length_cons] at hroom
  unfold step
  by_cases hpercent : c = SC '%'
  · subst hpercent
    rw [if_neg (not_not_intro rfl)]
    by_cases htwo : src.headD 0 = SC '%'
    · have hstore : st.i + [SC '%'].length ≤ st.dest.length := by
        rw [List.length_singleton]
        omega
      rw [if_pos htwo, store_ok hstore]
      refine ⟨fun _ => .inr ⟨_, rfl, ⟨?_, ?_, hst.fmt⟩, ?_⟩, fun hlong => absurd ?_ hlong⟩
      · show st.i + 1 + src.tail.length + 2 ≤ st.allocated
        rw [List.length_tail]
        omega
      · exact hgranted.trans (Nat.le_of_eq (length_store hstore).symm)
      · show src.tail.length < st.rest.length
        rw [hrest, List.length_tail, List.length_cons]
        omega
      · intro src' hsrc' hne
        cases hrest.symm.trans hsrc'
        exact absurd htwo hne
    · rw [if_neg htwo]
      cases hparams : st.params with
      | nil =>
        exact ⟨fun _ => .inl ⟨_, rfl⟩, fun hlong => absurd (fun _ _ _ h => absurd hparams h) hlong⟩
      | cons param params =>
        obtain ⟨hshort, hlong⟩ :=
          conversion_cases fl hdocumented hst hrest param params
        refine ⟨fun h => hshort (h src hrest htwo (by rw [hparams]; exact List.cons_ne_nil _ _)),
          fun h => hlong fun hsrc => h ?_⟩
        intro src' hsrc' _ _
        cases hrest.symm.trans hsrc'
        exact hsrc
  · have hstore : st.i + [c].length ≤ st.dest.length := by
      rw [List.length_singleton]
      omega
    rw [if_pos hpercent, if_pos (by omega), store_ok hstore]
    refine ⟨fun _ => .inr ⟨_, rfl, ⟨?_, ?_, hst.fmt⟩, ?_⟩, fun hlong => absurd ?_ hlong⟩
    · show st.i + 1 + src.length + 2 ≤ st.allocated
      omega
    · exact hgranted.trans (Nat.le_of_eq (length_store hstore).symm)
    · show src.length < st.rest.length
      rw [hrest]
      exact Nat.lt_succ_self _
    · intro src' hsrc'
      cases hrest.symm.trans hsrc'
      exact absurd rfl hpercent

/-! ### Runs -/

/-- The states that the loop comes to. -/
inductive Reached (fl : FloatOps) (snprintf : Snprintf) (format : List UInt8)
    (params : List Object) (pad : List UInt8) : State → Prop where
  | init : Reached fl snprintf format params pad (start format params pad)
  | round {st st' : State} {c : UInt8} {src : List UInt8} :
      Reached fl snprintf format params pad st → st.rest = c :: src →
      step fl snprintf st c src = .ok st' → Reached fl snprintf format params pad st'

variable {fl} {format : List UInt8} {params : List Object} {pad : List UInt8} {st : State}

/-- A step that succeeds leaves room and takes a character of the format. -/
theorem step_ok (hdocumented : Documented snprintf) (hst : Roomy st) {st' : State} {c : UInt8}
    {src : List UInt8} (hrest : st.rest = c :: src) (h : step fl snprintf st c src = .ok st') :
    Roomy st' ∧ st'.rest.length < st.rest.length := by
  obtain ⟨hshort, hlong⟩ := step_cases fl hdocumented hst hrest
  by_cases hnext : ShortNext st
  · rcases hshort hnext with ⟨msg, herror⟩ | ⟨st₁, hok, hst₁, hlt⟩
    · cases herror.symm.trans h
    · cases hok.symm.trans h
      exact ⟨hst₁, hlt⟩
  · cases (hlong hnext).symm.trans h

/-- There is room in every state that a run comes to. -/
theorem Reached.roomy (hdocumented : Documented snprintf)
    (h : Reached fl snprintf format params pad st) : Roomy st := by
  induction h with
  | init =>
    refine ⟨?_, le_GetScratchPad (Nat.succ_pos _) pad, rfl⟩
    show 0 + format.length + 2 ≤ format.length + 2
    omega
  | round _ hrest hstep ih => exact (step_ok hdocumented ih hrest hstep).1

/-- The loop comes to every state that a run comes to. -/
theorem Reached.loop_eq (hdocumented : Documented snprintf)
    (h : Reached fl snprintf format params pad st) :
    ∃ k, k + st.rest.length ≤ format.length ∧
      ∀ n, loop fl snprintf (n + k) (start format params pad) = loop fl snprintf n st := by
  induction h with
  | init => exact ⟨0, Nat.le_of_eq (Nat.zero_add _), fun _ => rfl⟩
  | round hreached hrest hstep ih =>
    obtain ⟨k, hk, hloop⟩ := ih
    have hlt := (step_ok hdocumented (hreached.roomy hdocumented) hrest hstep).2
    refine ⟨k + 1, by omega, fun n => ?_⟩
    rw [Nat.add_comm k 1, ← Nat.add_assoc, hloop, loop, hrest]
    show (step fl snprintf _ _ _ >>= loop fl snprintf n) = _
    rw [hstep]
    rfl

/-- With short specifications, the loop raises an error or ends in a state that the run comes to. -/
theorem loop_cases (hdocumented : Documented snprintf)
    (hshort : ∀ st, Reached fl snprintf format params pad st → ShortNext st) (n : Nat) :
    ∀ st, Reached fl snprintf format params pad st → st.rest.length < n →
      (∃ msg, loop fl snprintf n st = .error (.error msg)) ∨
        ∃ st', loop fl snprintf n st = .ok st' ∧ Reached fl snprintf format params pad st' := by
  induction n with
  | zero => exact fun st _ hn => absurd hn (Nat.not_lt_zero _)
  | succ n ih =>
    intro st hst hn
    rw [loop]
    cases hrest : st.rest with
    | nil => exact .inr ⟨st, rfl, hst⟩
    | cons c src =>
      have hroomy := hst.roomy hdocumented
      rcases (step_cases fl hdocumented hroomy hrest).1 (hshort st hst) with
        ⟨msg, herror⟩ | ⟨st', hok, -, hlt⟩
      · exact .inl ⟨msg, congrArg (· >>= loop fl snprintf n) herror⟩
      · have hrun : (step fl snprintf st c src >>= loop fl snprintf n) = loop fl snprintf n st' :=
          congrArg (· >>= loop fl snprintf n) hok
        show (∃ msg, (step fl snprintf st c src >>= loop fl snprintf n) = _) ∨
          ∃ st', (_ >>= _) = _ ∧ _
        rw [hrun]
        exact ih st' (hst.round hrest hok) (by omega)

/-! ### Main result -/

/-- A call of `format` writes its specifications, with the length modifier and the terminator, into
their buffer, and at any time the text and a terminator into what was asked for. -/
structure InBounds (fl : FloatOps) (snprintf : Snprintf) (format : List UInt8)
    (params : List Object) (pad : List UInt8) : Prop where
  writes : gstd_format fl snprintf format params pad ≠ .error .undefined
  text : ∀ st, Reached fl snprintf format params pad st → st.i + 1 ≤ st.allocated

/-- A call stays in its buffers exactly where the specifications that it comes to are short
enough. -/
theorem inBounds_iff (hdocumented : Documented snprintf) :
    InBounds fl snprintf format params pad ↔
      ∀ st, Reached fl snprintf format params pad st → ShortNext st := by
  constructor
  · intro h st hst
    by_contra hlong
    obtain ⟨k, hk, hloop⟩ := hst.loop_eq hdocumented
    obtain ⟨src, hrest⟩ : ∃ src, st.rest = SC '%' :: src := by
      by_contra hnone
      exact hlong fun src hrest => absurd ⟨src, hrest⟩ hnone
    have hstep := (step_cases fl hdocumented (hst.roomy hdocumented) hrest).2 hlong
    have hrun : loop fl snprintf (format.length - k + 1) st = .error .undefined := by
      rw [loop, hrest]
      exact congrArg (· >>= loop fl snprintf (format.length - k)) hstep
    refine h.writes ?_
    unfold gstd_format
    rw [show format.length + 1 = format.length - k + 1 + k by omega, hloop, hrun]
    rfl
  · intro hshort
    refine ⟨?_, fun st hst => ?_⟩
    · have hstart : Reached fl snprintf format params pad (start format params pad) := .init
      rcases loop_cases hdocumented hshort (format.length + 1) _ hstart (Nat.lt_succ_self _) with
        ⟨msg, herror⟩ | ⟨st, hok, hst⟩
      · unfold gstd_format
        rw [herror]
        exact nofun
      · have hroomy := hst.roomy hdocumented
        have hroom := hroomy.room
        have hgranted := hroomy.granted
        have hstore : st.i + [(0 : UInt8)].length ≤ st.dest.length := by
          rw [List.length_singleton]
          omega
        unfold gstd_format
        rw [hok]
        show (store st.dest st.i [0] >>= fun dest => pure (dest.take st.i)) ≠ _
        rw [store_ok hstore]
        exact nofun
    · have hroom := (hst.roomy hdocumented).room
      omega

end

/-- What is printed for `%s` and `%lld`. -/
def plainText : Snprintf
  | fmt, .s ts => if fmt = sc "%s" then zeroTerminated ts else []
  | fmt, .i ti => if fmt = sc "%lld" then (sc (toString ti.toInt)).take 20 else []
  | _, .f _ => []

/-- A conversion that writes plain text keeps to the documented lengths. -/
theorem plainText_documented : Documented plainText where
  string spec ts := by
    unfold plainText
    dsimp only
    split
    · next hfmt =>
      have htext : spec.text ++ [SC 's'] = [] ++ [SC 's'] := List.tail_eq_of_cons_eq hfmt
      have hnil := List.append_cancel_right htext
      have hprecision : spec.precision = none := by
        have hnone := (List.append_eq_nil_iff.mp hnil).2
        unfold Specification.precisionText at hnone
        cases hprecision : spec.precision with
        | none => rfl
        | some digits =>
          rw [hprecision] at hnone
          cases hnone
      have hts : (zeroTerminated ts).length ≤ ts.length := (List.takeWhile_sublist _).length_le
      have hor : spec.precisionOr ts.length = ts.length := by
        unfold Specification.precisionOr
        rw [hprecision]
        rfl
      omega
    · exact Nat.zero_le _
  integer spec c ti _ := by
    unfold plainText
    dsimp only
    split
    · have hlen := List.length_take_le 20 (sc (toString ti.toInt))
      omega
    · exact Nat.zero_le _
  char spec ti := by
    unfold plainText
    dsimp only
    split
    · next hfmt =>
      have hlast := congrArg List.getLast? hfmt
      rw [← List.cons_append, List.getLast?_concat] at hlast
      exact absurd hlast (by decide)
    · exact Nat.zero_le _
  float _ _ _ _ := Nat.zero_le _

/-- `format("%s", "x")`. -/
theorem inBounds_string :
    InBounds FloatOps.unused plainText (sc "%s") [.string (sc "x")] [] := by
  refine (inBounds_iff plainText_documented).mpr fun st hst => ?_
  have hstates : st = start (sc "%s") [.string (sc "x")] [] ∨ st.rest = [] := by
    induction hst with
    | init => exact .inl rfl
    | round _ hrest hstep ih =>
      rcases ih with rfl | hnil
      · cases hrest
        cases hstep
        exact .inr rfl
      · cases hnil.symm.trans hrest
  rcases hstates with rfl | hnil
  · intro src hrest _ _ rest w hread
    cases hrest
    cases hread
    decide
  · exact fun src hrest => nomatch hnil.symm.trans hrest

/-- `format("%000000000000000000s", "x")`: eighteen flags, which the check lets through. -/
theorem not_inBounds_flags : Documented plainText ∧
    ¬ InBounds FloatOps.unused plainText (sc "%000000000000000000s") [.string (sc "x")] [] :=
  ⟨plainText_documented, fun h => h.writes rfl⟩

end GameScript.Format
