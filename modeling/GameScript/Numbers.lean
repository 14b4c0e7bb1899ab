import GameScript.Lexemes

/-!
Numbers (`ReadNumber`, `GSlexer.cpp`): what is read, and which integer literals have their value.
-/

namespace GameScript

namespace GSLexer

variable {strtod : List UInt8 → GSFloat} {l : GSLexer} {n : Nat}

/-! ### Where a number begins -/

theorem ne_of_isDigit {c d : UInt8} (hc : isDigit c = true) (hd : isDigit d = false) : c ≠ d := by
  rintro rfl
  rw [hc] at hd
  cases hd

/-- At a digit a number is read. -/
theorem lexToken_number (hdigit : isDigit l.CUR_CHAR = true) (n : Nat) :
    lexToken strtod n l = returnRead (ReadNumber strtod n l) := by
  have hquote : ¬ (l.CUR_CHAR = SC '"' ∨ l.CUR_CHAR = SC '\'') :=
    not_or.mpr ⟨ne_of_isDigit hdigit rfl, ne_of_isDigit hdigit rfl⟩
  unfold lexToken lexOther
  dsimp only
  iterate 5 refine Eq.trans (if_neg (ne_of_isDigit hdigit rfl)) ?_
  refine Eq.trans (if_neg hquote) ?_
  iterate 8 refine Eq.trans (if_neg (ne_of_isDigit hdigit rfl)) ?_
  exact if_pos hdigit

/-- A digit is where `ReadNumber` begins. -/
theorem Lex_number (hdigit : isDigit l.CUR_CHAR = true) (n : Nat) :
    Lex strtod (n + 1) l = returnRead (ReadNumber strtod n { l with
      lasttokenline := l.currentline }) := by
  have hblank : ¬ (l.CUR_CHAR = SC '\t' ∨ l.CUR_CHAR = SC '\r' ∨ l.CUR_CHAR = SC ' ') :=
    not_or.mpr ⟨ne_of_isDigit hdigit rfl, not_or.mpr ⟨ne_of_isDigit hdigit rfl,
      ne_of_isDigit hdigit rfl⟩⟩
  unfold Lex lexLoop
  dsimp only
  refine Eq.trans (if_neg (ne_of_isDigit hdigit rfl)) ?_
  refine Eq.trans (if_neg hblank) ?_
  iterate 3 refine Eq.trans (if_neg (ne_of_isDigit hdigit rfl)) ?_
  exact lexToken_number (l := { l with lasttokenline := l.currentline }) hdigit n

/-! ### Decimal numbers -/

/-- The digits, points and exponents at the beginning of a text; an exponent may have a sign. -/
def numberRun : List UInt8 → List UInt8
  | [] => []
  | [c] => if isDigit c ∨ c = SC '.' ∨ isExponent c then [c] else []
  | c :: g :: s =>
      if isDigit c ∨ c = SC '.' then c :: numberRun (g :: s)
      else if isExponent c then
        if g = SC '+' ∨ g = SC '-' then c :: g :: numberRun s else c :: numberRun (g :: s)
      else []

/-- What is behind an optional sign. -/
def unsigned : List UInt8 → List UInt8
  | [] => []
  | g :: s => if g = SC '+' ∨ g = SC '-' then s else g :: s

/-- Each exponent has a digit, behind its sign where it has one. -/
def exponentsDone : List UInt8 → Bool
  | [] => true
  | c :: s => (!isExponent c || isDigit ((unsigned s).headD 0)) && exponentsDone s

theorem isDigit_ne_exponent {c : UInt8} (h : isDigit c = true) : isExponent c = false := by
  unfold isExponent
  exact decide_eq_false (not_or.mpr ⟨ne_of_isDigit h rfl, ne_of_isDigit h rfl⟩)

/-- The lexer after `run`, which is at the beginning of its text. -/
def after (l : GSLexer) (run : List UInt8) : GSLexer :=
  { l with text := l.text.drop run.length, longstr := l.longstr ++ run }

theorem after_nil (l : GSLexer) : l.after [] = l := by
  unfold after
  rw [List.append_nil]
  rfl

theorem after_take {c : UInt8} {s : List UInt8} (h : l.text = c :: s) (run : List UInt8) :
    l.take.after run = l.after (c :: run) := by
  rw [take_of_text h]
  unfold after
  dsimp only
  rw [h, List.length_cons, List.drop_succ_cons, List.append_assoc]
  rfl

theorem numberRun_plain {c : UInt8} (h : c = SC '.' ∨ isDigit c = true) (s : List UInt8) :
    numberRun (c :: s) = c :: numberRun s := by
  cases s with
  | nil => exact if_pos (h.elim (fun h => .inr (.inl h)) .inl)
  | cons g s => exact if_pos h.symm

theorem numberRun_signed {c g : UInt8} (hplain : ¬ (c = SC '.' ∨ isDigit c = true))
    (hexp : isExponent c = true) (hg : g = SC '+' ∨ g = SC '-') (s : List UInt8) :
    numberRun (c :: g :: s) = c :: g :: numberRun s := by
  rw [numberRun, if_neg fun h => hplain h.symm, if_pos hexp, if_pos hg]

/-- Without a sign behind it an exponent goes on with the run. -/
theorem numberRun_unsigned {c : UInt8} (hplain : ¬ (c = SC '.' ∨ isDigit c = true))
    (hexp : isExponent c = true) {s : List UInt8}
    (hs : ¬ (s.headD 0 = SC '+' ∨ s.headD 0 = SC '-')) :
    numberRun (c :: s) = c :: numberRun s := by
  cases s with
  | nil => exact if_pos (.inr (.inr hexp))
  | cons g s =>
      rw [numberRun, if_neg fun h => hplain h.symm, if_pos hexp]
      exact if_neg hs

theorem numberRun_other {c : UInt8} (hplain : ¬ (c = SC '.' ∨ isDigit c = true))
    (hexp : ¬ isExponent c = true) (s : List UInt8) : numberRun (c :: s) = [] := by
  cases s with
  | nil => exact if_neg fun h => h.elim (fun h => hplain (.inr h)) fun h =>
      h.elim (fun h => hplain (.inl h)) hexp
  | cons g s => rw [numberRun, if_neg fun h => hplain h.symm, if_neg hexp]

/-- A run begins with the first character of the text, where it is not empty. -/
theorem headD_numberRun (s : List UInt8) :
    (numberRun s).headD 0 = s.headD 0 ∨ numberRun s = [] ∧ isDigit (s.headD 0) = false := by
  cases s with
  | nil => exact .inl rfl
  | cons c s =>
      by_cases hplain : c = SC '.' ∨ isDigit c = true
      · rw [numberRun_plain hplain]
        exact .inl rfl
      · by_cases hexp : isExponent c = true
        · by_cases hg : s.headD 0 = SC '+' ∨ s.headD 0 = SC '-'
          · cases s with
            | nil => exact absurd hg (by decide)
            | cons g s =>
                rw [numberRun_signed (g := g) hplain hexp hg]
                exact .inl rfl
          · rw [numberRun_unsigned hplain hexp hg]
            exact .inl rfl
        · exact .inr ⟨numberRun_other hplain hexp s, Bool.eq_false_iff.mpr fun h => hplain (.inr h)⟩

theorem isDigit_headD_numberRun (s : List UInt8) :
    isDigit ((numberRun s).headD 0) = isDigit (s.headD 0) := by
  rcases headD_numberRun s with h | ⟨hnil, hdigit⟩
  · rw [h]
  · rw [hnil, hdigit]
    rfl

theorem unsigned_of_not {s : List UInt8} (h : ¬ (s.headD 0 = SC '+' ∨ s.headD 0 = SC '-')) :
    unsigned s = s := by
  cases s with
  | nil => rfl
  | cons g s => exact if_neg h

theorem unsigned_numberRun {s : List UInt8} (h : ¬ (s.headD 0 = SC '+' ∨ s.headD 0 = SC '-')) :
    unsigned (numberRun s) = numberRun s := by
  rcases headD_numberRun s with hhead | ⟨hnil, -⟩
  · exact unsigned_of_not (hhead ▸ h)
  · rw [hnil]
    rfl

/-- Where the character at hand is no exponent, the others are to be looked at. -/
theorem exponentsDone_plain {c : UInt8} (h : isExponent c = false) (s : List UInt8) :
    exponentsDone (c :: s) = exponentsDone s := by
  rw [exponentsDone, h]
  rfl

/-- Behind an exponent, `c`, a digit goes on with the number and anything else is an error. -/
theorem readDecimal_exponent
    (ih : ∀ {l : GSLexer} {isfloat : Bool}, l.text.length < n → readDecimal n l isfloat =
      if exponentsDone (numberRun l.text) then
        .ok (isfloat || (numberRun l.text).any fun c => !isDigit c, l.after (numberRun l.text))
      else error "exponent expected")
    {c : UInt8} (hplain : ¬ (c = SC '.' ∨ isDigit c = true)) (isfloat : Bool) {l' : GSLexer}
    {run : List UInt8} (hlen : l'.text.length < n)
    (hafter : l'.after (numberRun l'.text) = l.after (c :: run))
    (hdone : exponentsDone (c :: run) =
      (isDigit (l'.CUR_CHAR) && exponentsDone (numberRun l'.text))) :
    (if (!isDigit l'.CUR_CHAR) = true then error "exponent expected"
      else readDecimal n l'.take true) =
    if exponentsDone (c :: run) = true then
      .ok (isfloat || (c :: run).any fun c => !isDigit c, l.after (c :: run))
    else error "exponent expected" := by
  have hany : ((c :: run).any fun c => !isDigit c) = true := by
    rw [List.any_cons, Bool.eq_false_iff.mpr fun h => hplain (.inr h)]
    rfl
  rw [hdone, hany, Bool.or_true]
  cases hcur : isDigit l'.CUR_CHAR with
  | false => rfl
  | true =>
      obtain ⟨d, t, htext', hd⟩ : ∃ d t, l'.text = d :: t ∧ isDigit d = true := by
        unfold CUR_CHAR at hcur
        cases htext' : l'.text with
        | nil =>
            rw [htext'] at hcur
            cases hcur
        | cons d t =>
            rw [htext'] at hcur
            exact ⟨d, t, rfl, hcur⟩
      have hrun : numberRun l'.text = d :: numberRun t := by
        rw [htext', numberRun_plain (.inr hd)]
      have htake' : l'.take.text = t := by rw [take_of_text htext']
      rw [htext', List.length_cons] at hlen
      rw [hrun, exponentsDone_plain (isDigit_ne_exponent hd), ← hafter, hrun,
        ← after_take htext', ← htake', ih (by rw [htake']; omega), Bool.true_or]
      rfl

/-- The loop reads the run of a number, or finds an exponent without digits.
-/
theorem readDecimal_eq {isfloat : Bool} (hn : l.text.length < n) :
    readDecimal n l isfloat =
      if exponentsDone (numberRun l.text) then
        .ok (isfloat || (numberRun l.text).any fun c => !isDigit c, l.after (numberRun l.text))
      else error "exponent expected" := by
  induction n generalizing l isfloat with
  | zero => exact absurd hn (Nat.not_lt_zero _)
  | succ n ih =>
      unfold readDecimal
      dsimp only
      cases htext : l.text with
      | nil =>
          have hcur : l.CUR_CHAR = 0 := by
            unfold CUR_CHAR
            rw [htext]
            rfl
          rw [hcur, if_neg (by decide), if_neg (by decide)]
          show _ = Except.ok (isfloat || false, l.after [])
          rw [Bool.or_false, after_nil]
      | cons c s =>
          rw [htext, List.length_cons] at hn
          have htake : l.take.text = s := by rw [take_of_text htext]
          rw [CUR_CHAR_of_text htext]
          by_cases hplain : c = SC '.' ∨ isDigit c = true
          · have hexp : isExponent c = false :=
              hplain.elim (fun h => h ▸ rfl) isDigit_ne_exponent
            have hdigit : (!isDigit c) = decide (c = SC '.') := by
              rcases hplain with rfl | h
              · rfl
              · rw [h]
                exact (decide_eq_false (ne_of_isDigit h rfl)).symm
            rw [if_pos hplain, numberRun_plain hplain, exponentsDone_plain hexp,
              ih (by rw [htake]; omega), htake, after_take htext, List.any_cons, hdigit,
              ← Bool.or_assoc]
            simp only [Bool.decide_or, Bool.decide_eq_true]
          · rw [if_neg hplain]
            by_cases hexp : isExponent c = true
            · rw [if_pos hexp]
              by_cases hg : s.headD 0 = SC '+' ∨ s.headD 0 = SC '-'
              · cases s with
                | nil => exact absurd hg (by decide)
                | cons g s =>
                    have hcur : l.take.CUR_CHAR = g := CUR_CHAR_of_text htake
                    have htake' : l.take.take.text = s := by rw [take_of_text htake]
                    have hsign : g = SC '+' ∨ g = SC '-' := hg
                    have hgexp : isExponent g = false := by
                      rcases hsign with rfl | rfl <;> rfl
                    rw [hcur, if_pos hsign, numberRun_signed hplain hexp hsign]
                    refine readDecimal_exponent ih hplain isfloat ?_ ?_ ?_
                    · rw [htake']
                      rw [List.length_cons] at hn
                      omega
                    · rw [htake', after_take htake, after_take htext]
                    · rw [exponentsDone, hexp, exponentsDone_plain hgexp, unsigned, if_pos hsign,
                        isDigit_headD_numberRun, htake', CUR_CHAR, htake']
                      rfl
              · have hcur : l.take.CUR_CHAR = s.headD 0 := by rw [CUR_CHAR, htake]
                rw [hcur, if_neg hg, numberRun_unsigned hplain hexp hg]
                refine readDecimal_exponent ih hplain isfloat ?_ ?_ ?_
                · rw [htake]
                  omega
                · rw [htake, after_take htext]
                · rw [exponentsDone, hexp, unsigned_numberRun hg, isDigit_headD_numberRun, htake,
                    hcur]
                  rfl
            · rw [if_neg hexp, numberRun_other hplain hexp, after_nil]
              show _ = Except.ok (isfloat || false, l)
              rw [Bool.or_false]

/-- A second character that makes a number with a zero in front octal or hexadecimal. -/
def isPrefixChar (c : UInt8) : Bool := isODigit c ∨ c = SC 'x' ∨ c = SC 'X'

/-- The lexer when it has read a number of the digit `d` and `run` behind it. -/
def numberRead (l : GSLexer) (d : UInt8) (s run : List UInt8) : GSLexer :=
  { l with text := s.drop run.length, longstr := d :: run }

/-- A number without prefix: the whole run, unless an exponent has no digit. -/
theorem ReadNumber_decimal {d : UInt8} {s : List UInt8} (htext : l.text = d :: s)
    (hzero : ¬ (d = SC '0' ∧ isPrefixChar (s.headD 0) = true)) (hn : s.length < n) :
    ReadNumber strtod n l =
      if exponentsDone (numberRun s) then
        let l := l.numberRead d s (numberRun s)
        if (numberRun s).any fun c => !isDigit c then
          .ok (.TK_FLOAT, { l with fvalue := strtod (d :: numberRun s) })
        else .ok (.TK_INTEGER, { l with nvalue := lexDigits 10 (d :: numberRun s) })
      else error "exponent expected" := by
  have hnext : l.INIT_TEMP_STRING.NEXT = { l with text := s, longstr := [] } :=
    NEXT_of_text (l := l.INIT_TEMP_STRING) htext
  have hcur : CUR_CHAR { l with text := s, longstr := [] } = s.headD 0 := rfl
  have hoctal : ¬ (d = SC '0' ∧ isODigit (s.headD 0) = true) := fun h =>
    hzero ⟨h.1, decide_eq_true (.inl h.2)⟩
  have hhex : ¬ (d = SC '0' ∧ (s.headD 0 = SC 'x' ∨ s.headD 0 = SC 'X')) := fun h =>
    hzero ⟨h.1, decide_eq_true (.inr h.2)⟩
  unfold ReadNumber
  rw [CUR_CHAR_of_text htext, hnext]
  dsimp only
  rw [hcur, if_neg hoctal, if_neg hhex, readDecimal_eq hn]
  show (if exponentsDone (numberRun s) = true then _ else _ : Result (Bool × GSLexer)) >>= _ = _
  cases exponentsDone (numberRun s) with
  | false => rfl
  | true =>
      show (if (false || (numberRun s).any fun c => !isDigit c) = true then _ else _) = _
      rw [Bool.false_or]
      rfl

/-! ### Integer literals -/

/-- The digits of an integer literal, with the letter of the prefix of a hexadecimal one. -/
inductive IntegerLiteral where
  | decimal (digits : List UInt8)
  | octal (digits : List UInt8)
  | hexadecimal (x : UInt8) (digits : List UInt8)

namespace IntegerLiteral

def digits : IntegerLiteral → List UInt8
  | .decimal ds | .octal ds | .hexadecimal _ ds => ds

def spelling : IntegerLiteral → List UInt8
  | .decimal ds => ds
  | .octal ds => SC '0' :: ds
  | .hexadecimal x ds => SC '0' :: x :: ds

def base : IntegerLiteral → Nat
  | .decimal _ => 10
  | .octal _ => 8
  | .hexadecimal _ _ => 16

/-- The mathematical value. -/
def value (lit : IntegerLiteral) : Nat :=
  lit.digits.foldl (fun v c => v * lit.base + digitValue c) 0

/-- What `_nvalue` is where it is that value; a hexadecimal literal gives the 64 bits. -/
def Denotes (lit : IntegerLiteral) (nvalue : GSInteger) : Prop :=
  match lit with
  | .hexadecimal _ _ => nvalue.toUInt64.toNat = lit.value
  | _ => nvalue.toInt = lit.value

/-- The literal has a digit, and its value fits. -/
def Valued (lit : IntegerLiteral) : Prop :=
  lit.digits ≠ [] ∧
    match lit with
    | .hexadecimal _ _ => lit.value < 2 ^ 64
    | _ => lit.value < 2 ^ 63

/-- In front of `rest`, the literal is the longest one. -/
def Before (rest : List UInt8) : IntegerLiteral → Prop
  | .decimal ds => ds ≠ [] ∧ (∀ c ∈ ds, isDigit c = true) ∧
      ¬ (ds.headD 0 = SC '0' ∧ isPrefixChar ((ds.tail ++ rest).headD 0) = true) ∧
      numberRun rest = []
  | .octal ds => ds ≠ [] ∧ (∀ c ∈ ds, isODigit c = true) ∧ isDigit (rest.headD 0) = false
  | .hexadecimal x ds => (x = SC 'x' ∨ x = SC 'X') ∧ (∀ c ∈ ds, isXDigit c = true) ∧
      isXDigit (rest.headD 0) = false

/-- The literal gives its value where it has one, and is refused where it has none. -/
def Meets (strtod : List UInt8 → GSFloat) (n : Nat) (l : GSLexer) (rest : List UInt8)
    (lit : IntegerLiteral) : Prop :=
  (lit.Valued → ∃ l', Lex strtod n l = .ok (.TK_INTEGER, l') ∧ lit.Denotes l'.nvalue ∧
    l'.text = rest) ∧
  (¬ lit.Valued → ∃ msg, Lex strtod n l = .error (.error msg))

/-- The literals that the lexer gets right. -/
def Right (lit : IntegerLiteral) : Prop :=
  match lit with
  | .hexadecimal _ ds => ds ≠ [] ∧ (ds.length ≤ MAX_HEX_DIGITS ∨ 2 ^ 64 ≤ lit.value)
  | _ => lit.value < 2 ^ 63

end IntegerLiteral

/-- The digit loops count modulo 2 ^ 64. -/
theorem toNat_foldl (base : UInt64) (ds : List UInt8) (res : UInt64) (v : Nat)
    (h : res.toNat = v % 2 ^ 64) :
    (ds.foldl (fun res c => res * base + UInt64.ofNat (digitValue c)) res).toNat =
      ds.foldl (fun v c => v * base.toNat + digitValue c) v % 2 ^ 64 := by
  induction ds generalizing res v with
  | nil => exact h
  | cons c ds ih =>
      refine ih _ _ ?_
      rw [UInt64.toNat_add, UInt64.toNat_mul, UInt64.toNat_ofNat', h]
      simp only [Nat.add_mod, Nat.mul_mod, Nat.mod_mod]

theorem toNat_lexDigits (base : UInt64) (ds : List UInt8) :
    (lexDigits base ds).toUInt64.toNat =
      ds.foldl (fun v c => v * base.toNat + digitValue c) 0 % 2 ^ 64 :=
  toNat_foldl base ds 0 0 rfl

theorem toInt_of_toNat_lt {i : GSInteger} {v : Nat} (h : i.toUInt64.toNat = v) (hv : v < 2 ^ 63) :
    i.toInt = v := by
  have hlt : 2 * i.toBitVec.toNat < 2 ^ 64 := by
    have hnat : i.toBitVec.toNat = v := h
    omega
  exact (BitVec.toInt_eq_toNat_of_lt hlt).trans (congrArg Nat.cast h)

/-- The loop stops behind the characters it is for. -/
theorem takeWhile_eq {p : UInt8 → Bool} {ds rest : List UInt8} (htext : l.text = ds ++ rest)
    (hds : ∀ c ∈ ds, p c = true) (hrest : p (rest.headD 0) = false) (hn : ds.length < n) :
    takeWhile p n l = .ok (l.after ds) := by
  induction ds generalizing l n with
  | nil =>
      obtain ⟨n, rfl⟩ : ∃ k, n = k + 1 := ⟨n - 1, by omega⟩
      have hcur : p l.CUR_CHAR = false := by
        rw [CUR_CHAR, htext]
        exact hrest
      rw [takeWhile, hcur, after_nil]
      rfl
  | cons c ds ih =>
      obtain ⟨n, rfl⟩ : ∃ k, n = k + 1 := ⟨n - 1, by omega⟩
      have htake : l.take.text = ds ++ rest := by rw [take_of_text htext]; rfl
      rw [takeWhile, CUR_CHAR_of_text htext, if_pos (hds c List.mem_cons_self),
        ih htake (fun x hx => hds x (List.mem_cons_of_mem c hx)) (Nat.lt_of_succ_lt_succ hn),
        after_take htext]

theorem digitValue_lt {c : UInt8} (h : isXDigit c = true) : digitValue c < 16 := by
  have hx : isDigit c ∨ SC 'a' ≤ c ∧ c ≤ SC 'f' ∨ SC 'A' ≤ c ∧ c ≤ SC 'F' := of_decide_eq_true h
  unfold digitValue
  split
  · next hdigit =>
      have hle : c.toNat ≤ 57 := (of_decide_eq_true hdigit : SC '0' ≤ c ∧ c ≤ SC '9').2
      show c.toNat - 48 < 16
      omega
  · next hdigit =>
      split
      · next ha =>
          have hle : c.toNat ≤ 102 := by
            rcases hx with h | h | h
            · exact absurd h hdigit
            · exact h.2
            · exact Nat.le_trans h.2 (by decide)
          show c.toNat - 97 + 10 < 16
          omega
      · next ha =>
          have hle : c.toNat ≤ 70 := by
            rcases hx with h | h | h
            · exact absurd h hdigit
            · exact absurd h.1 ha
            · exact h.2
          show c.toNat - 65 + 10 < 16
          omega

/-- Digits below the base give a number below its power. -/
theorem foldl_lt {b : Nat} {ds : List UInt8} (h : ∀ c ∈ ds, digitValue c < b) (v : Nat) :
    ds.foldl (fun v c => v * b + digitValue c) v < (v + 1) * b ^ ds.length := by
  induction ds generalizing v with
  | nil => simp
  | cons c ds ih =>
      have hc := h c List.mem_cons_self
      have hrest := ih (fun x hx => h x (List.mem_cons_of_mem c hx)) (v * b + digitValue c)
      have hle : v * b + digitValue c + 1 ≤ (v + 1) * b := by
        rw [Nat.add_mul, Nat.one_mul]
        omega
      calc _ < (v * b + digitValue c + 1) * b ^ ds.length := hrest
        _ ≤ (v + 1) * b * b ^ ds.length := Nat.mul_le_mul_right _ hle
        _ = (v + 1) * b ^ (c :: ds).length := by
          rw [List.length_cons, Nat.pow_succ, Nat.mul_comm (b ^ ds.length), Nat.mul_assoc]

theorem numberRun_digits {ds rest : List UInt8} (h : ∀ c ∈ ds, isDigit c = true)
    (hrest : numberRun rest = []) : numberRun (ds ++ rest) = ds := by
  induction ds with
  | nil => exact hrest
  | cons c ds ih =>
      rw [List.cons_append, numberRun_plain (.inr (h c List.mem_cons_self)),
        ih fun x hx => h x (List.mem_cons_of_mem c hx)]

theorem exponentsDone_append {ds : List UInt8} (h : ∀ c ∈ ds, isDigit c = true) (s : List UInt8) :
    exponentsDone (ds ++ s) = exponentsDone s := by
  induction ds with
  | nil => rfl
  | cons c ds ih =>
      rw [List.cons_append, exponentsDone_plain (isDigit_ne_exponent (h c List.mem_cons_self))]
      exact ih fun x hx => h x (List.mem_cons_of_mem c hx)

theorem exponentsDone_digits {ds : List UInt8} (h : ∀ c ∈ ds, isDigit c = true) :
    exponentsDone ds = true := by
  have happend := exponentsDone_append h []
  rwa [List.append_nil] at happend

theorem isODigit_isDigit {c : UInt8} (h : isODigit c = true) : isDigit c = true := by
  have ho : SC '0' ≤ c ∧ c ≤ SC '7' := of_decide_eq_true h
  exact decide_eq_true ⟨ho.1, UInt8.le_trans ho.2 (by decide)⟩

/-- What a digit loop counts in. -/
def IntegerLiteral.base64 (lit : IntegerLiteral) : UInt64 := UInt64.ofNat lit.base

/-- A hexadecimal literal of more than 16 digits is refused; any other is counted. -/
def IntegerLiteral.TooLong : IntegerLiteral → Prop
  | .hexadecimal _ ds => MAX_HEX_DIGITS < ds.length
  | _ => False

/-- The number is read as an integer, up to `rest`. -/
def Counted (lit : IntegerLiteral) (rest : List UInt8) (r : Result (Token × GSLexer)) : Prop :=
  ∃ l', r = .ok (.TK_INTEGER, l') ∧ l'.nvalue = lexDigits lit.base64 lit.digits ∧ l'.text = rest

theorem Counted.returnRead {lit : IntegerLiteral} {rest : List UInt8}
    {r : Result (Token × GSLexer)} (h : Counted lit rest r) :
    Counted lit rest (GSLexer.returnRead r) := by
  obtain ⟨l', rfl, hvalue, htext⟩ := h
  exact ⟨_, rfl, hvalue, htext⟩

/-- A number with an octal prefix: its octal digits, unless another digit follows. -/
theorem ReadNumber_octalDigits (strtod : List UInt8 → GSFloat) {ds rest : List UInt8} (hne : ds ≠ [])
    (hds : ∀ c ∈ ds, isODigit c = true) (hend : isODigit (rest.headD 0) = false)
    (htext : l.text = SC '0' :: (ds ++ rest)) (hn : l.text.length ≤ n) :
    if isDigit (rest.headD 0) then ReadNumber strtod n l = error "invalid octal number"
    else Counted (.octal ds) rest (ReadNumber strtod n l) := by
  have hnext : l.INIT_TEMP_STRING.NEXT = { l with text := ds ++ rest, longstr := [] } :=
    NEXT_of_text (l := l.INIT_TEMP_STRING) htext
  obtain ⟨c, cs, rfl⟩ := List.exists_cons_of_ne_nil hne
  have hlen : (c :: cs).length < n := by
    rw [htext, List.length_cons, List.length_append] at hn
    omega
  have hloop := takeWhile_eq (l := { l with text := c :: cs ++ rest, longstr := [] }) (n := n) rfl
    hds hend hlen
  have hcur : CUR_CHAR { l with text := c :: cs ++ rest, longstr := [] } = c := rfl
  have hafter : CUR_CHAR (GSLexer.after { l with text := c :: cs ++ rest, longstr := [] }
      (c :: cs)) = rest.headD 0 := by
    unfold CUR_CHAR GSLexer.after
    exact congrArg (List.headD · 0) (List.drop_left ..)
  have hread : ReadNumber strtod n l =
      (if isDigit (rest.headD 0) then error "invalid octal number"
        else .ok (.TK_INTEGER, { GSLexer.after { l with text := c :: cs ++ rest, longstr := [] }
          (c :: cs) with nvalue := lexDigits 8 (c :: cs) })) := by
    unfold ReadNumber
    rw [CUR_CHAR_of_text htext, hnext]
    dsimp only
    rw [hcur, if_pos ⟨rfl, hds c List.mem_cons_self⟩, hloop, ← hafter]
    rfl
  cases hdigit : isDigit (rest.headD 0) with
  | true =>
      rw [hdigit] at hread
      exact hread
  | false =>
      rw [hdigit] at hread
      exact ⟨_, hread, rfl, List.drop_left ..⟩

/-- An octal literal is counted in base 8. -/
theorem ReadNumber_octal {ds rest : List UInt8}
    (hbefore : (IntegerLiteral.octal ds).Before rest) (htext : l.text = SC '0' :: (ds ++ rest))
    (hn : l.text.length ≤ n) : Counted (.octal ds) rest (ReadNumber strtod n l) := by
  obtain ⟨hne, hds, hrest⟩ := hbefore
  have hend : isODigit (rest.headD 0) = false := Bool.eq_false_iff.mpr fun h =>
    Bool.eq_false_iff.mp hrest (isODigit_isDigit h)
  have hread := ReadNumber_octalDigits strtod hne hds hend htext hn
  rwa [if_neg (Bool.eq_false_iff.mp hrest)] at hread

/-- A hexadecimal literal is counted in base 16, or refused where it is too
long. -/
theorem ReadNumber_hexadecimal (strtod : List UInt8 → GSFloat) {x : UInt8} {ds rest : List UInt8}
    (hbefore : (IntegerLiteral.hexadecimal x ds).Before rest)
    (htext : l.text = SC '0' :: x :: (ds ++ rest)) (hn : l.text.length ≤ n) :
    if MAX_HEX_DIGITS < ds.length then
      ReadNumber strtod n l = error "too many digits for an Hex number"
    else Counted (.hexadecimal x ds) rest (ReadNumber strtod n l) := by
  obtain ⟨hx, hds, hrest⟩ := hbefore
  have hnext : l.INIT_TEMP_STRING.NEXT = { l with text := x :: (ds ++ rest), longstr := [] } :=
    NEXT_of_text (l := l.INIT_TEMP_STRING) htext
  have hcur : CUR_CHAR { l with text := x :: (ds ++ rest), longstr := [] } = x := rfl
  have hoctal : ¬ (SC '0' = SC '0' ∧ isODigit x = true) := by
    rcases hx with rfl | rfl <;> decide
  have hlen : ds.length < n := by
    rw [htext, List.length_cons, List.length_cons, List.length_append] at hn
    omega
  have hloop := takeWhile_eq (l := { l with text := ds ++ rest, longstr := [] }) (n := n) rfl hds
    hrest hlen
  have hread : ReadNumber strtod n l =
      if MAX_HEX_DIGITS < ds.length then error "too many digits for an Hex number"
      else .ok (.TK_INTEGER, { GSLexer.after { l with text := ds ++ rest, longstr := [] } ds with
        nvalue := lexDigits 16 ds }) := by
    unfold ReadNumber
    rw [CUR_CHAR_of_text htext, hnext]
    dsimp only
    rw [hcur, if_neg hoctal, if_pos ⟨rfl, hx⟩,
      show NEXT { l with text := x :: (ds ++ rest), longstr := [] } =
        { l with text := ds ++ rest, longstr := [] } from rfl, hloop]
    rfl
  rw [hread]
  split
  · rfl
  · exact ⟨_, rfl, rfl, List.drop_left ..⟩

/-- A decimal literal is counted in base 10. -/
theorem ReadNumber_integer {ds rest : List UInt8}
    (hbefore : (IntegerLiteral.decimal ds).Before rest) (htext : l.text = ds ++ rest)
    (hn : l.text.length ≤ n) : Counted (.decimal ds) rest (ReadNumber strtod n l) := by
  obtain ⟨hne, hds, hzero, hrest⟩ := hbefore
  obtain ⟨d, ds, rfl⟩ := List.exists_cons_of_ne_nil hne
  have hdigits : ∀ c ∈ ds, isDigit c = true := fun c hc => hds c (List.mem_cons_of_mem d hc)
  have hrun := numberRun_digits hdigits hrest
  have hany : (ds.any fun c => !isDigit c) = false := by
    refine List.any_eq_false.mpr fun c hc => ?_
    rw [hdigits c hc]
    decide
  rw [List.cons_append] at htext
  have hlen : (ds ++ rest).length < n := by
    rw [htext, List.length_cons] at hn
    exact hn
  rw [ReadNumber_decimal htext hzero hlen, hrun, exponentsDone_digits hdigits, if_pos rfl]
  dsimp only
  rw [hany, if_neg (by decide)]
  exact ⟨_, rfl, rfl, List.drop_left ..⟩

theorem IntegerLiteral.Before.digit {lit : IntegerLiteral} {rest : List UInt8}
    (h : lit.Before rest) (htext : l.text = lit.spelling ++ rest) :
    isDigit l.CUR_CHAR = true := by
  rw [CUR_CHAR, htext]
  cases lit with
  | decimal ds =>
      obtain ⟨hne, hds, -⟩ := h
      obtain ⟨d, ds, rfl⟩ := List.exists_cons_of_ne_nil hne
      exact hds d List.mem_cons_self
  | octal | hexadecimal => rfl

/-- A literal is one token of its value, or refused where it is too long. -/
theorem Lex_literal (strtod : List UInt8 → GSFloat) {lit : IntegerLiteral} {rest : List UInt8}
    (hbefore : lit.Before rest) (htext : l.text = lit.spelling ++ rest)
    (hn : l.text.length < n) :
    (¬ lit.TooLong → Counted lit rest (Lex strtod n l)) ∧
      (lit.TooLong → ∃ msg, Lex strtod n l = .error (.error msg)) := by
  obtain ⟨n, rfl⟩ : ∃ k, n = k + 1 := ⟨n - 1, by omega⟩
  have hlen := Nat.le_of_lt_succ hn
  rw [Lex_number (hbefore.digit htext)]
  generalize hl : { l with lasttokenline := l.currentline } = l₁
  have htext₁ : l₁.text = lit.spelling ++ rest := by rw [← hl, ← htext]
  have hlen₁ : l₁.text.length ≤ n := by
    rw [← hl]
    exact hlen
  cases lit with
  | decimal ds =>
      exact ⟨fun _ => (ReadNumber_integer hbefore htext₁ hlen₁).returnRead, False.elim⟩
  | octal ds => exact ⟨fun _ => (ReadNumber_octal hbefore htext₁ hlen₁).returnRead, False.elim⟩
  | hexadecimal x ds =>
      have hread := ReadNumber_hexadecimal strtod hbefore htext₁ hlen₁
      constructor
      · intro hshort
        rw [if_neg (show ¬ MAX_HEX_DIGITS < ds.length from hshort)] at hread
        exact hread.returnRead
      · intro hlong
        rw [if_pos (show MAX_HEX_DIGITS < ds.length from hlong)] at hread
        rw [hread]
        exact ⟨_, rfl⟩

/-- What is counted is the value, modulo 2 ^ 64. -/
theorem Counted.toNat {lit : IntegerLiteral} {l' : GSLexer}
    (h : l'.nvalue = lexDigits lit.base64 lit.digits) :
    l'.nvalue.toUInt64.toNat = lit.value % 2 ^ 64 := by
  rw [h, toNat_lexDigits]
  cases lit <;> rfl

/-- Decimal and octal literals are always accepted; those that do not fit should not be. -/
theorem meets_counted {lit : IntegerLiteral} {rest : List UInt8}
    (hcounted : Counted lit rest (Lex strtod n l))
    (hvalued : lit.Valued ↔ lit.digits ≠ [] ∧ lit.value < 2 ^ 63)
    (hdenotes : ∀ i : GSInteger, i.toInt = lit.value → lit.Denotes i) (hne : lit.digits ≠ []) :
    lit.Meets strtod n l rest ↔ lit.value < 2 ^ 63 := by
  obtain ⟨l', hlex, hvalue, htext⟩ := hcounted
  constructor
  · intro hmeets
    refine Decidable.byContradiction fun hlarge => ?_
    obtain ⟨msg, herror⟩ := hmeets.2 fun h => hlarge (hvalued.mp h).2
    rw [hlex] at herror
    cases herror
  · intro hlt
    have hnat := Counted.toNat hvalue
    rw [Nat.mod_eq_of_lt (by omega)] at hnat
    exact ⟨fun _ => ⟨l', hlex, hdenotes _ (toInt_of_toNat_lt hnat hlt), htext⟩,
      fun h => absurd (hvalued.mpr ⟨hne, hlt⟩) h⟩

/-- An integer literal denotes its value or is refused, exactly when it is one that the lexer gets
right: a decimal or octal one below 2 ^ 63, or a hexadecimal one that has digits and, where they
are more than 16, does not fit. -/
theorem literal_denotes_iff (strtod : List UInt8 → GSFloat) {l : GSLexer} {lit : IntegerLiteral}
    {rest : List UInt8} {n : Nat} (hbefore : lit.Before rest)
    (htext : l.text = lit.spelling ++ rest) (hn : l.text.length < n) :
    lit.Meets strtod n l rest ↔ lit.Right := by
  obtain ⟨hcounted, hlong⟩ := Lex_literal strtod hbefore htext hn
  cases lit with
  | decimal ds => exact meets_counted (hcounted nofun) Iff.rfl (fun _ h => h) hbefore.1
  | octal ds => exact meets_counted (hcounted nofun) Iff.rfl (fun _ h => h) hbefore.1
  | hexadecimal x ds =>
      by_cases h : MAX_HEX_DIGITS < ds.length
      · obtain ⟨msg, herror⟩ := hlong h
        have hne : ds ≠ [] := List.length_pos_iff.mp (Nat.lt_of_le_of_lt (Nat.zero_le _) h)
        constructor
        · intro hmeets
          refine ⟨hne, .inr (Nat.not_lt.mp fun hlt => ?_)⟩
          obtain ⟨l', hok, -⟩ := hmeets.1 ⟨hne, hlt⟩
          rw [herror] at hok
          cases hok
        · rintro ⟨-, hshort | hlarge⟩
          · exact absurd h (Nat.not_lt.mpr hshort)
          · exact ⟨fun hvalued => absurd hvalued.2 (Nat.not_lt.mpr hlarge), fun _ => ⟨msg, herror⟩⟩
      · obtain ⟨l', hlex, hvalue, hrest⟩ := hcounted h
        have hlt : (IntegerLiteral.hexadecimal x ds).value < 2 ^ 64 := by
          have hbound := foldl_lt (fun c hc => digitValue_lt (hbefore.2.1 c hc)) 0
          rw [Nat.zero_add, Nat.one_mul] at hbound
          refine Nat.lt_of_lt_of_le hbound ?_
          exact Nat.pow_le_pow_right (by decide) (Nat.not_lt.mp h)
        have hnat := Counted.toNat hvalue
        rw [Nat.mod_eq_of_lt hlt] at hnat
        constructor
        · intro hmeets
          refine ⟨fun hnil => ?_, .inl (Nat.not_lt.mp h)⟩
          obtain ⟨msg, herror⟩ := hmeets.2 fun hvalued => hvalued.1 hnil
          rw [hlex] at herror
          cases herror
        · rintro ⟨hne, -⟩
          exact ⟨fun _ => ⟨l', hlex, hnat, hrest⟩, fun hvalued => absurd ⟨hne, hlt⟩ hvalued⟩

/-- `42;` -/
theorem literal_denotes_forty_two :
    (IntegerLiteral.decimal (sc "42")).Meets (fun _ => 0) 5 { text := sc "42;", fvalue := 0 } (sc ";") := by
  have hbefore : (IntegerLiteral.decimal (sc "42")).Before (sc ";") :=
    ⟨by decide, List.all_eq_true.mp rfl, by decide, rfl⟩
  exact (literal_denotes_iff (fun _ => 0) hbefore rfl (by decide)).mpr (show _ < 2 ^ 63 by decide)

/-- `9223372036854775808` wraps around, and `0x` is 0. -/
theorem literal_not_denotes :
    ¬ (IntegerLiteral.decimal (sc "9223372036854775808")).Meets (fun _ => 0) 20
        { text := sc "9223372036854775808", fvalue := 0 } [] ∧
      ¬ (IntegerLiteral.hexadecimal (SC 'x') []).Meets (fun _ => 0) 3 
        { text := sc "0x", fvalue := 0 } [] := by
  constructor
  · intro h
    obtain ⟨msg, herror⟩ := h.2 fun hvalued => absurd hvalued.2 (by decide)
    cases herror
  · intro h
    obtain ⟨msg, herror⟩ := h.2 fun hvalued => hvalued.1 rfl
    cases herror

end GSLexer

end GameScript
