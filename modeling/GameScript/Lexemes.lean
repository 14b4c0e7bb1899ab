import GameScript.Compiler.Termination
import GameScript.GSLexer

/-!
The lexemes of a text. Every loop of the lexer takes a character in each round, since zero, which
stands for the end of the text, ends all of them. So a call of `Lex` ends, and a text has
finitely many lexemes. `compileText_ends` says so of the compilation of a text.
-/

namespace GameScript

namespace GSLexer

variable {α β : Type} {n k : Nat}

/-- `l'` is `l` after at least `k` characters, with the same tokens read. -/
structure Reads (l l' : GSLexer) (k : Nat) : Prop where
  text : l'.text.length + k ≤ l.text.length
  curtoken : l'.curtoken = l.curtoken
  prevtoken : l'.prevtoken = l.prevtoken
  lasttokenline : l'.lasttokenline = l.lasttokenline

theorem Reads.refl (l : GSLexer) : Reads l l 0 := ⟨Nat.le_refl _, rfl, rfl, rfl⟩

theorem Reads.trans {l l₁ l₂ : GSLexer} {j k : Nat} (h : Reads l l₁ j) (h' : Reads l₁ l₂ k) :
    Reads l l₂ (j + k) := by
  refine ⟨?_, h'.curtoken.trans h.curtoken, h'.prevtoken.trans h.prevtoken,
    h'.lasttokenline.trans h.lasttokenline⟩
  have htext := h.text
  have htext' := h'.text
  omega

theorem Reads.mono {l l' : GSLexer} {j k : Nat} (h : Reads l l' k) (hj : j ≤ k) : Reads l l' j :=
  ⟨Nat.le_trans (Nat.add_le_add_left hj _) h.text, h.curtoken, h.prevtoken, h.lasttokenline⟩

/-- A step of the lexer ends, having read at least `k` characters; `f` gives the lexer in the
result. -/
def ReadsTo (f : α → GSLexer) (l : GSLexer) (k : Nat) : Result α → Prop
  | .ok a => Reads l (f a) k
  | .error e => e ≠ .outOfFuel

theorem readsTo_error {f : α → GSLexer} {l : GSLexer} (msg : String) :
    ReadsTo f l k (error msg) := by
  intro h
  cases h

theorem ReadsTo.bind {f : α → GSLexer} {g : β → GSLexer} {l : GSLexer} {j : Nat} {r : Result α}
    {m : α → Result β} (hr : ReadsTo f l j r)
    (hm : ∀ a, Reads l (f a) j → ReadsTo g l k (m a)) : ReadsTo g l k (r >>= m) := by
  cases r with
  | error e => exact hr
  | ok a => exact hm a hr

/-- The first step has read something already. -/
theorem Reads.readsTo {f : α → GSLexer} {l l₁ : GSLexer} {j : Nat} {r : Result α}
    (h : Reads l l₁ j) (hr : ReadsTo f l₁ k r) : ReadsTo f l (j + k) r := by
  cases r with
  | error e => exact hr
  | ok a => exact h.trans hr

theorem ReadsTo.mono {f : α → GSLexer} {l : GSLexer} {j : Nat} {r : Result α}
    (h : ReadsTo f l k r) (hj : j ≤ k) : ReadsTo f l j r := by
  cases r with
  | error e => exact h
  | ok a => exact Reads.mono h hj

/-! ### Characters -/

theorem length_pos {l : GSLexer} (h : l.CUR_CHAR ≠ 0) : 0 < l.text.length := by
  unfold CUR_CHAR at h
  cases htext : l.text with
  | nil => simp [htext] at h
  | cons c rest => simp

theorem reads_NEXT (l : GSLexer) : Reads l l.NEXT 0 := by
  refine ⟨?_, rfl, rfl, rfl⟩
  simp [NEXT]

theorem reads_NEXT_of {l : GSLexer} (h : l.CUR_CHAR ≠ 0) : Reads l l.NEXT 1 := by
  have hpos := length_pos h
  refine ⟨?_, rfl, rfl, rfl⟩
  simp only [NEXT, List.length_tail]
  omega

theorem reads_APPEND_CHAR (l : GSLexer) (c : UInt8) : Reads l (l.APPEND_CHAR c) 0 :=
  ⟨Nat.le_refl _, rfl, rfl, rfl⟩

theorem reads_take_of {l : GSLexer} (h : l.CUR_CHAR ≠ 0) : Reads l l.take 1 :=
  ((reads_APPEND_CHAR l l.CUR_CHAR).trans (reads_NEXT_of h)).mono (Nat.le_refl 1)

/-- A run of characters that does not take the end of the text ends. -/
theorem readsTo_takeWhile {p : UInt8 → Bool} (hp : p 0 = false) {l : GSLexer}
    (hn : l.text.length < n) : ReadsTo id l 0 (takeWhile p n l) := by
  induction n generalizing l with
  | zero => exact absurd hn (Nat.not_lt_zero _)
  | succ n ih =>
    unfold takeWhile
    split
    · rename_i hcur
      have hne : l.CUR_CHAR ≠ 0 := by
        intro hzero
        rw [hzero, hp] at hcur
        cases hcur
      have hread := reads_take_of hne
      have htext := hread.text
      exact (hread.readsTo (ih (by omega))).mono (Nat.zero_le _)
    · exact Reads.refl l

/-! ### Comments -/

/-- A block comment ends, at its `*/` or with an error at the end of the text.
-/
theorem readsTo_LexBlockComment {l : GSLexer} (hn : l.text.length < n) :
    ReadsTo id l 0 (LexBlockComment n l) := by
  induction n generalizing l with
  | zero => exact absurd hn (Nat.not_lt_zero _)
  | succ n ih =>
    -- Whatever comes next, a character that is not zero has been read.
    have hround {l' : GSLexer} (hread : Reads l l' 1) : ReadsTo id l 0 (LexBlockComment n l') := by
      have htext := hread.text
      exact (hread.readsTo (ih (by omega))).mono (Nat.zero_le _)
    unfold LexBlockComment
    dsimp only
    split
    · rename_i hstar
      have hnext : Reads l l.NEXT 1 := by
        apply reads_NEXT_of
        rw [hstar]
        decide
      split
      · exact (hnext.trans (reads_NEXT _)).mono (Nat.zero_le _)
      · exact hround hnext
    · split
      · rename_i hline
        apply hround
        have hnext : Reads l l.NEXT 1 := by
          apply reads_NEXT_of
          rw [hline]
          decide
        exact ⟨hnext.text, rfl, rfl, rfl⟩
      · split
        · exact readsTo_error _
        · exact hround (reads_NEXT_of ‹_›)

/-- A line comment takes at least the character it starts at. -/
theorem readsTo_LexLineComment {l : GSLexer} (hcur : l.CUR_CHAR ≠ 0) (hn : l.text.length ≤ n) :
    ReadsTo id l 1 (LexLineComment n l) := by
  induction n generalizing l with
  | zero => exact absurd (length_pos hcur) (Nat.not_lt.mpr hn)
  | succ n ih =>
    have hnext := reads_NEXT_of hcur
    have htext := hnext.text
    unfold LexLineComment
    dsimp only
    split
    · rename_i hmore
      have hne : l.NEXT.CUR_CHAR ≠ 0 := by
        intro hzero
        simp [IS_EOB, hzero] at hmore
      exact (hnext.readsTo (ih hne (by omega))).mono (by omega)
    · exact hnext

/-! ### Strings -/

theorem reads_AddUTF8 (l : GSLexer) (ch : Nat) : Reads l (l.AddUTF8 ch) 0 := by
  unfold AddUTF8
  dsimp only
  repeat' split
  all_goals exact ⟨Nat.le_refl _, rfl, rfl, rfl⟩

/-- At most `m` digits are read, and only forward. -/
theorem reads_hexDigits (m : Nat) (l : GSLexer) : Reads l (hexDigits m l).2 0 := by
  induction m generalizing l with
  | zero => exact Reads.refl l
  | succ m ih =>
    unfold hexDigits
    split
    · exact (reads_NEXT l).trans (ih l.NEXT)
    · exact Reads.refl l

theorem readsTo_ProcessStringHexEscape {l : GSLexer} (maxdigits : Nat) :
    ReadsTo (·.2) l 0 (ProcessStringHexEscape l maxdigits) := by
  unfold ProcessStringHexEscape
  dsimp only
  split
  · exact readsTo_error _
  · exact (reads_NEXT l).trans (reads_hexDigits maxdigits l.NEXT)

/-- An escape sequence ends. -/
theorem readsTo_readEscape (l : GSLexer) : ReadsTo id l 0 (readEscape l) := by
  unfold readEscape
  dsimp only
  split
  · apply (readsTo_ProcessStringHexEscape 2).bind
    intro a ha
    exact ha.trans (reads_APPEND_CHAR _ _)
  · split
    · apply (readsTo_ProcessStringHexEscape _).bind
      intro a ha
      exact ha.trans (reads_AddUTF8 _ _)
    · split
      · exact (reads_APPEND_CHAR l _).trans (reads_NEXT _)
      · exact readsTo_error _

/-- The characters of a string end at the delimiter or with an error at the
end of the text. -/
theorem readsTo_readChars {ndelim : UInt8} (hdelim : ndelim ≠ 0) (verbatim : Bool) {l : GSLexer}
    (hn : l.text.length < n) : ReadsTo id l 0 (readChars ndelim verbatim n l) := by
  induction n generalizing l with
  | zero => exact absurd hn (Nat.not_lt_zero _)
  | succ n ih =>
    have hround {l' : GSLexer} (hread : Reads l l' 1) :
        ReadsTo id l 0 (readChars ndelim verbatim n l') := by
      have htext := hread.text
      exact (hread.readsTo (ih (by omega))).mono (Nat.zero_le _)
    unfold readChars
    dsimp only
    split
    · rename_i hclose
      have hnext : Reads l l.NEXT 1 := by
        apply reads_NEXT_of
        rw [hclose]
        exact hdelim
      split
      · rename_i hquote
        have htake : Reads l.NEXT l.NEXT.take 1 := by
          apply reads_take_of
          rw [hquote.2]
          decide
        exact hround ((hnext.trans htake).mono (Nat.le_succ 1))
      · exact hnext.mono (Nat.zero_le 1)
    · split
      · exact readsTo_error _
      · rename_i hne
        split
        · split
          · exact readsTo_error _
          · apply hround
            have htake := reads_take_of hne
            exact ⟨htake.text, rfl, rfl, rfl⟩
        · split
          · have hnext := reads_NEXT_of hne
            have hescape := hnext.readsTo (readsTo_readEscape l.NEXT)
            cases hread : l.NEXT.readEscape with
            | error e =>
              rw [hread] at hescape
              exact hescape
            | ok l' =>
              rw [hread] at hescape
              exact hround hescape
          · exact hround (reads_take_of hne)

/-- A token is read: the end of the text is none. -/
def ReadsToken (l : GSLexer) : Result (Token × GSLexer) → Prop
  | .ok (t, l') => Reads l l' 1 ∧ t ≠ .eob
  | .error e => e ≠ .outOfFuel

theorem readsToken_error {l : GSLexer} (msg : String) : ReadsToken l (error msg) := by
  intro h
  cases h

theorem ReadsTo.token {f : α → GSLexer} {l : GSLexer} {j : Nat} {r : Result α}
    {m : α → Result (Token × GSLexer)} (hr : ReadsTo f l j r)
    (hm : ∀ a, Reads l (f a) j → ReadsToken l (m a)) : ReadsToken l (r >>= m) := by
  cases r with
  | error e => exact hr
  | ok a => exact hm a hr

/-- The value of a token is stored. -/
theorem Reads.store {l l' : GSLexer} (h : Reads l l' 1) {t : Token} (ht : t ≠ .eob)
    (svalue : List UInt8) (nvalue : GSInteger) (fvalue : GSFloat) :
    ReadsToken l (.ok (t, { l' with svalue := svalue, nvalue := nvalue, fvalue := fvalue })) :=
  ⟨⟨h.text, h.curtoken, h.prevtoken, h.lasttokenline⟩, ht⟩

/-- A string literal is a token or an error, also where its quote is never
closed. -/
theorem readsToken_ReadString {l : GSLexer} {ndelim : UInt8} (hdelim : ndelim ≠ 0)
    (verbatim : Bool) (hcur : l.CUR_CHAR ≠ 0) (hn : l.text.length ≤ n) :
    ReadsToken l (ReadString n l ndelim verbatim) := by
  have hopen : Reads l l.INIT_TEMP_STRING.NEXT 1 := by
    have hnext := reads_NEXT_of hcur
    exact ⟨hnext.text, rfl, rfl, rfl⟩
  have htext := hopen.text
  unfold ReadString
  dsimp only
  split
  · exact readsToken_error _
  · have hchars := readsTo_readChars hdelim verbatim (l := l.INIT_TEMP_STRING.NEXT) (n := n)
      (by omega)
    apply (hopen.readsTo hchars).token
    intro l' hl'
    split
    · split
      · exact readsToken_error _
      · exact hl'.store (by simp) _ _ _
      · exact readsToken_error _
    · exact hl'.store (by simp) _ _ _

/-! ### Numbers and names -/

/-- The digits, points and exponent of a number end. -/
theorem readsTo_readDecimal {l : GSLexer} (isfloat : Bool) (hn : l.text.length < n) :
    ReadsTo (·.2) l 0 (readDecimal n l isfloat) := by
  induction n generalizing l isfloat with
  | zero => exact absurd hn (Nat.not_lt_zero _)
  | succ n ih =>
    have hround {l' : GSLexer} (isfloat : Bool) (hread : Reads l l' 1) :
        ReadsTo (·.2) l 0 (readDecimal n l' isfloat) := by
      have htext := hread.text
      exact (hread.readsTo (ih isfloat (by omega))).mono (Nat.zero_le _)
    unfold readDecimal
    dsimp only
    split
    · rename_i hdigit
      apply hround
      apply reads_take_of
      intro hzero
      rw [hzero] at hdigit
      revert hdigit
      decide
    · split
      · rename_i hexponent
        have htake : Reads l l.take 1 := by
          apply reads_take_of
          intro hzero
          rw [hzero] at hexponent
          revert hexponent
          decide
        have hdigits {l' : GSLexer} (hread : Reads l l' 1) : ReadsTo (·.2) l 0
            (if (!isDigit l'.CUR_CHAR) = true then error "exponent expected"
              else readDecimal n l'.take true) := by
          split
          · exact readsTo_error _
          · exact hround true ((hread.trans (reads_APPEND_CHAR _ _)).trans (reads_NEXT _))
        have hsign : Reads l (if l.take.CUR_CHAR = SC '+' ∨ l.take.CUR_CHAR = SC '-' then
            l.take.take else l.take) 1 := by
          split
          · exact (htake.trans (reads_APPEND_CHAR _ _)).trans (reads_NEXT _)
          · exact htake
        exact hdigits hsign
      · exact Reads.refl l

/-- A number takes its first digit and is a token. -/
theorem readsToken_ReadNumber (strtod : List UInt8 → GSFloat) {l : GSLexer}
    (hcur : l.CUR_CHAR ≠ 0) (hn : l.text.length ≤ n) :
    ReadsToken l (ReadNumber strtod n l) := by
  have hopen : Reads l l.INIT_TEMP_STRING.NEXT 1 := by
    have hnext := reads_NEXT_of hcur
    exact ⟨hnext.text, rfl, rfl, rfl⟩
  have htext := hopen.text
  unfold ReadNumber
  dsimp only
  split
  · apply (hopen.readsTo (readsTo_takeWhile (by decide) (by omega))).token
    intro l' hl'
    split
    · exact readsToken_error _
    · exact hl'.store (by simp) _ _ _
  · split
    · have hnext := hopen.trans (reads_NEXT l.INIT_TEMP_STRING.NEXT)
      have htext' := hnext.text
      apply (hnext.readsTo (readsTo_takeWhile (by decide) (by omega))).token
      intro l' hl'
      split
      · exact readsToken_error _
      · exact hl'.store (by simp) _ _ _
    · have happend := hopen.trans (reads_APPEND_CHAR l.INIT_TEMP_STRING.NEXT l.CUR_CHAR)
      have htext' := happend.text
      apply (happend.readsTo (readsTo_readDecimal false (by omega))).token
      rintro ⟨isfloat, l'⟩ hl'
      dsimp only
      split
      · exact hl'.store (by simp) _ _ _
      · exact hl'.store (by simp) _ _ _

theorem GetIDType_ne_eob (name : List UInt8) : GetIDType name ≠ .eob := by
  have hkeywords : ∀ keyword ∈ keywords, keyword.2 ≠ .eob := by decide
  unfold GetIDType
  split
  · exact hkeywords _ (List.mem_of_find?_eq_some ‹_›)
  · simp

/-- A name takes its first character and is a token. -/
theorem readsToken_ReadID {l : GSLexer} (hcur : l.CUR_CHAR ≠ 0) (hn : l.text.length ≤ n) :
    ReadsToken l (ReadID n l) := by
  have hopen : Reads l l.INIT_TEMP_STRING.take 1 := by
    have htake := reads_take_of hcur
    exact ⟨htake.text, rfl, rfl, rfl⟩
  have htext := hopen.text
  unfold ReadID
  apply (hopen.readsTo (readsTo_takeWhile (by decide) (by omega))).token
  intro l' hl'
  dsimp only
  split
  · exact hl'.store (GetIDType_ne_eob _) _ _ _
  · exact ⟨hl', GetIDType_ne_eob _⟩

/-! ### Tokens -/

variable (strtod : List UInt8 → GSFloat)

/-- A token was returned; the lexer is after it. -/
structure Returns (l : GSLexer) (r : Token × GSLexer) : Prop where
  token : r.1 ≠ .eob
  text : r.2.text.length < l.text.length
  curtoken : r.2.curtoken = some r.1
  prevtoken : r.2.prevtoken = l.curtoken
  lasttokenline : r.2.lasttokenline = l.lasttokenline

/-- A step of the lexer ends, with a token where it does not fail. -/
def ReturnsFrom (l : GSLexer) : Result (Token × GSLexer) → Prop
  | .ok r => Returns l r
  | .error e => e ≠ .outOfFuel

theorem Reads.returns {l l' : GSLexer} (h : Reads l l' 1) {t : Token} (ht : t ≠ .eob) :
    ReturnsFrom l (l'.RETURN_TOKEN t) :=
  ⟨ht, h.text, rfl, h.curtoken, h.lasttokenline⟩

theorem ReadsToken.returns {l : GSLexer} {r : Result (Token × GSLexer)} (h : ReadsToken l r) :
    ReturnsFrom l (returnRead r) := by
  cases r with
  | error e => exact h
  | ok a => exact h.1.returns h.2

theorem returnsFrom_error {l : GSLexer} (msg : String) : ReturnsFrom l (error msg) := by
  intro h
  cases h

theorem returnsFrom_ite {l : GSLexer} {p : Prop} [Decidable p] {r r' : Result (Token × GSLexer)}
    (h : ReturnsFrom l r) (h' : ReturnsFrom l r') : ReturnsFrom l (if p then r else r') := by
  split
  · exact h
  · exact h'

section

variable {l : GSLexer}

/-- The characters of a token of one or more characters. -/
theorem Reads.next {l₁ : GSLexer} (h : Reads l l₁ 1) : Reads l l₁.NEXT 1 :=
  h.trans (reads_NEXT l₁)

/-- An operator of one or two characters is returned behind them. -/
theorem returnsFrom_oneOrTwo (hcur : l.CUR_CHAR ≠ 0) (one c : Char) {two : Token}
    (htwo : two ≠ .eob) : ReturnsFrom l (l.oneOrTwo one c two) := by
  have hnext := reads_NEXT_of hcur
  unfold oneOrTwo
  dsimp only
  split
  · exact hnext.returns (by simp)
  · exact hnext.next.returns htwo

theorem returnsFrom_lexLess (hcur : l.CUR_CHAR ≠ 0) : ReturnsFrom l l.lexLess := by
  have hnext := reads_NEXT_of hcur
  unfold lexLess
  dsimp only
  repeat' split
  all_goals first
    | exact hnext.returns (by simp)
    | exact hnext.next.returns (by simp)
    | exact hnext.next.next.returns (by simp)

theorem returnsFrom_lexGreater (hcur : l.CUR_CHAR ≠ 0) : ReturnsFrom l l.lexGreater := by
  have hnext := reads_NEXT_of hcur
  unfold lexGreater
  dsimp only
  repeat' split
  all_goals first
    | exact hnext.returns (by simp)
    | exact hnext.next.returns (by simp)
    | exact hnext.next.next.returns (by simp)

theorem returnsFrom_lexDot (hcur : l.CUR_CHAR ≠ 0) : ReturnsFrom l l.lexDot := by
  have hnext := reads_NEXT_of hcur
  unfold lexDot
  dsimp only
  split
  · exact hnext.returns (by simp)
  · split
    · exact returnsFrom_error _
    · exact hnext.next.next.returns (by simp)

theorem returnsFrom_lexMinus (hcur : l.CUR_CHAR ≠ 0) : ReturnsFrom l l.lexMinus := by
  have hnext := reads_NEXT_of hcur
  unfold lexMinus
  dsimp only
  repeat' split
  all_goals first
    | exact hnext.returns (by simp)
    | exact hnext.next.returns (by simp)

theorem returnsFrom_lexPlus (hcur : l.CUR_CHAR ≠ 0) : ReturnsFrom l l.lexPlus := by
  have hnext := reads_NEXT_of hcur
  unfold lexPlus
  dsimp only
  repeat' split
  all_goals first
    | exact hnext.returns (by simp)
    | exact hnext.next.returns (by simp)

theorem returnsFrom_lexSlash {l₁ : GSLexer} (h : Reads l l₁ 1) : ReturnsFrom l l₁.lexSlash := by
  unfold lexSlash
  repeat' split
  all_goals first
    | exact h.returns (by simp)
    | exact h.next.returns (by simp)

theorem Reads.returnsFrom {l₁ : GSLexer} {k : Nat} (h : Reads l l₁ k)
    {r : Result (Token × GSLexer)} (hr : ReturnsFrom l₁ r) : ReturnsFrom l r := by
  cases r with
  | error e => exact hr
  | ok a =>
    have htext := h.text
    have hless := hr.text
    exact ⟨hr.token, by omega, hr.curtoken, hr.prevtoken.trans h.curtoken,
      hr.lasttokenline.trans h.lasttokenline⟩

variable (hcur : l.CUR_CHAR ≠ 0) (hn : l.text.length ≤ n)

include hcur hn

/-- A verbatim string, or the `@` of a lambda, is returned. -/
theorem returnsFrom_lexVerbatim : ReturnsFrom l (lexVerbatim n l) := by
  have hnext := reads_NEXT_of hcur
  have htext := hnext.text
  unfold lexVerbatim
  dsimp only
  split
  · exact hnext.returns (by simp)
  · rename_i hquote
    have hopen : l.NEXT.CUR_CHAR ≠ 0 := by
      rw [Decidable.not_not.mp hquote]
      decide
    apply hnext.returnsFrom
    exact (readsToken_ReadString (by decide) true hopen (by omega)).returns

/-- Whatever starts with another character, a token is returned behind it. -/
theorem returnsFrom_lexOther : ReturnsFrom l (lexOther strtod n l) := by
  unfold lexOther
  dsimp only
  split
  · exact (readsToken_ReadNumber strtod hcur hn).returns
  · split
    · exact (readsToken_ReadID hcur hn).returns
    · split
      · exact returnsFrom_error _
      · exact (reads_NEXT_of hcur).returns (by simp [Token.ofChar])

/-- A step of `Lex` that is no blank, newline or comment returns a token. -/
theorem returnsFrom_lexToken : ReturnsFrom l (lexToken strtod n l) := by
  unfold lexToken
  dsimp only
  repeat' with_reducible apply returnsFrom_ite
  all_goals first
    | exact returnsFrom_oneOrTwo hcur _ _ (by simp)
    | exact returnsFrom_lexLess hcur
    | exact returnsFrom_lexGreater hcur
    | exact returnsFrom_lexVerbatim hcur hn
    | exact (readsToken_ReadString hcur false hcur hn).returns
    | exact returnsFrom_lexDot hcur
    | exact returnsFrom_lexMinus hcur
    | exact returnsFrom_lexPlus hcur
    | exact returnsFrom_lexOther strtod hcur hn

end

/-! ### The loop of `Lex` -/

/-- The current token and the one before it, after `k` line breaks. -/
def afterBreaks : Nat → Option Token × Option Token → Option Token × Option Token
  | 0, tokens => tokens
  | k + 1, tokens => (some (.chr '\n'), (afterBreaks k tokens).1)

theorem afterBreaks_succ (k : Nat) (tokens : Option Token × Option Token) :
    afterBreaks (k + 1) tokens = afterBreaks k (some (.chr '\n'), tokens.1) := by
  induction k with
  | zero => rfl
  | succ k ih =>
    rw [afterBreaks, ih]
    rfl

/-- What a call of `Lex` returns: the end of the text, or a token that is shorter to go; line
breaks before it count as tokens. -/
structure Lexed (l : GSLexer) (r : Token × GSLexer) : Prop where
  text : if r.1 = .eob then r.2.CUR_CHAR = 0 else r.2.text.length < l.text.length
  tokens : ∃ k, (r.2.curtoken, r.2.prevtoken) =
    let before := afterBreaks k (l.curtoken, l.prevtoken)
    if r.1 = .eob then before else (some r.1, before.1)
  lasttokenline : r.2.lasttokenline = l.lasttokenline

/-- A call of `Lex` ends. -/
def LexedFrom (l : GSLexer) : Result (Token × GSLexer) → Prop
  | .ok r => Lexed l r
  | .error e => e ≠ .outOfFuel

theorem ReturnsFrom.lexed {l : GSLexer} {r : Result (Token × GSLexer)} (h : ReturnsFrom l r) :
    LexedFrom l r := by
  cases r with
  | error e => exact h
  | ok a =>
    refine ⟨?_, ⟨0, ?_⟩, h.lasttokenline⟩
    · rw [if_neg h.token]
      exact h.text
    · rw [if_neg h.token, h.curtoken, h.prevtoken]
      rfl

/-- Blanks and comments come first. -/
theorem Reads.lexed {l l₁ : GSLexer} {k : Nat} (h : Reads l l₁ k)
    {r : Result (Token × GSLexer)} (hr : LexedFrom l₁ r) : LexedFrom l r := by
  cases r with
  | error e => exact hr
  | ok a =>
    have htext := h.text
    refine ⟨?_, ?_, hr.lasttokenline.trans h.lasttokenline⟩
    · have hless := hr.text
      split
      · rwa [if_pos ‹_›] at hless
      · rw [if_neg ‹_›] at hless
        omega
    · obtain ⟨k, htokens⟩ := hr.tokens
      rw [h.curtoken, h.prevtoken] at htokens
      exact ⟨k, htokens⟩

/-- A newline is noted, and `Lex` goes on behind it. -/
theorem lexed_newline {l : GSLexer} (line : GSInteger) {r : Result (Token × GSLexer)}
    (h : LexedFrom { l with
      currentline := line, prevtoken := l.curtoken, curtoken := some (.chr '\n') }.NEXT r) :
    LexedFrom l r := by
  cases r with
  | error e => exact h
  | ok a =>
    refine ⟨?_, ?_, h.lasttokenline⟩
    · have hless := h.text
      split
      · rwa [if_pos ‹_›] at hless
      · rw [if_neg ‹_›] at hless
        exact Nat.lt_of_lt_of_le hless (reads_NEXT l).text
    · obtain ⟨k, htokens⟩ := h.tokens
      refine ⟨k + 1, ?_⟩
      rw [afterBreaks_succ]
      exact htokens

/-- After a comment, the loop goes on. -/
theorem lexedFrom_comment {l : GSLexer}
    (h : ∀ l₁, Reads l l₁ 1 → LexedFrom l (lexLoop strtod n l₁)) (r : Result GSLexer) {k : Nat}
    (hk : 1 ≤ k) :
    ReadsTo id l k r → LexedFrom l (match r with
      | .ok l => lexLoop strtod n l
      | .error e => .error e) := by
  intro hread
  cases r with
  | error e => exact hread
  | ok l₁ => exact h l₁ (Reads.mono hread hk)

/-- **A call of `Lex` ends**: in every round it takes a character. -/
theorem lexedFrom_lexLoop {l : GSLexer} (hn : l.text.length < n) :
    LexedFrom l (lexLoop strtod n l) := by
  induction n generalizing l with
  | zero => exact absurd hn (Nat.not_lt_zero _)
  | succ n ih =>
    -- What was read was a character at least.
    have hround {l₁ : GSLexer} (h : Reads l l₁ 1) : LexedFrom l (lexLoop strtod n l₁) := by
      have htext := h.text
      exact h.lexed (ih (by omega))
    have hcomment := lexedFrom_comment strtod fun l₁ (h : Reads l l₁ 1) => hround h
    unfold lexLoop
    dsimp only
    split
    · rename_i hend
      refine ⟨?_, ⟨0, rfl⟩, rfl⟩
      rw [if_pos rfl]
      exact hend
    rename_i hcur
    have hnext := reads_NEXT_of hcur
    have htext := hnext.text
    split
    · exact hround hnext
    split
    · apply lexed_newline
      apply ih
      simp only [NEXT] at htext ⊢
      omega
    split
    · exact hcomment _ (Nat.le_refl 1) (readsTo_LexLineComment hcur (Nat.le_of_lt_succ hn))
    split
    · split
      · rename_i hstar
        have hblock : Reads l.NEXT l.NEXT.NEXT 1 := by
          apply reads_NEXT_of
          rw [hstar]
          decide
        have hless := hblock.text
        apply hcomment (LexBlockComment n l.NEXT.NEXT) (k := 2) (by decide)
        exact (hnext.trans hblock).readsTo (readsTo_LexBlockComment (by omega))
      split
      · rename_i hslash
        have hcur' : l.NEXT.CUR_CHAR ≠ 0 := by
          rw [hslash]
          decide
        apply hcomment (LexLineComment n l.NEXT) (k := 2) (by decide)
        exact hnext.readsTo (readsTo_LexLineComment hcur' (by omega))
      · exact (returnsFrom_lexSlash hnext).lexed
    · exact (returnsFrom_lexToken strtod hcur (Nat.le_of_lt_succ hn)).lexed

theorem lexedFrom_Lex {l : GSLexer} (hn : l.text.length < n) :
    LexedFrom { l with lasttokenline := l.currentline } (Lex strtod n l) :=
  lexedFrom_lexLoop strtod hn

/-! ### Lexemes -/

/-- The line breaks before a token, as far as they show in the tokens read. -/
def newlines (l : GSLexer) (r : Token × GSLexer) : Nat :=
  if r.1 = .eob then
    if (r.2.curtoken, r.2.prevtoken) = (l.curtoken, l.prevtoken) then 0
    else if r.2.prevtoken = l.curtoken then 1
    else 2
  else if r.2.prevtoken = l.curtoken then 0
  else 1

/-- The lexeme of a token that was returned. -/
def lexeme (l : GSLexer) (r : Token × GSLexer) : Lexeme where
  token := r.1
  newlines := newlines l r
  currentline := r.2.currentline
  longstr := r.2.longstr
  svalue := r.2.svalue
  nvalue := r.2.nvalue
  fvalue := r.2.fvalue

/-- The results of calling `Lex` up to the end of the text or an error; `n` bounds each call. -/
def scan (n : Nat) : Nat → GSLexer → List (Except String Lexeme)
  | 0, _ => []
  | m + 1, l =>
    match Lex strtod n l with
    | .ok r => .ok (lexeme l r) :: if r.1 = .eob then [] else scan n m r.2
    | .error (.error msg) => [.error msg]
    | .error .outOfFuel => []

/-- The lexemes of a text; `fvalue` is what `_fvalue` was before. -/
def lexemes (fvalue : GSFloat) (text : List UInt8) : List (Except String Lexeme) :=
  scan strtod (text.length + 1) (text.length + 1) { text := text, fvalue := fvalue }

/-- A scan has no more lexemes than rounds. -/
theorem length_scan_le (m : Nat) (l : GSLexer) : (scan strtod n m l).length ≤ m := by
  induction m generalizing l with
  | zero => exact Nat.le_refl 0
  | succ m ih =>
    unfold scan
    split
    · rename_i r _
      rw [List.length_cons]
      apply Nat.succ_le_succ
      split
      · exact Nat.zero_le m
      · exact ih r.2
    · exact Nat.succ_le_succ (Nat.zero_le m)
    · exact Nat.zero_le _

/-- The lexer as the compiler sees it, with the lexemes still to come. -/
def view (l : GSLexer) (input : List (Except String Lexeme)) : Lexer where
  input := input
  curtoken := l.curtoken
  prevtoken := l.prevtoken
  currentline := l.currentline
  lasttokenline := l.lasttokenline
  longstr := l.longstr
  svalue := l.svalue
  nvalue := l.nvalue
  fvalue := l.fvalue

/-- Line breaks in front of a token shift the two last tokens and nothing
else. -/
theorem repeat_shift (l : Lexer) (k : Nat) :
    Nat.repeat (·.shift (.chr '\n')) k l =
      { l with
        curtoken := (afterBreaks k (l.curtoken, l.prevtoken)).1
        prevtoken := (afterBreaks k (l.curtoken, l.prevtoken)).2 } := by
  induction k with
  | zero => rfl
  | succ k ih =>
    rw [Nat.repeat, ih]
    rfl

/-- `newlines` are as many as show. -/
theorem afterBreaks_newlines {l : GSLexer} {r : Token × GSLexer} (h : ∃ k,
    (r.2.curtoken, r.2.prevtoken) =
      let before := afterBreaks k (l.curtoken, l.prevtoken)
      if r.1 = .eob then before else (some r.1, before.1)) :
    (r.2.curtoken, r.2.prevtoken) =
      let before := afterBreaks (newlines l r) (l.curtoken, l.prevtoken)
      if r.1 = .eob then before else (some r.1, before.1) := by
  obtain ⟨k, htokens⟩ := h
  unfold newlines
  by_cases heob : r.1 = .eob
  · simp only [if_pos heob] at htokens ⊢
    split
    · assumption
    rename_i hsome
    match k with
    | 0 => exact absurd htokens hsome
    | 1 =>
      have hprev : r.2.prevtoken = l.curtoken := congrArg Prod.snd htokens
      rwa [if_pos hprev]
    | k + 2 =>
      split
      · rename_i hprev
        rw [htokens]
        have hbreak : r.2.prevtoken = some (.chr '\n') := congrArg Prod.snd htokens
        rw [afterBreaks, afterBreaks, afterBreaks, afterBreaks, ← hprev, hbreak]
      · exact htokens
  · simp only [if_neg heob] at htokens ⊢
    have hprev : r.2.prevtoken = (afterBreaks k (l.curtoken, l.prevtoken)).1 :=
      congrArg Prod.snd htokens
    rw [htokens]
    split
    · rename_i hsame
      rw [← hprev, hsame]
      rfl
    · rename_i hsome
      cases k with
      | zero => exact absurd hprev hsome
      | succ k => rfl

/-- The compiler, which has the lexemes that are left, reads the next one as the lexer returns it,
and comes to the lexer that is left. -/
def ReadsNext (n m : Nat) (l : GSLexer) : Prop :=
  (l.view (scan strtod n (m + 1) l)).lex =
    match Lex strtod n l with
    | .ok r => .ok (r.1, r.2.view (if r.1 = .eob then [] else scan strtod n m r.2))
    | .error (.error msg) => .error msg
    | .error .outOfFuel => .ok (.eob, l.view [])

/-- **The compiler reads the lexemes of the text as the lexer returns them.** -/
theorem view_lex_scan (m : Nat) {l : GSLexer} (hn : l.text.length < n) :
    ReadsNext strtod n m l := by
  have hlexed := lexedFrom_Lex strtod hn
  unfold ReadsNext
  rw [scan]
  cases hlex : Lex strtod n l with
  | error e =>
    rw [hlex] at hlexed
    cases e with
    | error msg => rfl
    | outOfFuel => exact absurd rfl hlexed
  | ok r =>
    rw [hlex] at hlexed
    have htokens : (r.2.curtoken, r.2.prevtoken) =
        let before := afterBreaks (newlines l r) (l.curtoken, l.prevtoken)
        if r.1 = .eob then before else (some r.1, before.1) := afterBreaks_newlines hlexed.tokens
    have hline : r.2.lasttokenline = l.currentline := hlexed.lasttokenline
    unfold Lexer.lex view lexeme
    dsimp only
    rw [repeat_shift]
    by_cases heob : r.1 = .eob
    · simp only [if_pos heob] at htokens ⊢
      rw [← htokens, ← hline]
    · simp only [if_neg heob] at htokens ⊢
      have hcurtoken : r.2.curtoken = some r.1 := congrArg Prod.fst htokens
      have hprevtoken := congrArg Prod.snd htokens
      dsimp only at hprevtoken
      unfold Lexer.shift
      dsimp only
      rw [← hprevtoken, ← hcurtoken, ← hline]

end GSLexer

/-! ### The compilation of a text -/

/-- The compilation of a text; `fvalue` is what `_fvalue` of the lexer was before. -/
def compileText (strtod : List UInt8 → GSFloat) (n : Nat) (sourcename : Object) (lineinfo : Bool)
    (consts : List (Object × Constant)) (fvalue : GSFloat) (text : List UInt8) :
    EStateM.Result CompileError Compiler FunctionProto :=
  Compiler.Compile n
    (Compiler.start sourcename lineinfo consts (GSLexer.lexemes strtod fvalue text))

/-- As many nested calls and rounds of a loop as the compilation of the text can need. -/
def steps (text : List UInt8) : Nat := 54 * (text.length + 1) + 34

/-- **Every compilation ends.** No call of the lexer goes on for ever, the compiler reads what the
calls return, and no loop or recursion of the compiler goes on for ever. -/
theorem compileText_ends (strtod : List UInt8 → GSFloat) (sourcename : Object) (lineinfo : Bool)
    (consts : List (Object × Constant)) (fvalue : GSFloat) (text : List UInt8) {n : Nat}
    (hn : steps text ≤ n) :
    (∀ l : GSLexer, GSLexer.Lex strtod (l.text.length + 1) l ≠ .error .outOfFuel ∧
      ∀ m, GSLexer.ReadsNext strtod (l.text.length + 1) m l) ∧
      ∀ c, compileText strtod n sourcename lineinfo consts fvalue text ≠ .error .outOfFuel c := by
  constructor
  · intro l
    have hfits := Nat.lt_succ_self l.text.length
    refine ⟨fun hlex => ?_, fun m => GSLexer.view_lex_scan strtod m hfits⟩
    have hlexed := GSLexer.lexedFrom_Lex strtod hfits
    rw [hlex] at hlexed
    exact hlexed rfl
  · have hlength : (GSLexer.lexemes strtod fvalue text).length ≤ text.length + 1 :=
      GSLexer.length_scan_le strtod _ _
    intro c
    apply Compiler.Compile_ends
    unfold steps at hn
    omega

/-- A call whose arguments end in a comment that is not closed. -/
theorem compileText_ends_comment :
    (∀ l : GSLexer, GSLexer.Lex (fun _ => 0) (l.text.length + 1) l ≠ .error .outOfFuel ∧
      ∀ m, GSLexer.ReadsNext (fun _ => 0) (l.text.length + 1) m l) ∧
      ∀ c, compileText (fun _ => 0) 412 .null false [] 0 (sc "f(/* x") ≠ .error .outOfFuel c :=
  compileText_ends (fun _ => 0) .null false [] 0 (sc "f(/* x") (by decide +kernel)

end GameScript
