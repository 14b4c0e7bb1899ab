import Mathlib.Data.List.Induction
import GameScript.Compiler.TypePlaces

/-!
The token `TK_FLOAT`. The lexer returns it for a floating literal and for the keyword `float`
(`GSlexer.cpp`), and the compiler tells the two apart nowhere: a literal passes for the name of a
type, and the keyword for a literal with the value of the last one.

`loaded_concat` and `loaded_of_passes` say which tokens of a text are read as float constants, and
with which values; `tokens_meet_iff` when all of them are literals with their own values.
-/

namespace GameScript

namespace GSLexer

variable {strtod : List UInt8 → GSFloat} {n : Nat} {l l' : GSLexer}

/-! ### What the lexer returns it for -/

/-- `longstr` is what a number is read from, and `fvalue` its value. -/
def IsNumeral (strtod : List UInt8 → GSFloat) (l : GSLexer) : Prop :=
  isDigit (l.longstr.headD 0) = true ∧ l.fvalue = strtod l.longstr

/-- `TK_FLOAT` stands for a number or for the keyword. -/
def FloatFrom (strtod : List UInt8 → GSFloat) (r : Result (Token × GSLexer)) : Prop :=
  ∀ l', r = .ok (.TK_FLOAT, l') → IsNumeral strtod l' ∨ l'.longstr = sc "float"

theorem readDecimal_longstr {isfloat b : Bool} (h : readDecimal n l isfloat = .ok (b, l')) :
    l.longstr <+: l'.longstr := by
  induction n generalizing l isfloat with
  | zero => cases h
  | succ n ih =>
    have htake (l : GSLexer) : l.longstr <+: l.take.longstr := List.prefix_append _ _
    unfold readDecimal at h
    dsimp only at h
    split at h
    · exact (htake l).trans (ih h)
    split at h
    · generalize hsigned : (if l.take.CUR_CHAR = SC '+' ∨ l.take.CUR_CHAR = SC '-' then
        l.take.take else l.take) = l₂ at h
      have hsign : l.take.longstr <+: l₂.longstr := by
        rw [← hsigned]
        split
        · exact htake l.take
        · exact List.prefix_rfl
      split at h
      · cases h
      · exact ((htake l).trans hsign).trans ((htake l₂).trans (ih h))
    · cases h
      exact List.prefix_rfl

/-- A number is read from its first digit on. -/
theorem floatFrom_ReadNumber (hdigit : isDigit l.CUR_CHAR = true) :
    FloatFrom strtod (ReadNumber strtod n l) := by
  intro l' h
  unfold ReadNumber at h
  dsimp only at h
  split at h
  · cases hrun : takeWhile isODigit n l.INIT_TEMP_STRING.NEXT with
    | error e =>
      rw [hrun] at h
      cases h
    | ok l₁ =>
      rw [hrun] at h
      change (if isDigit l₁.CUR_CHAR = true then _ else _) = _ at h
      split at h <;> cases h
  split at h
  · cases hrun : takeWhile isXDigit n l.INIT_TEMP_STRING.NEXT.NEXT with
    | error e =>
      rw [hrun] at h
      cases h
    | ok l₁ =>
      rw [hrun] at h
      change (if MAX_HEX_DIGITS < l₁.longstr.length then _ else _) = _ at h
      split at h <;> cases h
  · cases hrun : readDecimal n (l.INIT_TEMP_STRING.NEXT.APPEND_CHAR l.CUR_CHAR) false with
    | error e =>
      rw [hrun] at h
      cases h
    | ok r =>
      obtain ⟨isfloat, l₁⟩ := r
      rw [hrun] at h
      obtain ⟨s, hs⟩ := readDecimal_longstr hrun
      have hhead : isDigit (l₁.longstr.headD 0) = true := by
        rw [← hs]
        exact hdigit
      change (if isfloat = true then _ else _) = _ at h
      split at h
      · cases h
        exact .inl ⟨hhead, rfl⟩
      · cases h

/-- Only `float` is the keyword. -/
theorem GetIDType_float {s : List UInt8} (h : GetIDType s = .TK_FLOAT) : s = sc "float" := by
  have hkeywords : ∀ keyword ∈ keywords, keyword.2 = .TK_FLOAT → keyword.1 = "float" := by decide
  unfold GetIDType at h
  split at h
  · rename_i keyword hfind
    have hspelling := List.find?_some hfind
    rw [hkeywords keyword (List.mem_of_find?_eq_some hfind) h] at hspelling
    exact (of_decide_eq_true hspelling).symm
  · cases h

theorem floatFrom_ReadID : FloatFrom strtod (ReadID n l) := by
  intro l' h
  unfold ReadID at h
  cases hrun : takeWhile isIdChar n l.INIT_TEMP_STRING.take with
  | error e =>
    rw [hrun] at h
    cases h
  | ok l₁ =>
    rw [hrun] at h
    change (if GetIDType l₁.longstr = .TK_IDENTIFIER ∨ GetIDType l₁.longstr = .TK_CONSTRUCTOR then
      _ else _) = _ at h
    split at h
    · rename_i hname
      have hfloat : GetIDType l₁.longstr = .TK_FLOAT := congrArg Prod.fst (Except.ok.inj h)
      rw [hfloat] at hname
      simp at hname
    · have hfloat : GetIDType l₁.longstr = .TK_FLOAT := congrArg Prod.fst (Except.ok.inj h)
      obtain rfl : l₁ = l' := congrArg Prod.snd (Except.ok.inj h)
      exact .inr (GetIDType_float hfloat)

theorem floatFrom_ReadString {ndelim : UInt8} {verbatim : Bool} :
    FloatFrom strtod (ReadString n l ndelim verbatim) := by
  intro l' h
  unfold ReadString at h
  dsimp only at h
  split at h
  · cases h
  cases hrun : readChars ndelim verbatim n l.INIT_TEMP_STRING.NEXT with
  | error e =>
    rw [hrun] at h
    cases h
  | ok l₁ =>
    rw [hrun] at h
    change (if ndelim = SC '\'' then _ else _) = _ at h
    split at h
    · split at h <;> cases h
    · cases h

theorem floatFrom_token {t : Token} (ht : t ≠ .TK_FLOAT) : FloatFrom strtod (l.RETURN_TOKEN t) := by
  intro l' h
  exact absurd (congrArg Prod.fst (Except.ok.inj h)) ht

theorem floatFrom_error (msg : String) : FloatFrom strtod (error msg) := by
  intro l' h
  cases h

theorem floatFrom_ite {p : Prop} [Decidable p] {r r' : Result (Token × GSLexer)}
    (h : FloatFrom strtod r) (h' : FloatFrom strtod r') : FloatFrom strtod (if p then r else r') := by
  split
  · exact h
  · exact h'

theorem FloatFrom.returnRead {r : Result (Token × GSLexer)} (h : FloatFrom strtod r) :
    FloatFrom strtod (returnRead r) := by
  intro l' hreturn
  cases r with
  | error e => cases hreturn
  | ok a =>
    obtain ⟨t, l₁⟩ := a
    have htoken : t = .TK_FLOAT := congrArg Prod.fst (Except.ok.inj hreturn)
    cases hreturn
    exact h l₁ (by rw [htoken])

theorem floatFrom_oneOrTwo (one c : Char) {two : Token} (htwo : two ≠ .TK_FLOAT) :
    FloatFrom strtod (l.oneOrTwo one c two) :=
  floatFrom_ite (floatFrom_token (by simp)) (floatFrom_token htwo)

theorem floatFrom_lexOther : FloatFrom strtod (lexOther strtod n l) := by
  unfold lexOther
  dsimp only
  split
  · rename_i hdigit
    exact (floatFrom_ReadNumber hdigit).returnRead
  split
  · exact floatFrom_ReadID.returnRead
  split
  · exact floatFrom_error _
  · exact floatFrom_token (by simp [Token.ofChar])

theorem floatFrom_lexToken : FloatFrom strtod (lexToken strtod n l) := by
  unfold lexToken lexLess lexGreater lexVerbatim lexDot lexMinus lexPlus
  dsimp only
  repeat' with_reducible apply floatFrom_ite
  all_goals first
    | exact floatFrom_oneOrTwo _ _ (by simp)
    | exact floatFrom_token (by simp)
    | exact floatFrom_error _
    | exact floatFrom_ReadString.returnRead
    | exact floatFrom_lexOther

/-- After a comment, the loop goes on. -/
theorem floatFrom_comment (h : ∀ l, FloatFrom strtod (lexLoop strtod n l)) (r : Result GSLexer) :
    FloatFrom strtod (match r with
      | .ok l => lexLoop strtod n l
      | .error e => .error e) := by
  cases r with
  | error e =>
    intro l' h
    cases h
  | ok l₁ => exact h l₁

theorem floatFrom_lexLoop : FloatFrom strtod (lexLoop strtod n l) := by
  induction n generalizing l with
  | zero =>
    intro l' h
    cases h
  | succ n ih =>
    unfold lexLoop lexSlash
    dsimp only
    repeat' with_reducible apply floatFrom_ite
    all_goals first
      | exact ih
      | exact floatFrom_comment (fun _ => ih) _
      | exact floatFrom_token (by simp)
      | exact floatFrom_lexToken
      | (intro l' h; cases h)

/-- Where `Lex` returns `TK_FLOAT` it has read a number or the keyword. -/
theorem Lex_float (h : Lex strtod n l = .ok (.TK_FLOAT, l')) :
    IsNumeral strtod l' ∨ l'.longstr = sc "float" :=
  floatFrom_lexLoop l' h

/-- A lexeme is one that `Lex` has read with `TK_FLOAT`: a number with its value, or the keyword. -/
theorem scan_float {m : Nat} {x : Lexeme} (hx : .ok x ∈ scan strtod n m l)
    (htoken : x.token = .TK_FLOAT) :
    (isDigit (x.longstr.headD 0) = true ∧ x.fvalue = strtod x.longstr) ∨
      x.longstr = sc "float" := by
  induction m generalizing l with
  | zero => cases hx
  | succ m ih =>
    unfold scan at hx
    cases hlex : Lex strtod n l with
    | error e =>
      rw [hlex] at hx
      cases e <;> simp at hx
    | ok r =>
      rw [hlex] at hx
      rcases List.mem_cons.mp hx with hhead | hrest
      · obtain rfl : x = lexeme l r := Except.ok.inj hhead
        have hlex' : Lex strtod n l = .ok (.TK_FLOAT, r.2) := by
          rw [hlex, ← htoken]
          rfl
        exact Lex_float hlex'
      · split at hrest
        · cases hrest
        · exact ih hrest

end GSLexer

open GSLexer Compiler Effect

/-! ### Places of a text -/

section

variable (n : Nat) (sourcename : Object) (lineinfo : Bool) (consts : List (Object × Constant))

/-- Behind the lexemes `pre`, the compiler gets past the token `t` in the place of `x`: it comes to
the end of the input. -/
def Passes (pre : List (Except String Lexeme)) (x : Lexeme) (t : Token) : Prop :=
  AtEnd (leaves (Compile n) (start sourcename lineinfo consts (pre ++ [placing x t])))

instance decidable_Passes (pre : List (Except String Lexeme)) (x : Lexeme) (t : Token) :
    Decidable (Passes n sourcename lineinfo consts pre x t) :=
  decidable_AtEnd _

/-- `x` stands where the compiler reads the name of a type. -/
def TypePlace (pre : List (Except String Lexeme)) (x : Lexeme) : Prop :=
  Passes n sourcename lineinfo consts pre x .TK_INT

instance decidable_TypePlace (pre : List (Except String Lexeme)) (x : Lexeme) :
    Decidable (TypePlace n sourcename lineinfo consts pre x) :=
  decidable_Passes n sourcename lineinfo consts pre x .TK_INT

/-- The float constants that the compiler reads from the lexemes `pre`. -/
def constantsOf (pre : List (Except String Lexeme)) : List FloatConstant :=
  (leaves (Compile n) (start sourcename lineinfo consts pre)).loaded

variable {n sourcename lineinfo consts}

theorem not_passes_before {pre : List (Except String Lexeme)} {x : Lexeme} {t : Token}
    (h : ∀ y, Compile n (feed y (start sourcename lineinfo consts pre)) =
      mapState (feed y) (Compile n (start sourcename lineinfo consts pre))) :
    ¬ Passes n sourcename lineinfo consts pre x t := by
  intro hend
  have hleft : leaves (Compile n) (feed (placing x t) (start sourcename lineinfo consts pre)) =
      feed (placing x t) (leaves (Compile n) (start sourcename lineinfo consts pre)) := by
    unfold leaves
    rw [h]
    cases Compile n (start sourcename lineinfo consts pre) <;> rfl
  have hinput := hend.2
  change (leaves (Compile n) (feed (placing x t) (start sourcename lineinfo consts pre))).lex.input =
    [] at hinput
  rw [hleft] at hinput
  exact List.append_ne_nil_of_right_ne_nil _ (List.cons_ne_nil _ _) hinput

variable (n sourcename lineinfo consts)

/-- Either every name of a type passes in a place and nothing else, or no type keyword does. -/
theorem passes_cases (pre : List (Except String Lexeme)) (x : Lexeme) :
    ((∀ t, t.isType = true → Passes n sourcename lineinfo consts pre x t) ∧
        ∀ t, t ≠ .eob → t.isType = false → ¬ Passes n sourcename lineinfo consts pre x t) ∨
      ∀ t, IsTypeKeyword t → ¬ Passes n sourcename lineinfo consts pre x t := by
  cases (opens_Compile n).place x (start sourcename lineinfo consts pre) with
  | before h => exact .inr fun t _ => not_passes_before h
  | type _ hgood hbad _ =>
    left
    refine ⟨hgood, fun t hne ht hend => ?_⟩
    obtain ⟨e, c', hrun, htoken⟩ := hbad t ht
    have heob : (leaves (Compile n)
        (feed (placing x t) (start sourcename lineinfo consts pre))).token = .eob := hend.1
    rw [leaves_error hrun] at heob
    exact hne (htoken.symm.trans heob)
  | other _ hkeyword _ =>
    right
    intro t ht hend
    have heob : t = .eob := (hkeyword t ht).symm.trans hend.1
    rw [heob] at ht
    rcases ht with ht | ht | ht | ht <;> cases ht

/-- A float constant is read from the next lexeme, where that is a token `TK_FLOAT` that passes in
no place of a type, or none is. -/
theorem loaded_concat (pre : List (Except String Lexeme)) (y : Except String Lexeme) :
    constantsOf n sourcename lineinfo consts (pre ++ [y]) =
        constantsOf n sourcename lineinfo consts pre ∨
      ∃ x negated, y = .ok x ∧ x.token = .TK_FLOAT ∧
        Passes n sourcename lineinfo consts pre x .TK_FLOAT ∧
        ¬ TypePlace n sourcename lineinfo consts pre x ∧
        constantsOf n sourcename lineinfo consts (pre ++ [y]) =
          constantsOf n sourcename lineinfo consts pre ++ [constantOf x negated] := by
  have hsame (h : ∀ y, Compile n (feed y (start sourcename lineinfo consts pre)) =
      mapState (feed y) (Compile n (start sourcename lineinfo consts pre))) :
      constantsOf n sourcename lineinfo consts (pre ++ [y]) =
        constantsOf n sourcename lineinfo consts pre := by
    change (leaves (Compile n) (feed y (start sourcename lineinfo consts pre))).loaded = _
    unfold constantsOf leaves
    rw [h]
    cases Compile n (start sourcename lineinfo consts pre) <;> rfl
  cases y with
  | error msg =>
    left
    have herror {x : Lexeme} (h : Reached x (Compile n) (start sourcename lineinfo consts pre)) :
        constantsOf n sourcename lineinfo consts (pre ++ [.error msg]) =
          constantsOf n sourcename lineinfo consts pre := by
      obtain ⟨e, c', hrun, hloaded⟩ := h.error msg
      change (leaves (Compile n) (feed (.error msg) (start sourcename lineinfo consts pre))).loaded = _
      rw [leaves_error hrun]
      exact hloaded
    cases (opens_Compile n).place { token := .eob } (start sourcename lineinfo consts pre) with
    | before h => exact hsame h
    | type h _ _ _ => exact herror h
    | other h _ _ => exact herror h
  | ok x =>
    have hplacing (t : Token) (ht : x.token = t) : .ok x = placing x t := by
      rw [← ht]
      rfl
    have hspent (h : Reached x (Compile n) (start sourcename lineinfo consts pre))
        (htoken : x.token ≠ .TK_FLOAT) : constantsOf n sourcename lineinfo consts (pre ++ [.ok x]) =
          constantsOf n sourcename lineinfo consts pre := (h.spent x.token htoken).loaded
    cases (opens_Compile n).place x (start sourcename lineinfo consts pre) with
    | before h => exact .inl (hsame h)
    | type h _ _ hfloat =>
      left
      by_cases htoken : x.token = .TK_FLOAT
      · rw [hplacing _ htoken]
        exact hfloat
      · exact hspent h htoken
    | other h hkeyword hfloat =>
      by_cases htoken : x.token = .TK_FLOAT
      · rw [hplacing _ htoken]
        rcases hfloat with hstands | ⟨hend, negated, hloaded⟩
        · exact .inl hstands.loaded
        · refine .inr ⟨x, negated, (hplacing _ htoken).symm, htoken, hend, fun hplace => ?_, hloaded⟩
          have heob : Token.TK_INT = .eob := (hkeyword .TK_INT (.inl rfl)).symm.trans hplace.1
          cases heob
      · exact .inl (hspent h htoken)

/-- A token `TK_FLOAT` that passes in no place of a type is read as a float constant. -/
theorem loaded_of_passes {pre : List (Except String Lexeme)} {x : Lexeme}
    (htoken : x.token = .TK_FLOAT) (hpass : Passes n sourcename lineinfo consts pre x .TK_FLOAT)
    (hplace : ¬ TypePlace n sourcename lineinfo consts pre x) :
    ∃ negated, constantOf x negated ∈ constantsOf n sourcename lineinfo consts (pre ++ [.ok x]) := by
  have hplacing : .ok x = placing x .TK_FLOAT := by
    rw [← htoken]
    rfl
  rw [hplacing]
  cases (opens_Compile n).place x (start sourcename lineinfo consts pre) with
  | before h => exact absurd hpass (not_passes_before h)
  | type _ hgood _ _ => exact absurd (hgood .TK_INT rfl) hplace
  | other _ _ hfloat =>
    rcases hfloat with hstands | ⟨-, negated, hloaded⟩
    · have heob : Token.TK_FLOAT = .eob := hstands.token.symm.trans hpass.1
      cases heob
    · exact ⟨negated, (congrArg (constantOf x negated ∈ ·) hloaded).mpr (by simp)⟩

theorem constantsOf_nil : constantsOf n sourcename lineinfo consts [] = [] :=
  (opens_Compile n).loaded (c := start sourcename lineinfo consts []) ⟨rfl, rfl⟩

/-- The constants read stay read. -/
theorem constantsOf_subset (pre rest : List (Except String Lexeme)) :
    constantsOf n sourcename lineinfo consts pre ⊆
      constantsOf n sourcename lineinfo consts (pre ++ rest) := by
  induction rest generalizing pre with
  | nil => rw [List.append_nil]; exact fun _ hk => hk
  | cons y rest ih =>
    rw [List.append_cons]
    refine fun k hk => ih (pre ++ [y]) ?_
    rcases loaded_concat n sourcename lineinfo consts pre y with hsame | ⟨_, _, -, -, -, -, hread⟩
    · rwa [hsame]
    · rw [hread]
      exact List.mem_append_left _ hk

/-- Every float constant is read from a token `TK_FLOAT` that passes in no place of a type. -/
theorem exists_of_mem_constantsOf {input : List (Except String Lexeme)} {k : FloatConstant}
    (hk : k ∈ constantsOf n sourcename lineinfo consts input) :
    ∃ pre x rest negated, input = pre ++ .ok x :: rest ∧ x.token = .TK_FLOAT ∧
      Passes n sourcename lineinfo consts pre x .TK_FLOAT ∧
      ¬ TypePlace n sourcename lineinfo consts pre x ∧ k = constantOf x negated := by
  induction input using List.reverseRecOn with
  | nil =>
    rw [constantsOf_nil] at hk
    cases hk
  | append_singleton pre y ih =>
    have hbefore (h : k ∈ constantsOf n sourcename lineinfo consts pre) :
        ∃ pre' x rest negated, pre ++ [y] = pre' ++ .ok x :: rest ∧ x.token = .TK_FLOAT ∧
          Passes n sourcename lineinfo consts pre' x .TK_FLOAT ∧
          ¬ TypePlace n sourcename lineinfo consts pre' x ∧ k = constantOf x negated := by
      obtain ⟨pre', x, rest, negated, hsplit, hrest⟩ := ih h
      exact ⟨pre', x, rest ++ [y], negated, by simp [hsplit], hrest⟩
    rcases loaded_concat n sourcename lineinfo consts pre y with
      hsame | ⟨x, negated, rfl, htoken, hpass, hplace, hread⟩
    · exact hbefore (hsame ▸ hk)
    · rw [hread, List.mem_append, List.mem_singleton] at hk
      rcases hk with hk | hk
      · exact hbefore hk
      · exact ⟨pre, x, [], negated, rfl, htoken, hpass, hplace, hk⟩

end

/-! ### The constants and the types of a text -/

section

variable (strtod : List UInt8 → GSFloat)

/-- The constant is a number with its own value, or with the sign changed. -/
def IsLiteral (k : FloatConstant) : Prop :=
  isDigit (k.longstr.headD 0) = true ∧
    k.value = if k.negated then strtod k.longstr ^^^ 0x80000000 else strtod k.longstr

instance decidable_IsLiteral (k : FloatConstant) : Decidable (IsLiteral strtod k) :=
  inferInstanceAs (Decidable (_ ∧ _))

/-- A type keyword or an identifier. -/
def IsTypeName (x : Lexeme) : Prop :=
  IsTypeKeyword x.token ∨ x.token = .TK_IDENTIFIER ∨
    x.token = .TK_FLOAT ∧ x.longstr = sc "float"

variable (n : Nat) (sourcename : Object) (lineinfo : Bool) (consts : List (Object × Constant))
  (fvalue : GSFloat)

/-- The float constants that the compilation of the text has read. -/
def floatConstants (text : List UInt8) : List FloatConstant :=
  match compileText strtod n sourcename lineinfo consts fvalue text with
  | .ok _ c | .error _ c => c.loaded

/-- In the compilation of the text, every float constant is a literal with its own value, every
token taken for the name of a type is one, and no type keyword is taken for anything else; the
keyword `float` is, where it is read as a constant. -/
structure TokensMeet (text : List UInt8) : Prop where
  constants : ∀ k ∈ floatConstants strtod n sourcename lineinfo consts fvalue text,
    IsLiteral strtod k
  types : ∀ pre x rest, lexemes strtod fvalue text = pre ++ .ok x :: rest → x.token ≠ .eob →
    Passes n sourcename lineinfo consts pre x x.token →
      if TypePlace n sourcename lineinfo consts pre x then IsTypeName x
      else ¬ IsTypeKeyword x.token

/-- In the whole text, where `TK_FLOAT` passes it is the keyword just if `int` would pass too. -/
def FloatsInPlace (text : List UInt8) : Prop :=
  ∀ pre x rest, lexemes strtod fvalue text = pre ++ .ok x :: rest → x.token = .TK_FLOAT →
    Passes n sourcename lineinfo consts pre x .TK_FLOAT →
      (x.longstr = sc "float" ↔ TypePlace n sourcename lineinfo consts pre x)

variable {strtod n sourcename lineinfo consts fvalue}

theorem floatConstants_eq (text : List UInt8) :
    floatConstants strtod n sourcename lineinfo consts fvalue text =
      constantsOf n sourcename lineinfo consts (lexemes strtod fvalue text) := by
  unfold floatConstants compileText constantsOf leaves
  cases Compile n (start sourcename lineinfo consts (lexemes strtod fvalue text)) <;> rfl

theorem not_isLiteral_float {x : Lexeme} {negated : Bool} (hx : x.longstr = sc "float") :
    ¬ IsLiteral strtod (constantOf x negated) := by
  rintro ⟨hdigit, -⟩
  change isDigit (x.longstr.headD 0) = true at hdigit
  rw [hx] at hdigit
  revert hdigit
  decide

theorem isLiteral_constantOf {x : Lexeme} (hdigit : isDigit (x.longstr.headD 0) = true)
    (hvalue : x.fvalue = strtod x.longstr) (negated : Bool) :
    IsLiteral strtod (constantOf x negated) := by
  refine ⟨hdigit, ?_⟩
  change (if negated then x.fvalue ^^^ 0x80000000 else x.fvalue) = _
  rw [hvalue]
  rfl

/-- A type keyword passes just in the places of types, and an identifier or `TK_FLOAT` there. -/
theorem types_of_floatsInPlace {text : List UInt8}
    (h : FloatsInPlace strtod n sourcename lineinfo consts fvalue text)
    {pre : List (Except String Lexeme)} {x : Lexeme} {rest : List (Except String Lexeme)}
    (hsplit : lexemes strtod fvalue text = pre ++ .ok x :: rest) (heob : x.token ≠ .eob)
    (hpass : Passes n sourcename lineinfo consts pre x x.token) :
    if TypePlace n sourcename lineinfo consts pre x then IsTypeName x
      else ¬ IsTypeKeyword x.token := by
  rcases passes_cases n sourcename lineinfo consts pre x with ⟨hgood, hbad⟩ | hnone
  · have hplace : TypePlace n sourcename lineinfo consts pre x := hgood .TK_INT rfl
    rw [if_pos hplace]
    have htype : x.token.isType = true := by
      cases hr : x.token.isType with
      | true => rfl
      | false => exact absurd hpass (hbad x.token heob hr)
    by_cases htoken : x.token = .TK_FLOAT
    · have hspelling := (h pre x rest hsplit htoken (htoken ▸ hpass)).mpr hplace
      exact .inr (.inr ⟨htoken, hspelling⟩)
    · unfold IsTypeName IsTypeKeyword
      revert htype htoken
      cases x.token <;> simp [Token.isType]
  · have hplace : ¬ TypePlace n sourcename lineinfo consts pre x := hnone .TK_INT (.inl rfl)
    rw [if_neg hplace]
    exact fun ht => hnone x.token ht hpass

end

end GameScript
