import GameScript.Tokens

/-!
The lexer (`GSlexer.cpp`). `text` is the current character and what the read
function has not returned yet; past its end the read function returns zero for ever,
and a zero in it is the end of the input too. Character classes are those of the "C" locale.

The loops of the source are bounded by a number that the callers supply. An error of
the lexer goes to the compiler, which leaves by `longjmp`.
-/

namespace GameScript

/-- How lexing stops: with an error, or because the bound of the model is used up. -/
inductive LexError where
  | error (msg : String)
  | outOfFuel
deriving DecidableEq, Repr

/-- `_SC` of a character. -/
def SC (c : Char) : UInt8 := UInt8.ofNat c.toNat

/-- A character of the source text as a token. -/
def Token.ofChar (c : UInt8) : Token := .chr (Char.ofNat c.toNat)

def isDigit (c : UInt8) : Bool := SC '0' ≤ c ∧ c ≤ SC '9'

def isODigit (c : UInt8) : Bool := SC '0' ≤ c ∧ c ≤ SC '7'

def isXDigit (c : UInt8) : Bool :=
  isDigit c ∨ SC 'a' ≤ c ∧ c ≤ SC 'f' ∨ SC 'A' ≤ c ∧ c ≤ SC 'F'

def isAlpha (c : UInt8) : Bool := SC 'a' ≤ c ∧ c ≤ SC 'z' ∨ SC 'A' ≤ c ∧ c ≤ SC 'Z'

def isAlnum (c : UInt8) : Bool := isAlpha c ∨ isDigit c

def isCntrl (c : UInt8) : Bool := c < 0x20 ∨ c = 0x7F

def isPrint (c : UInt8) : Bool := 0x20 ≤ c ∧ c < 0x7F

def isExponent (c : UInt8) : Bool := c = SC 'e' ∨ c = SC 'E'

/-- The value of a hexadecimal digit. -/
def digitValue (c : UInt8) : Nat :=
  if isDigit c then c.toNat - (SC '0').toNat
  else if SC 'a' ≤ c then c.toNat - (SC 'a').toNat + 10
  else c.toNat - (SC 'A').toNat + 10

/-- `strtoul` in base 16 of a few hexadecimal digits. -/
def hexValue (digits : List UInt8) : Nat :=
  digits.foldl (fun value c => 16 * value + digitValue c) 0

/-- `GSLexer`, less the column. `longstr` is without the zero that ends it; `svalue` is what
it held when a token with a text was read. `Init` leaves `fvalue` as it is. -/
structure GSLexer where
  text : List UInt8
  curtoken : Option Token := none
  prevtoken : Option Token := none
  currentline : GSInteger := 1
  lasttokenline : GSInteger := 1
  longstr : List UInt8 := []
  svalue : List UInt8 := []
  nvalue : GSInteger := 0
  fvalue : GSFloat
deriving DecidableEq, Repr

namespace GSLexer

abbrev Result (α : Type) := Except LexError α

def error {α : Type} (msg : String) : Result α := .error (.error msg)

def CUR_CHAR (l : GSLexer) : UInt8 := l.text.headD 0

def IS_EOB (l : GSLexer) : Bool := l.CUR_CHAR = 0

def NEXT (l : GSLexer) : GSLexer := { l with text := l.text.tail }

def INIT_TEMP_STRING (l : GSLexer) : GSLexer := { l with longstr := [] }

def APPEND_CHAR (l : GSLexer) (c : UInt8) : GSLexer := { l with longstr := l.longstr ++ [c] }

/-- `APPEND_CHAR(CUR_CHAR); NEXT();` -/
def take (l : GSLexer) : GSLexer := (l.APPEND_CHAR l.CUR_CHAR).NEXT

def RETURN_TOKEN (l : GSLexer) (t : Token) : Result (Token × GSLexer) :=
  .ok (t, { l with prevtoken := l.curtoken, curtoken := some t })

/-- `while(p(CUR_CHAR)) { APPEND_CHAR(CUR_CHAR); NEXT(); }` -/
def takeWhile (p : UInt8 → Bool) : Nat → GSLexer → Result GSLexer
  | 0, _ => .error .outOfFuel
  | n + 1, l => if p l.CUR_CHAR then takeWhile p n l.take else .ok l

theorem CUR_CHAR_of_text {l : GSLexer} {c : UInt8} {rest : List UInt8}
    (h : l.text = c :: rest) : l.CUR_CHAR = c := by
  unfold CUR_CHAR
  rw [h]
  rfl

theorem NEXT_of_text {l : GSLexer} {c : UInt8} {rest : List UInt8} (h : l.text = c :: rest) :
    l.NEXT = { l with text := rest } := by
  unfold NEXT
  rw [h]
  rfl

theorem take_of_text {l : GSLexer} {c : UInt8} {rest : List UInt8} (h : l.text = c :: rest) :
    l.take = { l with text := rest, longstr := l.longstr ++ [c] } := by
  unfold take
  rw [CUR_CHAR_of_text h]
  exact NEXT_of_text h

/-! ### Comments -/

def LexBlockComment : Nat → GSLexer → Result GSLexer
  | 0, _ => .error .outOfFuel
  | n + 1, l =>
    let c := l.CUR_CHAR
    if c = SC '*' then
      let l := l.NEXT
      if l.CUR_CHAR = SC '/' then .ok l.NEXT else LexBlockComment n l
    else if c = SC '\n' then
      LexBlockComment n { l with currentline := l.currentline + 1 }.NEXT
    else if c = 0 then error "missing \"*/\" in comment"
    else LexBlockComment n l.NEXT

def LexLineComment : Nat → GSLexer → Result GSLexer
  | 0, _ => .error .outOfFuel
  | n + 1, l =>
    let l := l.NEXT
    if l.CUR_CHAR ≠ SC '\n' ∧ !l.IS_EOB then LexLineComment n l else .ok l

/-! ### Strings -/

/-- `AddUTF8`. -/
def AddUTF8 (l : GSLexer) (ch : Nat) : GSLexer :=
  let add (l : GSLexer) (c : Nat) := l.APPEND_CHAR (UInt8.ofNat c)
  if ch < 0x80 then add l ch
  else if ch < 0x800 then add (add l (ch >>> 6 ||| 0xC0)) (ch &&& 0x3F ||| 0x80)
  else if ch < 0x10000 then
    add (add (add l (ch >>> 12 ||| 0xE0)) (ch >>> 6 &&& 0x3F ||| 0x80)) (ch &&& 0x3F ||| 0x80)
  else if ch < 0x110000 then
    add (add (add (add l (ch >>> 18 ||| 0xF0)) (ch >>> 12 &&& 0x3F ||| 0x80))
      (ch >>> 6 &&& 0x3F ||| 0x80)) (ch &&& 0x3F ||| 0x80)
  else l

/-- The loop of `ProcessStringHexEscape`: at most `maxdigits` digits. -/
def hexDigits : Nat → GSLexer → List UInt8 × GSLexer
  | 0, l => ([], l)
  | maxdigits + 1, l =>
    if isXDigit l.CUR_CHAR then
      let (digits, l') := hexDigits maxdigits l.NEXT
      (l.CUR_CHAR :: digits, l')
    else ([], l)

theorem hexDigits_of_text {l : GSLexer} {c : UInt8} {rest : List UInt8}
    (h : l.text = c :: rest) (hc : isXDigit c = true) (n : Nat) :
    hexDigits (n + 1) l = (c :: (hexDigits n { l with text := rest }).1,
      (hexDigits n { l with text := rest }).2) := by
  rw [hexDigits, CUR_CHAR_of_text h, NEXT_of_text h, if_pos hc]

/-- `ProcessStringHexEscape`. -/
def ProcessStringHexEscape (l : GSLexer) (maxdigits : Nat) : Result (List UInt8 × GSLexer) :=
  let l := l.NEXT
  if !isXDigit l.CUR_CHAR then error "hexadecimal number expected"
  else .ok (hexDigits maxdigits l)

/-- The character that a backslash and `c` stand for. -/
def escapeChar (c : UInt8) : Option UInt8 :=
  if c = SC 't' then some 9
  else if c = SC 'a' then some 7
  else if c = SC 'b' then some 8
  else if c = SC 'n' then some 10
  else if c = SC 'r' then some 13
  else if c = SC 'v' then some 11
  else if c = SC 'f' then some 12
  else if c = SC '0' then some 0
  else if c = SC '\\' then some (SC '\\')
  else if c = SC '"' then some (SC '"')
  else if c = SC '\'' then some (SC '\'')
  else none

/-- The character after a backslash, in a string that is not verbatim. -/
def readEscape (l : GSLexer) : Result GSLexer :=
  let c := l.CUR_CHAR
  if c = SC 'x' then do
    let (digits, l) ← l.ProcessStringHexEscape 2
    return l.APPEND_CHAR (UInt8.ofNat (hexValue digits))
  else if c = SC 'U' ∨ c = SC 'u' then do
    let (digits, l) ← l.ProcessStringHexEscape (if c = SC 'u' then 4 else 8)
    return l.AddUTF8 (hexValue digits)
  else
    match escapeChar c with
    | some e => .ok (l.APPEND_CHAR e).NEXT
    | none => error "unrecognised escaper char"

/-- The loops of `ReadString`, up to and with the closing delimiter. -/
def readChars (ndelim : UInt8) (verbatim : Bool) : Nat → GSLexer → Result GSLexer
  | 0, _ => .error .outOfFuel
  | n + 1, l =>
    let x := l.CUR_CHAR
    if x = ndelim then
      let l := l.NEXT
      -- a doubled quote in a verbatim string
      if verbatim ∧ l.CUR_CHAR = SC '"' then readChars ndelim verbatim n l.take else .ok l
    else if x = 0 then error "unfinished string"
    else if x = SC '\n' then
      if !verbatim then error "newline in a constant"
      else
        let l := l.take
        readChars ndelim verbatim n { l with currentline := l.currentline + 1 }
    else if x = SC '\\' ∧ !verbatim then
      match l.NEXT.readEscape with
      | .ok l => readChars ndelim verbatim n l
      | .error e => .error e
    else readChars ndelim verbatim n l.take

/-- A character constant has the value of a signed `char`. -/
def charValue (c : UInt8) : GSInteger := c.toInt8.toInt64

/-- `ReadString`; where it returns -1 its caller reports an error. -/
def ReadString (n : Nat) (l : GSLexer) (ndelim : UInt8) (verbatim : Bool) :
    Result (Token × GSLexer) := do
  let l := l.INIT_TEMP_STRING.NEXT
  if l.IS_EOB then error "error parsing the string"
  else
    let l ← readChars ndelim verbatim n l
    if ndelim = SC '\'' then
      match l.longstr with
      | [] => error "empty constant"
      | [c] => return (.TK_INTEGER, { l with nvalue := charValue c })
      | _ => error "constant too long"
    else return (.TK_STRING_LITERAL, { l with svalue := l.longstr })

/-! ### Numbers and names -/

/-- `LexInteger`, `LexOctal` and `LexHexadecimal`: the number wraps around. -/
def lexDigits (base : UInt64) (s : List UInt8) : GSInteger :=
  (s.foldl (fun res c => res * base + UInt64.ofNat (digitValue c)) 0).toInt64

def MAX_HEX_DIGITS : Nat := 16

/-- The loop of `ReadNumber` over decimal digits, points and exponents; the result says
whether the number is a float. -/
def readDecimal : Nat → GSLexer → Bool → Result (Bool × GSLexer)
  | 0, _, _ => .error .outOfFuel
  | n + 1, l, isfloat =>
    let c := l.CUR_CHAR
    if c = SC '.' ∨ isDigit c then readDecimal n l.take (isfloat ∨ c = SC '.')
    else if isExponent c then
      let l := l.take
      let l := if l.CUR_CHAR = SC '+' ∨ l.CUR_CHAR = SC '-' then l.take else l
      if !isDigit l.CUR_CHAR then error "exponent expected"
      else readDecimal n l.take true
    else .ok (isfloat, l)

variable (strtod : List UInt8 → GSFloat)

/-- `ReadNumber`. -/
def ReadNumber (n : Nat) (l : GSLexer) : Result (Token × GSLexer) := do
  let firstchar := l.CUR_CHAR
  let l := l.INIT_TEMP_STRING.NEXT
  let c := l.CUR_CHAR
  if firstchar = SC '0' ∧ isODigit c then
    let l ← takeWhile isODigit n l
    if isDigit l.CUR_CHAR then error "invalid octal number"
    else return (.TK_INTEGER, { l with nvalue := lexDigits 8 l.longstr })
  else if firstchar = SC '0' ∧ (c = SC 'x' ∨ c = SC 'X') then
    let l ← takeWhile isXDigit n l.NEXT
    if MAX_HEX_DIGITS < l.longstr.length then error "too many digits for an Hex number"
    else return (.TK_INTEGER, { l with nvalue := lexDigits 16 l.longstr })
  else
    let (isfloat, l) ← readDecimal n (l.APPEND_CHAR firstchar) false
    if isfloat then return (.TK_FLOAT, { l with fvalue := strtod l.longstr })
    else return (.TK_INTEGER, { l with nvalue := lexDigits 10 l.longstr })

/-- `_keywords`. -/
def keywords : List (String × Token) :=
  [("while", .TK_WHILE), ("do", .TK_DO), ("if", .TK_IF), ("else", .TK_ELSE),
    ("break", .TK_BREAK), ("continue", .TK_CONTINUE), ("return", .TK_RETURN),
    ("null", .TK_NULL), ("func", .TK_FUNCTION), ("local", .TK_LOCAL), ("for", .TK_FOR),
    ("foreach", .TK_FOREACH), ("in", .TK_IN), ("typeof", .TK_TYPEOF), ("base", .TK_BASE),
    ("delete", .TK_DELETE), ("try", .TK_TRY), ("catch", .TK_CATCH), ("throw", .TK_THROW),
    ("clone", .TK_CLONE), ("yield", .TK_YIELD), ("resume", .TK_RESUME),
    ("switch", .TK_SWITCH), ("case", .TK_CASE), ("default", .TK_DEFAULT), ("this", .TK_THIS),
    ("class", .TK_CLASS), ("extends", .TK_EXTENDS), ("constructor", .TK_CONSTRUCTOR),
    ("instanceof", .TK_INSTANCEOF), ("true", .TK_TRUE), ("false", .TK_FALSE),
    ("static", .TK_STATIC), ("enum", .TK_ENUM), ("const", .TK_CONST),
    ("__LINE__", .TK___LINE__), ("__FILE__", .TK___FILE__), ("rawcall", .TK_RAWCALL),
    ("pub", .TK_PUB), ("import", .TK_IMPORT), ("namespace", .TK_NAMESPACE), ("int", .TK_INT),
    ("float", .TK_FLOAT), ("str", .TK_STRING), ("bool", .TK_BOOL), ("void", .TK_VOID)]

/-- `GetIDType`. -/
def GetIDType (s : List UInt8) : Token :=
  match keywords.find? fun keyword => sc keyword.1 = s with
  | some keyword => keyword.2
  | none => .TK_IDENTIFIER

def isIdChar (c : UInt8) : Bool := isAlnum c ∨ c = SC '_'

/-- `ReadID`. -/
def ReadID (n : Nat) (l : GSLexer) : Result (Token × GSLexer) := do
  let l ← takeWhile isIdChar n l.INIT_TEMP_STRING.take
  let res := GetIDType l.longstr
  if res = .TK_IDENTIFIER ∨ res = .TK_CONSTRUCTOR then
    return (res, { l with svalue := l.longstr })
  else return (res, l)

/-! ### Tokens -/

/-- A token of one character, or one of two when `c` follows. -/
def oneOrTwo (l : GSLexer) (one : Char) (c : Char) (two : Token) : Result (Token × GSLexer) :=
  let l := l.NEXT
  if l.CUR_CHAR ≠ SC c then l.RETURN_TOKEN (.chr one) else l.NEXT.RETURN_TOKEN two

/-- The cases of `Lex` for `<`. -/
def lexLess (l : GSLexer) : Result (Token × GSLexer) :=
  let l := l.NEXT
  let c := l.CUR_CHAR
  if c = SC '=' then
    let l := l.NEXT
    if l.CUR_CHAR = SC '>' then l.NEXT.RETURN_TOKEN .TK_3WAYSCMP else l.RETURN_TOKEN .TK_LE
  else if c = SC '-' then l.NEXT.RETURN_TOKEN .TK_NEWSLOT
  else if c = SC '<' then l.NEXT.RETURN_TOKEN .TK_SHIFTL
  else if c = SC '/' then l.NEXT.RETURN_TOKEN .TK_ATTR_OPEN
  else l.RETURN_TOKEN (.chr '<')

/-- The cases of `Lex` for `>`. -/
def lexGreater (l : GSLexer) : Result (Token × GSLexer) :=
  let l := l.NEXT
  let c := l.CUR_CHAR
  if c = SC '=' then l.NEXT.RETURN_TOKEN .TK_GE
  else if c = SC '>' then
    let l := l.NEXT
    if l.CUR_CHAR = SC '>' then l.NEXT.RETURN_TOKEN .TK_USHIFTR else l.RETURN_TOKEN .TK_SHIFTR
  else l.RETURN_TOKEN (.chr '>')

/-- The cases of `Lex` for `.`. -/
def lexDot (l : GSLexer) : Result (Token × GSLexer) :=
  let l := l.NEXT
  if l.CUR_CHAR ≠ SC '.' then l.RETURN_TOKEN (.chr '.')
  else
    let l := l.NEXT
    if l.CUR_CHAR ≠ SC '.' then error "invalid token '..'"
    else l.NEXT.RETURN_TOKEN .TK_VARPARAMS

/-- The cases of `Lex` for `-`. -/
def lexMinus (l : GSLexer) : Result (Token × GSLexer) :=
  let l := l.NEXT
  let c := l.CUR_CHAR
  if c = SC '=' then l.NEXT.RETURN_TOKEN .TK_MINUSEQ
  else if c = SC '-' then l.NEXT.RETURN_TOKEN .TK_MINUSMINUS
  else if c = SC '>' then l.NEXT.RETURN_TOKEN .TK_ARROW
  else l.RETURN_TOKEN (.chr '-')

/-- The cases of `Lex` for `+`. -/
def lexPlus (l : GSLexer) : Result (Token × GSLexer) :=
  let l := l.NEXT
  let c := l.CUR_CHAR
  if c = SC '=' then l.NEXT.RETURN_TOKEN .TK_PLUSEQ
  else if c = SC '+' then l.NEXT.RETURN_TOKEN .TK_PLUSPLUS
  else l.RETURN_TOKEN (.chr '+')

/-- What follows a `/` that opens no comment. -/
def lexSlash (l : GSLexer) : Result (Token × GSLexer) :=
  if l.CUR_CHAR = SC '=' then l.NEXT.RETURN_TOKEN .TK_DIVEQ
  else if l.CUR_CHAR = SC '>' then l.NEXT.RETURN_TOKEN .TK_ATTR_CLOSE
  else l.RETURN_TOKEN (.chr '/')

/-- `RETURN_TOKEN` of what `ReadString`, `ReadNumber` or `ReadID` found. -/
def returnRead (r : Result (Token × GSLexer)) : Result (Token × GSLexer) := do
  let (t, l) ← r
  l.RETURN_TOKEN t

/-- The case `@` of `Lex`. -/
def lexVerbatim (n : Nat) (l : GSLexer) : Result (Token × GSLexer) :=
  let l := l.NEXT
  if l.CUR_CHAR ≠ SC '"' then l.RETURN_TOKEN (.chr '@')
  else returnRead (ReadString n l (SC '"') true)

/-- The case `default` of `Lex`. -/
def lexOther (n : Nat) (l : GSLexer) : Result (Token × GSLexer) :=
  let c := l.CUR_CHAR
  if isDigit c then returnRead (ReadNumber strtod n l)
  else if isAlpha c ∨ c = SC '_' then returnRead (ReadID n l)
  else if isCntrl c then error "unexpected character(control)"
  else l.NEXT.RETURN_TOKEN (Token.ofChar c)

/-- The cases of `Lex` that return a token. The brackets and signs that stand for themselves
are in `lexOther`, with the other characters that do. -/
def lexToken (n : Nat) (l : GSLexer) : Result (Token × GSLexer) :=
  let c := l.CUR_CHAR
  if c = SC '=' then l.oneOrTwo '=' '=' .TK_EQ
  else if c = SC '<' then l.lexLess
  else if c = SC '>' then l.lexGreater
  else if c = SC '!' then l.oneOrTwo '!' '=' .TK_NE
  else if c = SC '@' then lexVerbatim n l
  else if c = SC '"' ∨ c = SC '\'' then returnRead (ReadString n l c false)
  else if c = SC '.' then l.lexDot
  else if c = SC '&' then l.oneOrTwo '&' '&' .TK_AND
  else if c = SC '|' then l.oneOrTwo '|' '|' .TK_OR
  else if c = SC ':' then l.oneOrTwo ':' ':' .TK_DOUBLE_COLON
  else if c = SC '*' then l.oneOrTwo '*' '=' .TK_MULEQ
  else if c = SC '%' then l.oneOrTwo '%' '=' .TK_MODEQ
  else if c = SC '-' then l.lexMinus
  else if c = SC '+' then l.lexPlus
  else lexOther strtod n l

/-- The loop of `Lex`. -/
def lexLoop : Nat → GSLexer → Result (Token × GSLexer)
  | 0, _ => .error .outOfFuel
  | n + 1, l =>
    let c := l.CUR_CHAR
    if c = 0 then .ok (.eob, l)
    else if c = SC '\t' ∨ c = SC '\r' ∨ c = SC ' ' then lexLoop n l.NEXT
    else if c = SC '\n' then
      lexLoop n { l with
        currentline := l.currentline + 1
        prevtoken := l.curtoken
        curtoken := some (.chr '\n') }.NEXT
    else if c = SC '#' then
      match LexLineComment n l with
      | .ok l => lexLoop n l
      | .error e => .error e
    else if c = SC '/' then
      let l := l.NEXT
      if l.CUR_CHAR = SC '*' then
        match LexBlockComment n l.NEXT with
        | .ok l => lexLoop n l
        | .error e => .error e
      else if l.CUR_CHAR = SC '/' then
        match LexLineComment n l with
        | .ok l => lexLoop n l
        | .error e => .error e
      else l.lexSlash
    else lexToken strtod n l

/-- `Lex`. -/
def Lex (n : Nat) (l : GSLexer) : Result (Token × GSLexer) :=
  lexLoop strtod n { l with lasttokenline := l.currentline }

end GSLexer

end GameScript
