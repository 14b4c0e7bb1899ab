import GameScript.Gstd.Blob
import GameScript.Gstd.RexMatch

/-!
`format` and `printf` (`gstdstring.cpp`). A conversion specification is copied into a buffer of
its own, where integers get a length modifier, and `snprintf` appends what it prints to the
scratch pad, which is asked for more room before each conversion.

A write outside a buffer is undefined. The sizes that are added up are those of strings in memory,
and no sum of them overflows.
-/

namespace GameScript.Format

open Rex (Halt zeroTerminated)

def MAX_FORMAT_LEN : Nat := 20
def MAX_WFORMAT_LEN : Nat := 3
def ADDITIONAL_FORMAT_SPACE : Nat := 100

/-- `_PRINT_INT_PREC`. -/
def PRINT_INT_PREC : List UInt8 := sc "ll"

/-- Writes to a buffer. -/
def store (buf : List UInt8) (off : Nat) (bytes : List UInt8) : Except Halt (List UInt8) :=
  if off + bytes.length ≤ buf.length then return Memory.overwrite buf off bytes
  else throw .undefined

/-! ### `validate_format` -/

def isfmtchr (ch : UInt8) : Bool :=
  ch = SC '-' ∨ ch = SC '+' ∨ ch = SC ' ' ∨ ch = SC '#' ∨ ch = SC '0'

/-- The loop over the digits of a width or of a precision, with those read so far; the result has
them and what is left of the format. -/
def readDigits (tooLong : List UInt8) :
    List UInt8 → List UInt8 → Except Halt (List UInt8 × List UInt8)
  | swidth, [] => return (swidth, [])
  | swidth, c :: src =>
    if isDigit c then
      if swidth.length + 1 ≥ MAX_WFORMAT_LEN then throw (.error tooLong)
      else readDigits tooLong (swidth ++ [c]) src
    else return (swidth, c :: src)

/-- `scstrtol` of digits, 0 without any. -/
def strtol (digits : List UInt8) : Nat :=
  digits.foldl (fun v c => 10 * v + (c.toNat - (SC '0').toNat)) 0

/-- The first part of `validate_format`, up to the conversion character: what is left of the
format there, and the sum of the width and the precision. -/
def readSpecification (src : List UInt8) : Except Halt (List UInt8 × Nat) := do
  let (swidth, rest) ← readDigits (sc "width format too long") [] (src.dropWhile isfmtchr)
  match rest with
  | c :: rest =>
    if c = SC '.' then do
      let (sprecision, rest) ← readDigits (sc "precision format too long") [] rest
      return (rest, strtol swidth + strtol sprecision)
    else return (c :: rest, strtol swidth)
  | [] => return ([], strtol swidth)

/-- The end of `validate_format`: the characters of `src` before `rest`, and the conversion
character, behind the percent sign. -/
def copySpecification (fmt src rest : List UInt8) : Except Halt (List UInt8) :=
  let len := src.length - rest.length
  if len > MAX_FORMAT_LEN then throw (.error (sc "format too long"))
  else do
    let fmt ← store fmt 1 (src.take len ++ [rest.headD 0])
    store fmt (len + 2) [0]

/-- `validate_format`: the buffer with the specification, what is left of the format from the
conversion character on, and the width. -/
def validate_format (fmt src : List UInt8) : Except Halt (List UInt8 × List UInt8 × Nat) := do
  let fmt ← store fmt 0 [SC '%']
  let (rest, width) ← readSpecification src
  let fmt ← copySpecification fmt src rest
  return (fmt, rest, width)

/-! ### `gstd_format` -/

/-- What `snprintf` gets to print. -/
inductive Arg where
  | s (ts : List UInt8)
  | i (ti : GSInteger)
  | f (tf : GSFloat)

/-- `GetScratchPad`: the pad, whose length is `_scratchpadsize`, for a request. -/
def GetScratchPad (size : Nat) (pad : List UInt8) : List UInt8 :=
  match Blob.newsize pad.length size with
  | none => pad
  | some n => pad.take n.toNat ++ List.replicate (n.toNat - pad.length) 0

def isInteger (c : UInt8) : Bool :=
  c = SC 'i' ∨ c = SC 'd' ∨ c = SC 'o' ∨ c = SC 'u' ∨ c = SC 'x' ∨ c = SC 'X'

def isFloat (c : UInt8) : Bool :=
  c = SC 'f' ∨ c = SC 'g' ∨ c = SC 'G' ∨ c = SC 'e' ∨ c = SC 'E'

/-- The length modifier, put before the conversion character. -/
def insertPrec (fmt : List UInt8) : Except Halt (List UInt8) := do
  let fpos := (zeroTerminated fmt).length - 1
  let f := fmt.getD fpos 0
  let fmt ← store fmt fpos PRINT_INT_PREC
  let fmt ← store fmt (fpos + PRINT_INT_PREC.length) [f]
  store fmt (fpos + PRINT_INT_PREC.length + 1) [0]

variable (fl : FloatOps)

/-- The cases of an integer: the room for it, and what is printed. -/
def integerArgument (w : Nat) (param : Object) : Except Halt (Nat × Arg) :=
  match param.getinteger fl with
  | some ti => return (ADDITIONAL_FORMAT_SPACE + (w + 1), .i ti)
  | none => throw (.error (sc "integer expected for the specified format"))

/-- The switch over the conversion character. -/
def argument (fmt : List UInt8) (w : Nat) (c : UInt8) (param : Object) :
    Except Halt (List UInt8 × Nat × Arg) :=
  if c = SC 's' then
    match param with
    | .string ts => return (fmt, ts.length + (w + 1), .s ts)
    | _ => throw (.error (sc "string expected for the specified format"))
  else if isInteger c then do
    let fmt ← insertPrec fmt
    let (addlen, arg) ← integerArgument fl w param
    return (fmt, addlen, arg)
  else if c = SC 'c' then do
    let (addlen, arg) ← integerArgument fl w param
    return (fmt, addlen, arg)
  else if isFloat c then
    match param.getfloat fl with
    | some tf => return (fmt, ADDITIONAL_FORMAT_SPACE + (w + 1), .f tf)
    | none => throw (.error (sc "float expected for the specified format"))
  else throw (.error (sc "invalid format"))

/-- The variables of `gstd_format`: what is left of the format and of the parameters, the scratch
pad with the text up to `i`, how much was asked for, and the buffer of the specification. -/
structure State where
  rest : List UInt8
  params : List Object
  i : Nat := 0
  allocated : Nat
  dest : List UInt8
  fmt : List UInt8 := List.replicate MAX_FORMAT_LEN 0

/-- The full text that `snprintf` has for a format and an argument. -/
abbrev Snprintf := List UInt8 → Arg → List UInt8

variable (snprintf : Snprintf)

/-- The end of a conversion, with the buffer of the specification, the room to ask for and what to
print. `snprintf` is told that there is room for all that was asked for, wherever it begins to
write. -/
def print (st : State) (rest : List UInt8) (params : List Object) :
    List UInt8 × Nat × Arg → Except Halt State
  | (fmt, addlen, arg) => do
    let allocated := st.allocated + (addlen + 1)
    let text := snprintf (zeroTerminated fmt) arg
    let dest ← store (GetScratchPad allocated st.dest) st.i (text.take (allocated - 1) ++ [0])
    return {
      rest := rest
      params := params
      i := st.i + text.length
      allocated := allocated
      dest := dest
      fmt := fmt }

/-- A conversion, from behind its percent sign on. -/
def conversion (st : State) (src : List UInt8) (param : Object) (params : List Object) :
    Except Halt State := do
  let (fmt, rest, w) ← validate_format st.fmt src
  let answer ← argument fl fmt w (rest.headD 0) param
  print snprintf st rest.tail params answer

/-- A round of the loop, at the character `c`. -/
def step (st : State) (c : UInt8) (src : List UInt8) : Except Halt State :=
  if c ≠ SC '%' then
    -- the assertion
    if st.i < st.allocated then do
      let dest ← store st.dest st.i [c]
      return { st with rest := src, i := st.i + 1, dest := dest }
    else throw .undefined
  else if src.headD 0 = SC '%' then do
    let dest ← store st.dest st.i [SC '%']
    return { st with rest := src.tail, i := st.i + 1, dest := dest }
  else
    match st.params with
    | [] => throw (.error (sc "not enough parameters for the given format string"))
    | param :: params => conversion fl snprintf st src param params

/-- The loop, with a bound for its rounds. -/
def loop : Nat → State → Except Halt State
  | 0, _ => throw .timeout
  | n + 1, st =>
    match st.rest with
    | [] => return st
    | c :: src => do
      let st ← step fl snprintf st c src
      loop n st

/-- The variables before the loop. -/
def start (format : List UInt8) (params : List Object) (pad : List UInt8) : State where
  rest := format
  params := params
  allocated := format.length + 2
  dest := GetScratchPad (format.length + 2) pad

/-- `gstd_format`, with the scratch pad that it finds; the result is the text. -/
def gstd_format (format : List UInt8) (params : List Object) (pad : List UInt8) :
    Except Halt (List UInt8) := do
  let st ← loop fl snprintf (format.length + 1) (start format params pad)
  let dest ← store st.dest st.i [0]
  return dest.take st.i

end GameScript.Format
