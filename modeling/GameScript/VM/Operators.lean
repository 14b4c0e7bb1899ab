import GameScript.VM.State
import GameScript.Opcodes

/-!
The operators of the virtual machine on values. Numbers, strings and comparisons
of simple values are computed here; an operand with metamethods goes to the
runtime.

Integers wrap around. A division of the least integer by `-1` and a shift by a
negative or too large amount are undefined in the language of the source.
-/

namespace GameScript.VM

/-- `IsFalse`: any value whose word in the union is zero is false, and so is a negative
zero. -/
def isFalse (fl : FloatOps) : Object → Bool
  | .null => true
  | .integer n | .bool n => n = 0
  | .float f => f = 0 ∨ fl.eq f 0
  | .userpointer p => p = 0
  | _ => false

/-- `IsEqual`. -/
def isEqual (fl : FloatOps) : Object → Object → Bool
  | .float f1, .float f2 => fl.eq f1 f2
  | .float f, .integer n => fl.eq f (fl.ofInteger n)
  | .integer n, .float f => fl.eq (fl.ofInteger n) f
  | o1, o2 => o1 = o2

/-- `tofloat`. -/
def toFloat (fl : FloatOps) : Object → GSFloat
  | .integer n => fl.ofInteger n
  | .float f => f
  | _ => 0

variable (rt : Runtime)

/-- The operators of `ARITH_OP`. -/
inductive ArithOp where
  | add | sub | mul | div | mod
deriving DecidableEq, Repr

def ArithOp.char : ArithOp → Char
  | .add => '+'
  | .sub => '-'
  | .mul => '*'
  | .div => '/'
  | .mod => '%'

def ArithOp.ofChar : Char → Option ArithOp
  | '+' => some .add
  | '-' => some .sub
  | '*' => some .mul
  | '/' => some .div
  | '%' => some .mod
  | _ => none

def ArithOp.float (fl : FloatOps) : ArithOp → GSFloat → GSFloat → GSFloat
  | .add => fl.add
  | .sub => fl.sub
  | .mul => fl.mul
  | .div => fl.div
  | .mod => fl.fmod

/-- The end of `ARITH_OP` for operands that are not both numbers. -/
def arithFallback (op : ArithOp) (o1 o2 : Object) : VMM rt.Heap Object :=
  if op = .add ∧ (o1.type = .string ∨ o2.type = .string) then rt.ask1 (.stringCat o1 o2)
  else rt.ask1 (.arithMetaMethod op.char o1 o2)

/-- C's `i1 / i2`. -/
def divide (i1 i2 : GSInteger) : VMM rt.Heap Object :=
  if i2 = 0 ∨ i1 = Int64.minValue ∧ i2 = -1 then undefined else return .integer (i1 / i2)

/-- C's `i1 % i2`. -/
def remainder (i1 i2 : GSInteger) : VMM rt.Heap Object :=
  if i2 = 0 ∨ i1 = Int64.minValue ∧ i2 = -1 then undefined else return .integer (i1 % i2)

/-- `ARITH_OP` on two integers. The overflow it looks for is that of 32 bits. -/
def arithInteger (op : ArithOp) (i1 i2 : GSInteger) : VMM rt.Heap Object :=
  match op with
  | .add => return .integer (i1 + i2)
  | .sub => return .integer (i1 - i2)
  | .mul => return .integer (i1 * i2)
  | .div =>
    if i2 = 0 then raiseError "division by zero"
    else if i2 = -1 ∧ i1.toInt = INT_MIN then raiseError "integer overflow"
    else divide rt i1 i2
  | .mod =>
    if i2 = 0 then raiseError "modulo by zero"
    else if i2 = -1 ∧ i1.toInt = INT_MIN then return .integer 0
    else remainder rt i1 i2

/-- `ARITH_OP`. -/
def ARITH_OP (op : ArithOp) (o1 o2 : Object) : VMM rt.Heap Object :=
  match o1, o2 with
  | .integer i1, .integer i2 => arithInteger rt op i1 i2
  | o1, o2 =>
    if o1.isNumeric ∧ o2.isNumeric then
      return .float (op.float rt.fl (toFloat rt.fl o1) (toFloat rt.fl o2))
    else arithFallback rt op o1 o2

/-- `_ARITH_` and `_ARITH_NOZERO`: what the instructions do without `ARITH_OP`. -/
def arith (op : ArithOp) (o1 o2 : Object) : VMM rt.Heap Object :=
  match op, o1, o2 with
  | .div, .integer i1, .integer i2 =>
    if i2 = 0 then raiseError "division by zero" else divide rt i1 i2
  | op, o1, o2 => ARITH_OP rt op o1 o2

/-- The amount of a shift, which C defines below the width only. -/
def shift (i2 : GSInteger) (res : GSInteger) : VMM rt.Heap Object :=
  if 0 ≤ i2 ∧ i2 < 64 then return .integer res else undefined

/-- `BW_OP`. -/
def BW_OP (op : Nat) (o1 o2 : Object) : VMM rt.Heap Object :=
  match o1, o2 with
  | .integer i1, .integer i2 =>
    match op with
    | 0 => return .integer (i1 &&& i2)
    | 2 => return .integer (i1 ||| i2)
    | 3 => return .integer (i1 ^^^ i2)
    | 4 => shift rt i2 (i1 <<< i2)
    | 5 => shift rt i2 (i1 >>> i2)
    | 6 => shift rt i2 (i1.toUInt64 >>> i2.toUInt64).toInt64
    | _ => raiseError "internal vm error bitwise op failed"
  | o1, o2 =>
    raiseError ("bitwise op between '" ++ o1.typeName ++ "' and '" ++ o2.typeName ++ "'")

/-- `NEG_OP`. -/
def NEG_OP (o : Object) : VMM rt.Heap Object :=
  match o with
  | .integer n => return .integer (-n)
  | .float f => return .float (rt.fl.neg f)
  | .table _ | .userdata _ | .instance _ => rt.ask1 (.unm o)
  | o => raiseError ("attempt to negate a " ++ o.typeName)

/-- The sign of a comparison of addresses. -/
def compareRefs (p1 p2 : Nat) : Int := if p1 < p2 then -1 else 1

/-- The word of the union, as an address. -/
def rawval : Object → Nat
  | .null => 0
  | .integer n | .bool n => n.toUInt64.toNat
  | .float f => f.toNat
  | .string _ => 0
  | .table p | .array p | .userdata p | .closure p | .nativeclosure p | .generator p
  | .userpointer p | .thread p | .funcproto p | .class p | .instance p | .weakref p
  | .outer p => p

/-- The comparison of an integer with a float. -/
def compareMixed (fl : FloatOps) (n : GSInteger) (f : GSFloat) : Int :=
  if fl.eq (fl.ofInteger n) f then 0 else if fl.lt (fl.ofInteger n) f then -1 else 1

/-- The result of a metamethod that compares. -/
def cmpResult {Heap : Type} (v : Object) : VMM Heap Int :=
  match v with
  | .integer n => return n.toInt
  | _ => raiseError "_cmp must return an integer"

/-- The comparison of two objects with a metamethod, or of their addresses. -/
def compareMeta (o1 o2 : Object) : VMM rt.Heap Int := do
  match ← rt.ask (.cmp o1 o2) with
  | [] => return compareRefs (rawval o1) (rawval o2)
  | [v] => cmpResult v
  | _ => undefined

/-- `ObjCmp`. -/
def ObjCmp (o1 o2 : Object) : VMM rt.Heap Int :=
  if o1 = o2 then return 0
  else
    match o1, o2 with
    | .string s1, .string s2 => return rt.strcmp s1 s2
    | .integer n1, .integer n2 => return if n1 < n2 then -1 else 1
    | .float f1, .float f2 => return if rt.fl.lt f1 f2 then -1 else 1
    | .table _, .table _ | .userdata _, .userdata _ | .instance _, .instance _ =>
      compareMeta rt o1 o2
    | .integer n, .float f => return compareMixed rt.fl n f
    | .float f, .integer n =>
      return if rt.fl.eq f (rt.fl.ofInteger n) then 0
        else if rt.fl.lt f (rt.fl.ofInteger n) then -1 else 1
    | o1, o2 =>
      if o1.type = o2.type then return compareRefs (rawval o1) (rawval o2)
      else if o1 = .null then return -1
      else if o2 = .null then return 1
      else raiseError ("comparison between '" ++ text o1 ++ "' and '" ++ text o2 ++ "'")
where
  text (o : Object) : String := String.ofList ((o.printVal rt.fl).toList.take 50)

/-- `CMP_OP`. -/
def CMP_OP (op : Nat) (o1 o2 : Object) : VMM rt.Heap Object := do
  let r ← ObjCmp rt o1 o2
  match op with
  | 0 => return .ofBool (0 < r)
  | 2 => return .ofBool (0 ≤ r)
  | 3 => return .ofBool (r < 0)
  | 4 => return .ofBool (r ≤ 0)
  | 5 => return .integer (Int64.ofInt r)
  | _ => undefined

/-- `Get`. -/
def Get (self key : Object) (selfidx : Nat) : VMM rt.Heap Object := do
  rt.ask1 (.get (← getCi).closure self key selfidx)

/-- `Set`. -/
def Set (self key val : Object) (selfidx : Nat) : VMM rt.Heap Unit := do
  let _ ← rt.ask (.set (← getCi).closure self key val selfidx)

/-- `DerefInc`; `target` is a register. -/
def DerefInc (op : ArithOp) (target : Nat) (self key incr : Object) (isPostfix : Bool)
    (selfidx : Nat) : VMM rt.Heap Unit := do
  let tmp ← Get rt self key selfidx
  setSTK target (← ARITH_OP rt op tmp incr)
  Set rt self key (← STK target) selfidx
  when isPostfix (setSTK target tmp)

end GameScript.VM
