import Mathlib.Algebra.Group.Int.Defs
import Mathlib.Algebra.GroupWithZero.Nat

/-!
Script values (`GSObject`) and the integer types of the 64-bit build.

A value is a type tag and a union. The scalar members are kept as the machine
words the union holds, so `bool` carries the whole word and not one bit.
Strings are interned by the string table, hence compared by identity in the
source; here a string is its bytes. Every other reference is an address.
-/

namespace GameScript

/-- `GSInteger` under `_GS64`. -/
abbrev GSInteger := Int64

/-- `GSInt32`, the type of an instruction's `_arg1`. -/
abbrev GSInt32 := Int32

/-- The bounds of C's `int`, which the source also compares 64-bit numbers with. -/
def INT_MAX : Int := 2147483647
def INT_MIN : Int := -2147483648

/-- `GSFloat` without `GSUSEDOUBLE`: the bits of a single precision number. -/
abbrev GSFloat := BitVec 32

/-- The address of a collectable object. -/
abbrev Ref := Nat

/-- The `_RT_` kinds of `GSObjectType`. -/
inductive ObjectType where
  | null | integer | float | bool | string | table | array | userdata | closure
  | nativeclosure | generator | userpointer | thread | funcproto | «class» | «instance»
  | weakref | outer
deriving DecidableEq, Repr

/-- `tagGSObjectType`: the kind bit with the `GSOBJECT_` property bits. -/
def ObjectType.code : ObjectType → Nat
  | .null => 0x01000001
  | .integer => 0x05000002
  | .float => 0x05000004
  | .bool => 0x01000008
  | .string => 0x08000010
  | .table => 0x0A000020
  | .array => 0x08000040
  | .userdata => 0x0A000080
  | .closure => 0x08000100
  | .nativeclosure => 0x08000200
  | .generator => 0x08000400
  | .userpointer => 0x00000800
  | .thread => 0x08001000
  | .funcproto => 0x08002000
  | .class => 0x08004000
  | .instance => 0x0A008000
  | .weakref => 0x08010000
  | .outer => 0x08020000

theorem ObjectType.code_lt (t : ObjectType) : t.code < 256 ^ 4 := by
  cases t <;> decide

/-- `IdType2Name`; an unknown kind has no name, which `%s` prints as `(null)`. -/
def idType2Name (type : Nat) : String :=
  match type % 0x01000000 with
  | 0x1 => "null"
  | 0x2 => "integer"
  | 0x4 => "float"
  | 0x8 => "bool"
  | 0x10 => "string"
  | 0x20 => "table"
  | 0x40 => "array"
  | 0x400 => "generator"
  | 0x100 | 0x200 | 0x2000 => "function"
  | 0x80 | 0x800 => "userdata"
  | 0x1000 => "thread"
  | 0x4000 => "class"
  | 0x8000 => "instance"
  | 0x10000 => "weakref"
  | 0x20000 => "outer"
  | _ => "(null)"

/-- `GSObject`. -/
inductive Object where
  | null
  | integer (n : GSInteger)
  | float (f : GSFloat)
  | bool (n : GSInteger)
  | string (s : List UInt8)
  | table (p : Ref)
  | array (p : Ref)
  | userdata (p : Ref)
  | closure (p : Ref)
  | nativeclosure (p : Ref)
  | generator (p : Ref)
  | userpointer (p : Nat)
  | thread (p : Ref)
  | funcproto (p : Ref)
  | class (p : Ref)
  | instance (p : Ref)
  | weakref (p : Ref)
  | outer (p : Ref)
deriving DecidableEq, Repr

/-- `GS_type`. -/
def Object.type : Object → ObjectType
  | .null => .null
  | .integer _ => .integer
  | .float _ => .float
  | .bool _ => .bool
  | .string _ => .string
  | .table _ => .table
  | .array _ => .array
  | .userdata _ => .userdata
  | .closure _ => .closure
  | .nativeclosure _ => .nativeclosure
  | .generator _ => .generator
  | .userpointer _ => .userpointer
  | .thread _ => .thread
  | .funcproto _ => .funcproto
  | .class _ => .class
  | .instance _ => .instance
  | .weakref _ => .weakref
  | .outer _ => .outer

/-- `GetTypeName`. -/
def Object.typeName (o : Object) : String := idType2Name o.type.code

/-- `ISREFCOUNTED`: the kind has `GSOBJECT_REF_COUNTED`. -/
def Object.isRefCounted (o : Object) : Bool := o.type.code &&& 0x08000000 ≠ 0

/-- `_SC`: the bytes of a text of the source, all of whose texts are ASCII. -/
def sc (text : String) : List UInt8 := text.toList.map fun c => UInt8.ofNat c.toNat

/-- Strings are compared by their bytes. -/
instance lawfulBEq_string : LawfulBEq (List UInt8) := inferInstance

/-- `GSObjectPtr(bool)`. -/
def Object.ofBool (b : Bool) : Object := .bool (if b then 1 else 0)

/-- Floating point arithmetic and its printing (`%.14g`), which C and its library
supply. -/
structure FloatOps where
  ofInteger : GSInteger → GSFloat
  toInteger : GSFloat → GSInteger
  add : GSFloat → GSFloat → GSFloat
  sub : GSFloat → GSFloat → GSFloat
  mul : GSFloat → GSFloat → GSFloat
  div : GSFloat → GSFloat → GSFloat
  fmod : GSFloat → GSFloat → GSFloat
  neg : GSFloat → GSFloat
  eq : GSFloat → GSFloat → Bool
  lt : GSFloat → GSFloat → Bool
  print : GSFloat → String

/-- An arithmetic for programs that use no floating point number. -/
def FloatOps.unused : FloatOps where
  ofInteger _ := 0
  toInteger _ := 0
  add _ _ := 0
  sub _ _ := 0
  mul _ _ := 0
  div _ _ := 0
  fmod _ _ := 0
  neg _ := 0
  eq _ _ := false
  lt _ _ := false
  print _ := ""

/-- `tointeger`. -/
def Object.toInteger (fl : FloatOps) : Object → GSInteger
  | .float f => fl.toInteger f
  | .integer n | .bool n => n
  | _ => 0

/-- `GS_getinteger`. -/
def Object.getinteger (fl : FloatOps) : Object → Option GSInteger
  | .integer n => some n
  | .float f => some (fl.toInteger f)
  | .bool n => some (if n = 0 then 0 else 1)
  | _ => none

/-- `GS_getfloat`. -/
def Object.getfloat (fl : FloatOps) : Object → Option GSFloat
  | .integer n => some (fl.ofInteger n)
  | .float f => some f
  | _ => none

/-- `PrintObjVal`; the bytes of a string are read as Latin-1. -/
def Object.printVal (fl : FloatOps) (o : Object) : String :=
  match o with
  | .string s => String.ofList (s.map fun b => Char.ofNat b.toNat)
  | .integer n => toString n.toInt
  | .float f => fl.print f
  | o => o.typeName

/-- `GS_isnumeric`. -/
def Object.isNumeric (o : Object) : Bool :=
  match o with
  | .integer _ | .float _ => true
  | _ => false

end GameScript
