import GameScript.Object

/-!
Instructions and the constants of `GSopcodes.h`.

An instruction has one 32-bit operand and three 8-bit ones. `Instruction.make`
is the constructor of the source: it truncates every operand to its width, so
a register number above 255 or a missing operand given as `-1` is stored as
its low byte.
-/

namespace GameScript

def MAX_FUNC_STACKSIZE : Int := 0xFF

def MAX_LITERALS : Nat := 0x7FFFFFFF

/-- `BitWiseOP`. -/
inductive BitWiseOP where
  | BW_AND | BW_OR | BW_XOR | BW_SHIFTL | BW_SHIFTR | BW_USHIFTR
deriving DecidableEq, Repr

def BitWiseOP.code : BitWiseOP → Nat
  | .BW_AND => 0
  | .BW_OR => 2
  | .BW_XOR => 3
  | .BW_SHIFTL => 4
  | .BW_SHIFTR => 5
  | .BW_USHIFTR => 6

/-- `CmpOP`. -/
inductive CmpOP where
  | CMP_G | CMP_GE | CMP_L | CMP_LE | CMP_3W
deriving DecidableEq, Repr

def CmpOP.code : CmpOP → Nat
  | .CMP_G => 0
  | .CMP_GE => 2
  | .CMP_L => 3
  | .CMP_LE => 4
  | .CMP_3W => 5

/-- `NewObjectType`. -/
def NOT_TABLE : Int := 0
def NOT_ARRAY : Int := 1
def NOT_CLASS : Int := 2

/-- `AppendArrayType`. -/
def AAT_STACK : Int := 0
def AAT_LITERAL : Int := 1
def AAT_INT : Int := 2
def AAT_FLOAT : Int := 3
def AAT_BOOL : Int := 4

/-- `GSOpcode`. An instruction read from a stream can hold any byte; `invalid`
stands for those that name no opcode, which the interpreter's switch skips. -/
inductive Opcode where
  | LINE | LOAD | LOADINT | LOADFLOAT | DLOAD | TAILCALL | CALL | PREPCALL | PREPCALLK | GETK
  | MOVE | NEWSLOT | DELETE | SET | GET | EQ | NE | ADD | SUB | MUL | DIV | MOD | BITW | RETURN
  | LOADNULLS | LOADROOT | LOADBOOL | DMOVE | JMP | JCMP | JZ | SETOUTER | GETOUTER | NEWOBJ
  | APPENDARRAY | COMPARITH | INC | INCL | PINC | PINCL | CMP | EXISTS | INSTANCEOF | AND | OR
  | NEG | NOT | BWNOT | CLOSURE | YIELD | RESUME | FOREACH | POSTFOREACH | CLONE | TYPEOF
  | PUSHTRAP | POPTRAP | THROW | NEWSLOTA | GETBASE | CLOSE | IMPORT | NAMESPACE | TYPECHECK
  | MATCHTYPES
  | invalid (b : UInt8)
deriving DecidableEq, Repr

/-- The opcodes in the order of their numbers. -/
def Opcode.all : List Opcode :=
  [.LINE, .LOAD, .LOADINT, .LOADFLOAT, .DLOAD, .TAILCALL, .CALL, .PREPCALL, .PREPCALLK, .GETK,
    .MOVE, .NEWSLOT, .DELETE, .SET, .GET, .EQ, .NE, .ADD, .SUB, .MUL, .DIV, .MOD, .BITW, .RETURN,
    .LOADNULLS, .LOADROOT, .LOADBOOL, .DMOVE, .JMP, .JCMP, .JZ, .SETOUTER, .GETOUTER, .NEWOBJ,
    .APPENDARRAY, .COMPARITH, .INC, .INCL, .PINC, .PINCL, .CMP, .EXISTS, .INSTANCEOF, .AND, .OR,
    .NEG, .NOT, .BWNOT, .CLOSURE, .YIELD, .RESUME, .FOREACH, .POSTFOREACH, .CLONE, .TYPEOF,
    .PUSHTRAP, .POPTRAP, .THROW, .NEWSLOTA, .GETBASE, .CLOSE, .IMPORT, .NAMESPACE, .TYPECHECK,
    .MATCHTYPES]

def Opcode.code : Opcode → UInt8
  | .invalid b => b
  | op => UInt8.ofNat (Opcode.all.idxOf op)

def Opcode.ofCode (b : UInt8) : Opcode := (Opcode.all[b.toNat]?).getD (.invalid b)

theorem Opcode.ofCode_code {op : Opcode} (h : op ∈ Opcode.all) : Opcode.ofCode op.code = op := by
  revert op
  decide

/-- `GSInstruction`. -/
structure Instruction where
  op : Opcode
  arg0 : UInt8 := 0
  arg1 : GSInt32 := 0
  arg2 : UInt8 := 0
  arg3 : UInt8 := 0
deriving DecidableEq, Repr

/-- `(unsigned char)a`. -/
def byte (a : Int) : UInt8 := UInt8.ofNat (a % 256).toNat

/-- `(GSInt32)a`. -/
def int32 (a : Int) : GSInt32 := Int32.ofInt a

theorem byte_toNat {n : Nat} (h : n < 256) : (byte (n : Int)).toNat = n := by
  unfold byte
  rw [UInt8.toNat_ofNat']
  omega

theorem int32_toInt {n : Nat} (h : n < 2 ^ 31) : (int32 (n : Int)).toInt = n := by
  unfold int32
  rw [Int32.toInt_ofInt_of_le] <;> omega

/-- The constructor of `GSInstruction`. -/
def Instruction.make (op : Opcode) (a0 a1 a2 a3 : Int) : Instruction :=
  { op := op, arg0 := byte a0, arg1 := int32 a1, arg2 := byte a2, arg3 := byte a3 }

def NEW_SLOT_ATTRIBUTES_FLAG : Nat := 0x01
def NEW_SLOT_STATIC_FLAG : Nat := 0x02

end GameScript
