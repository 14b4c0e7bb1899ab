import Mathlib.Logic.Function.Basic
import GameScript.Lib.Forward
import GameScript.VM.Arithmetic

/-!
The instructions that only compute on the registers of their frame. `effect` says what such an
instruction does to the registers, without the machine: operators whose operands are simple, loads,
moves and the jumps that lead forward. Where an operand has metamethods, or C leaves the result
undefined, it says nothing. `exec_of_effect` connects it with the machine.
-/

namespace GameScript.Calc

open Forward

/-! ### Operators -/

/-- What an operator or an expression comes to. `outside` is what depends on more than the values
it is given, or on what C leaves undefined. -/
inductive Result (α : Type) where
  | value (v : α)
  | raises (msg : String)
  | outside
deriving DecidableEq, Repr

def Result.bind {α β : Type} (r : Result α) (f : α → Result β) : Result β :=
  match r with
  | .value v => f v
  | .raises msg => .raises msg
  | .outside => .outside

@[simp] theorem Result.bind_value {α β : Type} (v : α) (f : α → Result β) :
    (Result.value v).bind f = f v := rfl

@[simp] theorem Result.bind_raises {α β : Type} (msg : String) (f : α → Result β) :
    (Result.raises msg : Result α).bind f = .raises msg := rfl

@[simp] theorem Result.bind_outside {α β : Type} (f : α → Result β) :
    (Result.outside : Result α).bind f = .outside := rfl

theorem Result.bind_assoc {α β γ : Type} (r : Result α) (f : α → Result β) (g : β → Result γ) :
    (r.bind f).bind g = r.bind fun v => (f v).bind g := by
  cases r <;> rfl

/-- C's division and remainder, which it leaves undefined for two pairs of operands. -/
def divided (i1 i2 res : GSInteger) : Result Object :=
  if i2 = 0 ∨ i1 = Int64.minValue ∧ i2 = -1 then .outside else .value (.integer res)

/-- The arithmetic of numbers. `_OP_MOD` does not look whether it fails, so a remainder that
fails has no meaning here. -/
def arith (fl : FloatOps) (op : VM.ArithOp) (o1 o2 : Object) : Result Object :=
  match o1, o2 with
  | .integer i1, .integer i2 =>
    match op with
    | .add => .value (.integer (i1 + i2))
    | .sub => .value (.integer (i1 - i2))
    | .mul => .value (.integer (i1 * i2))
    | .div => if i2 = 0 then .raises "division by zero" else divided i1 i2 (i1 / i2)
    | .mod =>
      if i2 = -1 ∧ i1.toInt = INT_MIN then .value (.integer 0) else divided i1 i2 (i1 % i2)
  | o1, o2 =>
    if o1.isNumeric ∧ o2.isNumeric then
      .value (.float (op.float fl (VM.toFloat fl o1) (VM.toFloat fl o2)))
    else .outside

/-- The amount of a shift, which C defines below the width only. -/
def shifted (i2 res : GSInteger) : Result Object :=
  if 0 ≤ i2 ∧ i2 < 64 then .value (.integer res) else .outside

def bitwise (op : BitWiseOP) (o1 o2 : Object) : Result Object :=
  match o1, o2 with
  | .integer i1, .integer i2 =>
    match op with
    | .BW_AND => .value (.integer (i1 &&& i2))
    | .BW_OR => .value (.integer (i1 ||| i2))
    | .BW_XOR => .value (.integer (i1 ^^^ i2))
    | .BW_SHIFTL => shifted i2 (i1 <<< i2)
    | .BW_SHIFTR => shifted i2 (i1 >>> i2)
    | .BW_USHIFTR => shifted i2 (i1.toUInt64 >>> i2.toUInt64).toInt64
  | o1, o2 =>
    .raises ("bitwise op between '" ++ o1.typeName ++ "' and '" ++ o2.typeName ++ "'")

/-- The end of `ObjCmp`, for values that it knows no better order of. -/
def compareOther (fl : FloatOps) (o1 o2 : Object) : Result Int :=
  if o1.type = o2.type then .value (VM.compareRefs (VM.rawval o1) (VM.rawval o2))
  else if o1 = .null then .value (-1)
  else if o2 = .null then .value 1
  else .raises ("comparison between '" ++ text o1 ++ "' and '" ++ text o2 ++ "'")
where
  text (o : Object) : String := String.ofList ((o.printVal fl).toList.take 50)

/-- `ObjCmp` on values without a metamethod that compares. -/
def compareObjects (fl : FloatOps) (strcmp : List UInt8 → List UInt8 → Int) (o1 o2 : Object) :
    Result Int :=
  if o1 = o2 then .value 0
  else
    match o1, o2 with
    | .string s1, .string s2 => .value (strcmp s1 s2)
    | .integer n1, .integer n2 => .value (if n1 < n2 then -1 else 1)
    | .float f1, .float f2 => .value (if fl.lt f1 f2 then -1 else 1)
    | .table _, .table _ | .userdata _, .userdata _ | .instance _, .instance _ => .outside
    | .integer n, .float f => .value (VM.compareMixed fl n f)
    | .float f, .integer n =>
      .value (if fl.eq f (fl.ofInteger n) then 0 else if fl.lt f (fl.ofInteger n) then -1 else 1)
    | o1, o2 => compareOther fl o1 o2

/-- What a comparison makes of the order of its operands. -/
def compared (op : CmpOP) (r : Int) : Object :=
  match op with
  | .CMP_G => .ofBool (0 < r)
  | .CMP_GE => .ofBool (0 ≤ r)
  | .CMP_L => .ofBool (r < 0)
  | .CMP_LE => .ofBool (r ≤ 0)
  | .CMP_3W => .integer (Int64.ofInt r)

def negate (fl : FloatOps) (o : Object) : Result Object :=
  match o with
  | .integer n => .value (.integer (-n))
  | .float f => .value (.float (fl.neg f))
  | .table _ | .userdata _ | .instance _ => .outside
  | o => .raises ("attempt to negate a " ++ o.typeName)

def complement (o : Object) : Result Object :=
  match o with
  | .integer n => .value (.integer (~~~n))
  | o => .raises ("attempt to perform a bitwise op on a " ++ o.typeName)

/-! ### The operators of the machine -/

section

variable {rt : Runtime}

/-- In the machine `vm` the computation comes to the result and leaves the machine as it is. -/
def ComesTo {α : Type} (vm : VM rt.Heap) (m : VMM rt.Heap α) (r : Result α) : Prop :=
  match r with
  | .value v => m vm = .ok v vm
  | .raises msg => m vm = .error (.raise (.string (sc msg))) vm
  | .outside => True

@[simp] theorem comesTo_value {α : Type} {vm : VM rt.Heap} {m : VMM rt.Heap α} {v : α} :
    ComesTo vm m (.value v) ↔ m vm = .ok v vm := Iff.rfl

@[simp] theorem comesTo_raises {α : Type} {vm : VM rt.Heap} {m : VMM rt.Heap α} {msg : String} :
    ComesTo vm m (.raises msg) ↔ m vm = .error (.raise (.string (sc msg))) vm := Iff.rfl

/-- Computations that come to results come to their sequence's. -/
theorem ComesTo.bind {α β : Type} {vm : VM rt.Heap} {m : VMM rt.Heap α} {r : Result α}
    {f : α → VMM rt.Heap β} {g : α → Result β} (hm : ComesTo vm m r)
    (hf : ∀ a, ComesTo vm (f a) (g a)) : ComesTo vm (m >>= f) (r.bind g) := by
  cases r with
  | value v =>
      have hv : m vm = .ok v vm := hm
      have hfv := hf v
      unfold ComesTo at hfv ⊢
      rw [Result.bind_value, Effect.bind_apply, hv]
      exact hfv
  | raises msg =>
      have hmsg : m vm = .error (.raise (.string (sc msg))) vm := hm
      simp [ComesTo, Effect.bind_apply, hmsg]
  | outside => trivial

/-- The computation comes to the result in every machine. -/
def Computes {α : Type} (m : VMM rt.Heap α) (r : Result α) : Prop := ∀ vm, ComesTo vm m r

theorem computes_pure {α : Type} (v : α) : Computes (pure v : VMM rt.Heap α) (.value v) :=
  fun _ => rfl

theorem computes_raise {α : Type} (msg : String) :
    Computes (VM.raiseError msg : VMM rt.Heap α) (.raises msg) := fun _ => rfl

theorem computes_outside {α : Type} (m : VMM rt.Heap α) : Computes m .outside := fun _ => trivial

theorem computes_divide (i1 i2 : GSInteger) :
    Computes (VM.divide rt i1 i2) (divided i1 i2 (i1 / i2)) := by
  unfold VM.divide divided
  split
  · exact computes_outside _
  · exact computes_pure _

theorem computes_remainder (i1 i2 : GSInteger) :
    Computes (VM.remainder rt i1 i2) (divided i1 i2 (i1 % i2)) := by
  unfold VM.remainder divided
  split
  · exact computes_outside _
  · exact computes_pure _

theorem arith_of_not_integers {fl : FloatOps} {op : VM.ArithOp} {o1 o2 : Object}
    (h : ∀ i1 i2, o1 = .integer i1 → o2 = .integer i2 → False) :
    arith fl op o1 o2 =
      if o1.isNumeric ∧ o2.isNumeric then
        .value (.float (op.float fl (VM.toFloat fl o1) (VM.toFloat fl o2)))
      else .outside := by
  unfold arith
  split
  · exact absurd rfl (h _ _ rfl)
  · rfl

/-- Arithmetic computes the calculation's result, the remainder apart. -/
theorem computes_arith (op : VM.ArithOp) (o1 o2 : Object) (hop : op ≠ .mod) :
    Computes (VM.arith rt op o1 o2) (arith rt.fl op o1 o2) := by
  unfold VM.arith
  split
  · rename_i i1 i2
    simp only [arith]
    split
    · exact computes_raise _
    · exact computes_divide _ _
  · rename_i hdiv
    unfold VM.ARITH_OP
    split
    · cases op with
      | add | sub | mul => exact computes_pure _
      | div => exact absurd rfl (hdiv _ _ rfl rfl)
      | mod => exact absurd rfl hop
    · rename_i hints
      rw [arith_of_not_integers hints]
      split
      · exact computes_pure _
      · exact computes_outside _

/-- The bitwise operators compute the calculation's result. -/
theorem computes_BW_OP (op : BitWiseOP) (o1 o2 : Object) :
    Computes (VM.BW_OP rt op.code o1 o2) (bitwise op o1 o2) := by
  have hshift (i2 res : GSInteger) : Computes (VM.shift rt i2 res) (shifted i2 res) := by
    unfold VM.shift shifted
    split
    · exact computes_pure _
    · exact computes_outside _
  unfold VM.BW_OP bitwise
  cases o1 with
  | integer i1 =>
      cases o2 with
      | integer i2 =>
          cases op with
          | BW_AND | BW_OR | BW_XOR => exact computes_pure _
          | BW_SHIFTL | BW_SHIFTR | BW_USHIFTR => exact hshift _ _
      | _ => exact computes_raise _
  | _ => exact computes_raise _

theorem computes_compareOther (o1 o2 : Object) :
    Computes ((if o1.type = o2.type then
        return VM.compareRefs (VM.rawval o1) (VM.rawval o2)
      else if o1 = .null then return -1
      else if o2 = .null then return 1
      else VM.raiseError ("comparison between '" ++ VM.ObjCmp.text rt o1 ++ "' and '"
        ++ VM.ObjCmp.text rt o2 ++ "'")) : VMM rt.Heap Int)
      (compareOther rt.fl o1 o2) := by
  unfold compareOther
  split
  · exact computes_pure _
  · split
    · exact computes_pure _
    · split
      · exact computes_pure _
      · exact computes_raise _

/-- A comparison of any two objects computes the calculation's result. -/
theorem computes_ObjCmp (o1 o2 : Object) :
    Computes (VM.ObjCmp rt o1 o2) (compareObjects rt.fl rt.strcmp o1 o2) := by
  unfold VM.ObjCmp compareObjects
  by_cases heq : o1 = o2
  · rw [if_pos heq, if_pos heq]
    exact computes_pure 0
  · rw [if_neg heq, if_neg heq]
    cases o1 with
    | string | table | userdata | «instance» | integer | float =>
        cases o2 with
        | string | table | userdata | «instance» | integer | float =>
            first
            | exact computes_compareOther _ _
            | exact computes_pure _
            | exact computes_outside _
        | _ => exact computes_compareOther _ _
    | _ => exact computes_compareOther _ _

theorem computes_CMP_OP (op : CmpOP) (o1 o2 : Object) :
    Computes (VM.CMP_OP rt op.code o1 o2)
      ((compareObjects rt.fl rt.strcmp o1 o2).bind fun r => .value (compared op r)) := by
  intro vm
  apply (computes_ObjCmp o1 o2 vm).bind
  intro r
  cases op <;> exact computes_pure _ vm

theorem computes_NEG_OP (o : Object) : Computes (VM.NEG_OP rt o) (negate rt.fl o) := by
  cases o <;> first | exact computes_pure _ | exact computes_outside _ | exact computes_raise _

/-- A remainder computes the calculation's result. -/
theorem computes_ARITH_OP_mod (o1 o2 : Object) :
    Computes (VM.ARITH_OP rt .mod o1 o2) (arith rt.fl .mod o1 o2) := by
  unfold VM.ARITH_OP
  split
  · rename_i i1 i2
    simp only [VM.arithInteger, arith]
    by_cases hzero : i2 = 0
    · simp [hzero, divided, computes_outside]
    · rw [if_neg hzero]
      split
      · exact computes_pure _
      · exact computes_remainder _ _
  · rename_i hints
    rw [arith_of_not_integers hints]
    split
    · exact computes_pure _
    · exact computes_outside _

end

/-! ### Instructions -/

/-- The registers of a frame. -/
abbrev Registers := Nat → Object

variable (fl : FloatOps) (strcmp : List UInt8 → List UInt8 → Int) (literals : List Object)

/-- `arg1` where it is an index. -/
def index1 (i : Instruction) : Result Nat :=
  if 0 ≤ i.arg1.toInt then .value i.arg1.toInt.toNat else .outside

/-- `STK(arg1)`. -/
def operand1 (i : Instruction) (r : Registers) : Result Object :=
  (index1 i).bind fun n => .value (r n)

theorem operand1_ne_raises (i : Instruction) (r : Registers) (msg : String) :
    operand1 i r ≠ .raises msg := by
  unfold operand1 index1
  split <;> simp

def literal (n : Nat) : Result Object :=
  match literals[n]? with
  | some o => .value o
  | none => .outside

/-- `COND_LITERAL`. -/
def condLiteral (i : Instruction) (r : Registers) : Result Object :=
  if i.arg3 ≠ 0 then (index1 i).bind (literal literals) else operand1 i r

def bitwiseOf (n : Nat) : Option BitWiseOP :=
  [.BW_AND, .BW_OR, .BW_XOR, .BW_SHIFTL, .BW_SHIFTR, .BW_USHIFTR].find? fun op => op.code = n

def cmpOf (n : Nat) : Option CmpOP :=
  [.CMP_G, .CMP_GE, .CMP_L, .CMP_LE, .CMP_3W].find? fun op => op.code = n

/-- The value of an operator on bits. -/
def bits (n : Nat) (o1 o2 : Object) : Result Object :=
  match bitwiseOf n with
  | some op => bitwise op o1 o2
  | none => .outside

/-- The value of a comparison. -/
def comparison (n : Nat) (o1 o2 : Object) : Result Object :=
  match cmpOf n with
  | some op => (compareObjects fl strcmp o1 o2).bind fun r => .value (compared op r)
  | none => .outside

/-- The value that an instruction puts into its target. -/
def target (i : Instruction) (r : Registers) : Result Object :=
  match i.op with
  | .LOAD => (index1 i).bind (literal literals)
  | .LOADINT => .value (.integer i.arg1.toInt64)
  | .LOADFLOAT => .value (.float i.arg1.toBitVec)
  | .LOADBOOL => .value (.ofBool (i.arg1 ≠ 0))
  | .MOVE => operand1 i r
  | .EQ => (condLiteral literals i r).bind fun o =>
      .value (.ofBool (VM.isEqual fl (r i.arg2.toNat) o))
  | .NE => (condLiteral literals i r).bind fun o =>
      .value (.ofBool (!VM.isEqual fl (r i.arg2.toNat) o))
  | .ADD => (operand1 i r).bind fun o => arith fl .add (r i.arg2.toNat) o
  | .SUB => (operand1 i r).bind fun o => arith fl .sub (r i.arg2.toNat) o
  | .MUL => (operand1 i r).bind fun o => arith fl .mul (r i.arg2.toNat) o
  | .DIV => (operand1 i r).bind fun o => arith fl .div (r i.arg2.toNat) o
  | .MOD => (operand1 i r).bind fun o => arith fl .mod (r i.arg2.toNat) o
  | .BITW => (operand1 i r).bind fun o => bits i.arg3.toNat (r i.arg2.toNat) o
  | .CMP => (operand1 i r).bind fun o => comparison fl strcmp i.arg3.toNat (r i.arg2.toNat) o
  | .NEG => (operand1 i r).bind (negate fl)
  | .NOT => (operand1 i r).bind fun o => .value (.ofBool (VM.isFalse fl o))
  | .BWNOT => (operand1 i r).bind complement
  | _ => .outside

/-- The end of an instruction that puts `v` into its target. -/
def Result.store (v : Result Object) (n : Nat) (r : Registers) : Exit Registers String :=
  match v with
  | .value v => .goes 0 (Function.update r n v)
  | .raises msg => .raises msg
  | .outside => .stuck

/-- A jump over the number of instructions in `arg1`. -/
def skip (i : Instruction) (r : Registers) : Exit Registers String :=
  match index1 i with
  | .value n => .goes n r
  | _ => .stuck

/-- `AND` and `OR`. -/
def decides (falsy : Bool) (i : Instruction) (r : Registers) : Exit Registers String :=
  if VM.isFalse fl (r i.arg2.toNat) = falsy then
    skip i (Function.update r i.arg0.toNat (r i.arg2.toNat))
  else .goes 0 r

/-- What an instruction does to the registers. -/
def effect (i : Instruction) (r : Registers) : Exit Registers String :=
  match i.op with
  | .LINE => .goes 0 r
  | .DLOAD =>
    match (index1 i).bind (literal literals), literal literals i.arg3.toNat with
    | .value o, .value o' =>
      .goes 0 (Function.update (Function.update r i.arg0.toNat o) i.arg2.toNat o')
    | _, _ => .stuck
  | .DMOVE =>
    match operand1 i r with
    | .value o =>
      let r := Function.update r i.arg0.toNat o
      .goes 0 (Function.update r i.arg2.toNat (r i.arg3.toNat))
    | _ => .stuck
  | .LOADNULLS =>
    if 0 < i.arg1.toInt then
      .goes 0 fun n =>
        if i.arg0.toNat ≤ n ∧ n < i.arg0.toNat + i.arg1.toInt.toNat then .null else r n
    else .stuck
  | .AND => decides fl true i r
  | .OR => decides fl false i r
  | .JMP => skip i r
  | .JZ => if VM.isFalse fl (r i.arg0.toNat) then skip i r else .goes 0 r
  | .JCMP =>
    match comparison fl strcmp i.arg3.toNat (r i.arg2.toNat) (r i.arg0.toNat) with
    | .value o => if VM.isFalse fl o then skip i r else .goes 0 r
    | .raises msg => .raises msg
    | .outside => .stuck
  | _ => (target fl strcmp literals i r).store i.arg0.toNat r

variable {fl strcmp literals}

theorem effect_of_target {i : Instruction} {r : Registers}
    (h : ∀ o ∈ [Opcode.LINE, .DLOAD, .DMOVE, .LOADNULLS, .AND, .OR, .JMP, .JZ, .JCMP], i.op ≠ o) :
    effect fl strcmp literals i r = (target fl strcmp literals i r).store i.arg0.toNat r := by
  unfold effect
  split <;> simp_all

end GameScript.Calc
