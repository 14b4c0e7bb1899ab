import GameScript.Compiler.Lexical
import GameScript.Compiler.Prologue
import GameScript.Generics
import GameScript.VM.Calc

/-!
Formulas: the expressions that only compute with constants and local variables. A formula has a
value of its own (`eval`), with the operators of the machine, and code (`emit`): what the procedures
of `GScompiler.cpp` make of it once it is parsed. `emit` is written over the state of the function
under compilation; it does not look whether registers and literals are left.
-/

namespace GameScript

open Calc

/-! ### Values -/

/-- The operators between two formulas. -/
inductive Operator where
  | arith (op : VM.ArithOp)
  | bits (op : BitWiseOP)
  | eq | ne
  | cmp (op : CmpOP)
deriving DecidableEq, Repr

inductive UnaryOperator where
  | neg | not | bwnot
deriving DecidableEq, Repr

inductive Formula where
  | int (n : GSInteger)
  | float (f : GSFloat)
  | str (s : List UInt8)
  | bool (b : Bool)
  | null
  | var (name : List UInt8)
  | unary (op : UnaryOperator) (a : Formula)
  | binary (op : Operator) (a b : Formula)
  | and (a b : Formula)
  | or (a b : Formula)
  | cond (c a b : Formula)
deriving DecidableEq, Repr

section

variable (fl : FloatOps) (strcmp : List UInt8 → List UInt8 → Int)

def Operator.apply (op : Operator) (v w : Object) : Result Object :=
  match op with
  | .arith op => Calc.arith fl op v w
  | .bits op => bitwise op v w
  | .eq => .value (.ofBool (VM.isEqual fl v w))
  | .ne => .value (.ofBool (!VM.isEqual fl v w))
  | .cmp op => (compareObjects fl strcmp v w).bind fun r => .value (compared op r)

def UnaryOperator.apply (op : UnaryOperator) (v : Object) : Result Object :=
  match op with
  | .neg => negate fl v
  | .not => .value (.ofBool (VM.isFalse fl v))
  | .bwnot => complement v

/-- The value of a formula, its variables having the values that `env` gives. -/
def Formula.eval (env : List UInt8 → Object) : Formula → Result Object
  | .int n => .value (.integer n)
  | .float f => .value (.float f)
  | .str s => .value (.string s)
  | .bool b => .value (.ofBool b)
  | .null => .value .null
  | .var name => .value (env name)
  | .unary op a => (a.eval env).bind (op.apply fl)
  | .binary op a b => (a.eval env).bind fun v => (b.eval env).bind (op.apply fl strcmp v)
  | .and a b => (a.eval env).bind fun v => if VM.isFalse fl v then .value v else b.eval env
  | .or a b => (a.eval env).bind fun v => if VM.isFalse fl v then b.eval env else .value v
  | .cond c a b => (c.eval env).bind fun v => if VM.isFalse fl v then b.eval env else a.eval env

end

/-! ### Code -/

/-- The instruction of an operator and its last operand. -/
def Operator.code : Operator → Opcode × Int
  | .arith .add => (.ADD, 0)
  | .arith .sub => (.SUB, 0)
  | .arith .mul => (.MUL, 0)
  | .arith .div => (.DIV, 0)
  | .arith .mod => (.MOD, 0)
  | .bits op => (.BITW, op.code)
  | .eq => (.EQ, 0)
  | .ne => (.NE, 0)
  | .cmp op => (.CMP, op.code)

def UnaryOperator.code : UnaryOperator → Opcode
  | .neg => .NEG
  | .not => .NOT
  | .bwnot => .BWNOT

namespace FuncState

/-- The target on top. -/
def target (fs : FuncState) : Nat := fs.targetstack.headD 0

/-- A register of its own for a new target. -/
def pushTarget (fs : FuncState) : FuncState :=
  { fs with
    vlocals := fs.vlocals.push .temporary
    stacksize := max fs.stacksize (fs.vlocals.size + 1)
    targetstack := fs.vlocals.size :: fs.targetstack }

def dropTarget (fs : FuncState) : FuncState := (fs.popTarget.map (·.2)).getD fs

/-- An instruction that loads a new target. -/
def emitLoad (fs : FuncState) (op : Opcode) (arg1 : Int) : FuncState :=
  fs.pushTarget.addInstruction (.make op fs.vlocals.size arg1 0 0)

def emitConstant (fs : FuncState) (o : Object) : FuncState :=
  let (n, fs') := fs.pushTarget.getConstant o
  fs'.addInstruction (.make .LOAD fs.vlocals.size n 0 0)

def emitInt (fs : FuncState) (n : GSInteger) : FuncState :=
  if n.toInt ≤ INT_MAX ∧ INT_MIN < n.toInt then fs.emitLoad .LOADINT n.toInt
  else fs.emitConstant (.integer n)

def emitUnary (fs : FuncState) (op : Opcode) : FuncState :=
  let src := fs.target
  let fs := fs.dropTarget
  fs.pushTarget.addInstruction (.make op fs.vlocals.size src 0 0)

def emitBinary (fs : FuncState) (op : Opcode) (op3 : Int) : FuncState :=
  let op1 := fs.target
  let fs := fs.dropTarget
  let op2 := fs.target
  let fs := fs.dropTarget
  fs.pushTarget.addInstruction (.make op fs.vlocals.size op1 op2 op3)

def moveTo (fs : FuncState) (trg src : Nat) : FuncState :=
  if trg ≠ src then fs.addInstruction (.make .MOVE trg src 0 0) else fs

/-- The operand of the jump at `pos` that leads behind the code so far. -/
def jumpHere (fs : FuncState) (pos : Int) : FuncState :=
  fs.setInstructionParam pos.toNat 1 (fs.getCurrentPos - pos)

/-- The result on top goes to the register `trg`. -/
def popInto (fs : FuncState) (trg : Nat) : FuncState := fs.dropTarget.moveTo trg fs.target

/-- The jump over the second operand of `LogicalOrExp` and `LogicalAndExp`. -/
def jumpOver (fs : FuncState) (op : Opcode) : FuncState :=
  fs.dropTarget.pushTarget.addInstruction (.make op fs.dropTarget.vlocals.size 0 fs.target 0)

/-- `LogicalOrExp` and `LogicalAndExp` after the first operand; `second` emits the other one. -/
def emitShortCircuit (fs : FuncState) (op : Opcode) (second : FuncState → FuncState) :
    FuncState :=
  let jump := fs.jumpOver op
  let rest := second (jump.moveTo jump.target fs.target)
  (rest.snoozeOpt.popInto jump.target).snoozeOpt.jumpHere jump.getCurrentPos

/-- The jump to the second expression of a conditional. -/
def testTarget (fs : FuncState) : FuncState :=
  fs.dropTarget.addInstruction (.make .JZ fs.target 0 0 0)

/-- The first expression of a conditional, with the jump over the second. -/
def emitFirst (fs : FuncState) (first : FuncState → FuncState) : FuncState :=
  ((first fs.pushTarget).popInto fs.vlocals.size).addInstruction (.make .JMP 0 0 0 0)

/-- The case `?` of `Expression` after the condition. -/
def emitCond (fs : FuncState) (first second : FuncState → FuncState) : FuncState :=
  let test := fs.testTarget
  let one := test.emitFirst first
  let two := (second one).popInto test.vlocals.size
  ((two.jumpHere one.getCurrentPos).setInstructionParam test.getCurrentPos.toNat 1
    (one.getCurrentPos - test.getCurrentPos)).snoozeOpt

end FuncState

/-- The code of a formula; its result is the target on top. -/
def Formula.emit : Formula → FuncState → FuncState
  | .int n, fs => fs.emitInt n
  | .float f, fs => fs.emitLoad .LOADFLOAT f.toNat
  | .str s, fs => fs.emitConstant (.string s)
  | .bool b, fs => fs.emitLoad .LOADBOOL b.toInt
  | .null, fs => fs.emitLoad .LOADNULLS 1
  | .var name, fs =>
    match fs.getLocalVariable (.string name) with
    | some pos => { fs with targetstack := pos :: fs.targetstack }
    | none => fs
  | .unary op a, fs => (a.emit fs).emitUnary op.code
  | .binary op a b, fs => (b.emit (a.emit fs)).emitBinary op.code.1 op.code.2
  | .and a b, fs => (a.emit fs).emitShortCircuit .AND b.emit
  | .or a b, fs => (a.emit fs).emitShortCircuit .OR b.emit
  | .cond c a b, fs => (c.emit fs).emitCond a.emit b.emit

/-! ### What a formula takes -/

namespace Formula

/-- The variables. -/
def vars : Formula → List (List UInt8)
  | .var name => [name]
  | .unary _ a => a.vars
  | .binary _ a b | .and a b | .or a b => a.vars ++ b.vars
  | .cond c a b => c.vars ++ a.vars ++ b.vars
  | _ => []

/-- The registers that hold the result: a variable is its own. -/
def width : Formula → Nat
  | .var _ => 0
  | _ => 1

/-- The registers that are taken while the value is computed. -/
def height : Formula → Nat
  | .var _ => 0
  | .unary _ a => max 1 a.height
  | .binary _ a b => max 1 (max a.height (a.width + b.height))
  | .and a b | .or a b => max a.height (1 + b.height)
  | .cond c a b => max c.height (1 + max a.height b.height)
  | _ => 1

/-- The literals, at most. -/
def constants : Formula → Nat
  | .int _ | .str _ => 1
  | .unary _ a => a.constants
  | .binary _ a b | .and a b | .or a b => a.constants + b.constants
  | .cond c a b => c.constants + a.constants + b.constants
  | _ => 0

/-- The instructions, at most. -/
def length : Formula → Nat
  | .var _ => 0
  | .unary _ a => a.length + 1
  | .binary _ a b => a.length + b.length + 1
  | .and a b | .or a b => a.length + b.length + 3
  | .cond c a b => c.length + a.length + b.length + 4
  | _ => 1

end Formula

/-! ### Targets -/

namespace FuncState

@[simp] theorem addInstruction_literals (fs : FuncState) (i : Instruction) :
    (fs.addInstruction i).literals = fs.literals := by
  unfold addInstruction
  repeat' split
  all_goals rfl

@[simp] theorem addInstruction_isLocal (fs : FuncState) (i : Instruction) (n : Nat) :
    (fs.addInstruction i).isLocal n = fs.isLocal n := by
  simp [isLocal]

@[simp] theorem moveTo_vlocals (fs : FuncState) (trg src : Nat) :
    (fs.moveTo trg src).vlocals = fs.vlocals := by
  unfold moveTo
  split <;> simp

@[simp] theorem moveTo_targetstack (fs : FuncState) (trg src : Nat) :
    (fs.moveTo trg src).targetstack = fs.targetstack := by
  unfold moveTo
  split <;> simp

@[simp] theorem snoozeOpt_vlocals (fs : FuncState) : fs.snoozeOpt.vlocals = fs.vlocals := rfl

@[simp] theorem snoozeOpt_targetstack (fs : FuncState) :
    fs.snoozeOpt.targetstack = fs.targetstack := rfl

@[simp] theorem setInstructionParam_vlocals (fs : FuncState) (pos arg : Nat) (val : Int) :
    (fs.setInstructionParam pos arg val).vlocals = fs.vlocals := rfl

@[simp] theorem setInstructionParam_targetstack (fs : FuncState) (pos arg : Nat) (val : Int) :
    (fs.setInstructionParam pos arg val).targetstack = fs.targetstack := rfl

@[simp] theorem jumpHere_vlocals (fs : FuncState) (pos : Int) :
    (fs.jumpHere pos).vlocals = fs.vlocals := rfl

@[simp] theorem jumpHere_targetstack (fs : FuncState) (pos : Int) :
    (fs.jumpHere pos).targetstack = fs.targetstack := rfl

@[simp] theorem getConstant_vlocals (fs : FuncState) (o : Object) :
    (fs.getConstant o).2.vlocals = fs.vlocals := by
  unfold getConstant
  split <;> rfl

@[simp] theorem getConstant_targetstack (fs : FuncState) (o : Object) :
    (fs.getConstant o).2.targetstack = fs.targetstack := by
  unfold getConstant
  split <;> rfl

/-- A temporary on top of the registers hides no variable. -/
theorem getLocalVariable_temporary {fs fs' : FuncState} {s : List UInt8}
    (h : fs'.vlocals = fs.vlocals.push .temporary) :
    fs'.getLocalVariable (.string s) = fs.getLocalVariable (.string s) := by
  unfold getLocalVariable
  rw [h, Array.size_push, List.range_succ, List.reverse_append, List.reverse_singleton,
    List.singleton_append, List.find?_cons_of_neg (by simp [VLocal.temporary])]
  apply List.find?_congr
  intro n hn
  have hlt : n < fs.vlocals.size := by simpa using hn
  simp [Array.getElem?_push, Nat.ne_of_lt hlt]

/-- The register of a variable is no temporary. -/
theorem getLocalVariable_isLocal {fs : FuncState} {s : List UInt8} {pos : Nat}
    (h : fs.getLocalVariable (.string s) = some pos) : fs.isLocal pos = true := by
  have hname : (fs.vlocals[pos]?.map (·.name)) = some (.string s) := by
    simpa using List.find?_some h
  unfold isLocal
  cases hpos : fs.vlocals[pos]? with
  | none => simp [hpos] at hname
  | some lvi =>
      rw [hpos, Option.map_some, Option.some.injEq] at hname
      simp [hname]

/-- `fs'` has the target `t` on top of those of `fs`: a temporary or a local variable. -/
structure Aims (fs fs' : FuncState) (t : Nat) : Prop where
  targetstack : fs'.targetstack = t :: fs.targetstack
  vlocals : t = fs.vlocals.size ∧ fs'.vlocals = fs.vlocals.push .temporary ∨
    fs.isLocal t = true ∧ fs'.vlocals = fs.vlocals

variable {fs fs' : FuncState} {t : Nat}

theorem Aims.target (h : Aims fs fs' t) : fs'.target = t := by simp [FuncState.target, h.targetstack]

/-- A target that is popped is gone with its temporary. -/
theorem Aims.popTarget (h : Aims fs fs' t) : fs'.popTarget =
    some (t, { fs' with vlocals := fs.vlocals, targetstack := fs.targetstack }) := by
  unfold FuncState.popTarget
  rw [h.targetstack]
  rcases h.vlocals with ⟨rfl, hvlocals⟩ | ⟨hlocal, hvlocals⟩
  · simp [hvlocals, VLocal.temporary]
  · unfold isLocal at hlocal
    rw [hvlocals]
    cases ht : fs.vlocals[t]? with
    | none => simp [ht] at hlocal
    | some lvi =>
        have hname : lvi.name ≠ .null := by simpa [ht] using hlocal
        simp [ht, hname]

theorem Aims.dropTarget (h : Aims fs fs' t) :
    fs'.dropTarget = { fs' with vlocals := fs.vlocals, targetstack := fs.targetstack } := by
  simp [FuncState.dropTarget, h.popTarget]

theorem aims_pushTarget (fs : FuncState) : Aims fs fs.pushTarget fs.vlocals.size :=
  ⟨rfl, .inl ⟨rfl, rfl⟩⟩

/-- Only the registers and the targets count. -/
theorem Aims.congr (h : Aims fs fs' t) {gs gs' : FuncState} (hfs : gs.vlocals = fs.vlocals)
    (htargets : gs.targetstack = fs.targetstack) (hfs' : gs'.vlocals = fs'.vlocals)
    (htargets' : gs'.targetstack = fs'.targetstack) : Aims gs gs' t := by
  have hlocal : gs.isLocal t = fs.isLocal t := by simp [isLocal, hfs]
  exact ⟨by rw [htargets', htargets, h.targetstack], by rw [hfs, hfs', hlocal]; exact h.vlocals⟩

theorem Aims.getLocalVariable (h : Aims fs fs' t) (s : List UInt8) :
    fs'.getLocalVariable (.string s) = fs.getLocalVariable (.string s) := by
  rcases h.vlocals with ⟨-, hvlocals⟩ | ⟨-, hvlocals⟩
  · exact getLocalVariable_temporary hvlocals
  · simp [FuncState.getLocalVariable, hvlocals]

theorem aims_emitLoad (fs : FuncState) (op : Opcode) (arg1 : Int) :
    Aims fs (fs.emitLoad op arg1) fs.vlocals.size :=
  (aims_pushTarget fs).congr rfl rfl (by simp [emitLoad]) (by simp [emitLoad])

theorem aims_emitConstant (fs : FuncState) (o : Object) :
    Aims fs (fs.emitConstant o) fs.vlocals.size :=
  (aims_pushTarget fs).congr rfl rfl (by simp [emitConstant]) (by simp [emitConstant])

theorem aims_emitInt (fs : FuncState) (n : GSInteger) :
    Aims fs (fs.emitInt n) fs.vlocals.size := by
  unfold emitInt
  split
  · exact aims_emitLoad fs _ _
  · exact aims_emitConstant fs _

theorem Aims.emitUnary (h : Aims fs fs' t) (op : Opcode) :
    Aims fs (fs'.emitUnary op) fs.vlocals.size := by
  apply (aims_pushTarget fs).congr rfl rfl <;>
    simp [FuncState.emitUnary, h.dropTarget, pushTarget]

theorem Aims.emitBinary {fs₁ : FuncState} {t₁ t₂ : Nat} (h₁ : Aims fs fs₁ t₁)
    (h₂ : Aims fs₁ fs' t₂) (op : Opcode) (op3 : Int) :
    Aims fs (fs'.emitBinary op op3) fs.vlocals.size := by
  have h₁' : Aims fs { fs' with vlocals := fs₁.vlocals, targetstack := fs₁.targetstack } t₁ :=
    h₁.congr rfl rfl rfl rfl
  apply (aims_pushTarget fs).congr rfl rfl <;>
    simp [FuncState.emitBinary, h₂.dropTarget, h₁'.dropTarget, pushTarget]

theorem Aims.popInto (h : Aims fs fs' t) (trg : Nat) :
    (fs'.popInto trg).vlocals = fs.vlocals ∧ (fs'.popInto trg).targetstack = fs.targetstack := by
  simp [FuncState.popInto, h.dropTarget]

theorem Aims.jumpOver (h : Aims fs fs' t) (op : Opcode) :
    Aims fs (fs'.jumpOver op) fs.vlocals.size := by
  apply (aims_pushTarget fs).congr rfl rfl <;>
    simp [FuncState.jumpOver, h.dropTarget, pushTarget]

/-- What is emitted on top of `fs` finds the same variables and has its result on top. -/
def Emits (second : FuncState → FuncState) (fs : FuncState) : Prop :=
  ∀ gs, (∀ s, gs.getLocalVariable (.string s) = fs.getLocalVariable (.string s)) →
    ∃ t, Aims gs (second gs) t

theorem getLocalVariable_congr {gs : FuncState} (h : gs.vlocals = fs.vlocals) (o : Object) :
    gs.getLocalVariable o = fs.getLocalVariable o := by
  simp [getLocalVariable, h]

/-- The result of a short circuit is one temporary on top. -/
theorem Aims.emitShortCircuit (h : Aims fs fs' t) (op : Opcode) {second : FuncState → FuncState}
    (hsecond : Emits second fs) :
    Aims fs (fs'.emitShortCircuit op second) fs.vlocals.size := by
  have hjump := h.jumpOver op
  obtain ⟨t₂, hrest⟩ := hsecond ((fs'.jumpOver op).moveTo (fs'.jumpOver op).target fs'.target)
    fun s => by rw [getLocalVariable_congr (moveTo_vlocals _ _ _), hjump.getLocalVariable]
  have hrest : Aims ((fs'.jumpOver op).moveTo (fs'.jumpOver op).target fs'.target)
      (second ((fs'.jumpOver op).moveTo (fs'.jumpOver op).target fs'.target)).snoozeOpt t₂ :=
    hrest.congr rfl rfl rfl rfl
  obtain ⟨hvlocals, htargets⟩ := hrest.popInto (fs'.jumpOver op).target
  apply hjump.congr rfl rfl
  · simpa only [FuncState.emitShortCircuit, jumpHere_vlocals, snoozeOpt_vlocals, moveTo_vlocals]
      using hvlocals
  · simpa only [FuncState.emitShortCircuit, jumpHere_targetstack, snoozeOpt_targetstack,
      moveTo_targetstack] using htargets

theorem Aims.testTarget (h : Aims fs fs' t) :
    fs'.testTarget.vlocals = fs.vlocals ∧ fs'.testTarget.targetstack = fs.targetstack := by
  simp [FuncState.testTarget, h.dropTarget]

theorem aims_emitFirst (fs : FuncState) {first : FuncState → FuncState} (hfirst : Emits first fs) :
    Aims fs (fs.emitFirst first) fs.vlocals.size := by
  obtain ⟨t, haims⟩ := hfirst fs.pushTarget (aims_pushTarget fs).getLocalVariable
  obtain ⟨hvlocals, htargets⟩ := haims.popInto fs.vlocals.size
  apply (aims_pushTarget fs).congr rfl rfl
  · simpa [emitFirst] using hvlocals
  · simpa [emitFirst] using htargets

/-- The result of a conditional is one temporary on top. -/
theorem Aims.emitCond (h : Aims fs fs' t) {first second : FuncState → FuncState}
    (hfirst : Emits first fs) (hsecond : Emits second fs) :
    Aims fs (fs'.emitCond first second) fs.vlocals.size := by
  obtain ⟨hvlocals, htargets⟩ := h.testTarget
  have hsame (s : List UInt8) := getLocalVariable_congr hvlocals (.string s)
  have hone : Aims fs'.testTarget (fs'.testTarget.emitFirst first) _ := aims_emitFirst _
    fun gs hgs => hfirst gs fun s => (hgs s).trans (hsame s)
  obtain ⟨t₂, htwo⟩ := hsecond (fs'.testTarget.emitFirst first)
    fun s => (hone.getLocalVariable s).trans (hsame s)
  obtain ⟨hvlocals₂, htargets₂⟩ := htwo.popInto fs'.testTarget.vlocals.size
  have haims : Aims fs (fs'.testTarget.emitFirst first) _ :=
    hone.congr hvlocals.symm htargets.symm rfl rfl
  rw [hvlocals] at haims
  apply haims.congr rfl rfl
  · simpa only [FuncState.emitCond, jumpHere_vlocals, snoozeOpt_vlocals,
      setInstructionParam_vlocals] using hvlocals₂
  · simpa only [FuncState.emitCond, jumpHere_targetstack, snoozeOpt_targetstack,
      setInstructionParam_targetstack] using htargets₂

end FuncState

namespace Formula

/-- Every variable is a local variable of the function under compilation. -/
def Resolves (e : Formula) (fs : FuncState) : Prop :=
  ∀ s ∈ e.vars, (fs.getLocalVariable (.string s)).isSome = true

/-- The register of the result. -/
def result (e : Formula) (fs : FuncState) : Nat :=
  match e with
  | .var name => (fs.getLocalVariable (.string name)).getD 0
  | _ => fs.vlocals.size

theorem Resolves.congr {e : Formula} {fs gs : FuncState} (h : e.Resolves fs)
    (hgs : ∀ s, gs.getLocalVariable (.string s) = fs.getLocalVariable (.string s)) :
    e.Resolves gs := fun s hs => by rw [hgs]; exact h s hs

/-- A formula leaves one target, its result. -/
theorem aims_emit {e : Formula} {fs : FuncState} (h : e.Resolves fs) :
    FuncState.Aims fs (e.emit fs) (e.result fs) := by
  induction e generalizing fs with
  | int n => exact fs.aims_emitInt n
  | float f => exact fs.aims_emitLoad _ _
  | str s => exact fs.aims_emitConstant _
  | bool b => exact fs.aims_emitLoad _ _
  | null => exact fs.aims_emitLoad _ _
  | var name =>
      obtain ⟨pos, hpos⟩ := Option.isSome_iff_exists.mp (h name (by simp [vars]))
      simpa [emit, result, hpos] using
        ⟨rfl, .inr ⟨FuncState.getLocalVariable_isLocal hpos, rfl⟩⟩
  | unary op a ih => exact (ih h).emitUnary op.code
  | binary op a b iha ihb =>
      simp only [Resolves, vars, List.forall_mem_append] at h
      have ha := iha h.1
      exact ha.emitBinary (ihb (Resolves.congr h.2 ha.getLocalVariable)) _ _
  | and a b iha ihb | or a b iha ihb =>
      simp only [Resolves, vars, List.forall_mem_append] at h
      exact (iha h.1).emitShortCircuit _ fun gs hgs => ⟨_, ihb (Resolves.congr h.2 hgs)⟩
  | cond c a b ihc iha ihb =>
      simp only [Resolves, vars, List.forall_mem_append] at h
      exact (ihc h.1.1).emitCond (fun gs hgs => ⟨_, iha (Resolves.congr h.1.2 hgs)⟩)
        fun gs hgs => ⟨_, ihb (Resolves.congr h.2 hgs)⟩

end Formula

/-! ### Instructions and literals -/

/-- The instructions that the optimiser emits without a look at the one before. -/
def Opcode.plain : Opcode → Bool
  | .JZ | .SET | .NEWSLOT | .SETOUTER | .RETURN | .GET | .PREPCALL | .APPENDARRAY | .MOVE | .LOAD
  | .EQ | .NE | .LOADNULLS | .LINE => false
  | _ => true

namespace FuncState

/-- An instruction that merges with none is appended. -/
theorem addInstruction_keep {fs : FuncState} {i : Instruction}
    (h : ∀ pi, fs.instructions.back? = some pi → fs.optimization = true →
      fs.peephole pi i = { prev := some pi, next := some i }) :
    (fs.addInstruction i).instructions = fs.instructions.push i ∧
      (fs.addInstruction i).optimization = true := by
  unfold addInstruction
  cases hback : fs.instructions.back? with
  | none => exact ⟨rfl, rfl⟩
  | some pi =>
      obtain ⟨is, his⟩ := Array.back?_eq_some_iff.mp hback
      dsimp only
      split
      · rename_i hopt
        simp [h pi hback hopt, his]
      · exact ⟨rfl, rfl⟩

theorem addInstruction_plain (fs : FuncState) {i : Instruction} (hi : i.op.plain = true) :
    (fs.addInstruction i).instructions = fs.instructions.push i ∧
      (fs.addInstruction i).optimization = true := by
  apply addInstruction_keep
  intro pi _ _
  unfold peephole
  split <;> simp_all [Opcode.plain]

theorem getCurrentPos_plain (fs : FuncState) {i : Instruction} (hi : i.op.plain = true) :
    (fs.addInstruction i).getCurrentPos = fs.getCurrentPos + 1 := by
  simp [getCurrentPos, (fs.addInstruction_plain hi).1]

/-- At most `n` instructions and `k` literals more. -/
structure Grows (n k : Nat) (fs fs' : FuncState) : Prop where
  instructions : fs.instructions.size ≤ fs'.instructions.size
  length : fs'.instructions.size ≤ fs.instructions.size + n
  literals : fs.literals.toList <+: fs'.literals.toList
  constants : fs'.literals.size ≤ fs.literals.size + k

section

variable {fs fs₁ fs' : FuncState} {n₁ n₂ k₁ k₂ : Nat}

theorem Grows.trans (h₁ : Grows n₁ k₁ fs fs₁) (h₂ : Grows n₂ k₂ fs₁ fs') :
    Grows (n₁ + n₂) (k₁ + k₂) fs fs' where
  instructions := h₁.instructions.trans h₂.instructions
  length := by have := h₁.length; have := h₂.length; omega
  literals := h₁.literals.trans h₂.literals
  constants := by have := h₁.constants; have := h₂.constants; omega

theorem Grows.mono (h : Grows n₁ k₁ fs fs') (hn : n₁ ≤ n₂) (hk : k₁ ≤ k₂) :
    Grows n₂ k₂ fs fs' where
  instructions := h.instructions
  length := by have := h.length; omega
  literals := h.literals
  constants := by have := h.constants; omega

theorem grows_of_eq (n k : Nat) (hinstructions : fs'.instructions.size = fs.instructions.size)
    (hliterals : fs'.literals = fs.literals) : Grows n k fs fs' := by
  constructor <;> simp [hinstructions, hliterals]

/-- An instruction adds one at most, and no constant. -/
theorem grows_addInstruction (fs : FuncState) (i : Instruction) :
    Grows 1 0 fs (fs.addInstruction i) := by
  have hliterals := fs.addInstruction_literals i
  have hsize : fs.instructions.size ≤ (fs.addInstruction i).instructions.size ∧
      (fs.addInstruction i).instructions.size ≤ fs.instructions.size + 1 := by
    unfold addInstruction
    cases hback : fs.instructions.back? with
    | none => simp
    | some pi =>
        have hpos : 0 < fs.instructions.size := by
          by_contra hzero
          have hempty : fs.instructions = #[] := by
            apply Array.eq_empty_of_size_eq_zero
            omega
          simp [hempty] at hback
        dsimp only
        split
        · have hkeeps := fs.peephole_keeps pi i
          cases hprev : (fs.peephole pi i).prev <;> cases hnext : (fs.peephole pi i).next <;>
            simp [hprev, hnext] at hkeeps ⊢ <;> omega
        · simp
  constructor <;> simp [hsize]

theorem grows_dropTarget (fs : FuncState) : Grows 0 0 fs fs.dropTarget := by
  apply grows_of_eq <;>
  · unfold dropTarget popTarget
    cases fs.targetstack with
    | nil => rfl
    | cons npos rest => cases h : fs.vlocals[npos]? <;> simp [h]

theorem grows_moveTo (fs : FuncState) (trg src : Nat) : Grows 1 0 fs (fs.moveTo trg src) := by
  unfold moveTo
  split
  · exact grows_addInstruction _ _
  · exact grows_of_eq _ _ rfl rfl

theorem grows_getConstant (fs : FuncState) (o : Object) : Grows 0 1 fs (fs.getConstant o).2 := by
  unfold getConstant
  split <;> constructor <;> simp

theorem grows_pushTarget (fs : FuncState) : Grows 0 0 fs fs.pushTarget := grows_of_eq _ _ rfl rfl

theorem grows_snoozeOpt (fs : FuncState) : Grows 0 0 fs fs.snoozeOpt := grows_of_eq _ _ rfl rfl

theorem grows_setInstructionParam (fs : FuncState) (pos arg : Nat) (val : Int) :
    Grows 0 0 fs (fs.setInstructionParam pos arg val) :=
  grows_of_eq _ _ (by simp [setInstructionParam]) rfl

theorem grows_emitLoad (fs : FuncState) (op : Opcode) (arg1 : Int) :
    Grows 1 0 fs (fs.emitLoad op arg1) :=
  (grows_pushTarget fs).trans (grows_addInstruction _ _)

theorem grows_emitConstant (fs : FuncState) (o : Object) : Grows 1 1 fs (fs.emitConstant o) :=
  ((grows_pushTarget fs).trans (grows_getConstant _ o)).trans (grows_addInstruction _ _)

theorem grows_emitInt (fs : FuncState) (n : GSInteger) : Grows 1 1 fs (fs.emitInt n) := by
  unfold emitInt
  split
  · exact (grows_emitLoad fs _ _).mono le_rfl (by simp)
  · exact grows_emitConstant fs _

theorem grows_emitUnary (fs : FuncState) (op : Opcode) : Grows 1 0 fs (fs.emitUnary op) :=
  ((grows_dropTarget fs).trans (grows_pushTarget _)).trans (grows_addInstruction _ _)

theorem grows_emitBinary (fs : FuncState) (op : Opcode) (op3 : Int) :
    Grows 1 0 fs (fs.emitBinary op op3) :=
  (((grows_dropTarget fs).trans (grows_dropTarget _)).trans (grows_pushTarget _)).trans
    (grows_addInstruction _ _)

theorem grows_popInto (fs : FuncState) (trg : Nat) : Grows 1 0 fs (fs.popInto trg) :=
  (grows_dropTarget fs).trans (grows_moveTo _ _ _)

theorem grows_jumpOver (fs : FuncState) (op : Opcode) : Grows 1 0 fs (fs.jumpOver op) :=
  ((grows_dropTarget fs).trans (grows_pushTarget _)).trans (grows_addInstruction _ _)

theorem grows_jumpHere (fs : FuncState) (pos : Int) : Grows 0 0 fs (fs.jumpHere pos) :=
  grows_setInstructionParam fs _ _ _

theorem grows_testTarget (fs : FuncState) : Grows 1 0 fs fs.testTarget :=
  (grows_dropTarget fs).trans (grows_addInstruction _ _)

theorem grows_emitShortCircuit (fs : FuncState) (op : Opcode) {second : FuncState → FuncState}
    {n k : Nat} (hsecond : ∀ gs, Grows n k gs (second gs)) :
    Grows (n + 3) k fs (fs.emitShortCircuit op second) := by
  have hrest := ((grows_jumpOver fs op).trans (grows_moveTo _ (fs.jumpOver op).target fs.target)).trans
    (hsecond _)
  have hpop := (hrest.trans (grows_snoozeOpt _)).trans (grows_popInto _ (fs.jumpOver op).target)
  have hend := (hpop.trans (grows_snoozeOpt _)).trans
    (grows_jumpHere _ (fs.jumpOver op).getCurrentPos)
  exact hend.mono (by omega) (by omega)

theorem grows_emitFirst (fs : FuncState) {first : FuncState → FuncState} {n k : Nat}
    (hfirst : ∀ gs, Grows n k gs (first gs)) : Grows (n + 2) k fs (fs.emitFirst first) := by
  have hpop := ((grows_pushTarget fs).trans (hfirst _)).trans (grows_popInto _ fs.vlocals.size)
  have hjump := hpop.trans (grows_addInstruction _ (.make .JMP 0 0 0 0))
  exact hjump.mono (by omega) (by omega)

theorem grows_emitCond (fs : FuncState) {first second : FuncState → FuncState}
    (hfirst : ∀ gs, Grows n₁ k₁ gs (first gs)) (hsecond : ∀ gs, Grows n₂ k₂ gs (second gs)) :
    Grows (n₁ + n₂ + 4) (k₁ + k₂) fs (fs.emitCond first second) := by
  have hone := (grows_testTarget fs).trans (grows_emitFirst _ hfirst)
  have htwo := (hone.trans (hsecond _)).trans (grows_popInto _ fs.testTarget.vlocals.size)
  have hjump := (htwo.trans (grows_jumpHere _ (fs.testTarget.emitFirst first).getCurrentPos)).trans
    (grows_setInstructionParam _ fs.testTarget.getCurrentPos.toNat 1
      ((fs.testTarget.emitFirst first).getCurrentPos - fs.testTarget.getCurrentPos))
  exact (hjump.trans (grows_snoozeOpt _)).mono (by omega) (by omega)

end

end FuncState

/-- A formula emits no more instructions and constants than it counts. -/
theorem Formula.grows_emit (e : Formula) (fs : FuncState) :
    FuncState.Grows e.length e.constants fs (e.emit fs) := by
  induction e generalizing fs with
  | int n => exact fs.grows_emitInt n
  | float f => exact fs.grows_emitLoad _ _
  | str s => exact fs.grows_emitConstant _
  | bool b => exact fs.grows_emitLoad _ _
  | null => exact fs.grows_emitLoad _ _
  | var name =>
      apply FuncState.grows_of_eq <;>
        cases h : fs.getLocalVariable (.string name) <;> simp [emit, h]
  | unary op a ih => exact (ih fs).trans (FuncState.grows_emitUnary _ _)
  | binary op a b iha ihb =>
      exact ((iha fs).trans (ihb _)).trans (FuncState.grows_emitBinary _ _ _)
  | and a b iha ihb | or a b iha ihb =>
      exact ((iha fs).trans (FuncState.grows_emitShortCircuit _ _ ihb)).mono
        (by simp [length]; omega) (by simp [constants])
  | cond c a b ihc iha ihb =>
      exact ((ihc fs).trans (FuncState.grows_emitCond _ iha ihb)).mono
        (by simp [length]; omega) (by simp [constants]; omega)

/-! ### Bounds -/

namespace Formula

/-- There is room for the registers and the literals of a formula, and its variables are local. -/
structure Fits (e : Formula) (fs : FuncState) : Prop where
  resolves : e.Resolves fs
  registers : fs.vlocals.size + e.height ≤ 256
  literals : fs.literals.size + e.constants ≤ MAX_LITERALS

/-- A formula takes as many temporaries as its result does. -/
theorem size_emit {e : Formula} {fs : FuncState} (h : e.Resolves fs) :
    (e.emit fs).vlocals.size = fs.vlocals.size + e.width := by
  have haims := aims_emit h
  cases e with
  | var name => cases hname : fs.getLocalVariable (.string name) <;> simp [emit, width, hname]
  | _ =>
      rcases haims.vlocals with ⟨-, hvlocals⟩ | ⟨hlocal, -⟩
      · simp [hvlocals, width]
      · simp [result, FuncState.isLocal] at hlocal

theorem Fits.local {s : List UInt8} {fs : FuncState} (h : (var s).Fits fs) :
    ∃ pos, fs.getLocalVariable (.string s) = some pos :=
  Option.isSome_iff_exists.mp (h.resolves s (by simp [vars]))

theorem width_le_height (e : Formula) : e.width ≤ e.height := by
  cases e <;> simp [width, height]

variable {op : Operator} {a b c : Formula} {fs gs : FuncState}

theorem Fits.room_of_literal (h : a.Fits fs) (hheight : a.height = 1) :
    fs.vlocals.size < 256 := by
  have hregisters := h.registers
  omega

/-- Where an operation fits, its operands fit one after the other. -/
theorem Fits.binary (h : (binary op a b).Fits fs) : a.Fits fs ∧ b.Fits (a.emit fs) := by
  have hresolves := h.resolves
  simp only [Resolves, vars, List.forall_mem_append] at hresolves
  have hregisters := h.registers
  have hliterals := h.literals
  have hgrows := (a.grows_emit fs).constants
  have hsize := size_emit hresolves.1
  simp only [height, constants] at hregisters hliterals
  refine ⟨⟨hresolves.1, by omega, by omega⟩, ?_, by omega, by omega⟩
  exact Resolves.congr hresolves.2 (aims_emit hresolves.1).getLocalVariable

theorem Fits.unary {op : UnaryOperator} (h : (Formula.unary op a).Fits fs) : a.Fits fs where
  resolves := h.resolves
  registers := by have := h.registers; simp only [height] at this; omega
  literals := h.literals

/-- Where a short circuit fits, its second operand has room behind the first.
-/
theorem Fits.and (h : (Formula.and a b).Fits fs) : a.Fits fs ∧ b.Resolves fs ∧
    fs.vlocals.size + (1 + b.height) ≤ 256 ∧
    fs.literals.size + (a.constants + b.constants) ≤ MAX_LITERALS := by
  have hresolves := h.resolves
  simp only [Resolves, vars, List.forall_mem_append] at hresolves
  have hregisters := h.registers
  have hliterals := h.literals
  simp only [height, constants] at hregisters hliterals
  exact ⟨⟨hresolves.1, by omega, by omega⟩, hresolves.2, by omega, hliterals⟩

theorem Fits.or (h : (Formula.or a b).Fits fs) : a.Fits fs ∧ b.Resolves fs ∧
    fs.vlocals.size + (1 + b.height) ≤ 256 ∧
    fs.literals.size + (a.constants + b.constants) ≤ MAX_LITERALS :=
  Fits.and (a := a) (b := b) ⟨h.resolves, h.registers, h.literals⟩

/-- The state in which the second operand of `and` and `or` is compiled. -/
theorem Fits.second (op : Opcode) (ha : a.Resolves fs) (hb : b.Resolves fs)
    (hregisters : fs.vlocals.size + (1 + b.height) ≤ 256)
    (hliterals : fs.literals.size + (a.constants + b.constants) ≤ MAX_LITERALS) :
    b.Fits (((a.emit fs).jumpOver op).moveTo ((a.emit fs).jumpOver op).target (a.emit fs).target) := by
  have hjump := (aims_emit ha).jumpOver op
  have hgrows := (((a.grows_emit fs).trans (FuncState.grows_jumpOver _ op)).trans
    (FuncState.grows_moveTo _ ((a.emit fs).jumpOver op).target (a.emit fs).target)).constants
  refine ⟨Resolves.congr hb fun s => ?_, ?_, by omega⟩
  · rw [FuncState.getLocalVariable_congr (FuncState.moveTo_vlocals _ _ _), hjump.getLocalVariable]
  · rcases hjump.vlocals with ⟨-, hvlocals⟩ | ⟨hlocal, -⟩
    · simp only [FuncState.moveTo_vlocals, hvlocals, Array.size_push]
      omega
    · simp [FuncState.isLocal] at hlocal

/-- Where a conditional fits, its test and branches fit one after the other.
-/
theorem Fits.cond (h : (Formula.cond c a b).Fits fs) : c.Fits fs ∧
    a.Fits (c.emit fs).testTarget.pushTarget ∧
    b.Fits ((c.emit fs).testTarget.emitFirst a.emit) := by
  have hresolves := h.resolves
  simp only [Resolves, vars, List.forall_mem_append] at hresolves
  obtain ⟨⟨hc, ha⟩, hb⟩ := hresolves
  have hregisters := h.registers
  have hliterals := h.literals
  simp only [height, constants] at hregisters hliterals
  have haims := aims_emit hc
  have hvlocals := haims.testTarget.1
  have hlookup (s : List UInt8) := FuncState.getLocalVariable_congr hvlocals (.string s)
  have hgrowsc := ((c.grows_emit fs).trans (FuncState.grows_testTarget _)).constants
  have hgrowsa := (FuncState.grows_emitFirst (c.emit fs).testTarget a.grows_emit).constants
  have hpush := FuncState.aims_pushTarget (c.emit fs).testTarget
  have hfirst : FuncState.Aims _ ((c.emit fs).testTarget.emitFirst a.emit) _ :=
    FuncState.aims_emitFirst _ fun gs hgs => ⟨_, aims_emit (Resolves.congr ha fun s => (hgs s).trans (hlookup s))⟩
  refine ⟨⟨hc, by omega, by omega⟩, ⟨?_, ?_, ?_⟩, ⟨?_, ?_, by omega⟩⟩
  · exact Resolves.congr ha fun s => (hpush.getLocalVariable s).trans (hlookup s)
  · simp only [FuncState.pushTarget, Array.size_push, hvlocals]
    omega
  · change (c.emit fs).testTarget.literals.size + _ ≤ _
    omega
  · exact Resolves.congr hb fun s => (hfirst.getLocalVariable s).trans (hlookup s)
  · rcases hfirst.vlocals with ⟨-, hsize⟩ | ⟨hlocal, -⟩
    · simp only [hsize, Array.size_push, hvlocals]
      omega
    · simp [FuncState.isLocal] at hlocal

end Formula

end GameScript
