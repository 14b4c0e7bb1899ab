import GameScript.Tokens
import GameScript.Compiler.FuncState

/-!
The state of the compiler (`GScompiler.cpp`) and the steps its procedures are
made of: taking tokens, pushing and popping targets, emitting instructions.

The compiler reads a stream of lexemes, the tokens with what the lexer stored for
them. An error leaves by `longjmp` in the source; here it leaves the computation
and the state stays as it was then.
-/

namespace GameScript

/-- How a compilation stops: with an error of the source, by reading past the end
of one of its stacks, or because the recursion bound of the model is used up. -/
inductive CompileError where
  | error (msg : String)
  | undefined
  | outOfFuel
deriving DecidableEq, Repr

/-- The kinds of expression. -/
inductive ExpType where
  | EXPR | OBJECT | BASE | LOCAL | OUTER
deriving DecidableEq, Repr

/-- `GSExpState`. -/
structure ExpState where
  etype : ExpType := .EXPR
  epos : Int := -1
  donot_get : Bool := false
deriving DecidableEq, Repr

/-- `GSScope`. -/
structure Scope where
  outers : Int := 0
  stacksize : Nat := 0
deriving DecidableEq, Repr

/-- A token with the line breaks before it, its line and what the lexer holds after
reading it: in `longstr` the characters of a number, a name or a string. -/
structure Lexeme where
  token : Token
  newlines : Nat := 0
  currentline : GSInteger := 1
  longstr : List UInt8 := []
  svalue : List UInt8 := []
  nvalue : GSInteger := 0
  fvalue : GSFloat := 0
deriving DecidableEq, Repr

/-- `GSLexer` as the compiler sees it. A line break counts as a token for
`_prevtoken`. -/
structure Lexer where
  input : List (Except String Lexeme)
  curtoken : Option Token := none
  prevtoken : Option Token := none
  currentline : GSInteger := 1
  lasttokenline : GSInteger := 1
  longstr : List UInt8 := []
  svalue : List UInt8 := []
  nvalue : GSInteger := 0
  fvalue : GSFloat := 0

namespace Lexer

/-- `_prevtoken = _curtoken; _curtoken = t`. -/
def shift (l : Lexer) (t : Token) : Lexer := { l with prevtoken := l.curtoken, curtoken := some t }

/-- `Lex`. The end of the input is no token for `_prevtoken`. -/
def lex (l : Lexer) : Except String (Token × Lexer) :=
  let l := { l with lasttokenline := l.currentline }
  match l.input with
  | [] => .ok (.eob, l)
  | .error msg :: _ => .error msg
  | .ok x :: input =>
    let l := Nat.repeat (·.shift (.chr '\n')) x.newlines l
    let l := if x.token = .eob then l else l.shift x.token
    .ok (x.token, { l with
      input := input
      currentline := x.currentline
      longstr := x.longstr
      svalue := x.svalue
      nvalue := x.nvalue
      fvalue := x.fvalue })

end Lexer

/-- An entry of the table of constants: a scalar, or the table of an enumeration. -/
inductive Constant where
  | scalar (o : Object)
  | table (entries : List (Object × Object))
deriving DecidableEq, Repr

/-- A return annotation, `T` or `T[]`. -/
structure Annotation where
  type : Token
  isArray : Bool
deriving DecidableEq, Repr

/-- A float constant that the compiler has read, and the characters of its token. -/
structure FloatConstant where
  value : GSFloat
  negated : Bool
  longstr : List UInt8
deriving DecidableEq, Repr

/-- `GSCompiler`. `parents` are the functions around `fs`, the innermost first;
`consts` is the table that all compilations share. The source has no `annotations` and no
`loaded`: they say what was read behind the parameters of each function that is finished, and
which float constants were read, each with the characters of its token. -/
structure Compiler where
  token : Token := .eob
  fs : FuncState
  parents : List FuncState := []
  sourcename : Object
  lex : Lexer
  lineinfo : Bool
  es : ExpState := {}
  scope : Scope := {}
  consts : List (Object × Constant) := []
  annotations : List (FunctionProto × Option Annotation) := []
  loaded : List FloatConstant := []

abbrev CompilerM := EStateM CompileError Compiler

namespace Compiler

/-- `Error`. -/
def error {α : Type} (msg : String) : CompilerM α := throw (.error msg)

/-- What the source does by reading past the end of a stack. -/
def undefined {α : Type} : CompilerM α := throw .undefined

def getFs : CompilerM FuncState := return (← get).fs

def modifyFs (f : FuncState → FuncState) : CompilerM Unit := modify fun c => { c with fs := f c.fs }

def getToken : CompilerM Token := return (← get).token

theorem getToken_bind_apply {α : Type} (f : Token → CompilerM α) (c : Compiler) :
    (getToken >>= f) c = f c.token c := rfl

/-- `while (cond) body`, bounded by the recursion bound. -/
def whileLoop : Nat → CompilerM Bool → CompilerM Unit → CompilerM Unit
  | 0, _, _ => throw .outOfFuel
  | n + 1, cond, body => do
    if ← cond then
      body
      whileLoop n cond body

/-- A loop that carries a value; it ends when `body` gives a result. -/
def loop {α β : Type} : Nat → (α → CompilerM (α ⊕ β)) → α → CompilerM β
  | 0, _, _ => throw .outOfFuel
  | n + 1, body, a => do
    match ← body a with
    | .inl a => loop n body a
    | .inr b => return b

/-! ### Tokens -/

/-- `Lex`. -/
def Lex : CompilerM Unit := do
  match (← get).lex.lex with
  | .error msg => error msg
  | .ok (token, lex) => modify fun c => { c with token := token, lex := lex }

/-- `Tok2Str`: the keyword of a token. -/
def tok2Str : Token → Option String
  | .TK_WHILE => "while" | .TK_DO => "do" | .TK_IF => "if" | .TK_ELSE => "else"
  | .TK_BREAK => "break" | .TK_CONTINUE => "continue" | .TK_RETURN => "return"
  | .TK_NULL => "null" | .TK_FUNCTION => "func" | .TK_LOCAL => "local" | .TK_FOR => "for"
  | .TK_FOREACH => "foreach" | .TK_IN => "in" | .TK_TYPEOF => "typeof" | .TK_BASE => "base"
  | .TK_DELETE => "delete" | .TK_TRY => "try" | .TK_CATCH => "catch" | .TK_THROW => "throw"
  | .TK_CLONE => "clone" | .TK_YIELD => "yield" | .TK_RESUME => "resume" | .TK_SWITCH => "switch"
  | .TK_CASE => "case" | .TK_DEFAULT => "default" | .TK_THIS => "this" | .TK_CLASS => "class"
  | .TK_EXTENDS => "extends" | .TK_CONSTRUCTOR => "constructor" | .TK_INSTANCEOF => "instanceof"
  | .TK_TRUE => "true" | .TK_FALSE => "false" | .TK_STATIC => "static" | .TK_ENUM => "enum"
  | .TK_CONST => "const" | .TK___LINE__ => "__LINE__" | .TK___FILE__ => "__FILE__"
  | .TK_RAWCALL => "rawcall" | .TK_PUB => "pub" | .TK_IMPORT => "import"
  | .TK_NAMESPACE => "namespace" | .TK_INT => "int" | .TK_FLOAT => "float" | .TK_STRING => "str"
  | .TK_BOOL => "bool" | .TK_VOID => "void"
  | _ => none

/-- The message of `Expect`; a token that is no keyword has no text. -/
def expected (tok : Token) : String :=
  let etypename := match tok with
    | .chr c => String.singleton c
    | .TK_IDENTIFIER => "IDENTIFIER"
    | .TK_STRING_LITERAL => "STRING_LITERAL"
    | .TK_INTEGER => "INTEGER"
    | .TK_FLOAT => "FLOAT"
    | tok => (tok2Str tok).getD "(null)"
  "expected '" ++ etypename ++ "'"

/-- The value `Expect` returns. -/
def Lexer.value (l : Lexer) : Token → Object
  | .TK_IDENTIFIER | .TK_STRING_LITERAL => .string l.svalue
  | .TK_INTEGER => .integer l.nvalue
  | .TK_FLOAT => .float l.fvalue
  | _ => .null

/-- `Expect`. `constructor` passes for an identifier. -/
def Expect (tok : Token) : CompilerM Object := do
  let c ← get
  if c.token ≠ tok ∧ ¬ (c.token = .TK_CONSTRUCTOR ∧ tok = .TK_IDENTIFIER) then
    error (expected tok)
  Lex
  return Lexer.value c.lex tok

def prevtokenIs (c : Char) : CompilerM Bool := return (← get).lex.prevtoken = some (.chr c)

def IsEndOfStatement : CompilerM Bool := do
  let t ← getToken
  return (← prevtokenIs '\n') || t = .eob || t = .chr '}' || t = .chr ';'

def OptionalSemicolon : CompilerM Unit := do
  if (← getToken) = .chr ';' then
    Lex
  else if !(← IsEndOfStatement) then
    error "end of statement expected (; or lf)"

/-- The end of every statement in a list of statements. -/
def endStatement : CompilerM Unit := do
  if !(← prevtokenIs '}') && !(← prevtokenIs ';') then
    OptionalSemicolon

/-! ### Instructions, registers and targets -/

/-- `AddInstruction(op, ...)`. -/
def AddInstruction (op : Opcode) (arg0 : Int := 0) (arg1 : Int := 0) (arg2 : Int := 0)
    (arg3 : Int := 0) : CompilerM Unit :=
  modifyFs (·.addInstruction (.make op arg0 arg1 arg2 arg3))

def SnoozeOpt : CompilerM Unit := modifyFs (·.snoozeOpt)

def GetCurrentPos : CompilerM Int := return (← getFs).getCurrentPos

def GetStackSize : CompilerM Nat := return (← getFs).getStackSize

/-- `SetInstructionParam`. -/
def SetInstructionParam (pos : Int) (arg : Nat) (val : Int) : CompilerM Unit := do
  if 0 ≤ pos ∧ pos < (← getFs).instructions.size then
    modifyFs (·.setInstructionParam pos.toNat arg val)
  else undefined

/-- `SetInstructionParams`. -/
def SetInstructionParams (pos arg0 arg1 arg2 : Int) (arg3 : Int := 0) : CompilerM Unit := do
  if 0 ≤ pos ∧ pos < (← getFs).instructions.size then
    modifyFs (·.setInstructionParams pos.toNat arg0 arg1 arg2 arg3)
  else undefined

/-- `AllocStackPos`. -/
def AllocStackPos : CompilerM Nat := do
  let fs ← getFs
  if fs.stacksize < fs.vlocals.size + 1 ∧ MAX_FUNC_STACKSIZE < fs.stacksize then
    error "internal compiler error: too many locals"
  let (npos, fs) := fs.allocStackPos
  modifyFs fun _ => fs
  return npos

/-- `PushTarget(n)`. -/
def PushTargetAt (n : Nat) : CompilerM Nat := do
  modifyFs fun fs => { fs with targetstack := n :: fs.targetstack }
  return n

/-- `PushTarget()`. -/
def PushTarget : CompilerM Nat := do
  PushTargetAt (← AllocStackPos)

def TopTarget : CompilerM Nat := do
  match (← getFs).targetstack with
  | n :: _ => return n
  | [] => undefined

def PopTarget : CompilerM Nat := do
  match (← getFs).popTarget with
  | some (n, fs) =>
    modifyFs fun _ => fs
    return n
  | none => undefined

/-- `PopTarget` in a counted loop. -/
def PopTargets : Nat → CompilerM Unit
  | 0 => return ()
  | n + 1 => do
    let _ ← PopTarget
    PopTargets n

def DiscardTarget : CompilerM Unit := do
  let discardedtarget ← PopTarget
  modifyFs (·.discardResult discardedtarget)

def IsLocal (stkpos : Nat) : CompilerM Bool := return (← getFs).isLocal stkpos

/-- `GetConstant`. -/
def GetConstant (cons : Object) : CompilerM Int := do
  let (n, fs) := (← getFs).getConstant cons
  modifyFs fun _ => fs
  if MAX_LITERALS < fs.literals.size then
    error "internal compiler error: too many literals"
  return n

def PushLocalVariable (name : Object) : CompilerM Nat := do
  let (pos, fs) := (← getFs).pushLocalVariable name
  modifyFs fun _ => fs
  return pos

/-- `GetOuterVariable`, which may add outer variables to the functions around. -/
def GetOuterVariable (name : Object) : CompilerM (Option Nat) := do
  let c ← get
  match FuncState.getOuterVariable name (c.fs :: c.parents) with
  | (pos, fs :: parents) =>
    modify fun c => { c with fs := fs, parents := parents }
    return pos
  | (_, []) => undefined

/-- `IsConstant`. -/
def IsConstant (name : Object) : CompilerM (Option Constant) :=
  return ((← get).consts.find? fun entry => entry.1 = name).map (·.2)

/-- `NewSlot` on the table of constants. -/
def newConstant (name : Object) (c : Constant) : CompilerM Unit :=
  modify fun s => { s with consts := (name, c) :: s.consts.filter fun entry => entry.1 ≠ name }

def AddLineInfos (line : GSInteger) (force : Bool := false) : CompilerM Unit := do
  let lineop := (← get).lineinfo
  modifyFs (·.addLineInfos line lineop force)

/-- `MoveIfCurrentTargetIsLocal`. -/
def MoveIfCurrentTargetIsLocal : CompilerM Unit := do
  if ← IsLocal (← TopTarget) then
    let trg ← PopTarget
    AddInstruction .MOVE (← PushTarget) trg

/-- `EmitDerefOp`. -/
def EmitDerefOp (op : Opcode) : CompilerM Unit := do
  let val ← PopTarget
  let key ← PopTarget
  let src ← PopTarget
  AddInstruction op (← PushTarget) src key val

/-- `Emit2ArgsOP`. -/
def Emit2ArgsOP (op : Opcode) (p3 : Int := 0) : CompilerM Unit := do
  let p2 ← PopTarget
  let p1 ← PopTarget
  AddInstruction op (← PushTarget) p1 p2 p3

/-- A target for `value`, if there is none yet. -/
def targetOr (target : Option Nat) : CompilerM Nat :=
  match target with
  | some n => return n
  | none => PushTarget

/-- `EmitLoadConstInt`. -/
def EmitLoadConstInt (value : GSInteger) (target : Option Nat) : CompilerM Unit := do
  let target ← targetOr target
  if value.toInt ≤ INT_MAX ∧ INT_MIN < value.toInt then
    AddInstruction .LOADINT target value.toInt
  else
    AddInstruction .LOAD target (← GetConstant (.integer value))

/-- A float constant has been read from the token. -/
def recordFloat (negated : Bool) (value : GSFloat) : CompilerM Unit :=
  modify fun c => { c with loaded := c.loaded ++ [⟨value, negated, c.lex.longstr⟩] }

/-- `EmitLoadConstFloat`: the operand holds the bits of the number. -/
def EmitLoadConstFloat (value : GSFloat) (target : Option Nat) : CompilerM Unit := do
  AddInstruction .LOADFLOAT (← targetOr target) value.toNat

/-! ### Scopes and loops -/

/-- `BEGIN_SCOPE`; the result is the scope around. -/
def BEGIN_SCOPE : CompilerM Scope := do
  let oldscope := (← get).scope
  let fs ← getFs
  modify fun c => { c with scope := { outers := fs.outers, stacksize := fs.getStackSize } }
  return oldscope

/-- `RESOLVE_OUTERS`. -/
def RESOLVE_OUTERS : CompilerM Unit := do
  let fs ← getFs
  let scope := (← get).scope
  if fs.getStackSize ≠ scope.stacksize ∧ fs.countOuters scope.stacksize ≠ 0 then
    AddInstruction .CLOSE 0 scope.stacksize

/-- `END_SCOPE` where `closeframe` holds, else `END_SCOPE_NO_CLOSE`. -/
def END_SCOPE (oldscope : Scope) (closeframe : Bool := true) : CompilerM Unit := do
  let oldouters := (← getFs).outers
  let scope := (← get).scope
  if (← GetStackSize) ≠ scope.stacksize then
    modifyFs (·.setStackSize scope.stacksize)
    if closeframe ∧ oldouters ≠ (← getFs).outers then
      AddInstruction .CLOSE 0 scope.stacksize
  modify fun c => { c with scope := oldscope }

/-- `BEGIN_BREAKBLE_BLOCK`; the result counts the jumps that are open. -/
def BEGIN_BREAKBLE_BLOCK : CompilerM (Nat × Nat) := do
  let fs ← getFs
  modifyFs fun fs => { fs with
    breaktargets := 0 :: fs.breaktargets
    continuetargets := 0 :: fs.continuetargets }
  return (fs.unresolvedbreaks.length, fs.unresolvedcontinues.length)

/-- `ResolveBreaks`. -/
def ResolveBreaks : Nat → CompilerM Unit
  | 0 => return ()
  | n + 1 => do
    match (← getFs).unresolvedbreaks with
    | [] => undefined
    | pos :: rest =>
      modifyFs ({ · with unresolvedbreaks := rest })
      SetInstructionParams pos 0 ((← GetCurrentPos) - pos) 0
      ResolveBreaks n

/-- `ResolveContinues`. -/
def ResolveContinues (targetpos : Int) : Nat → CompilerM Unit
  | 0 => return ()
  | n + 1 => do
    match (← getFs).unresolvedcontinues with
    | [] => undefined
    | pos :: rest =>
      modifyFs ({ · with unresolvedcontinues := rest })
      SetInstructionParams pos 0 (targetpos - pos) 0
      ResolveContinues targetpos n

def popBreaktarget : CompilerM Unit :=
  modifyFs fun fs => { fs with breaktargets := fs.breaktargets.tail }

/-- `END_BREAKBLE_BLOCK`. -/
def END_BREAKBLE_BLOCK (before : Nat × Nat) (continue_target : Int) : CompilerM Unit := do
  let fs ← getFs
  ResolveContinues continue_target (fs.unresolvedcontinues.length - before.2)
  ResolveBreaks (fs.unresolvedbreaks.length - before.1)
  popBreaktarget
  modifyFs fun fs => { fs with continuetargets := fs.continuetargets.tail }

end Compiler

end GameScript
