import GameScript.Compiler.Expression

/-!
The procedures of `GScompiler.cpp` for statements and functions, and the
recursion that ties all procedures together.
-/

namespace GameScript.Compiler

variable (n : Nat) (call : Proc → CompilerM Unit)

/-- `Statements`. -/
def statements : CompilerM Unit :=
  whileLoop n
    (do
      let t ← getToken
      return t ≠ .chr '}' ∧ t ≠ .TK_DEFAULT ∧ t ≠ .TK_CASE)
    do
      call (.Statement true)
      endStatement

/-! ### Declarations -/

/-- A scalar constant; the result says what it is. -/
def ExpectScalar : CompilerM Object := do
  let c ← get
  let val ← match c.token with
    | .TK_INTEGER => pure (.integer c.lex.nvalue)
    | .TK_FLOAT => do
      recordFloat false c.lex.fvalue
      pure (.float c.lex.fvalue)
    | .TK_STRING_LITERAL => pure (.string c.lex.svalue)
    | .TK_TRUE => pure (.bool 1)
    | .TK_FALSE => pure (.bool 0)
    | .chr '-' => do
      Lex
      let c ← get
      match c.token with
      | .TK_INTEGER => pure (.integer (-c.lex.nvalue))
      | .TK_FLOAT => do
        recordFloat true (c.lex.fvalue ^^^ 0x80000000)
        pure (.float (c.lex.fvalue ^^^ 0x80000000))
      | _ => error "scalar expected : integer, float"
    | _ => error "scalar expected : integer, float, or string"
  Lex
  return val

/-- The declaration of a constant. -/
def constStatement : CompilerM Unit := do
  Lex
  let id ← Expect .TK_IDENTIFIER
  let _ ← Expect (.chr '=')
  let val ← ExpectScalar
  OptionalSemicolon
  newConstant id (.scalar val)

/-- `EnumStatement`. -/
def enumStatement : CompilerM Unit := do
  Lex
  let id ← Expect .TK_IDENTIFIER
  let _ ← Expect (.chr '{')
  let table ← loop n (fun (acc : List (Object × Object) × GSInteger) => do
    let (table, nval) := acc
    if (← getToken) = .chr '}' then return .inr table
    let key ← Expect .TK_IDENTIFIER
    let mut val : Object := .integer nval
    let mut next := nval + 1
    if (← getToken) = .chr '=' then
      Lex
      val ← ExpectScalar
      next := nval
    if (← getToken) = .chr ',' then Lex
    return .inl ((key, val) :: table.filter fun entry => entry.1 ≠ key, next)) ([], 0)
  newConstant id (.table table)
  Lex

/-- The path of `import` and `namespace`: the source copies at most 1023 bytes. -/
def modulePath : CompilerM (List UInt8) := do
  let first_id ← Expect .TK_IDENTIFIER
  loop n (fun buf => do
    if (← getToken) = .chr '/' then
      Lex
      let next_id ← Expect .TK_IDENTIFIER
      return .inl ((buf ++ sc "/" ++ bytes next_id).take 1023)
    else return .inr buf) ((bytes first_id).take 1023)
where
  bytes : Object → List UInt8
    | .string s => s
    | _ => []

/-- `ImportStatement` and `NamespaceStatement`. -/
def moduleStatement (op : Opcode) : CompilerM Unit := do
  Lex
  let path ← modulePath n
  let target ← PushTarget
  AddInstruction .LOAD target (← GetConstant (.string path))
  AddInstruction op (← PopTarget)

def importStatement : CompilerM Unit := moduleStatement n .IMPORT
def namespaceStatement : CompilerM Unit := moduleStatement n .NAMESPACE

/-- A declared type: the token of its name, whether brackets follow it, and the size
in them. -/
structure TypeAnnotation where
  token : Token
  is_array : Bool
  array_size : GSInteger
deriving DecidableEq

/-- The brackets after the name of a type; the result is the size, `-1` without one.
`what` names the size in the message for a size that is not positive. -/
def arraySuffix (what : String) : CompilerM (Bool × GSInteger) := do
  if (← getToken) = .chr '[' then
    Lex
    let mut array_size : GSInteger := -1
    if (← getToken) = .TK_INTEGER then
      array_size := (← get).lex.nvalue
      if array_size ≤ 0 then
        error ("type mismatch: " ++ what ++ " size must be greater than 0")
      Lex
    let _ ← Expect (.chr ']')
    return (true, array_size)
  else return (false, -1)

/-- The annotation after the name of a local variable. -/
def localType : CompilerM (Option TypeAnnotation) := do
  if (← getToken) = .chr ':' then
    Lex
    let expected_type ← getToken
    if !expected_type.isType then
      error "expected a valid type name after ':'"
    Lex
    let (is_array, array_size) ← arraySuffix "fixed array"
    return some { token := expected_type, is_array := is_array, array_size := array_size }
  else return none

/-- `check_type`: the number that stands for the annotation in instructions, negative
for an array. -/
def checkType : Option TypeAnnotation → Int
  | some t => if t.is_array then -t.token.code else t.token.code
  | none => -1

def arraySize : Option TypeAnnotation → GSInteger
  | some t => t.array_size
  | none => -1

/-- The type of the local variable declared last. -/
def setLocalType (type array_size : GSInteger) : CompilerM Unit :=
  modifyFs fun fs => { fs with
    vlocals := fs.vlocals.modify (fs.vlocals.size - 1) fun lvi =>
      { lvi with type := type, array_size := array_size } }

/-- One variable of `LocalDeclStatement`. -/
def localVariable : CompilerM Unit := do
  let varname ← Expect .TK_IDENTIFIER
  let expected ← localType
  if (← getToken) = .chr '=' then
    Lex
    call .Expression
    let src ← PopTarget
    let dest ← PushTarget
    if dest ≠ src then
      if ← IsLocal src then SnoozeOpt
      AddInstruction .MOVE dest src
    if expected.isSome then
      AddInstruction .TYPECHECK dest (checkType expected) (arraySize expected).toInt
  else
    if expected.isSome then
      error "strict type declarations must be initialized (cannot default to null)"
    AddInstruction .LOADNULLS (← PushTarget) 1
  let _ ← PopTarget
  let _ ← PushLocalVariable varname
  setLocalType (Int64.ofInt (checkType expected)) (arraySize expected)

/-- `LocalDeclStatement`. The environment of a local function is not passed on to
`CreateFunction`, which is what pops its target elsewhere. -/
def localDeclStatement : CompilerM Unit := do
  Lex
  if (← getToken) = .TK_FUNCTION then
    Lex
    let varname ← Expect .TK_IDENTIFIER
    let boundtarget ← optionalBindEnv call
    call (.CreateFunction varname 0xFF false)
    emitClosure boundtarget
    let _ ← PopTarget
    let _ ← PushLocalVariable varname
  else
    loop n (fun _ => do
      localVariable call
      if (← getToken) = .chr ',' then
        Lex
        return .inl ()
      else return .inr ()) ()

/-! ### Control flow -/

/-- A block in braces. -/
def block (closeframe : Bool) : CompilerM Unit := do
  let oldscope ← BEGIN_SCOPE
  Lex
  call .Statements
  let _ ← Expect (.chr '}')
  END_SCOPE oldscope closeframe

/-- `IfBlock`. -/
def ifBlock : CompilerM Unit := do
  if (← getToken) = .chr '{' then
    block call true
  else
    call (.Statement true)
    endStatement

/-- A condition in brackets. -/
def condition : CompilerM Unit := do
  let _ ← Expect (.chr '(')
  call .CommaExpr
  let _ ← Expect (.chr ')')

/-- `IfStatement`. -/
def ifStatement : CompilerM Unit := do
  Lex
  condition call
  AddInstruction .JZ (← PopTarget)
  let jnepos ← GetCurrentPos
  call .IfBlock
  let endifblock ← GetCurrentPos
  if (← getToken) = .TK_ELSE then
    AddInstruction .JMP
    let jmppos ← GetCurrentPos
    Lex
    call .IfBlock
    SetInstructionParam jmppos 1 ((← GetCurrentPos) - jmppos)
    SetInstructionParam jnepos 1 (endifblock - jnepos + 1)
  else
    SetInstructionParam jnepos 1 (endifblock - jnepos)

/-- A statement in a scope of its own. -/
def scopedStatement : CompilerM Unit := do
  let oldscope ← BEGIN_SCOPE
  call (.Statement true)
  END_SCOPE oldscope

/-- `WhileStatement`. -/
def whileStatement : CompilerM Unit := do
  let jmppos ← GetCurrentPos
  Lex
  condition call
  let before ← BEGIN_BREAKBLE_BLOCK
  AddInstruction .JZ (← PopTarget)
  let jzpos ← GetCurrentPos
  scopedStatement call
  AddInstruction .JMP 0 (jmppos - (← GetCurrentPos) - 1)
  SetInstructionParam jzpos 1 ((← GetCurrentPos) - jzpos)
  END_BREAKBLE_BLOCK before jmppos

/-- `DoWhileStatement`. -/
def doWhileStatement : CompilerM Unit := do
  Lex
  let jmptrg ← GetCurrentPos
  let before ← BEGIN_BREAKBLE_BLOCK
  scopedStatement call
  let _ ← Expect .TK_WHILE
  let continuetrg ← GetCurrentPos
  condition call
  AddInstruction .JZ (← PopTarget) 1
  AddInstruction .JMP 0 (jmptrg - (← GetCurrentPos) - 1)
  END_BREAKBLE_BLOCK before continuetrg

/-- Cuts the instructions from `expstart` on out of the code. -/
def cutInstructions (expstart : Int) : CompilerM (List Instruction) := do
  let instructions := (← getFs).instructions
  modifyFs fun fs => { fs with instructions := fs.instructions.take expstart.toNat }
  return instructions.toList.drop expstart.toNat

/-- `ForStatement`. The instructions of the increment are cut out and added again
after the body. -/
def forStatement : CompilerM Unit := do
  Lex
  let oldscope ← BEGIN_SCOPE
  let _ ← Expect (.chr '(')
  if (← getToken) = .TK_LOCAL then
    call .LocalDeclStatement
  else if (← getToken) ≠ .chr ';' then
    call .CommaExpr
    let _ ← PopTarget
  let _ ← Expect (.chr ';')
  SnoozeOpt
  let jmppos ← GetCurrentPos
  let mut jzpos : Int := -1
  if (← getToken) ≠ .chr ';' then
    call .CommaExpr
    AddInstruction .JZ (← PopTarget)
    jzpos ← GetCurrentPos
  let _ ← Expect (.chr ';')
  SnoozeOpt
  let expstart := (← GetCurrentPos) + 1
  if (← getToken) ≠ .chr ')' then
    call .CommaExpr
    let _ ← PopTarget
  let _ ← Expect (.chr ')')
  SnoozeOpt
  let exp ← cutInstructions expstart
  let before ← BEGIN_BREAKBLE_BLOCK
  call (.Statement true)
  let continuetrg ← GetCurrentPos
  exp.forM fun i => modifyFs (·.addInstruction i)
  AddInstruction .JMP 0 (jmppos - (← GetCurrentPos) - 1) 0
  if 0 < jzpos then
    SetInstructionParam jzpos 1 ((← GetCurrentPos) - jzpos)
  END_BREAKBLE_BLOCK before continuetrg
  END_SCOPE oldscope

/-- A variable of `foreach`, initially null. -/
def foreachVariable (name : Object) : CompilerM Nat := do
  let pos ← PushLocalVariable name
  AddInstruction .LOADNULLS pos 1
  return pos

/-- `ForEachStatement`. -/
def forEachStatement : CompilerM Unit := do
  Lex
  let _ ← Expect (.chr '(')
  let first ← Expect .TK_IDENTIFIER
  let mut idxname : Object := .string (sc "@INDEX@")
  let mut valname := first
  if (← getToken) = .chr ',' then
    idxname := first
    Lex
    valname ← Expect .TK_IDENTIFIER
  let _ ← Expect .TK_IN
  let oldscope ← BEGIN_SCOPE
  call .Expression
  let _ ← Expect (.chr ')')
  let container ← TopTarget
  let indexpos ← foreachVariable idxname
  let _ ← foreachVariable valname
  let _ ← foreachVariable (.string (sc "@ITERATOR@"))
  let jmppos ← GetCurrentPos
  AddInstruction .FOREACH container 0 indexpos
  let foreachpos ← GetCurrentPos
  AddInstruction .POSTFOREACH container 0 indexpos
  let before ← BEGIN_BREAKBLE_BLOCK
  call (.Statement true)
  AddInstruction .JMP 0 (jmppos - (← GetCurrentPos) - 1)
  SetInstructionParam foreachpos 1 ((← GetCurrentPos) - foreachpos)
  SetInstructionParam (foreachpos + 1) 1 ((← GetCurrentPos) - foreachpos)
  END_BREAKBLE_BLOCK before (foreachpos - 1)
  let _ ← PopTarget
  END_SCOPE oldscope

/-- The statements of a case, in a scope of their own. -/
def caseStatements : CompilerM Unit := do
  let oldscope ← BEGIN_SCOPE
  call .Statements
  END_SCOPE oldscope

/-- The cases of a switch over the register `expr`. The loop carries
`tonextcondjmp` and `skipcondjmp`; the result is the first of them. -/
def switchCases (expr : Nat) : CompilerM Int :=
  loop n (fun (acc : Bool × Int × Int) => do
    let (bfirst, tonextcondjmp, skip) := acc
    if (← getToken) ≠ .TK_CASE then return .inr tonextcondjmp
    let mut skipcondjmp := skip
    if !bfirst then
      AddInstruction .JMP 0 0
      skipcondjmp ← GetCurrentPos
      SetInstructionParam tonextcondjmp 1 ((← GetCurrentPos) - tonextcondjmp)
    Lex
    call .Expression
    let _ ← Expect (.chr ':')
    let trg ← PopTarget
    if ← IsLocal trg then
      let eqtarget ← PushTarget
      AddInstruction .EQ eqtarget trg expr
      AddInstruction .JZ eqtarget 0
      let _ ← PopTarget
    else
      AddInstruction .EQ trg trg expr
      AddInstruction .JZ trg 0
    if skipcondjmp ≠ -1 then
      SetInstructionParam skipcondjmp 1 ((← GetCurrentPos) - skipcondjmp)
    let tonextcondjmp ← GetCurrentPos
    caseStatements call
    return .inl (false, tonextcondjmp, skipcondjmp)) (true, -1, -1)

/-- `SwitchStatement`. -/
def switchStatement : CompilerM Unit := do
  Lex
  condition call
  let _ ← Expect (.chr '{')
  let expr ← TopTarget
  let nbreaks := (← getFs).unresolvedbreaks.length
  modifyFs fun fs => { fs with breaktargets := 0 :: fs.breaktargets }
  let tonextcondjmp ← switchCases n call expr
  if tonextcondjmp ≠ -1 then
    SetInstructionParam tonextcondjmp 1 ((← GetCurrentPos) - tonextcondjmp)
  if (← getToken) = .TK_DEFAULT then
    Lex
    let _ ← Expect (.chr ':')
    caseStatements call
  let _ ← Expect (.chr '}')
  let _ ← PopTarget
  ResolveBreaks ((← getFs).unresolvedbreaks.length - nbreaks)
  popBreaktarget

/-- Changes the counts of traps around the innermost loop. -/
def countTraps (f : Nat → Nat) : CompilerM Unit :=
  modifyFs fun fs => { fs with
    traps := f fs.traps
    breaktargets := fs.breaktargets.modifyHead f
    continuetargets := fs.continuetargets.modifyHead f }

/-- `TryCatchStatement`. -/
def tryCatchStatement : CompilerM Unit := do
  Lex
  AddInstruction .PUSHTRAP 0 0
  countTraps (· + 1)
  let trappos ← GetCurrentPos
  scopedStatement call
  modifyFs fun fs => { fs with traps := fs.traps - 1 }
  AddInstruction .POPTRAP 1 0
  modifyFs fun fs => { fs with
    breaktargets := fs.breaktargets.modifyHead (· - 1)
    continuetargets := fs.continuetargets.modifyHead (· - 1) }
  AddInstruction .JMP 0 0
  let jmppos ← GetCurrentPos
  SetInstructionParam trappos 1 ((← GetCurrentPos) - trappos)
  let _ ← Expect .TK_CATCH
  let _ ← Expect (.chr '(')
  let exid ← Expect .TK_IDENTIFIER
  let _ ← Expect (.chr ')')
  let oldscope ← BEGIN_SCOPE
  let ex_target ← PushLocalVariable exid
  SetInstructionParam trappos 0 ex_target
  call (.Statement true)
  SetInstructionParams jmppos 0 ((← GetCurrentPos) - jmppos) 0
  END_SCOPE oldscope

/-! ### Functions and classes -/

/-- The table that a declaration stores into. -/
def loadDeclarationTable (is_pub : Bool) : CompilerM Unit := do
  AddInstruction .LOADROOT (← PushTarget)
  if is_pub then
    let target ← PushTarget
    AddInstruction .LOAD target (← GetConstant (.string (sc "__namespace")))
    Emit2ArgsOP .GET

/-- The load of a name as the key of a slot. -/
def loadName (id : Object) : CompilerM Unit := do
  let target ← PushTarget
  AddInstruction .LOAD target (← GetConstant id)

/-- `FunctionStatement`. -/
def functionStatement (is_pub : Bool) : CompilerM Unit := do
  Lex
  let id ← Expect .TK_IDENTIFIER
  loadDeclarationTable is_pub
  loadName id
  if (← getToken) = .TK_DOUBLE_COLON then
    Emit2ArgsOP .GET
  let id ← loop n (fun id => do
    if (← getToken) ≠ .TK_DOUBLE_COLON then return .inr id
    Lex
    let id ← Expect .TK_IDENTIFIER
    loadName id
    if (← getToken) = .TK_DOUBLE_COLON then
      Emit2ArgsOP .GET
    return .inl id) id
  let boundtarget ← optionalBindEnv call
  call (.CreateFunction id boundtarget false)
  emitClosure boundtarget
  EmitDerefOp .NEWSLOT
  let _ ← PopTarget

/-- `ClassStatement`. -/
def classStatement (is_pub : Bool) : CompilerM Unit := do
  Lex
  withDonotGet do
    let id ← Expect .TK_IDENTIFIER
    loadDeclarationTable is_pub
    loadName id
    setEtype .OBJECT
    call .ClassExp
    EmitDerefOp .NEWSLOT
    let _ ← PopTarget

/-- The names of the generic types of a function, each with the parameters declared
of that type. -/
abbrev Generics := List (Object × List Nat)

/-- The names between `<` and `>`. -/
def genericNames : CompilerM Generics := do
  if (← getToken) = .chr '<' then
    Lex
    let generics ← loop n (fun (generics : Generics) => do
      let gen_name ← Expect .TK_IDENTIFIER
      let generics := generics ++ [(gen_name, [])]
      if (← getToken) = .chr ',' then
        Lex
        return .inl generics
      else return .inr generics) []
    let _ ← Expect (.chr '>')
    return generics
  else return []

/-- The annotation of a parameter; the result is the name of a type that is an
identifier. -/
def parameterType : CompilerM (Option Object) := do
  if (← getToken) = .chr ':' then
    Lex
    let c ← get
    if !c.token.isType then
      error "expected a valid type name after ':'"
    Lex
    let _ ← arraySuffix "parameter array"
    return if c.token = .TK_IDENTIFIER then some (.string c.lex.svalue) else none
  else return none

/-- What `CreateFunction` knows of the parameters read so far. -/
structure Parameters where
  funcstate : FuncState
  generics : Generics
  defparams : Nat := 0
  current_param_idx : Nat := 1

/-- One parameter; the result says whether it is the last. -/
def parameter (p : Parameters) : CompilerM (Parameters ⊕ Parameters) := do
  if (← getToken) = .chr ')' then return .inr p
  if (← getToken) = .TK_VARPARAMS then
    if 0 < p.defparams then
      error "function with default parameters cannot have variable number of parameters"
    let fs := p.funcstate.addParameter (.string (sc "vargv"))
    Lex
    if (← getToken) ≠ .chr ')' then error "expected ')'"
    return .inr { p with
      funcstate := { fs with varparams := true }
      current_param_idx := p.current_param_idx + 1 }
  let paramname ← Expect .TK_IDENTIFIER
  let type_id ← parameterType
  let mut funcstate := p.funcstate.addParameter paramname
  let generics := p.generics.map fun generic =>
    if some generic.1 = type_id then (generic.1, generic.2 ++ [p.current_param_idx]) else generic
  let mut defparams := p.defparams
  if (← getToken) = .chr '=' then
    Lex
    call .Expression
    let trg ← TopTarget
    funcstate := { funcstate with defaultparams := funcstate.defaultparams.push trg }
    defparams := defparams + 1
  else if 0 < defparams then
    error "expected '='"
  if (← getToken) = .chr ',' then Lex
  else if (← getToken) ≠ .chr ')' then error "expected ')' or ','"
  return .inl {
    funcstate := funcstate
    generics := generics
    defparams := defparams
    current_param_idx := p.current_param_idx + 1 }

/-- The annotation behind the parameters. The source keeps no more of it than `expectedRettype`. -/
def returnType : CompilerM (Option Annotation) := do
  if (← getToken) = .TK_ARROW then
    Lex
    let expected_rettype ← getToken
    if !expected_rettype.isType then
      error "expected return type after '->'"
    Lex
    let (isArray, _) ← arraySuffix "fixed array"
    return some { type := expected_rettype, isArray := isArray }
  else return none

/-- `expected_rettype`. The brackets of an array type are forgotten. -/
def expectedRettype : Option Annotation → Int
  | some a => a.type.code
  | none => 0

/-- The checks that parameters of one generic type have values of one type. -/
def matchGenerics (generics : Generics) : CompilerM Unit :=
  generics.forM fun generic =>
    match generic.2 with
    | [] => return ()
    | base_reg :: regs => regs.forM fun reg => AddInstruction .MATCHTYPES base_reg reg

/-- `PushChildState` and `_fs = funcstate`. -/
def enterFunction (funcstate : FuncState) : CompilerM Unit :=
  modify fun c => { c with fs := funcstate, parents := c.fs :: c.parents }

/-- `_fs = currchunk` with the finished function, and `PopChildState`. -/
def leaveFunction (func : FunctionProto) (declared : Option Annotation := none) :
    CompilerM Unit := do
  match (← get).parents with
  | currchunk :: parents =>
    modify fun c => { c with
      fs := { currchunk with functions := currchunk.functions.push func }
      parents := parents
      annotations := (func, declared) :: c.annotations }
  | [] => undefined

/-- The generic types and the parameters of a function. -/
def functionParameters (name : Object) : CompilerM Parameters := do
  let funcstate := (FuncState.init true name (← get).sourcename).addParameter (.string (sc "this"))
  let generics ← genericNames n
  let _ ← Expect (.chr '(')
  let p ← loop n (parameter call) { funcstate := funcstate, generics := generics }
  let _ ← Expect (.chr ')')
  return p

/-- Pops the targets of the environment and of the default values. -/
def popParameters (boundtarget : Int) (defparams : Nat) : CompilerM Unit := do
  if boundtarget ≠ 0xFF then
    let _ ← PopTarget
  PopTargets defparams

/-- The code of a function; the result is its prototype. -/
def functionBody (p : Parameters) (lambda : Bool) : CompilerM FunctionProto := do
  enterFunction p.funcstate
  matchGenerics p.generics
  if lambda then
    call .Expression
    AddInstruction .RETURN 1 (← PopTarget)
  else
    call (.Statement false)
  let lex := (← get).lex
  AddLineInfos (if ← prevtokenIs '\n' then lex.lasttokenline else lex.currentline) true
  AddInstruction .RETURN (-1)
  modifyFs (·.setStackSize 0)
  return (← getFs).buildProto

/-- `CreateFunction`. -/
def createFunction (name : Object) (boundtarget : Int) (lambda : Bool) : CompilerM Unit := do
  let p ← functionParameters n call name
  let declared ← returnType
  popParameters boundtarget p.defparams
  let func ← functionBody call p lambda
  leaveFunction { func with rettype := some (Int64.ofInt (expectedRettype declared)) } declared

/-! ### Statements -/

/-- `return` and `yield`. -/
def returnStatement (op : Opcode) : CompilerM Unit := do
  if op = .YIELD then
    modifyFs ({ · with bgenerator := true })
  Lex
  if !(← IsEndOfStatement) then
    let retexp := (← GetCurrentPos) + 1
    call .CommaExpr
    popTraps
    modifyFs ({ · with returnexp := retexp })
    let trg ← PopTarget
    AddInstruction op 1 trg (← GetStackSize)
  else
    popTraps
    modifyFs ({ · with returnexp := -1 })
    AddInstruction op 0xFF 0 (← GetStackSize)
where
  popTraps : CompilerM Unit := do
    let traps := (← getFs).traps
    if op = .RETURN ∧ 0 < traps then
      AddInstruction .POPTRAP traps 0

/-- `break` and `continue`: `targets` counts the traps between the statement and each
loop around it. The result is the position of the jump. -/
def jumpStatement (text : String) (targets : FuncState → List Nat) : CompilerM Int := do
  match targets (← getFs) with
  | [] => error ("'" ++ text ++ "' has to be in a loop block")
  | traps :: _ =>
    if 0 < traps then
      AddInstruction .POPTRAP traps 0
    RESOLVE_OUTERS
    AddInstruction .JMP 0 (-1234)
    GetCurrentPos

def breakStatement : CompilerM Unit := do
  let pos ← jumpStatement "break" (·.breaktargets)
  modifyFs fun fs => { fs with unresolvedbreaks := pos :: fs.unresolvedbreaks }
  Lex

def continueStatement : CompilerM Unit := do
  let pos ← jumpStatement "continue" (·.continuetargets)
  modifyFs fun fs => { fs with unresolvedcontinues := pos :: fs.unresolvedcontinues }
  Lex

/-- The declarations after `pub`. -/
def pubStatement : CompilerM Unit := do
  Lex
  match ← getToken with
  | .TK_FUNCTION => call (.FunctionStatement true)
  | .TK_CLASS => call (.ClassStatement true)
  | .TK_IDENTIFIER =>
    let id ← Expect .TK_IDENTIFIER
    loadDeclarationTable true
    loadName id
    let _ ← Expect (.chr '=')
    call .Expression
    EmitDerefOp .NEWSLOT
    let _ ← PopTarget
  | _ => error "expected 'func', 'class', or identifier after 'pub'"

/-- `Statement`. -/
def statement (closeframe : Bool) : CompilerM Unit := do
  AddLineInfos (← get).lex.currentline
  match ← getToken with
  | .chr ';' => Lex
  | .TK_IF => call .IfStatement
  | .TK_WHILE => call .WhileStatement
  | .TK_DO => call .DoWhileStatement
  | .TK_FOR => call .ForStatement
  | .TK_FOREACH => call .ForEachStatement
  | .TK_SWITCH => call .SwitchStatement
  | .TK_LOCAL => call .LocalDeclStatement
  | .TK_RETURN => returnStatement call .RETURN
  | .TK_YIELD => returnStatement call .YIELD
  | .TK_BREAK => breakStatement
  | .TK_CONTINUE => continueStatement
  | .TK_FUNCTION => call (.FunctionStatement false)
  | .TK_CLASS => call (.ClassStatement false)
  | .TK_ENUM => enumStatement n
  | .TK_IMPORT => importStatement n
  | .TK_NAMESPACE => namespaceStatement n
  | .TK_PUB => pubStatement call
  | .chr '{' => block call closeframe
  | .TK_TRY => call .TryCatchStatement
  | .TK_THROW =>
    Lex
    call .CommaExpr
    AddInstruction .THROW (← PopTarget)
  | .TK_CONST => constStatement
  | _ =>
    call .CommaExpr
    DiscardTarget
  SnoozeOpt

/-! ### The recursion -/

/-- The body of every procedure. -/
def body : Proc → CompilerM Unit
  | .Statements => statements n call
  | .Statement closeframe => statement n call closeframe
  | .CommaExpr => commaExpr n call
  | .Expression => expression call
  | .LogicalOrExp => logicalOrExp call
  | .LogicalAndExp => logicalAndExp n call
  | .BitwiseOrExp => bitwiseOrExp n call
  | .BitwiseXorExp => bitwiseXorExp n call
  | .BitwiseAndExp => bitwiseAndExp n call
  | .EqExp => eqExp n call
  | .CompExp => compExp n call
  | .ShiftExp => shiftExp n call
  | .PlusExp => plusExp n call
  | .MultExp => multExp n call
  | .PrefixedExpr => prefixedExpr n call
  | .Factor => factor n call
  | .UnaryOP op => unaryOP call op
  | .FunctionCallArgs rawcall => functionCallArgs n call rawcall
  | .ParseTableOrClass separator terminator => parseTableOrClass n call separator terminator
  | .LocalDeclStatement => localDeclStatement n call
  | .IfBlock => ifBlock call
  | .IfStatement => ifStatement call
  | .WhileStatement => whileStatement call
  | .DoWhileStatement => doWhileStatement call
  | .ForStatement => forStatement call
  | .ForEachStatement => forEachStatement call
  | .SwitchStatement => switchStatement n call
  | .TryCatchStatement => tryCatchStatement call
  | .FunctionStatement is_pub => functionStatement n call is_pub
  | .ClassStatement is_pub => classStatement call is_pub
  | .FunctionExp lambda => functionExp call lambda
  | .ClassExp => classExp call
  | .DeleteExpr => deleteExpr call
  | .PrefixIncDec token => prefixIncDec call token
  | .CreateFunction name boundtarget lambda => createFunction n call name boundtarget lambda

/-- Runs a procedure with calls nested at most `n` deep and loops of at most `n`
rounds. -/
def run : Nat → Proc → CompilerM Unit
  | 0, _ => throw .outOfFuel
  | n + 1, p => body n (run n) p

/-- The state `Compile` starts with. -/
def start (sourcename : Object) (lineinfo : Bool) (consts : List (Object × Constant))
    (input : List (Except String Lexeme)) : Compiler :=
  let fs := FuncState.init false (.string (sc "main")) sourcename
  let fs := fs.addParameter (.string (sc "this"))
  let fs := fs.addParameter (.string (sc "vargv"))
  { fs := { fs with varparams := true }
    sourcename := sourcename
    lex := { input := input }
    lineinfo := lineinfo
    consts := consts }

/-- `Compile`. Nothing of it sets the return type of the main function. -/
def Compile : CompilerM FunctionProto := do
  let stacksize ← GetStackSize
  Lex
  whileLoop n (return (← getToken) ≠ .eob) do
    run n (.Statement true)
    endStatement
  modifyFs (·.setStackSize stacksize)
  AddLineInfos (← get).lex.currentline true
  AddInstruction .RETURN 0xFF
  modifyFs (·.setStackSize 0)
  return (← getFs).buildProto

end GameScript.Compiler
