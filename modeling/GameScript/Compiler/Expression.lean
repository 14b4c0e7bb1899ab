import GameScript.Compiler.Basic

/-!
The procedures of `GScompiler.cpp` that parse expressions and emit their code.

The procedures call each other, so every one takes the calls it makes as an
argument: `call p` runs the procedure `p`. The loops are bounded by `n`. Both are
supplied by the recursion that ties the procedures together.
-/

namespace GameScript

/-- The procedures of `GSCompiler` that recurse, with their arguments. -/
inductive Proc where
  | Statements
  | Statement (closeframe : Bool)
  | CommaExpr | Expression | LogicalOrExp | LogicalAndExp
  | BitwiseOrExp | BitwiseXorExp | BitwiseAndExp | EqExp | CompExp | ShiftExp
  | PlusExp | MultExp | PrefixedExpr | Factor
  | UnaryOP (op : Opcode)
  | FunctionCallArgs (rawcall : Bool)
  | ParseTableOrClass (separator terminator : Token)
  | LocalDeclStatement | IfBlock | IfStatement | WhileStatement | DoWhileStatement
  | ForStatement | ForEachStatement | SwitchStatement | TryCatchStatement
  | FunctionStatement (is_pub : Bool)
  | ClassStatement (is_pub : Bool)
  | FunctionExp (lambda : Bool)
  | ClassExp | DeleteExpr
  | PrefixIncDec (token : Token)
  | CreateFunction (name : Object) (boundtarget : Int) (lambda : Bool)
deriving DecidableEq, Repr

namespace Compiler

variable (n : Nat) (call : Proc → CompilerM Unit)

def setEtype (etype : ExpType) : CompilerM Unit :=
  modify fun c => { c with es := { c.es with etype := etype } }

def setEpos (epos : Int) : CompilerM Unit :=
  modify fun c => { c with es := { c.es with epos := epos } }

def getEtype : CompilerM ExpType := return (← get).es.etype

/-- Runs `m` with a fresh `_es` and puts the old one back. -/
def withFreshEs (m : CompilerM Unit) : CompilerM Unit := do
  let es := (← get).es
  modify fun c => { c with es := {} }
  m
  modify fun c => { c with es := es }

/-- Runs `m` with `_es.donot_get` set and puts the old `_es` back. -/
def withDonotGet (m : CompilerM Unit) : CompilerM Unit := do
  let es := (← get).es
  modify fun c => { c with es := { c.es with donot_get := true } }
  m
  modify fun c => { c with es := es }

/-- `CommaExpr`. -/
def commaExpr : CompilerM Unit := do
  call .Expression
  whileLoop n (return (← getToken) = .chr ',') do
    let _ ← PopTarget
    Lex
    call .CommaExpr

/-! ### Assignment and conditional -/

/-- `ChooseArithOpByToken`. -/
def ChooseArithOpByToken : Token → Opcode
  | .TK_PLUSEQ | .chr '+' => .ADD
  | .TK_MINUSEQ | .chr '-' => .SUB
  | .TK_MULEQ | .chr '*' => .MUL
  | .TK_DIVEQ | .chr '/' => .DIV
  | .TK_MODEQ | .chr '%' => .MOD
  | _ => .ADD

/-- `ChooseCompArithCharByToken`. -/
def ChooseCompArithCharByToken : Token → Int
  | .TK_MINUSEQ => '-'.toNat
  | .TK_PLUSEQ => '+'.toNat
  | .TK_MULEQ => '*'.toNat
  | .TK_DIVEQ => '/'.toNat
  | .TK_MODEQ => '%'.toNat
  | _ => 0

/-- `EmitCompoundArith`. -/
def EmitCompoundArith (tok : Token) (etype : ExpType) (pos : Int) : CompilerM Unit := do
  match etype with
  | .LOCAL =>
    let p2 ← PopTarget
    let p1 ← PopTarget
    let _ ← PushTargetAt p1
    AddInstruction (ChooseArithOpByToken tok) p1 p2 p1 0
    SnoozeOpt
  | .OBJECT | .BASE =>
    let val ← PopTarget
    let key ← PopTarget
    let src ← PopTarget
    AddInstruction .COMPARITH (← PushTarget) ((src <<< 16 ||| val : Nat) : Int) key
      (ChooseCompArithCharByToken tok)
  | .OUTER =>
    let val ← TopTarget
    let tmp ← PushTarget
    AddInstruction .GETOUTER tmp pos
    AddInstruction (ChooseArithOpByToken tok) tmp val tmp 0
    let _ ← PopTarget
    let _ ← PopTarget
    AddInstruction .SETOUTER (← PushTarget) pos tmp
  | .EXPR => return ()

/-- The check of a declared type that follows an assignment to the register `dst`. -/
def checkLocalType (dst : Nat) : CompilerM Unit := do
  match (← getFs).vlocals.find? fun lvi => lvi.pos.toNat = dst with
  | some lvi =>
    if lvi.type ≠ -1 then
      AddInstruction .TYPECHECK dst lvi.type.toInt lvi.array_size.toInt
  | none => return ()

/-- `=` once its right-hand side is compiled. -/
def assign (ds : ExpType) (pos : Int) : CompilerM Unit := do
  match ds with
  | .LOCAL =>
    let src ← PopTarget
    let dst ← TopTarget
    AddInstruction .MOVE dst src
    checkLocalType dst
  | .OBJECT | .BASE => EmitDerefOp .SET
  | .OUTER =>
    let src ← PopTarget
    let dst ← PushTarget
    AddInstruction .SETOUTER dst pos src
  | .EXPR => return ()

/-- The cases of `Expression` for the assignment operator `op`. -/
def assignment (op : Token) : CompilerM Unit := do
  let es := (← get).es
  let ds := es.etype
  let pos := es.epos
  if ds = .EXPR then error "can't assign expression"
  else if ds = .BASE then error "'base' cannot be modified"
  Lex
  call .Expression
  match op with
  | .TK_NEWSLOT =>
    if ds = .OBJECT ∨ ds = .BASE then EmitDerefOp .NEWSLOT
    else error "can't 'create' a local slot"
  | .chr '=' => assign ds pos
  | op => EmitCompoundArith op ds pos

/-- Moves the result of a branch into the register of the whole expression. -/
def moveTo (trg src : Nat) : CompilerM Unit := do
  if trg ≠ src then
    AddInstruction .MOVE trg src

/-- The case `?` of `Expression`. -/
def conditional : CompilerM Unit := do
  Lex
  AddInstruction .JZ (← PopTarget)
  let jzpos ← GetCurrentPos
  let trg ← PushTarget
  call .Expression
  let first_exp ← PopTarget
  moveTo trg first_exp
  let endfirstexp ← GetCurrentPos
  AddInstruction .JMP 0 0
  let _ ← Expect (.chr ':')
  let jmppos ← GetCurrentPos
  call .Expression
  let second_exp ← PopTarget
  moveTo trg second_exp
  SetInstructionParam jmppos 1 ((← GetCurrentPos) - jmppos)
  SetInstructionParam jzpos 1 (endfirstexp - jzpos + 1)
  SnoozeOpt

/-- `Expression`. -/
def expression : CompilerM Unit :=
  withFreshEs do
    call .LogicalOrExp
    match ← getToken with
    | .chr '=' => assignment call (.chr '=')
    | .TK_NEWSLOT => assignment call .TK_NEWSLOT
    | .TK_MINUSEQ => assignment call .TK_MINUSEQ
    | .TK_PLUSEQ => assignment call .TK_PLUSEQ
    | .TK_MULEQ => assignment call .TK_MULEQ
    | .TK_DIVEQ => assignment call .TK_DIVEQ
    | .TK_MODEQ => assignment call .TK_MODEQ
    | .chr '?' => conditional call
    | _ => return ()

/-! ### Binary operators -/

/-- The instruction of `BIN_EXP`, once both operands are compiled. -/
def emitBinary (op : Opcode) (op3 : Int) : CompilerM Unit := do
  let op1 ← PopTarget
  let op2 ← PopTarget
  AddInstruction op (← PushTarget) op1 op2 op3

/-- `BIN_EXP`. -/
def BIN_EXP (op : Opcode) (f : Proc) (op3 : Int := 0) : CompilerM Unit := do
  Lex
  withFreshEs (call f)
  emitBinary op op3
  setEtype .EXPR

/-- The loop of a level of binary operators: `ops` gives the instruction of an
operator and its last operand, `f` the operands of the level. -/
def binaryLevel (f : Proc) (ops : Token → Option (Opcode × Int)) : CompilerM Unit := do
  call f
  whileLoop n (return (ops (← getToken)).isSome) do
    match ops (← getToken) with
    | some (op, op3) => BIN_EXP call op f op3
    | none => return ()

/-- `LogicalOrExp` and `LogicalAndExp` after the operator: `op` jumps over the
second operand. -/
def shortCircuit (op : Opcode) (f : Proc) : CompilerM Unit := do
  let first_exp ← PopTarget
  let trg ← PushTarget
  AddInstruction op trg 0 first_exp 0
  let jpos ← GetCurrentPos
  moveTo trg first_exp
  Lex
  withFreshEs (call f)
  SnoozeOpt
  let second_exp ← PopTarget
  moveTo trg second_exp
  SnoozeOpt
  SetInstructionParam jpos 1 ((← GetCurrentPos) - jpos)
  setEtype .EXPR

/-- `LogicalOrExp`. -/
def logicalOrExp : CompilerM Unit := do
  call .LogicalAndExp
  if (← getToken) = .TK_OR then
    shortCircuit call .OR .LogicalOrExp

/-- `LogicalAndExp`. -/
def logicalAndExp : CompilerM Unit := do
  call .BitwiseOrExp
  whileLoop n (return (← getToken) = .TK_AND) (shortCircuit call .AND .LogicalAndExp)

def bitwiseOrOps : Token → Option (Opcode × Int)
  | .chr '|' => some (.BITW, BitWiseOP.BW_OR.code)
  | _ => none

def bitwiseXorOps : Token → Option (Opcode × Int)
  | .chr '^' => some (.BITW, BitWiseOP.BW_XOR.code)
  | _ => none

def bitwiseAndOps : Token → Option (Opcode × Int)
  | .chr '&' => some (.BITW, BitWiseOP.BW_AND.code)
  | _ => none

def eqOps : Token → Option (Opcode × Int)
  | .TK_EQ => some (.EQ, 0)
  | .TK_NE => some (.NE, 0)
  | .TK_3WAYSCMP => some (.CMP, CmpOP.CMP_3W.code)
  | _ => none

def compOps : Token → Option (Opcode × Int)
  | .chr '>' => some (.CMP, CmpOP.CMP_G.code)
  | .chr '<' => some (.CMP, CmpOP.CMP_L.code)
  | .TK_GE => some (.CMP, CmpOP.CMP_GE.code)
  | .TK_LE => some (.CMP, CmpOP.CMP_LE.code)
  | .TK_IN => some (.EXISTS, 0)
  | .TK_INSTANCEOF => some (.INSTANCEOF, 0)
  | _ => none

def shiftOps : Token → Option (Opcode × Int)
  | .TK_USHIFTR => some (.BITW, BitWiseOP.BW_USHIFTR.code)
  | .TK_SHIFTL => some (.BITW, BitWiseOP.BW_SHIFTL.code)
  | .TK_SHIFTR => some (.BITW, BitWiseOP.BW_SHIFTR.code)
  | _ => none

def plusOps : Token → Option (Opcode × Int)
  | .chr '+' => some (ChooseArithOpByToken (.chr '+'), 0)
  | .chr '-' => some (ChooseArithOpByToken (.chr '-'), 0)
  | _ => none

def multOps : Token → Option (Opcode × Int)
  | .chr '*' => some (ChooseArithOpByToken (.chr '*'), 0)
  | .chr '/' => some (ChooseArithOpByToken (.chr '/'), 0)
  | .chr '%' => some (ChooseArithOpByToken (.chr '%'), 0)
  | _ => none

def bitwiseOrExp : CompilerM Unit := binaryLevel n call .BitwiseXorExp bitwiseOrOps
def bitwiseXorExp : CompilerM Unit := binaryLevel n call .BitwiseAndExp bitwiseXorOps
def bitwiseAndExp : CompilerM Unit := binaryLevel n call .EqExp bitwiseAndOps
def eqExp : CompilerM Unit := binaryLevel n call .CompExp eqOps
def compExp : CompilerM Unit := binaryLevel n call .ShiftExp compOps
def shiftExp : CompilerM Unit := binaryLevel n call .PlusExp shiftOps
def plusExp : CompilerM Unit := binaryLevel n call .MultExp plusOps
def multExp : CompilerM Unit := binaryLevel n call .PrefixedExpr multOps

/-! ### Postfix expressions -/

/-- `NeedGet`. -/
def NeedGet : CompilerM Bool := do
  let c ← get
  match c.token with
  | .chr '=' | .chr '(' | .TK_NEWSLOT | .TK_MODEQ | .TK_MULEQ | .TK_DIVEQ | .TK_MINUSEQ
  | .TK_PLUSEQ => return false
  | .TK_PLUSPLUS | .TK_MINUSMINUS =>
    if !(← IsEndOfStatement) then return false
    return !c.es.donot_get
  | t => return !c.es.donot_get || t = .chr '.' || t = .chr '['

/-- The type names between `<` and `>`, which the code does not depend on. -/
def genericArguments : CompilerM Unit := do
  Lex
  loop n (fun _ => do
    if !(← getToken).isType then
      error "expected type name in generic argument list"
    Lex
    if (← getToken) = .chr ',' then
      Lex
      return .inl ()
    else return .inr ()) ()

/-- The end of `.` and `[` in `PrefixedExpr`: the key is on top of the targets. -/
def derefKey : CompilerM Unit := do
  if (← getEtype) = .BASE then
    Emit2ArgsOP .GET
    setEtype .EXPR
    setEpos (← TopTarget)
  else
    if ← NeedGet then
      Emit2ArgsOP .GET
    setEtype .OBJECT

/-- The cases `++` and `--` of `PrefixedExpr`. -/
def postfixIncDec (diff : Int) : CompilerM Unit := do
  Lex
  let es := (← get).es
  match es.etype with
  | .EXPR => error "can't '++' or '--' an expression"
  | .BASE => error "'base' cannot be modified"
  | .OBJECT =>
    if es.donot_get then error "can't '++' or '--' an expression"
    Emit2ArgsOP .PINC diff
  | .LOCAL =>
    let src ← PopTarget
    AddInstruction .PINCL (← PushTarget) src 0 diff
  | .OUTER =>
    let tmp1 ← PushTarget
    let tmp2 ← PushTarget
    AddInstruction .GETOUTER tmp2 es.epos
    AddInstruction .PINCL tmp1 tmp2 0 diff
    AddInstruction .SETOUTER tmp2 es.epos tmp2
    let _ ← PopTarget
  setEtype .EXPR

/-- The code before the arguments of a call: the closure and `this` on top of the
targets. -/
def prepareCall : CompilerM Unit := do
  let es := (← get).es
  match es.etype with
  | .OBJECT =>
    let key ← PopTarget
    let table ← PopTarget
    let closure ← PushTarget
    let ttarget ← PushTarget
    AddInstruction .PREPCALL closure key table ttarget
  | .OUTER =>
    AddInstruction .GETOUTER (← PushTarget) es.epos
    AddInstruction .MOVE (← PushTarget) 0
  | _ => AddInstruction .MOVE (← PushTarget) 0

/-- One round of the loop of `PrefixedExpr`; the result says whether it goes on. -/
def suffix : CompilerM (Unit ⊕ Unit) := do
  match ← getToken with
  | .chr '.' =>
    Lex
    let target ← PushTarget
    AddInstruction .LOAD target (← GetConstant (← Expect .TK_IDENTIFIER))
    derefKey
    return .inl ()
  | .chr '[' =>
    if ← prevtokenIs '\n' then
      error "cannot break deref/or comma needed after [exp]=exp slot declaration"
    Lex
    call .Expression
    let _ ← Expect (.chr ']')
    derefKey
    return .inl ()
  | .TK_MINUSMINUS =>
    if !(← IsEndOfStatement) then
      postfixIncDec (-1)
    return .inr ()
  | .TK_PLUSPLUS =>
    if !(← IsEndOfStatement) then
      postfixIncDec 1
    return .inr ()
  | .chr '<' =>
    genericArguments n
    let _ ← Expect (.chr '>')
    return .inl ()
  | .chr '(' =>
    prepareCall
    setEtype .EXPR
    Lex
    call (.FunctionCallArgs false)
    return .inl ()
  | _ => return .inr ()

/-- `PrefixedExpr`. -/
def prefixedExpr : CompilerM Unit := do
  call .Factor
  loop n (fun _ => suffix n call) ()

/-! ### Factors -/

/-- The load of a named constant. -/
def emitConstant (id : Object) (constant : Constant) : CompilerM Unit := do
  let constval ← match constant with
    | .scalar o => pure o
    | .table entries => do
      let _ ← Expect (.chr '.')
      let constid ← Expect .TK_IDENTIFIER
      match entries.find? fun entry => entry.1 = constid with
      | some entry => pure entry.2
      | none => error ("invalid constant [" ++ nameText id ++ "." ++ nameText constid ++ "]")
  let target ← PushTarget
  setEpos target
  match constval with
  | .integer n => EmitLoadConstInt n (some target)
  | .float f => EmitLoadConstFloat f (some target)
  | .bool b => AddInstruction .LOADBOOL target b.toInt
  | o => AddInstruction .LOAD target (← GetConstant o)
  setEtype .EXPR
where
  nameText : Object → String
    | .string s => String.ofList (s.map fun b => Char.ofNat b.toNat)
    | _ => ""

/-- The name of the current token in the identifier cases of `Factor`. -/
def identifierName (c : Compiler) : Object :=
  match c.token with
  | .TK_THIS => .string (sc "this")
  | .TK_CONSTRUCTOR => .string (sc "constructor")
  | _ => .string c.lex.svalue

/-- The identifier cases of `Factor`: a local variable, a variable of a function
around, a constant, or a slot of `this`. -/
def identifier : CompilerM Unit := do
  let id := identifierName (← get)
  Lex
  if (← getToken) = .chr '<' then
    genericArguments n
    if (← getToken) = .chr '>' then Lex
    else error "expected '>' after generic argument list"
  match (← getFs).getLocalVariable id with
  | some pos =>
    let _ ← PushTargetAt pos
    setEtype .LOCAL
    setEpos pos
  | none =>
    match ← GetOuterVariable id with
    | some pos =>
      if ← NeedGet then
        let target ← PushTarget
        setEpos target
        AddInstruction .GETOUTER target pos
      else
        setEtype .OUTER
        setEpos pos
    | none =>
      match ← IsConstant id with
      | some constant => emitConstant id constant
      | none =>
        let _ ← PushTargetAt 0
        let target ← PushTarget
        AddInstruction .LOAD target (← GetConstant id)
        if ← NeedGet then
          Emit2ArgsOP .GET
        setEtype .OBJECT

/-- The elements of an array constructor; the result is their number. -/
def arrayElements : CompilerM Nat :=
  loop n (fun key => do
    if (← getToken) = .chr ']' then return .inr key
    call .Expression
    if (← getToken) = .chr ',' then Lex
    let val ← PopTarget
    let array ← TopTarget
    AddInstruction .APPENDARRAY array val AAT_STACK
    return .inl (key + 1)) 0

/-- The case `[` of `Factor`. -/
def arrayConstructor : CompilerM Unit := do
  AddInstruction .NEWOBJ (← PushTarget) 0 0 NOT_ARRAY
  let apos ← GetCurrentPos
  Lex
  let key ← arrayElements n call
  SetInstructionParam apos 1 key
  Lex

/-- The case `-` of `Factor`; a literal is negated at once, a float by its sign bit. -/
def negation : CompilerM Unit := do
  Lex
  let c ← get
  match c.token with
  | .TK_INTEGER =>
    EmitLoadConstInt (-c.lex.nvalue) none
    Lex
  | .TK_FLOAT =>
    EmitLoadConstFloat (c.lex.fvalue ^^^ 0x80000000) none
    recordFloat true (c.lex.fvalue ^^^ 0x80000000)
    Lex
  | _ => call (.UnaryOP .NEG)

/-- The cases of `Factor` that leave `_es.etype` to be reset. -/
def factorExpr : CompilerM Unit := do
  let c ← get
  match c.token with
  | .TK_STRING_LITERAL =>
    let target ← PushTarget
    AddInstruction .LOAD target (← GetConstant (.string c.lex.svalue))
    Lex
  | .TK_NULL =>
    AddInstruction .LOADNULLS (← PushTarget) 1
    Lex
  | .TK_INTEGER =>
    EmitLoadConstInt c.lex.nvalue none
    Lex
  | .TK_FLOAT =>
    EmitLoadConstFloat c.lex.fvalue none
    recordFloat false c.lex.fvalue
    Lex
  | .TK_TRUE =>
    AddInstruction .LOADBOOL (← PushTarget) 1
    Lex
  | .TK_FALSE =>
    AddInstruction .LOADBOOL (← PushTarget) 0
    Lex
  | .chr '[' => arrayConstructor n call
  | .chr '{' =>
    AddInstruction .NEWOBJ (← PushTarget) 0 0 NOT_TABLE
    Lex
    call (.ParseTableOrClass (.chr ',') (.chr '}'))
  | .TK_FUNCTION => call (.FunctionExp false)
  | .chr '@' => call (.FunctionExp true)
  | .TK_CLASS =>
    Lex
    call .ClassExp
  | .chr '-' => negation call
  | .chr '!' =>
    Lex
    call (.UnaryOP .NOT)
  | .chr '~' =>
    Lex
    let c ← get
    if c.token = .TK_INTEGER then
      EmitLoadConstInt (~~~c.lex.nvalue) none
      Lex
    else call (.UnaryOP .BWNOT)
  | .TK_TYPEOF =>
    Lex
    call (.UnaryOP .TYPEOF)
  | .TK_RESUME =>
    Lex
    call (.UnaryOP .RESUME)
  | .TK_CLONE =>
    Lex
    call (.UnaryOP .CLONE)
  | .TK_RAWCALL =>
    Lex
    let _ ← Expect (.chr '(')
    call (.FunctionCallArgs true)
  | .TK_MINUSMINUS => call (.PrefixIncDec .TK_MINUSMINUS)
  | .TK_PLUSPLUS => call (.PrefixIncDec .TK_PLUSPLUS)
  | .TK_DELETE => call .DeleteExpr
  | .chr '(' =>
    Lex
    call .CommaExpr
    let _ ← Expect (.chr ')')
  | .TK___LINE__ =>
    EmitLoadConstInt c.lex.currentline none
    Lex
  | .TK___FILE__ =>
    let target ← PushTarget
    AddInstruction .LOAD target (← GetConstant c.sourcename)
    Lex
  | _ => error "expression expected"

/-- `Factor`. After `::` the compiler goes on as if it had read a dot. -/
def factor : CompilerM Unit := do
  match ← getToken with
  | .TK_BASE =>
    Lex
    let target ← PushTarget
    AddInstruction .GETBASE target
    setEtype .BASE
    setEpos target
  | .TK_IDENTIFIER | .TK_CONSTRUCTOR | .TK_THIS => identifier n
  | .TK_DOUBLE_COLON =>
    AddInstruction .LOADROOT (← PushTarget)
    setEtype .OBJECT
    modify fun c => { c with token := .chr '.' }
    setEpos (-1)
  | _ =>
    factorExpr n call
    setEtype .EXPR

/-- `UnaryOP`. -/
def unaryOP (op : Opcode) : CompilerM Unit := do
  call .PrefixedExpr
  if (← getFs).targetstack.isEmpty then
    error "cannot evaluate unary operator"
  let src ← PopTarget
  AddInstruction op (← PushTarget) src

/-- `DeleteExpr`. -/
def deleteExpr : CompilerM Unit := do
  Lex
  withDonotGet do
    call .PrefixedExpr
    match ← getEtype with
    | .EXPR => error "can't delete an expression"
    | .BASE => error "can't delete 'base'"
    | .OBJECT => Emit2ArgsOP .DELETE
    | _ => error "cannot delete an (outer) local"

/-- `PrefixIncDec`. -/
def prefixIncDec (token : Token) : CompilerM Unit := do
  let diff : Int := if token = .TK_MINUSMINUS then -1 else 1
  Lex
  withDonotGet do
    call .PrefixedExpr
    let es := (← get).es
    match es.etype with
    | .EXPR => error "can't '++' or '--' an expression"
    | .BASE => error "can't '++' or '--' a base"
    | .OBJECT => Emit2ArgsOP .INC diff
    | .LOCAL =>
      let src ← TopTarget
      AddInstruction .INCL src src 0 diff
    | .OUTER =>
      let tmp ← PushTarget
      AddInstruction .GETOUTER tmp es.epos
      AddInstruction .INCL tmp tmp 0 diff
      AddInstruction .SETOUTER tmp es.epos tmp

/-! ### Calls, tables and classes -/

/-- The arguments of a call up to the closing bracket; the result counts them and
`this`. -/
def callArguments : CompilerM Nat :=
  loop n (fun nargs => do
    if (← getToken) = .chr ')' then return .inr nargs
    call .Expression
    MoveIfCurrentTargetIsLocal
    if (← getToken) = .chr ',' then
      Lex
      if (← getToken) = .chr ')' then
        error "expression expected, found ')'"
    return .inl (nargs + 1)) 1

/-- The key of a slot in a constructor that is written without `func`. -/
def slotKey : CompilerM Unit := do
  match ← getToken with
  | .chr '[' =>
    Lex
    call .CommaExpr
    let _ ← Expect (.chr ']')
  | _ =>
    let target ← PushTarget
    AddInstruction .LOAD target (← GetConstant (← Expect .TK_IDENTIFIER))

/-- The table constructor after a call, which sets slots of its result. -/
def callSlots : CompilerM Unit := do
  let retval ← TopTarget
  Lex
  whileLoop n (return (← getToken) ≠ .chr '}') do
    slotKey call
    let _ ← Expect (.chr '=')
    call .Expression
    if (← getToken) = .chr ',' then Lex
    let val ← PopTarget
    let key ← PopTarget
    AddInstruction .SET 0xFF retval key val
  Lex

/-- `FunctionCallArgs`. -/
def functionCallArgs (rawcall : Bool) : CompilerM Unit := do
  let nargs ← callArguments n call
  Lex
  if rawcall ∧ nargs < 3 then
    error "rawcall requires at least 2 parameters (callee and this)"
  let nargs := if rawcall then nargs - 2 else nargs
  PopTargets (nargs - 1)
  let stackbase ← PopTarget
  let closure ← PopTarget
  AddInstruction .CALL (← PushTarget) closure stackbase nargs
  if (← getToken) = .chr '{' then
    callSlots n call

/-- `ParseBindEnv`. -/
def ParseBindEnv : CompilerM Nat := do
  Lex
  call .Expression
  let boundtarget ← TopTarget
  let _ ← Expect (.chr ']')
  return boundtarget

/-- The environment in brackets that may follow the name of a function. -/
def optionalBindEnv : CompilerM Int := do
  if (← getToken) = .chr '[' then return (← ParseBindEnv call)
  else return 0xFF

/-- `CLOSURE` with the function compiled last. -/
def emitClosure (boundtarget : Int) : CompilerM Unit := do
  let target ← PushTarget
  AddInstruction .CLOSURE target (((← getFs).functions.size : Int) - 1) boundtarget

/-- The key and the value of one slot in `ParseTableOrClass`. -/
def slot (separator : Token) : CompilerM Unit := do
  match ← getToken with
  | .TK_FUNCTION =>
    Lex
    let id ← Expect .TK_IDENTIFIER
    method id
  | .TK_CONSTRUCTOR =>
    Lex
    method (.string (sc "constructor"))
  | .TK_STRING_LITERAL =>
    if separator = .chr ',' then
      let target ← PushTarget
      AddInstruction .LOAD target (← GetConstant (← Expect .TK_STRING_LITERAL))
      let _ ← Expect (.chr ':')
      call .Expression
    else keyAndValue
  | _ => keyAndValue
where
  method (id : Object) : CompilerM Unit := do
    let target ← PushTarget
    AddInstruction .LOAD target (← GetConstant id)
    let boundtarget ← optionalBindEnv call
    call (.CreateFunction id boundtarget false)
    emitClosure boundtarget
  keyAndValue : CompilerM Unit := do
    slotKey call
    let _ ← Expect (.chr '=')
    call .Expression

/-- `ParseTableOrClass`. The separator tells a table from a class. -/
def parseTableOrClass (separator terminator : Token) : CompilerM Unit := do
  let tpos ← GetCurrentPos
  let nkeys ← loop n (fun (nkeys : Nat) => do
    if (← getToken) = terminator then return .inr nkeys
    let hasattrs := separator = .chr ';' ∧ (← getToken) = .TK_ATTR_OPEN
    if hasattrs then
      AddInstruction .NEWOBJ (← PushTarget) 0 0 NOT_TABLE
      Lex
      call (.ParseTableOrClass (.chr ',') .TK_ATTR_CLOSE)
    let isstatic := separator = .chr ';' ∧ (← getToken) = .TK_STATIC
    if isstatic then Lex
    slot call separator
    if (← getToken) = separator then Lex
    let val ← PopTarget
    let key ← PopTarget
    if hasattrs then
      let _ ← PopTarget
    let flags := (if hasattrs then NEW_SLOT_ATTRIBUTES_FLAG else 0)
      ||| (if isstatic then NEW_SLOT_STATIC_FLAG else 0)
    let table ← TopTarget
    if separator = .chr ',' then AddInstruction .NEWSLOT 0xFF table key val
    else AddInstruction .NEWSLOTA flags table key val
    return .inl (nkeys + 1)) 0
  if separator = .chr ',' then
    SetInstructionParam tpos 1 nkeys
  Lex

/-- `ClassExp`. -/
def classExp : CompilerM Unit := do
  let mut base : Int := -1
  if (← getToken) = .TK_EXTENDS then
    Lex
    call .Expression
    base ← TopTarget
  let mut attrs : Int := -1
  if (← getToken) = .TK_ATTR_OPEN then
    Lex
    AddInstruction .NEWOBJ (← PushTarget) 0 0 NOT_TABLE
    call (.ParseTableOrClass (.chr ',') .TK_ATTR_CLOSE)
    attrs ← TopTarget
  let _ ← Expect (.chr '{')
  if attrs ≠ -1 then
    let _ ← PopTarget
  if base ≠ -1 then
    let _ ← PopTarget
  AddInstruction .NEWOBJ (← PushTarget) base attrs NOT_CLASS
  call (.ParseTableOrClass (.chr ';') (.chr '}'))

/-- `FunctionExp`. -/
def functionExp (lambda : Bool) : CompilerM Unit := do
  Lex
  let boundtarget ← optionalBindEnv call
  call (.CreateFunction .null boundtarget lambda)
  emitClosure boundtarget

end Compiler

end GameScript
