import GameScript.VM.Operators
import GameScript.Tokens

/-!
The loop of `Execute`: what each instruction does, how calls and returns change
the frames, and where an error goes.

The debug hook is left out; it sees the calls and lines but changes nothing.
-/

namespace GameScript.VM

variable (rt : Runtime)

/-! ### Operands -/

/-- `sarg0`. -/
def sarg0 (i : Instruction) : Int := i.arg0.toInt8.toInt

/-- `sarg3`, as the value that increments add. -/
def sarg3 (i : Instruction) : GSInteger := i.arg3.toInt8.toInt64

/-- `arg1` where it is an index. -/
def index1 {Heap : Type} (i : Instruction) : VMM Heap Nat :=
  if 0 ≤ i.arg1.toInt then return i.arg1.toInt.toNat else undefined

/-- `STK(arg1)`. -/
def STK1 {Heap : Type} (i : Instruction) : VMM Heap Object := do STK (← index1 i)

/-- `TARGET = v`. -/
def setTarget {Heap : Type} (i : Instruction) (v : Object) : VMM Heap Unit :=
  setSTK i.arg0.toNat v

/-- `ci->_ip += d`. -/
def jump {Heap : Type} (d : Int) : VMM Heap Unit := do
  let ip := ((← getCi).ip : Int) + d
  if 0 ≤ ip then modifyCi fun ci => { ci with ip := ip.toNat } else undefined

/-- What a failed `ARITH_OP` leaves when its result is not looked at. -/
def ignoreFailure {Heap α : Type} (m : VMM Heap α) : VMM Heap (Option α) := fun vm =>
  match m vm with
  | .ok a vm => .ok (some a) vm
  | .error (.raise _) vm => .ok none vm
  | .error .undefined vm => .error .undefined vm

/-! ### Calls -/

/-- `GSGenerator::Yield`, of which `target` registers are saved. -/
def yieldGenerator (p : Ref) (target : Nat) : VMM rt.Heap Unit := do
  let vm ← get
  let ci ← getCi
  match vm.generators[p]? with
  | none => undefined
  | some g =>
    match g.state with
    | .eSuspended => raiseError "internal vm error, yielding dead generator"
    | .eDead => raiseError "internal vm error, yielding a dead generator"
    | .eRunning =>
      let size := vm.top - vm.stackbase
      let this ← rt.ask1 (.weakRef (vm.stack vm.stackbase))
      let saved := (List.range size).map fun n =>
        if n = 0 then this else if n < target then vm.stack (vm.stackbase + n) else .null
      let etraps := (vm.etraps.take ci.etraps).map fun et => { et with
        stackbase := et.stackbase - vm.stackbase
        stacksize := et.stacksize - vm.stackbase }
      modify fun vm => { vm with
        stack := fun m => if vm.stackbase ≤ m ∧ m < vm.top then .null else vm.stack m
        etraps := vm.etraps.drop ci.etraps }
      modifyGenerator p fun g => { g with
        state := .eSuspended
        stack := saved
        ci := { ci with generator := none }
        etraps := etraps.reverse ++ g.etraps }

/-- `GSGenerator::Resume` into the register `target`. -/
def resumeGenerator (p : Ref) (target : Nat) : VMM rt.Heap Unit := do
  let vm ← get
  match vm.generators[p]? with
  | none => undefined
  | some g =>
    match g.state with
    | .eDead => raiseError "resuming dead generator"
    | .eRunning => raiseError "resuming active generator"
    | .eSuspended =>
      let newbase := vm.top
      enterFrame newbase (newbase + g.stack.length) false
      modifyCi fun ci => { ci with
        generator := some p
        target := target
        closure := g.ci.closure
        ip := g.ci.ip
        ncalls := g.ci.ncalls
        etraps := g.ci.etraps
        root := g.ci.root }
      let etraps := (g.etraps.take g.ci.etraps).map fun et => { et with
        stackbase := et.stackbase + newbase
        stacksize := et.stacksize + newbase }
      let this ← rt.ask1 (.strongRef (g.stack.headD .null))
      modify fun vm => { vm with
        etraps := etraps.reverse ++ vm.etraps
        stack := fun m =>
          if m = newbase then this
          else if newbase < m ∧ m < newbase + g.stack.length then
            g.stack.getD (m - newbase) .null
          else vm.stack m }
      modifyGenerator p fun g => { g with
        state := .eRunning
        stack := g.stack.mapIdx fun n v => if n = 0 then v else .null
        etraps := g.etraps.drop g.ci.etraps }

/-- The arguments of a call that are not in registers of parameters yet: the array of a
variable tail, or the default values of missing ones. -/
def bindArguments (closure : Closure) (args stackbase : Nat) : VMM rt.Heap Unit := do
  let func := closure.function
  let paramssize := func.parameters.length
  if func.varparams ≠ 0 then
    let paramssize := paramssize - 1
    when (args < paramssize) do
      raiseError ("wrong number of parameters (" ++ toString args ++ " passed, at least "
        ++ toString paramssize ++ " required)")
    let nvargs := args - paramssize
    let vm ← get
    let arr ← rt.ask1 (.newArray ((List.range nvargs).map fun n =>
      vm.stack (stackbase + paramssize + n)))
    modify fun vm => { vm with
      stack := fun m =>
        if m = stackbase + paramssize then arr
        else if stackbase + paramssize ≤ m ∧ m < stackbase + args then .null
        else vm.stack m }
  else if paramssize ≠ args then
    let ndef := func.defaultparams.length
    let diff := paramssize - args
    if ndef ≠ 0 ∧ args < paramssize ∧ diff ≤ ndef then
      modify fun vm => { vm with
        stack := fun m =>
          if stackbase + args ≤ m ∧ m < stackbase + paramssize then
            closure.defaultparams.getD (ndef - diff + (m - (stackbase + args))) .null
          else vm.stack m }
    else
      raiseError ("wrong number of parameters (" ++ toString args ++ " passed, "
        ++ toString paramssize ++ " required)")

/-- The end of `StartCall` for a generator function. -/
def startGenerator (p : Ref) (target : Int) (stacksize : Nat) : VMM rt.Heap Unit := do
  let gen := (← get).generators.length
  modify fun vm => { vm with generators := vm.generators ++ [{ closure := p }] }
  yieldGenerator rt gen stacksize
  let _ ← Return 1 target.toNat
  let slot ← resultSlot (← get).stackbase target
  modify fun vm => vm.setSlot slot (.generator gen)

/-- The object the closure is bound to takes the place of `this`. -/
def bindEnvironment {Heap : Type} (closure : Closure) (stackbase : Nat) : VMM Heap Unit :=
  match closure.env with
  | some env => modify fun vm => vm.setSlot stackbase env
  | none => pure ()

/-- `StartCall`. A generator function gives its frame up at once. -/
def StartCall (p : Ref) (target : Int) (args stackbase : Nat) (tailcall : Bool) :
    VMM rt.Heap Unit := do
  let closure ← getClosure p
  let stacksize := closure.function.stacksize.toInt.toNat
  bindArguments rt closure args stackbase
  bindEnvironment closure stackbase
  enterFrame stackbase (stackbase + stacksize) tailcall
  modifyCi (·.start p target)
  when closure.function.bgenerator (startGenerator rt p target stacksize)

/-- A call that takes over the frame. What the frame had on the stack stays part of it. -/
def takeOver (p : Ref) (target : Int) (args stackbase last_top : Nat) : VMM rt.Heap Unit := do
  StartCall rt p target args stackbase true
  modify fun vm => { vm with top := max vm.top last_top }

/-- What the loop does after an instruction. -/
inductive Control where
  | next
  | returned (v : Object)
  | suspended (v : Object)
deriving DecidableEq, Repr

/-- The values in `n` slots from `base` on. -/
def slots {Heap : Type} (vm : VM Heap) (base n : Nat) : List Object :=
  (List.range n).map fun k => vm.stack (base + k)

/-- `CallNative` with its result for the register `arg0`, less the frame it has while
it runs. A native function may hand its frame on to a closure. -/
def CallNative (clo : Object) (args newbase : Nat) (arg0 : Nat) (target : Int) :
    VMM rt.Heap Control := do
  match ← rt.askNative (.callNative clo (slots (← get) newbase args)) with
  | .values vs =>
    when (target ≠ -1) (setSTK arg0 (vs.headD .null))
    return .next
  | .suspended v => return .suspended v
  | .tailcall p vs =>
    enterFrame newbase (newbase + args) false
    modify fun vm => vm.setSlots newbase vs
    takeOver rt p target vs.length newbase (newbase + args)
    return .next

/-- The call of an object with the metamethod for it. -/
def callMeta (i : Instruction) (clo : Object) (args : List Object) : VMM rt.Heap Control := do
  match ← rt.ask (.callMetaMethod clo args) with
  | [v] =>
    when (sarg0 i ≠ -1) (setTarget i v)
    return .next
  | _ => raiseError ("attempt to call '" ++ clo.typeName ++ "'")

/-- `_OP_CALL`. -/
def call (i : Instruction) : VMM rt.Heap Control := do
  let clo ← STK1 i
  let args := i.arg3.toNat
  let stkbase := (← get).stackbase + i.arg2.toNat
  match clo with
  | .closure p =>
    StartCall rt p (sarg0 i) args stkbase false
    return .next
  | .nativeclosure _ => CallNative rt clo args stkbase i.arg0.toNat (sarg0 i)
  | .class _ =>
    match ← rt.ask (.createInstance clo) with
    | [inst, constructor] =>
      when (sarg0 i ≠ -1) (setTarget i inst)
      match constructor with
      | .closure p =>
        modify fun vm => vm.setSlot stkbase inst
        StartCall rt p (-1) args stkbase false
        return .next
      | .nativeclosure _ =>
        modify fun vm => vm.setSlot stkbase inst
        -- whether the constructor suspends is not looked at
        let _ ← CallNative rt constructor args stkbase 0xFF (-1)
        return .next
      | _ => return .next
    | _ => undefined
  | .table _ | .userdata _ | .instance _ => callMeta rt i clo (slots (← get) stkbase args)
  | _ => raiseError ("attempt to call '" ++ clo.typeName ++ "'")

/-- The frame goes to the closure `p`, with its arguments moved down. -/
def reuseFrame (i : Instruction) (p : Ref) : VMM rt.Heap Control := do
  let vm ← get
  let args := i.arg3.toNat
  modify fun vm => vm.closeOuters vm.stackbase
  (List.range args).forM fun n => do setSTK n (← STK (i.arg2.toNat + n))
  takeOver rt p (← getCi).target args vm.stackbase vm.top
  return .next

/-- `_OP_TAILCALL`: a closure that is no generator function takes over the frame. -/
def tailCall (i : Instruction) : VMM rt.Heap Control := do
  match ← STK1 i with
  | .closure p =>
    if (← getClosure p).function.bgenerator then call rt i else reuseFrame rt i p
  | _ => call rt i

/-- Whether a value passes the check of `_OP_RETURN`. -/
def rettypeOk (rettype : Int) (actual : Object) : Bool :=
  if rettype = Token.TK_VOID.code then actual.type = .null else typeOk rettype actual

def rettypeError (rettype : Int) : String :=
  if rettype = Token.TK_VOID.code then "type mismatch: a 'void' function cannot return a value"
  else "type mismatch: function declared return type does not match returned value"

/-- The check of `_OP_RETURN`. A return type that was never written holds anything. -/
def checkReturnType {Heap : Type} (i : Instruction) : VMM Heap Unit :=
  when (i.arg0 ≠ 0xFF) do
    match (← currentClosure).function.rettype with
    | none => undefined
    | some rettype =>
      when (rettype ≠ 0) do
        let retval ← STK1 i
        when (!rettypeOk rettype.toInt retval) (raiseError (rettypeError rettype.toInt))

/-- `Return` as the end of an instruction. -/
def finish {Heap : Type} (i : Instruction) : VMM Heap Control := do
  match ← Return i.arg0.toNat (← index1 i) with
  | some v => return .returned v
  | none => return .next

/-- A generator whose function returns is dead. -/
def killGenerator {Heap : Type} : VMM Heap Unit := do
  match (← getCi).generator with
  | some p => kill p
  | none => pure ()

/-- `_OP_RETURN`. -/
def returnOp {Heap : Type} (i : Instruction) : VMM Heap Control := do
  killGenerator
  checkReturnType i
  finish i

/-- `_OP_YIELD`. -/
def yieldOp (i : Instruction) : VMM rt.Heap Control := do
  let ci ← getCi
  match ci.generator with
  | none => raiseError "trying to yield a 'generator',only genenerator can be yielded"
  | some p =>
    let arg1 ← index1 i
    let temp_reg ← STK arg1
    modify fun vm => vm.closeOuters vm.stackbase
    yieldGenerator rt p i.arg2.toNat
    modify fun vm => { vm with traps := vm.traps - ci.etraps }
    when (arg1 ≠ 0xFF) (setSTK arg1 temp_reg)
    finish i

/-- `_OP_RESUME`. -/
def resumeOp (i : Instruction) : VMM rt.Heap Unit := do
  match ← STK1 i with
  | .generator p =>
    resumeGenerator rt p i.arg0.toNat
    let ci ← getCi
    modify fun vm => { vm with traps := vm.traps + ci.etraps }
  | o =>
    raiseError ("trying to resume a '" ++ o.typeName ++ "',only genenerator can be resumed")

/-! ### Closures and loops -/

/-- The register or the outer variable that is captured. -/
def capturedIndex (v : OuterVar) : Nat :=
  match v.src with
  | .integer n => n.toInt.toNat
  | _ => 0

/-- The cell of a captured variable. -/
def captureOuter {Heap : Type} (current : Closure) (v : OuterVar) : VMM Heap Ref := do
  match v.type with
  | .otLOCAL => findOuter ((← get).stackbase + capturedIndex v)
  | .otOUTER =>
    match current.outervalues[capturedIndex v]? with
    | some p => return p
    | none => undefined

/-- The outer variables of a new closure. -/
def captureOuters {Heap : Type} (current : Closure) : List OuterVar → VMM Heap (List Ref)
  | [] => return []
  | v :: vs => do
    let p ← captureOuter current v
    return p :: (← captureOuters current vs)

/-- What a new closure is bound to. -/
def boundEnvironment {Heap : Type} (i : Instruction) : VMM Heap (Option Object) := do
  if i.arg2 = 0xFF then return none
  else
    match ← STK i.arg2.toNat with
    | .table p => return some (.table p)
    | .class p => return some (.class p)
    | .instance p => return some (.instance p)
    | .array p => return some (.array p)
    | o => raiseError ("cannot bind a " ++ o.typeName ++ " as environment object")

/-- `CLOSURE_OP`. -/
def closureOp {Heap : Type} (i : Instruction) : VMM Heap Unit := do
  let current ← currentClosure
  match current.function.functions[← index1 i]? with
  | none => undefined
  | some func =>
    let outervalues ← captureOuters current func.outervalues
    let vm ← get
    let defaultparams := func.defaultparams.map fun pos => vm.stack (vm.stackbase + pos.toInt.toNat)
    let env ← boundEnvironment i
    let closure : Closure := {
      function := func
      outervalues := outervalues
      defaultparams := defaultparams
      env := env }
    let p := vm.closures.length
    modify fun vm => { vm with closures := vm.closures ++ [closure] }
    setTarget i (.closure p)

/-- `_OP_FOREACH` with `FOREACH_OP`. -/
def foreachOp (i : Instruction) : VMM rt.Heap Unit := do
  let arg2 := i.arg2.toNat
  match ← STK i.arg0.toNat with
  | .generator p =>
    match (← get).generators[p]? with
    | none => undefined
    | some g =>
      match g.state with
      | .eDead => jump i.arg1.toInt
      | .eSuspended =>
        let idx : GSInteger := match ← STK (arg2 + 2) with
          | .integer n => n + 1
          | _ => 0
        setSTK arg2 (.integer idx)
        setSTK (arg2 + 2) (.integer idx)
        let _ ← ignoreFailure (resumeGenerator rt p (arg2 + 1))
      | .eRunning => raiseError "cannot iterate generator"
  | container =>
    match ← rt.ask (.next container (← STK (arg2 + 2))) with
    | [key, val, iterator] =>
      setSTK (arg2 + 2) iterator
      setSTK arg2 key
      setSTK (arg2 + 1) val
      jump 1
    | _ => jump i.arg1.toInt

/-- `_OP_POSTFOREACH`. -/
def postForeach {Heap : Type} (i : Instruction) : VMM Heap Unit := do
  match ← STK i.arg0.toNat with
  | .generator p =>
    match (← get).generators[p]? with
    | some g => when (g.state = .eDead) (jump (i.arg1.toInt - 1))
    | none => undefined
  | _ => undefined

/-- `_OP_TYPECHECK`. -/
def typeCheck (i : Instruction) : VMM rt.Heap Unit := do
  let val ← STK i.arg0.toNat
  let expected_tok := i.arg1.toInt
  if expected_tok < 0 then
    match val with
    | .array _ => let _ ← rt.ask (.typeCheckArray val (-expected_tok) i.arg2.toNat)
    | _ => raiseError "type mismatch: expected an array"
  else
    when (!typeOk expected_tok val) do
      raiseError "strict type mismatch: invalid assignment"

/-- The base class of a new class. -/
def classBase {Heap : Type} (i : Instruction) : VMM Heap Object := do
  if i.arg1 = -1 then return .null
  else
    match ← STK1 i with
    | .class p => return .class p
    | o => raiseError ("trying to inherit from a " ++ o.typeName)

/-- The attributes of a new class. -/
def classAttributes {Heap : Type} (i : Instruction) : VMM Heap Object :=
  if i.arg2 = 0xFF then return .null else STK i.arg2.toNat

/-- `_OP_NEWOBJ`. -/
def newObj (i : Instruction) : VMM rt.Heap Unit := do
  match i.arg3.toNat with
  | 0 => setTarget i (← rt.ask1 (.newTable i.arg1.toInt))
  | 1 => setTarget i (← rt.ask1 (.newArray []))
  | 2 =>
    let base ← classBase i
    let attrs ← classAttributes i
    let theclass ← rt.ask1 (.newClass base)
    setTarget i theclass
    let _ ← rt.ask (.inherited theclass attrs)
  | _ => undefined

/-- The value that `_OP_APPENDARRAY` appends. -/
def appendedValue {Heap : Type} (i : Instruction) : VMM Heap Object := do
  match i.arg2.toNat with
  | 0 => STK1 i
  | 1 => literal (← index1 i)
  | 2 => return .integer i.arg1.toInt64
  | 3 => return .float i.arg1.toBitVec
  | 4 => return .bool i.arg1.toInt64
  | _ => undefined

/-- `_OP_APPENDARRAY`. -/
def appendArray (i : Instruction) : VMM rt.Heap Unit := do
  let val ← appendedValue i
  let _ ← rt.ask (.append (← STK i.arg0.toNat) val)

/-- `COND_LITERAL`. -/
def condLiteral {Heap : Type} (i : Instruction) : VMM Heap Object := do
  if i.arg3 ≠ 0 then literal (← index1 i) else STK1 i

/-! ### Instructions -/

/-- The arithmetic instructions that look at the result of their helper. -/
def arithOp (op : ArithOp) (i : Instruction) : VMM rt.Heap Unit := do
  setTarget i (← arith rt op (← STK i.arg2.toNat) (← STK1 i))

/-- `_OP_MOD`. -/
def modOp (i : Instruction) : VMM rt.Heap Unit := do
  match ← ignoreFailure (do ARITH_OP rt .mod (← STK i.arg2.toNat) (← STK1 i)) with
  | some v => setTarget i v
  | none => pure ()

/-- `PREPCALL` and `PREPCALLK` for the slot `key`. -/
def prepCall (i : Instruction) (key : Object) : VMM rt.Heap Unit := do
  let temp_reg ← Get rt (← STK i.arg2.toNat) key i.arg2.toNat
  setSTK i.arg3.toNat (← STK i.arg2.toNat)
  setTarget i temp_reg

/-- `AND` and `OR`: leaves with the first operand if it decides. -/
def shortCircuit (i : Instruction) (falsy : Bool) : VMM rt.Heap Unit := do
  let v ← STK i.arg2.toNat
  when (isFalse rt.fl v = falsy) do
    setTarget i v
    jump i.arg1.toInt

/-- `_OP_GETOUTER`. -/
def getOuter {Heap : Type} (i : Instruction) : VMM Heap Unit := do
  match (← currentClosure).outervalues[← index1 i]? with
  | some p => setTarget i ((← get).readOuter p)
  | none => undefined

/-- `_OP_SETOUTER`. -/
def setOuter {Heap : Type} (i : Instruction) : VMM Heap Unit := do
  match (← currentClosure).outervalues[← index1 i]? with
  | some p =>
    let v ← STK i.arg2.toNat
    modify fun vm => vm.writeOuter p v
    when (i.arg0 ≠ 0xFF) do setTarget i (← STK i.arg2.toNat)
  | none => undefined

/-- `_OP_INSTANCEOF`. -/
def instanceOf (i : Instruction) : VMM rt.Heap Unit := do
  let theclass ← STK1 i
  let o ← STK i.arg2.toNat
  if theclass.type ≠ .class then
    raiseError ("cannot apply instanceof between a " ++ theclass.typeName ++ " and a "
      ++ o.typeName)
  else if o.type = .instance then setTarget i (← rt.ask1 (.instanceOf o theclass))
  else setTarget i (.ofBool false)

/-- `_OP_PUSHTRAP`. -/
def pushTrap {Heap : Type} (i : Instruction) : VMM Heap Unit := do
  let vm ← get
  let ip := ((← getCi).ip : Int) + i.arg1.toInt
  when (ip < 0) undefined
  let et : ExceptionTrap := {
    stackbase := vm.stackbase
    stacksize := vm.top
    ip := ip.toNat
    extarget := i.arg0.toNat }
  modify fun vm => { vm with etraps := et :: vm.etraps, traps := vm.traps + 1 }
  modifyCi fun ci => { ci with etraps := ci.etraps + 1 }

/-- `_OP_POPTRAP`. -/
def popTraps {Heap : Type} (n : Nat) : VMM Heap Unit := do
  let vm ← get
  when (vm.etraps.length < n) undefined
  modify fun vm => { vm with etraps := vm.etraps.drop n, traps := vm.traps - n }
  modifyCi fun ci => { ci with etraps := ci.etraps - n }

/-- The attributes of a new member of a class. -/
def slotAttributes {Heap : Type} (i : Instruction) : VMM Heap Object :=
  if i.arg0.toNat &&& NEW_SLOT_ATTRIBUTES_FLAG ≠ 0 then STK (i.arg2.toNat - 1) else return .null

/-- The instructions that stay in their frame. -/
def execData (i : Instruction) : VMM rt.Heap Unit := do
  let arg0 := i.arg0.toNat
  let arg2 := i.arg2.toNat
  let arg3 := i.arg3.toNat
  match i.op with
  | .LINE => pure ()
  | .LOAD => setTarget i (← literal (← index1 i))
  | .LOADINT => setTarget i (.integer i.arg1.toInt64)
  | .LOADFLOAT => setTarget i (.float i.arg1.toBitVec)
  | .DLOAD =>
    setTarget i (← literal (← index1 i))
    setSTK arg2 (← literal arg3)
  | .PREPCALL => prepCall rt i (← STK1 i)
  | .PREPCALLK => prepCall rt i (← literal (← index1 i))
  | .GETK => setTarget i (← Get rt (← STK arg2) (← literal (← index1 i)) arg2)
  | .MOVE => setTarget i (← STK1 i)
  | .NEWSLOT =>
    let _ ← rt.ask (.newSlot (← STK1 i) (← STK arg2) (← STK arg3))
    when (i.arg0 ≠ 0xFF) do setTarget i (← STK arg3)
  | .DELETE => setTarget i (← rt.ask1 (.deleteSlot (← STK1 i) (← STK arg2)))
  | .SET =>
    Set rt (← STK1 i) (← STK arg2) (← STK arg3) (← index1 i)
    when (i.arg0 ≠ 0xFF) do setTarget i (← STK arg3)
  | .GET => setTarget i (← Get rt (← STK1 i) (← STK arg2) (← index1 i))
  | .EQ => setTarget i (.ofBool (isEqual rt.fl (← STK arg2) (← condLiteral i)))
  | .NE => setTarget i (.ofBool (!isEqual rt.fl (← STK arg2) (← condLiteral i)))
  | .ADD => arithOp rt .add i
  | .SUB => arithOp rt .sub i
  | .MUL => arithOp rt .mul i
  | .DIV => arithOp rt .div i
  | .MOD => modOp rt i
  | .BITW => setTarget i (← BW_OP rt arg3 (← STK arg2) (← STK1 i))
  | .LOADNULLS => (List.range i.arg1.toInt.toNat).forM fun n => setSTK (arg0 + n) .null
  | .LOADROOT => setTarget i (← rt.ask1 (.root (← getCi).closure))
  | .LOADBOOL => setTarget i (.ofBool (i.arg1 ≠ 0))
  | .DMOVE =>
    setTarget i (← STK1 i)
    setSTK arg2 (← STK arg3)
  | .JMP => jump i.arg1.toInt
  | .JCMP =>
    let temp_reg ← CMP_OP rt arg3 (← STK arg2) (← STK arg0)
    when (isFalse rt.fl temp_reg) (jump i.arg1.toInt)
  | .JZ =>
    let v ← STK arg0
    when (isFalse rt.fl v) (jump i.arg1.toInt)
  | .GETOUTER => getOuter i
  | .SETOUTER => setOuter i
  | .NEWOBJ => newObj rt i
  | .APPENDARRAY => appendArray rt i
  | .COMPARITH =>
    let operands := i.arg1.toUInt32.toNat
    match ArithOp.ofChar (Char.ofNat arg3) with
    | some op =>
      DerefInc rt op arg0 (← STK (operands / 65536)) (← STK arg2) (← STK (operands % 65536)) false
        (operands / 65536)
    | none => undefined
  | .INC =>
    DerefInc rt .add arg0 (← STK1 i) (← STK arg2) (.integer (sarg3 i)) false (← index1 i)
  | .PINC =>
    DerefInc rt .add arg0 (← STK1 i) (← STK arg2) (.integer (sarg3 i)) true (← index1 i)
  | .INCL => setSTK (← index1 i) (← arith rt .add (← STK1 i) (.integer (sarg3 i)))
  | .PINCL =>
    let a ← STK1 i
    let trg ← ARITH_OP rt .add a (.integer (sarg3 i))
    setTarget i (← STK1 i)
    setSTK (← index1 i) trg
  | .CMP => setTarget i (← CMP_OP rt arg3 (← STK arg2) (← STK1 i))
  | .EXISTS => setTarget i (← rt.ask1 (.exists (← STK1 i) (← STK arg2)))
  | .INSTANCEOF => instanceOf rt i
  | .AND => shortCircuit rt i true
  | .OR => shortCircuit rt i false
  | .NEG => setTarget i (← NEG_OP rt (← STK1 i))
  | .NOT => setTarget i (.ofBool (isFalse rt.fl (← STK1 i)))
  | .BWNOT =>
    match ← STK1 i with
    | .integer n => setTarget i (.integer (~~~n))
    | o => raiseError ("attempt to perform a bitwise op on a " ++ o.typeName)
  | .CLOSURE => closureOp i
  | .CLONE => setTarget i (← rt.ask1 (.clone (← STK1 i)))
  | .TYPEOF => setTarget i (← rt.ask1 (.typeOf (← STK1 i)))
  | .PUSHTRAP => pushTrap i
  | .POPTRAP => popTraps arg0
  | .THROW => throw (.raise (← STK arg0))
  | .NEWSLOTA =>
    let attrs ← slotAttributes i
    let _ ← rt.ask (.newSlotA (← STK1 i) (← STK arg2) (← STK arg3) attrs
      (arg0 &&& NEW_SLOT_STATIC_FLAG ≠ 0))
  | .GETBASE => setTarget i (← rt.ask1 (.base (← getCi).closure))
  | .CLOSE =>
    let arg1 ← index1 i
    modify fun vm => vm.closeOuters (vm.stackbase + arg1)
  | .IMPORT => let _ ← rt.ask (.import (← STK arg0))
  | .NAMESPACE => let _ ← rt.ask (.namespace (← getCi).closure (← STK arg0))
  | .TYPECHECK => typeCheck rt i
  | .MATCHTYPES =>
    let o1 ← STK arg0
    let o2 ← STK1 i
    when (o1.type ≠ o2.type) do
      raiseError "strict type mismatch: generic parameters bound to the same type must match"
  | .POSTFOREACH => postForeach i
  | _ => pure ()

/-- What an instruction does. -/
def exec (i : Instruction) : VMM rt.Heap Control := do
  match i.op with
  | .CALL => call rt i
  | .TAILCALL => tailCall rt i
  | .RETURN => returnOp i
  | .YIELD => yieldOp rt i
  | .RESUME =>
    resumeOp rt i
    return .next
  | .FOREACH =>
    foreachOp rt i
    return .next
  | _ =>
    execData rt i
    return .next

/-- Fetches the next instruction and moves the instruction pointer past it. -/
def fetch {Heap : Type} : VMM Heap Instruction := do
  match (← currentClosure).function.instructions[(← getCi).ip]? with
  | some i =>
    modifyCi fun ci => { ci with ip := ci.ip + 1 }
    return i
  | none => undefined

/-! ### Errors -/

/-- How a step ends. -/
inductive Outcome (Heap : Type) where
  | next (vm : VM Heap)
  | returned (v : Object) (vm : VM Heap)
  | failed (err : Object) (vm : VM Heap)
  | suspended (v : Object) (vm : VM Heap)
  | undefined

/-- The part of `exception_trap` for a frame that has a trap. -/
def enterTrap {Heap : Type} (vm : VM Heap) (err : Object) (last_top : Nat) (ci : CallInfo)
    (callstack : List CallInfo) : Outcome Heap :=
  match vm.etraps with
  | [] => .undefined
  | et :: etraps =>
    let vm := { vm with
      callstack := { ci with ip := et.ip, etraps := ci.etraps - 1 } :: callstack
      stackbase := et.stackbase
      top := et.stacksize
      etraps := etraps
      traps := vm.traps - 1 }
    .next ((vm.setSlot (et.stackbase + et.extarget) err).nullSlots et.stacksize last_top)

/-- A generator whose frame an error leaves is dead. -/
def killGeneratorOf {Heap : Type} (vm : VM Heap) (ci : CallInfo) : VM Heap :=
  match ci.generator with
  | some p => { vm with
      generators := vm.generators.modify p fun g => { g with state := .eDead, stack := [] } }
  | none => vm

/-- The loop of `exception_trap` over `n` frames. -/
def unwind {Heap : Type} (err : Object) (last_top : Nat) : Nat → VM Heap → Outcome Heap
  | 0, vm => .failed err vm
  | n + 1, vm =>
    match vm.callstack with
    | [] => .failed err vm
    | ci :: callstack =>
      if 0 < ci.etraps then vm.enterTrap err last_top ci callstack
      else if ci.root then .failed err (vm.killGeneratorOf ci).leaveFrame
      else unwind err last_top n (vm.killGeneratorOf ci).leaveFrame

/-- `exception_trap`. The error handler is asked first; what it raises is lost. -/
def exceptionTrap (err : Object) (vm : VM rt.Heap) : Outcome rt.Heap :=
  match ignoreFailure (rt.ask (.exception err (vm.traps ≠ 0))) vm with
  | .ok _ vm | .error _ vm => unwind err vm.top vm.callstack.length vm

/-- One round of the loop of `Execute`. -/
def step (vm : VM rt.Heap) : Outcome rt.Heap :=
  match (do exec rt (← fetch)) vm with
  | .ok .next vm => .next vm
  | .ok (.returned v) vm => .returned v vm
  | .ok (.suspended v) vm => .suspended v vm
  | .error (.raise err) vm => exceptionTrap rt err vm
  | .error .undefined _ => .undefined

end GameScript.VM
