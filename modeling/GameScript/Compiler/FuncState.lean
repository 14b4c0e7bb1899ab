import GameScript.FuncProto

/-!
The state of a function under compilation (`GSfuncstate.cpp`): its registers,
the stack of targets that expressions leave their results in, the literals and
the instructions emitted so far.

`addInstruction` is the optimiser. It compares each new instruction with the one
before it and may change either, drop the new one or remove the old one.
-/

namespace GameScript

/-- `UINT_MINUS_ONE`, the end of a local variable that some function captured. -/
def UINT_MINUS_ONE : UInt64 := 0xFFFFFFFFFFFFFFFF

/-- A register in use, `GSLocalVarInfo` with the declared type. A register that
holds a temporary has no name. -/
structure VLocal extends LocalVarInfo where
  type : GSInteger := -1
  array_size : GSInteger := -1
deriving DecidableEq, Repr

/-- `GSLocalVarInfo()`: what `AllocStackPos` puts on top of the registers. -/
def VLocal.temporary : VLocal := { name := .null, startOp := 0, endOp := 0, pos := 0 }

/-- `GSFuncState`. The stacks of the source are lists with the top in front.
`parent` says whether `_parent` is set. -/
structure FuncState where
  parent : Bool
  name : Object
  sourcename : Object
  returnexp : Int := 0
  vlocals : Array VLocal := #[]
  targetstack : List Nat := []
  stacksize : Nat := 0
  varparams : Bool := false
  bgenerator : Bool := false
  unresolvedbreaks : List Int := []
  unresolvedcontinues : List Int := []
  functions : Array FunctionProto := #[]
  parameters : Array Object := #[]
  outervalues : Array OuterVar := #[]
  instructions : Array Instruction := #[]
  localvarinfos : Array LocalVarInfo := #[]
  literals : Array Object := #[]
  lineinfos : Array LineInfo := #[]
  breaktargets : List Nat := []
  continuetargets : List Nat := []
  defaultparams : Array Nat := #[]
  lastline : GSInteger := 0
  traps : Nat := 0
  outers : Int := 0
  optimization : Bool := true
deriving Repr

namespace FuncState

/-- The constructor of `GSFuncState`. -/
def init (parent : Bool) (name sourcename : Object) : FuncState :=
  { parent := parent, name := name, sourcename := sourcename }

def getCurrentPos (fs : FuncState) : Int := (fs.instructions.size : Int) - 1

def getStackSize (fs : FuncState) : Nat := fs.vlocals.size

def snoozeOpt (fs : FuncState) : FuncState := { fs with optimization := false }

def isLocal (fs : FuncState) (stkpos : Nat) : Bool :=
  match fs.vlocals[stkpos]? with
  | some lvi => lvi.name ≠ .null
  | none => false

/-! ### The optimiser -/

/-- What becomes of the previous instruction and of the new one, and of
`_optimization`. Neither is left where it is `none`. -/
structure Rewrite where
  prev : Option Instruction
  next : Option Instruction
  optimization : Bool := true

/-- The instructions whose result a following `MOVE` may take over. -/
def Opcode.takesOver : Opcode → Bool
  | .GET | .ADD | .SUB | .MUL | .DIV | .MOD | .BITW | .LOADINT | .LOADFLOAT | .LOADBOOL
  | .LOAD => true
  | _ => false

/-- The `AppendArrayType` of a constant that the previous instruction loads. -/
def appendArrayType : Opcode → Option Int
  | .LOAD => some AAT_LITERAL
  | .LOADINT => some AAT_INT
  | .LOADBOOL => some AAT_BOOL
  | .LOADFLOAT => some AAT_FLOAT
  | _ => none

/-- The switch of `AddInstruction`: `pi` is the previous instruction, `i` the new one. -/
def peephole (fs : FuncState) (pi i : Instruction) : Rewrite :=
  let keep : Rewrite := { prev := some pi, next := some i }
  let merge (pi' : Instruction) : Rewrite := { prev := some pi', next := none }
  match i.op with
  | .JZ =>
    if pi.op = .CMP ∧ pi.arg1.toInt < 0xFF then
      merge { pi with op := .JCMP, arg0 := byte pi.arg1.toInt, arg1 := i.arg1 }
    else keep
  | .SET | .NEWSLOT =>
    if i.arg0 = i.arg3 then { keep with next := some { i with arg0 := 0xFF } } else keep
  | .SETOUTER =>
    if i.arg0 = i.arg2 then { keep with next := some { i with arg0 := 0xFF } } else keep
  | .RETURN =>
    if fs.parent ∧ i.arg0 ≠ byte MAX_FUNC_STACKSIZE ∧ pi.op = .CALL
        ∧ fs.returnexp < fs.instructions.size - 1 then
      { keep with prev := some { pi with op := .TAILCALL } }
    else if pi.op = .CLOSE then merge i
    else keep
  | .GET =>
    if pi.op = .LOAD ∧ pi.arg0 = i.arg2 ∧ !fs.isLocal pi.arg0.toNat then
      merge { pi with arg2 := byte i.arg1.toInt, op := .GETK, arg0 := i.arg0 }
    else keep
  | .PREPCALL =>
    if pi.op = .LOAD ∧ (pi.arg0.toNat : Int) = i.arg1.toInt ∧ !fs.isLocal pi.arg0.toNat then
      merge { pi with op := .PREPCALLK, arg0 := i.arg0, arg2 := i.arg2, arg3 := i.arg3 }
    else keep
  | .APPENDARRAY =>
    match appendArrayType pi.op with
    | some aat =>
      if (pi.arg0.toNat : Int) = i.arg1.toInt ∧ !fs.isLocal pi.arg0.toNat then
        merge { pi with op := .APPENDARRAY, arg0 := i.arg0, arg2 := byte aat,
                        arg3 := byte MAX_FUNC_STACKSIZE }
      else keep
    | none => keep
  | .MOVE =>
    if Opcode.takesOver pi.op ∧ (pi.arg0.toNat : Int) = i.arg1.toInt then
      { merge { pi with arg0 := i.arg0 } with optimization := false }
    else if pi.op = .MOVE then
      merge { pi with op := .DMOVE, arg2 := i.arg0, arg3 := byte i.arg1.toInt }
    else keep
  | .LOAD =>
    if pi.op = .LOAD ∧ i.arg1.toInt < 256 then
      merge { pi with op := .DLOAD, arg2 := i.arg0, arg3 := byte i.arg1.toInt }
    else keep
  | .EQ | .NE =>
    if pi.op = .LOAD ∧ (pi.arg0.toNat : Int) = i.arg1.toInt ∧ !fs.isLocal pi.arg0.toNat then
      merge { pi with op := i.op, arg0 := i.arg0, arg2 := i.arg2, arg3 := byte MAX_FUNC_STACKSIZE }
    else keep
  | .LOADNULLS =>
    if pi.op = .LOADNULLS ∧ (pi.arg0.toNat : Int) + pi.arg1.toInt = i.arg0.toNat then
      merge { pi with arg1 := pi.arg1 + 1 }
    else keep
  | .LINE => if pi.op = .LINE then { keep with prev := none } else keep
  | _ => keep

/-- `AddInstruction`. When a line marker replaces the one before it, the line
information of the old one goes too. -/
def addInstruction (fs : FuncState) (i : Instruction) : FuncState :=
  match fs.instructions.back? with
  | some pi =>
    if fs.optimization then
      let rw := fs.peephole pi i
      { fs with
        instructions := fs.instructions.pop ++ rw.prev.toArray ++ rw.next.toArray
        lineinfos := if rw.prev.isNone then fs.lineinfos.pop else fs.lineinfos
        optimization := rw.optimization }
    else { fs with optimization := true, instructions := fs.instructions.push i }
  | none => { fs with optimization := true, instructions := fs.instructions.push i }

/-- `SetInstructionParam`. -/
def setInstructionParam (fs : FuncState) (pos : Nat) (arg : Nat) (val : Int) : FuncState :=
  { fs with instructions := fs.instructions.modify pos fun i =>
      match arg with
      | 0 => { i with arg0 := byte val }
      | 1 | 4 => { i with arg1 := int32 val }
      | 2 => { i with arg2 := byte val }
      | 3 => { i with arg3 := byte val }
      | _ => i }

/-- `SetInstructionParams`. -/
def setInstructionParams (fs : FuncState) (pos : Nat) (arg0 arg1 arg2 arg3 : Int) : FuncState :=
  { fs with instructions := fs.instructions.modify pos fun i =>
      { i with arg0 := byte arg0, arg1 := int32 arg1, arg2 := byte arg2, arg3 := byte arg3 } }

/-! ### Registers and targets -/

/-- `AllocStackPos` less its check for too many registers: the new register and
the state with it. -/
def allocStackPos (fs : FuncState) : Nat × FuncState :=
  let npos := fs.vlocals.size
  (npos, { fs with
    vlocals := fs.vlocals.push .temporary
    stacksize := max fs.stacksize (npos + 1) })

/-- `PopTarget`, with no result where the source reads past the end of a stack. A
temporary gives its register back; which one leaves the stack is not looked at. -/
def popTarget (fs : FuncState) : Option (Nat × FuncState) :=
  match fs.targetstack with
  | [] => none
  | npos :: rest =>
    match fs.vlocals[npos]? with
    | none => none
    | some t =>
      some (npos, { fs with
        vlocals := if t.name = .null then fs.vlocals.pop else fs.vlocals
        targetstack := rest })

/-- What `DiscardTarget` does to the last instruction once the target is popped. -/
def discardResult (fs : FuncState) (discardedtarget : Nat) : FuncState :=
  match fs.instructions.back? with
  | some pi =>
    match pi.op with
    | .SET | .NEWSLOT | .SETOUTER | .CALL =>
      if fs.optimization ∧ pi.arg0.toNat = discardedtarget then
        { fs with instructions := fs.instructions.pop.push { pi with arg0 := 0xFF } }
      else fs
    | _ => fs
  | none => fs

/-- `CountOuters`. -/
def countOuters (fs : FuncState) (stacksize : Nat) : Nat :=
  ((fs.vlocals.toList.drop stacksize).filter fun lvi => lvi.endOp = UINT_MINUS_ONE).length

/-- One round of the loop of `SetStackSize`. -/
def popLocal (fs : FuncState) : FuncState :=
  match fs.vlocals.back? with
  | none => fs
  | some lvi =>
    if lvi.name = .null then { fs with vlocals := fs.vlocals.pop }
    else
      { fs with
        outers := if lvi.endOp = UINT_MINUS_ONE then fs.outers - 1 else fs.outers
        localvarinfos := fs.localvarinfos.push {
          lvi.toLocalVarInfo with endOp := UInt64.ofInt fs.getCurrentPos }
        vlocals := fs.vlocals.pop }

/-- `SetStackSize`. -/
def setStackSize (fs : FuncState) (n : Nat) : FuncState :=
  Nat.repeat popLocal (fs.vlocals.size - n) fs

/-- `PushLocalVariable`. The copy constructor drops the type and the size that it
is given; the caller writes them into the copy. -/
def pushLocalVariable (fs : FuncState) (name : Object) : Nat × FuncState :=
  let pos := fs.vlocals.size
  (pos, { fs with
    vlocals := fs.vlocals.push {
      name := name
      startOp := UInt64.ofInt (fs.getCurrentPos + 1)
      endOp := 0
      pos := UInt64.ofNat pos }
    stacksize := max fs.stacksize (pos + 1) })

def addParameter (fs : FuncState) (name : Object) : FuncState :=
  let fs := (fs.pushLocalVariable name).2
  { fs with parameters := fs.parameters.push name }

/-- `GetLocalVariable`: the last register of that name. -/
def getLocalVariable (fs : FuncState) (name : Object) : Option Nat :=
  (List.range fs.vlocals.size).reverse.find? fun n => (fs.vlocals[n]?.map (·.name)) = some name

def markLocalAsOuter (fs : FuncState) (pos : Nat) : FuncState :=
  { fs with
    vlocals := fs.vlocals.modify pos fun lvi => { lvi with endOp := UINT_MINUS_ONE }
    outers := fs.outers + 1 }

def addOuterValue (fs : FuncState) (name : Object) (pos : Nat) (type : OuterType) : FuncState :=
  let outer : OuterVar := { type := type, name := name, src := .integer (Int64.ofNat pos) }
  { fs with outervalues := fs.outervalues.push outer }

/-- `GetOuterVariable` in the first function of the list, each function being
followed by its parent: the index of the variable, and the functions as it
leaves them. -/
def getOuterVariable (name : Object) : List FuncState → Option Nat × List FuncState
  | [] => (none, [])
  | fs :: parents =>
    match fs.outervalues.findIdx? fun o => o.name = name with
    | some i => (some i, fs :: parents)
    | none =>
      match parents with
      | [] => (none, [fs])
      | parent :: rest =>
        match parent.getLocalVariable name with
        | some pos =>
          (some fs.outervalues.size,
            fs.addOuterValue name pos .otLOCAL :: parent.markLocalAsOuter pos :: rest)
        | none =>
          match getOuterVariable name (parent :: rest) with
          | (some pos, parents) =>
            (some fs.outervalues.size, fs.addOuterValue name pos .otOUTER :: parents)
          | (none, parents) => (none, fs :: parents)

/-- The walk keeps what its two updates keep. -/
theorem getOuterVariable_map {α : Type} (f : FuncState → α)
    (houter : ∀ fs name pos type, f (addOuterValue fs name pos type) = f fs)
    (hlocal : ∀ fs pos, f (markLocalAsOuter fs pos) = f fs) (name : Object)
    (fns : List FuncState) : (getOuterVariable name fns).2.map f = fns.map f := by
  induction fns with
  | nil => rfl
  | cons fs parents ih =>
    unfold getOuterVariable
    split
    · rfl
    · cases parents with
      | nil => rfl
      | cons parent rest =>
        dsimp only
        split
        · rw [List.map_cons, List.map_cons, houter, hlocal]
          rfl
        · split
          · rename_i heq
            rw [heq] at ih
            rw [List.map_cons, List.map_cons, ih, houter]
          · rename_i heq
            rw [heq] at ih
            rw [List.map_cons, List.map_cons, ih]

/-- `GetConstant` less its check for too many literals; the table of them never finds null. -/
def getConstant (fs : FuncState) (cons : Object) : Nat × FuncState :=
  match if cons = .null then none else fs.literals.findIdx? (· = cons) with
  | some n => (n, fs)
  | none => (fs.literals.size, { fs with literals := fs.literals.push cons })

/-- `AddLineInfos`. -/
def addLineInfos (fs : FuncState) (line : GSInteger) (lineop force : Bool) : FuncState :=
  if fs.lastline ≠ line ∨ force then
    let li : LineInfo := { line := line, op := Int64.ofInt (fs.getCurrentPos + 1) }
    let fs := if lineop then fs.addInstruction (.make .LINE 0 line.toInt 0 0) else fs
    { fs with
      lineinfos := if fs.lastline ≠ line then fs.lineinfos.push li else fs.lineinfos
      lastline := line }
  else fs

/-- `BuildProto`. -/
def buildProto (fs : FuncState) : FunctionProto :=
  { sourcename := fs.sourcename
    name := fs.name
    stacksize := Int64.ofNat fs.stacksize
    bgenerator := fs.bgenerator
    varparams := if fs.varparams then 1 else 0
    rettype := none
    localvarinfos := fs.localvarinfos.toList
    lineinfos := fs.lineinfos.toList
    literals := fs.literals.toList
    parameters := fs.parameters.toList
    functions := fs.functions.toList
    outervalues := fs.outervalues.toList
    defaultparams := fs.defaultparams.toList.map Int64.ofNat
    instructions := fs.instructions.toList }

end FuncState

end GameScript
