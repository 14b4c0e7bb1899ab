import GameScript.FuncProto

/-!
The state of the virtual machine (`GSvm.h`): the value stack, the call frames,
the exception traps and the outer variables.

Tables, arrays, classes, native functions and the calls of metamethods are behind
`Runtime`. What runs there runs nested, above the top of the stack, and is back
out of its frames when it answers, so all it can change of the frames below are
the variables that closures captured.
-/

namespace GameScript

/-- `GSClosure`, less the table its unqualified names fall back to and its base class. -/
structure Closure where
  function : FunctionProto
  outervalues : List Ref
  defaultparams : List Object
  env : Option Object

/-- `CallInfo`. `ip` is the index of the next instruction. -/
structure CallInfo where
  ip : Nat := 0
  closure : Option Ref := none
  generator : Option Ref := none
  etraps : Nat := 0
  prevstkbase : Nat
  prevtop : Nat
  target : Int := -1
  ncalls : Nat := 1
  root : Bool := false
deriving DecidableEq, Repr

/-- The frame at the start of a closure. -/
def CallInfo.start (ci : CallInfo) (p : Ref) (target : Int) : CallInfo :=
  { ci with closure := some p, ip := 0, target := target }

/-- `GSExceptionTrap`. -/
structure ExceptionTrap where
  stackbase : Nat
  stacksize : Nat
  ip : Nat
  extarget : Nat
deriving DecidableEq, Repr

/-- `GSOuter`: the variable is a slot of the stack until that slot is given up. -/
inductive Outer where
  | open (idx : Nat)
  | closed (value : Object)
deriving DecidableEq, Repr

inductive GeneratorState where
  | eRunning | eSuspended | eDead
deriving DecidableEq, Repr

/-- `GSGenerator`. The traps are those of its frame, relative to the frame. -/
structure Generator where
  closure : Ref
  state : GeneratorState := .eRunning
  stack : List Object := []
  ci : CallInfo := { prevstkbase := 0, prevtop := 0 }
  etraps : List ExceptionTrap := []

/-- What an instruction asks of the objects that are not modelled here. `closure` is the
running closure, through which unqualified names are looked up. -/
inductive Request where
  | get (closure : Option Ref) (self key : Object) (selfidx : Nat)
  | set (closure : Option Ref) (self key val : Object) (selfidx : Nat)
  | exists (self key : Object)
  | newSlot (self key val : Object)
  | newSlotA (self key val attrs : Object) (bstatic : Bool)
  | deleteSlot (self key : Object)
  | stringCat (o1 o2 : Object)
  | arithMetaMethod (op : Char) (o1 o2 : Object)
  | unm (o : Object)
  | cmp (o1 o2 : Object)
  | clone (o : Object)
  | typeOf (o : Object)
  | instanceOf (o theclass : Object)
  | newTable (size : Int)
  | newArray (values : List Object)
  | newClass (base : Object)
  | inherited (theclass attrs : Object)
  | append (array val : Object)
  | typeCheckArray (array : Object) (expected_tok array_size : Int)
  | next (container iterator : Object)
  | root (closure : Option Ref)
  | base (closure : Option Ref)
  | import (path : Object)
  | namespace (closure : Option Ref) (path : Object)
  | createInstance (theclass : Object)
  | callMetaMethod (self : Object) (args : List Object)
  | callNative (closure : Object) (args : List Object)
  | weakRef (o : Object)
  | strongRef (o : Object)
  | exception (err : Object) (caught : Bool)
deriving DecidableEq, Repr

/-- What an answer gives: values; or, from a native function, the value it suspends with
or the closure it goes on to call. -/
inductive Answer where
  | values (vs : List Object)
  | suspended (v : Object)
  | tailcall (closure : Ref) (args : List Object)
deriving DecidableEq, Repr

/-- The answer or the error raised; and what the code that ran has done to captured
variables and created. -/
structure Response (Heap : Type) where
  result : Except Object Answer
  heap : Heap
  written : List (Ref × Object) := []
  closures : List Closure := []
  outers : List Object := []
  generators : List Generator

/-- The part of the system outside this model, with C's arithmetic and string
comparison. An answer may depend on the heap, the closures, the generators and
the values of the outer variables. -/
structure Runtime where
  Heap : Type
  fl : FloatOps
  strcmp : List UInt8 → List UInt8 → Int
  serve : Request → Heap → List Closure → List Generator → List Object → Response Heap

/-- `GSVM`, running one `Execute`: `traps` is its local counter. The first frame of
`callstack` is `ci`. -/
structure VM (Heap : Type) where
  stack : Nat → Object
  stacksize : Nat
  stackbase : Nat
  top : Nat
  callstack : List CallInfo
  etraps : List ExceptionTrap
  traps : Int
  openouters : List Ref
  outers : List Outer
  closures : List Closure
  generators : List Generator
  nmetamethodscall : Nat
  heap : Heap

/-- What ends an instruction early: an error of the script, or a step the language of
the source leaves undefined. -/
inductive Stop where
  | raise (err : Object)
  | undefined
deriving DecidableEq, Repr

abbrev VMM (Heap : Type) := EStateM Stop (VM Heap)

namespace VM

variable {Heap : Type}

def MIN_STACK_OVERHEAD : Nat := 15

/-- `Raise_Error` and leaving with failure. -/
def raiseError {α : Type} (msg : String) : VMM Heap α := throw (.raise (.string (sc msg)))

def undefined {α : Type} : VMM Heap α := throw .undefined

/-- `m` under a condition. -/
def when (c : Prop) [Decidable c] (m : VMM Heap Unit) : VMM Heap Unit := if c then m else pure ()

/-! ### The stack -/

/-- `_stack._vals[n] = v`. -/
def setSlot (vm : VM Heap) (n : Nat) (v : Object) : VM Heap :=
  { vm with stack := fun m => if m = n then v else vm.stack m }

/-- Puts values into the slots from `n` on. -/
def setSlots (vm : VM Heap) (n : Nat) (vs : List Object) : VM Heap :=
  { vm with stack := fun m =>
      if n ≤ m ∧ m < n + vs.length then vs.getD (m - n) .null else vm.stack m }

/-- Nulls the slots from `lo` up to and with `hi`. -/
def nullSlots (vm : VM Heap) (lo hi : Nat) : VM Heap :=
  { vm with stack := fun m => if lo ≤ m ∧ m ≤ hi then .null else vm.stack m }

/-- `STK(a)`. -/
def STK (a : Nat) : VMM Heap Object := return (← get).stack ((← get).stackbase + a)

/-- `STK(a) = v`. -/
def setSTK (a : Nat) (v : Object) : VMM Heap Unit :=
  modify fun vm => vm.setSlot (vm.stackbase + a) v

/-- `ci`. -/
def getCi : VMM Heap CallInfo := do
  match (← get).callstack with
  | ci :: _ => return ci
  | [] => undefined

def modifyCi (f : CallInfo → CallInfo) : VMM Heap Unit :=
  modify fun vm => { vm with callstack := vm.callstack.modifyHead f }

/-- `_closure(o)` for a reference. -/
def getClosure (p : Ref) : VMM Heap Closure := do
  match (← get).closures[p]? with
  | some c => return c
  | none => undefined

/-- `_closure(ci->_closure)`. -/
def currentClosure : VMM Heap Closure := do
  match (← getCi).closure with
  | some p => getClosure p
  | none => undefined

/-- `ci->_literals[n]`. -/
def literal (n : Nat) : VMM Heap Object := do
  match (← currentClosure).function.literals[n]? with
  | some o => return o
  | none => undefined

/-! ### Outer variables -/

/-- `*(otr->_valptr)`. -/
def readOuter (vm : VM Heap) (p : Ref) : Object :=
  match vm.outers[p]? with
  | some (.open idx) => vm.stack idx
  | some (.closed v) => v
  | none => .null

/-- `*(otr->_valptr) = v`. -/
def writeOuter (vm : VM Heap) (p : Ref) (v : Object) : VM Heap :=
  match vm.outers[p]? with
  | some (.open idx) => vm.setSlot idx v
  | some (.closed _) => { vm with outers := vm.outers.set p (.closed v) }
  | none => vm

/-- The position of an open cell; a closed one is on no slot. -/
def outerIdx (vm : VM Heap) (p : Ref) : Option Nat :=
  match vm.outers[p]? with
  | some (.open idx) => some idx
  | _ => none

/-- `CloseOuters` from the list `ps` of open cells on. -/
def closeFrom (vm : VM Heap) (stackindex : Nat) : List Ref → VM Heap
  | [] => { vm with openouters := [] }
  | p :: ps =>
    match vm.outerIdx p with
    | some idx =>
      if stackindex ≤ idx then
        { vm with outers := vm.outers.set p (.closed (vm.stack idx)) }.closeFrom stackindex ps
      else { vm with openouters := p :: ps }
    | none => { vm with openouters := p :: ps }

/-- `CloseOuters`. -/
def closeOuters (vm : VM Heap) (stackindex : Nat) : VM Heap :=
  vm.closeFrom stackindex vm.openouters

/-- The place for a new cell in the list of open cells, or the cell that is there. -/
def searchOuter (vm : VM Heap) (stackindex : Nat) (p : Ref) : List Ref → Ref × List Ref
  | [] => (p, [p])
  | q :: qs =>
    match vm.outerIdx q with
    | some idx =>
      if stackindex = idx then (q, q :: qs)
      else if stackindex < idx then
        let (r, rs) := vm.searchOuter stackindex p qs
        (r, q :: rs)
      else (p, p :: q :: qs)
    | none => (p, p :: q :: qs)

/-- `FindOuter`: the open cell on a slot, created where there is none. -/
def findOuter (stackindex : Nat) : VMM Heap Ref := do
  let vm ← get
  let (p, openouters) := vm.searchOuter stackindex vm.outers.length vm.openouters
  set { vm with
    openouters := openouters
    outers := if p = vm.outers.length then vm.outers ++ [Outer.open stackindex] else vm.outers }
  return p

/-! ### What runs outside -/

/-- The values that nested code assigned to outer variables. -/
def writeOuters (vm : VM Heap) (written : List (Ref × Object)) : VM Heap :=
  written.foldl (fun vm w => vm.writeOuter w.1 w.2) vm

/-- The state after an answer. -/
def absorb (vm : VM Heap) (r : Response Heap) : VM Heap :=
  let vm := vm.writeOuters r.written
  { vm with
    heap := r.heap
    closures := vm.closures ++ r.closures
    outers := vm.outers ++ r.outers.map .closed
    generators := r.generators }

/-- The values of all outer variables. -/
def outerValues (vm : VM Heap) : List Object := (List.range vm.outers.length).map vm.readOuter

end VM

/-- Asks the runtime. -/
def Runtime.askNative (rt : Runtime) (q : Request) : VMM rt.Heap Answer := fun vm =>
  let r := rt.serve q vm.heap vm.closures vm.generators vm.outerValues
  match r.result with
  | .ok answer => .ok answer (vm.absorb r)
  | .error e => .error (.raise e) (vm.absorb r)

/-- Asks for values. -/
def Runtime.ask (rt : Runtime) (q : Request) : VMM rt.Heap (List Object) := do
  match ← rt.askNative q with
  | .values vs => return vs
  | _ => VM.undefined

/-- Asks for one value. -/
def Runtime.ask1 (rt : Runtime) (q : Request) : VMM rt.Heap Object := do
  match ← rt.ask q with
  | [v] => return v
  | _ => VM.undefined

namespace VM

variable {Heap : Type}

/-! ### Frames -/

/-- The new frame of `EnterFrame`. -/
def pushFrame (newbase : Nat) : VMM Heap Unit :=
  modify fun vm => { vm with
    callstack := {
      prevstkbase := newbase - vm.stackbase
      prevtop := vm.top - vm.stackbase } :: vm.callstack }

/-- The registers of a frame, with room above them. -/
def setWindow (newbase newtop : Nat) : VMM Heap Unit := do
  modify fun vm => { vm with stackbase := newbase, top := newtop }
  let vm ← get
  when (vm.stacksize < newtop + MIN_STACK_OVERHEAD) do
    when (vm.nmetamethodscall ≠ 0) do
      raiseError "stack overflow, cannot resize stack while in a metamethod"
    modify fun vm => { vm with stacksize := newtop + MIN_STACK_OVERHEAD * 4 }

/-- `EnterFrame`. -/
def enterFrame (newbase newtop : Nat) (tailcall : Bool) : VMM Heap Unit := do
  if tailcall then modifyCi fun ci => { ci with ncalls := ci.ncalls + 1 } else pushFrame newbase
  setWindow newbase newtop

/-- `LeaveFrame`. -/
def leaveFrame (vm : VM Heap) : VM Heap :=
  match vm.callstack with
  | [] => vm
  | ci :: callstack =>
    let stackbase := vm.stackbase - ci.prevstkbase
    let top := stackbase + ci.prevtop
    let vm' := { vm with stackbase := stackbase, top := top, callstack := callstack }
    (vm'.closeOuters vm.stackbase).nullSlots top vm.top

/-- The slot of a caller that a result goes to. -/
def resultSlot (callerbase : Nat) (target : Int) : VMM Heap Nat := do
  let slot := (callerbase : Int) + target
  if 0 ≤ slot then return slot.toNat else undefined

/-- The value that `Return` hands to the caller. -/
def returnValue (vm : VM Heap) (arg0 arg1 : Nat) : Object :=
  if arg0 ≠ 0xFF then vm.stack (vm.stackbase + arg1) else .null

/-- `Return`. The result is the value for whoever called `Execute`, if the frame is the
first one of it. -/
def Return (arg0 arg1 : Nat) : VMM Heap (Option Object) := do
  let vm ← get
  let ci ← getCi
  let value := vm.returnValue arg0 arg1
  when (!ci.root ∧ ci.target ≠ -1) do
    let slot ← resultSlot (vm.stackbase - ci.prevstkbase) ci.target
    modify fun vm => vm.setSlot slot value
  modify leaveFrame
  return if ci.root then some value else none

def modifyGenerator (p : Ref) (f : Generator → Generator) : VMM Heap Unit :=
  modify fun vm => { vm with generators := vm.generators.modify p f }

/-- `GSGenerator::Kill`. -/
def kill (p : Ref) : VMM Heap Unit :=
  modifyGenerator p fun g => { g with state := .eDead, stack := [] }

end VM

end GameScript
