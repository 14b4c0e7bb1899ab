import Mathlib.Logic.Function.Basic
import GameScript.Object

/-!
Threads (`GSVM` objects of one shared state) that call, wake up and suspend one another:
`thread_call`, `thread_wakeup`, `thread_wakeupthrow`, `thread_getstatus` and `base_suspend` of
`GSbaselib.cpp`, with what they rest on in `GSapi.cpp` and `GSvm.cpp`.

One thread runs at a time: the others wait for a call or a wakeup of theirs to come back, are
suspended or are idle. What the code of the running thread does between two of these functions
is left open: it may put anything in its registers and frames.
-/

namespace GameScript.Threads

/-! ### One thread -/

/-- `CallInfo`, less its literals and its generator. -/
structure CallInfo where
  closure : Object
  ip : Nat := 0
  etraps : Nat := 0
  prevstkbase : Nat
  prevtop : Nat
  target : Int := -1
  root : Bool := false
deriving DecidableEq, Repr

/-- Whether a frame is one of a native function. -/
def CallInfo.native (ci : CallInfo) : Bool := ci.closure.type = .nativeclosure

/-- `GSExceptionTrap`. -/
structure ExceptionTrap where
  stackbase : Nat
  stacksize : Nat
  ip : Nat
  extarget : Nat
deriving DecidableEq, Repr

/-- Where a `GSVM` is: its frames, the first one being `ci`, and what `Execute` leaves behind when
it is suspended. `openouters` are the slots of the variables that closures have captured. -/
structure Control where
  stackbase : Nat := 0
  callsstack : List CallInfo := []
  etraps : List ExceptionTrap := []
  openouters : List Nat := []
  suspended : Bool := false
  suspended_target : Int := -1
  suspended_root : Bool := false
  suspended_traps : Int := 0
  nnativecalls : Nat := 0
deriving DecidableEq, Repr

/-- `GSVM`. The stack never needs to grow here. -/
structure VM extends Control where
  stack : Nat → Object
  top : Nat
  lasterror : Object := .null
  roottable : Object

/-- `GS_VMSTATE_IDLE`, `GS_VMSTATE_RUNNING` and `GS_VMSTATE_SUSPENDED`. -/
inductive VMState where
  | idle | running | suspended
deriving DecidableEq, Repr

/-- `GS_getvmstate`. -/
def Control.GS_getvmstate (c : Control) : VMState :=
  if c.suspended then .suspended
  else if c.callsstack ≠ [] then .running
  else .idle

def MAX_NATIVE_CALLS : Nat := 100

namespace VM

def setSlot (vm : VM) (i : Nat) (v : Object) : VM :=
  { vm with stack := Function.update vm.stack i v }

def Push (vm : VM) (v : Object) : VM := { vm.setSlot vm.top v with top := vm.top + 1 }

/-- `Pop(n)`. -/
def Pop (vm : VM) : Nat → VM
  | 0 => vm
  | n + 1 => Pop { vm.setSlot (vm.top - 1) .null with top := vm.top - 1 } n

/-- `GetUp(-n)`. -/
def GetUp (vm : VM) (n : Nat) : Object := vm.stack (vm.top - n)

/-- `GetAt(n) = v`, where `n` is a slot of the stack. -/
def setAt (vm : VM) (n : Int) (v : Object) : Option VM :=
  if 0 ≤ n then some (vm.setSlot n.toNat v) else none

/-- `stack_get(v, idx)` for an `idx` from 1 on. -/
def stack_get (vm : VM) (idx : Nat) : Object := vm.stack (idx + vm.stackbase - 1)

def GS_gettop (vm : VM) : Nat := vm.top - vm.stackbase

def GS_settop (vm : VM) (newtop : Nat) : VM :=
  let top := vm.GS_gettop
  if top > newtop then vm.Pop (top - newtop)
  else (List.replicate (newtop - top) Object.null).foldl Push vm

def GS_throwerror (vm : VM) (err : String) : VM := { vm with lasterror := .string (sc err) }

/-- `GS_throwobject`. -/
def GS_throwobject (vm : VM) : VM := { vm with lasterror := vm.GetUp 1 }.Pop 1

/-- `EnterFrame`, and what its callers put in the new frame. -/
def EnterFrame (vm : VM) (newbase newtop : Nat) (closure : Object) (target : Int) (root : Bool) :
    VM :=
  { vm with
    callsstack :=
      { closure := closure, target := target, root := root
        prevstkbase := newbase - vm.stackbase
        prevtop := vm.top - vm.stackbase } :: vm.callsstack
    stackbase := newbase
    top := newtop }

/-- `LeaveFrame`. -/
def LeaveFrame (vm : VM) : VM :=
  match vm.callsstack with
  | [] => vm
  | ci :: callsstack =>
      let stackbase := vm.stackbase - ci.prevstkbase
      let top := stackbase + ci.prevtop
      { vm with
        callsstack := callsstack
        stackbase := stackbase
        top := top
        openouters := vm.openouters.filter (· < vm.stackbase)
        stack := fun i => if top ≤ i ∧ i ≤ vm.top then .null else vm.stack i }

end VM

/-- What `GSVM::Call` comes to for an object: an error at once (the object cannot be called, or
not with these arguments), a value at once (a class without constructor, a generator, a native
function), or the first frame of a closure with its registers as they are at the start. -/
inductive Callee where
  | error (err : Object)
  | value (v : Object)
  | frame (closure : Ref) (registers : List Object)

/-- The functions that a script calls to work with threads. -/
inductive ThreadFunction where
  | call | wakeup | wakeupthrow | suspend | getstatus
deriving DecidableEq, Repr

/-- The part of the system that knows the functions: what other objects do when they are called,
and where the closures of the functions on threads are. -/
structure Runtime where
  callee : Object → List Object → Callee
  nclosure : ThreadFunction → Ref

/-- How a call has gone on: it has failed, it has come back, or `Execute` has begun to run. -/
inductive Outcome where
  | failed
  | returned (v : Object)
  | started
deriving DecidableEq, Repr

namespace VM

/-- The arguments from `stackbase` on. -/
def args (vm : VM) (stackbase nparams : Nat) : List Object :=
  (List.range nparams).map fun i => vm.stack (stackbase + i)

/-- Puts the registers of a frame in place. -/
def setSlots (vm : VM) (n : Nat) (vs : List Object) : VM :=
  { vm with stack := fun i => if n ≤ i ∧ i < n + vs.length then vs.getD (i - n) .null
      else vm.stack i }

/-- `GSVM::Call`, and `Execute` with `ET_CALL` up to its first instruction. -/
def Call (rt : Runtime) (vm : VM) (closure : Object) (nparams stackbase : Nat) : VM × Outcome :=
  match rt.callee closure (vm.args stackbase nparams) with
  | .error err => ({ vm with lasterror := err }, .failed)
  | .value v => (vm, .returned v)
  | .frame p registers =>
      if vm.nnativecalls + 1 > MAX_NATIVE_CALLS then
        (vm.GS_throwerror "Native stack overflow", .failed)
      else
        let vm := (vm.setSlots stackbase registers).EnterFrame stackbase
          (stackbase + registers.length) (.closure p) (-1) true
        ({ vm with nnativecalls := vm.nnativecalls + 1 }, .started)

/-- The value that `suspend` comes back with goes to the register that waits for it. -/
def takeValue (vm : VM) (wakeupret : Bool) : Option VM :=
  let target := vm.suspended_target
  let retval := if wakeupret then vm.GetUp 1 else .null
  let vm := if target ≠ -1 then vm.setAt (vm.stackbase + target) retval else some vm
  vm.map fun vm => if wakeupret then vm.Pop 1 else vm

/-- `Execute` with `ET_RESUME_VM` or `ET_RESUME_THROW_VM` up to where it goes on. -/
def resume (vm : VM) : VM × Outcome :=
  if vm.nnativecalls + 1 > MAX_NATIVE_CALLS then
    (vm.GS_throwerror "Native stack overflow", .failed)
  else
    ({ vm with
      nnativecalls := vm.nnativecalls + 1
      callsstack := vm.callsstack.modifyHead fun ci => { ci with root := vm.suspended_root }
      suspended := false }, .started)

/-- `GS_wakeupvm` up to where `Execute` goes on. -/
def GS_wakeupvm (vm : VM) (wakeupret : Bool) : Option (VM × Outcome) :=
  if !vm.suspended then
    some (vm.GS_throwerror "cannot resume a vm that is not running any code", .failed)
  else (vm.takeValue wakeupret).map resume

/-- The loop of `exception_trap`: the frames that do not catch the error are left, up to the
first one of this `Execute`. Tells whether a frame has caught it. -/
def unwind (currerror : Object) : List CallInfo → VM → Option (VM × Bool)
  | [], vm => some (vm, false)
  | ci :: callsstack, vm =>
      if 0 < ci.etraps then
        match vm.etraps with
        | [] => none
        | et :: etraps =>
            let stack := Function.update vm.stack (et.stackbase + et.extarget) currerror
            some ({ vm with
              callsstack := { ci with ip := et.ip, etraps := ci.etraps - 1 } :: callsstack
              etraps := etraps
              top := et.stacksize
              stackbase := et.stackbase
              stack := fun i => if et.stacksize ≤ i ∧ i ≤ vm.top then .null else stack i }, true)
      else if ci.root then some (vm.LeaveFrame, false)
      else unwind currerror callsstack vm.LeaveFrame

end VM

/-! ### The functions on threads -/

/-- `_nparamscheck` of the functions. -/
def ThreadFunction.nparamscheck : ThreadFunction → Int
  | .call | .wakeup | .suspend => -1
  | .wakeupthrow => -2
  | .getstatus => 1

/-- `_typecheck` of the functions: `none` stands for `.`. -/
def ThreadFunction.typecheck : ThreadFunction → List (Option ObjectType)
  | .call | .wakeup | .getstatus => [some .thread]
  | .wakeupthrow => [some .thread, none, some .bool]
  | .suspend => []

/-- `sarg0`: the first argument of an instruction as a signed byte. -/
def sarg0 (arg0 : Nat) : Int := if arg0 < 128 then arg0 else (arg0 : Int) - 256

/-- `Raise_ParamTypeError` for a parameter that is to be of one kind. -/
def paramTypeError (nparam : Nat) (expected type : ObjectType) : String :=
  "parameter " ++ toString nparam ++ " has an invalid type '" ++ idType2Name type.code ++
    "' ; expected: '" ++ idType2Name expected.code ++ "'"

/-- The loop of `CallNative` over the kinds of the parameters from number `i` on. -/
def checkTypes (i : Nat) : List (Option ObjectType) → List Object → Option String
  | some t :: tc, o :: args =>
      if o.type ≠ t then some (paramTypeError i t o.type) else checkTypes (i + 1) tc args
  | none :: tc, _ :: args => checkTypes (i + 1) tc args
  | _, _ => none

/-- The checks of `CallNative`. -/
def VM.checkNative (vm : VM) (f : ThreadFunction) (nargs newbase : Nat) : Option String :=
  let check := f.nparamscheck
  if vm.nnativecalls + 1 > MAX_NATIVE_CALLS then some "Native stack overflow"
  else if (0 < check ∧ check ≠ nargs) ∨ (check < 0 ∧ (nargs : Int) < -check) then
    some "wrong number of parameters"
  else checkTypes 0 f.typecheck (vm.args newbase nargs)

/-- `CallNative` from its checks to the call of the function. -/
def VM.enterNative (vm : VM) (p : Ref) (nargs newbase : Nat) (target : Int) : VM :=
  let vm := vm.EnterFrame newbase (newbase + nargs) (.nativeclosure p) target false
  { vm with nnativecalls := vm.nnativecalls + 1 }

/-- The end of `CallNative`. -/
def VM.leaveNative (vm : VM) : VM :=
  { vm.LeaveFrame with nnativecalls := vm.LeaveFrame.nnativecalls - 1 }

/-- `AutoDec`, when `Execute` comes back. -/
def VM.autoDec (vm : VM) : VM := { vm with nnativecalls := vm.nnativecalls - 1 }

/-- What `GSVM::Execute` goes back to: the host, or the function on threads that has called or
woken up the thread. -/
inductive Caller where
  | host (nparams : Nat)
  | call (nparams : Nat)
  | wakeup
  | wakeupthrow (rethrow_error : Bool)
deriving DecidableEq, Repr

/-- A thread that has been called or woken up and has not come back. `traps` is the counter of its
innermost `Execute`, `outer` has those of the ones it is nested in. While the thread waits in a
function on threads, `dest` is the first argument of the `_OP_CALL` it is in; there is none when
native code has called the function. -/
structure Activation where
  thread : Ref
  traps : Int := 0
  outer : List Int := []
  dest : Option Nat := none
  caller : Caller
deriving DecidableEq, Repr

/-- What a suspension has left, and the register that waits for the value of `suspend`. -/
structure Suspension where
  vm : VM
  register : Nat

/-- All threads. `active` are those that run or wait, each one for the one before it. The innermost
`Execute` is at `exception_trap` when `throwing` is set. The code does not have `saved`: it keeps
the last suspension of every thread. -/
structure Machine where
  vm : Ref → VM
  active : List Activation := []
  throwing : Bool := false
  saved : Ref → Suspension

namespace Machine

def set (m : Machine) (t : Ref) (vm : VM) : Machine := { m with vm := Function.update m.vm t vm }

/-- `CallNative` comes back with what lies on top of the stack of `v`, or with null. -/
def returned (m : Machine) (v : Ref) (dest : Option Nat) (ret : Bool) : Machine × Outcome :=
  let retval := if ret then (m.vm v).GetUp 1 else .null
  let vm := (m.vm v).leaveNative
  let vm := match dest with
    | some arg0 => if sarg0 arg0 ≠ -1 then vm.setSlot (vm.stackbase + arg0) retval else vm
    | none => vm
  (m.set v vm, .returned retval)

/-- `CallNative` fails: the instruction throws, native code is told. -/
def failed (m : Machine) (v : Ref) (dest : Option Nat) : Machine × Outcome :=
  ({ m.set v (m.vm v).leaveNative with throwing := dest.isSome }, .failed)

/-- `GS_move(v, o, -1)` and `GS_pop(o, 1)`. -/
def moveResult (m : Machine) (v o : Ref) : Machine :=
  let m := m.set v ((m.vm v).Push ((m.vm o).GetUp 1))
  m.set o ((m.vm o).Pop 1)

/-- `v->_lasterror = thread->_lasterror`. -/
def moveError (m : Machine) (v o : Ref) : Machine :=
  m.set v { m.vm v with lasterror := (m.vm o).lasterror }

/-- `GS_call` on `o` and `thread_call` in `v` after `Call` has come back. -/
def callReturned (m : Machine) (v o : Ref) (nparams : Nat) (dest : Option Nat) (res : Object) :
    Machine × Outcome :=
  let vm := if (m.vm o).suspended then m.vm o else (m.vm o).Pop nparams
  ((m.set o (vm.Push res)).moveResult v o).returned v dest true

/-- `GS_call` on `o` and `thread_call` in `v` after `Call` has failed. -/
def callFailed (m : Machine) (v o : Ref) (nparams : Nat) (dest : Option Nat) : Machine × Outcome :=
  ((m.set o ((m.vm o).Pop nparams)).moveError v o).failed v dest

/-- `GS_wakeupvm` on `o`, and `thread_wakeup` or `thread_wakeupthrow` in `v`, after `Execute` has
come back. -/
def wakeupReturned (m : Machine) (v o : Ref) (dest : Option Nat) (ret : Object) :
    Machine × Outcome :=
  let m := (m.set o ((m.vm o).Push ret)).moveResult v o
  let m := if (m.vm o).GS_getvmstate = .idle then m.set o ((m.vm o).GS_settop 1) else m
  m.returned v dest true

/-- The same after `Execute` has failed. -/
def wakeupFailed (m : Machine) (v o : Ref) (dest : Option Nat) (rethrow_error : Bool) :
    Machine × Outcome :=
  let m := m.set o ((m.vm o).GS_settop 1)
  if rethrow_error then (m.moveError v o).failed v dest else m.returned v dest false

/-- The stack of `o` once `thread_call` in `v` has put the root table and the arguments on it. -/
def pushArguments (m : Machine) (v o : Ref) : VM :=
  let nparams := (m.vm v).GS_gettop
  let params := (List.range (nparams - 1)).map fun i => (m.vm v).stack_get (i + 2)
  params.foldl VM.Push ((m.vm o).Push (m.vm o).roottable)

/-- `thread_call`, called by `v`. -/
def thread_call (rt : Runtime) (m : Machine) (v : Ref) (dest : Option Nat) : Machine × Outcome :=
  match (m.vm v).stack_get 1 with
  | .thread o =>
      let nparams := (m.vm v).GS_gettop
      let vm := m.pushArguments v o
      match vm.Call rt (vm.GetUp (nparams + 1)) nparams (vm.top - nparams) with
      | (vm, .failed) => (m.set o vm).callFailed v o nparams dest
      | (vm, .returned res) => (m.set o vm).callReturned v o nparams dest res
      | (vm, .started) =>
          let called : Activation := { thread := o, caller := .call nparams }
          ({ m.set o vm with active := called :: m.active }, .started)
  | _ => (m.set v ((m.vm v).GS_throwerror "wrong parameter")).failed v dest

/-- The error for a thread that is not suspended. -/
def notSuspended : VMState → Option String
  | .idle => some "cannot wakeup a idle thread"
  | .running => some "cannot wakeup a running thread"
  | .suspended => none

/-- `thread_wakeup`, called by `v`. -/
def thread_wakeup (m : Machine) (v : Ref) (dest : Option Nat) : Option (Machine × Outcome) :=
  match (m.vm v).stack_get 1 with
  | .thread o =>
      match notSuspended (m.vm o).GS_getvmstate with
      | some err => some ((m.set v ((m.vm v).GS_throwerror err)).failed v dest)
      | none =>
          let wakeupret := (m.vm v).GS_gettop > 1
          let vm := if wakeupret then (m.vm o).Push ((m.vm v).stack_get 2) else m.vm o
          match vm.GS_wakeupvm wakeupret with
          | none => none
          | some (vm, .started) =>
              let woken : Activation :=
                { thread := o, traps := vm.suspended_traps, caller := .wakeup }
              some ({ m.set o vm with active := woken :: m.active }, .started)
          | some (vm, _) => some ((m.set o vm).wakeupFailed v o dest true)
  | _ => some ((m.set v ((m.vm v).GS_throwerror "wrong parameter")).failed v dest)

/-- `thread_wakeupthrow`, called by `v`. -/
def thread_wakeupthrow (m : Machine) (v : Ref) (dest : Option Nat) : Option (Machine × Outcome) :=
  match (m.vm v).stack_get 1 with
  | .thread o =>
      match notSuspended (m.vm o).GS_getvmstate with
      | some err => some ((m.set v ((m.vm v).GS_throwerror err)).failed v dest)
      | none =>
          let rethrow_error := match (m.vm v).stack_get 3 with
            | .bool b => if (m.vm v).GS_gettop > 2 then b ≠ 0 else true
            | _ => true
          match ((m.vm o).Push ((m.vm v).stack_get 2)).GS_throwobject.GS_wakeupvm false with
          | none => none
          | some (vm, .started) =>
              let woken : Activation :=
                { thread := o, traps := vm.suspended_traps, caller := .wakeupthrow rethrow_error }
              some ({ m.set o vm with active := woken :: m.active, throwing := true }, .started)
          | some (vm, _) => some ((m.set o vm).wakeupFailed v o dest rethrow_error)
  | _ => some ((m.set v ((m.vm v).GS_throwerror "wrong parameter")).failed v dest)

/-- `thread_getstatus`, called by `v`. -/
def thread_getstatus (m : Machine) (v : Ref) (dest : Option Nat) : Machine × Outcome :=
  match (m.vm v).stack_get 1 with
  | .thread o =>
      let status := match (m.vm o).GS_getvmstate with
        | .idle => "idle"
        | .running => "running"
        | .suspended => "suspended"
      (m.set v ((m.vm v).Push (.string (sc status)))).returned v dest true
  | _ => (m.set v ((m.vm v).GS_throwerror "wrong parameter")).failed v dest

/-- The innermost `Execute` comes back with `outres`, after `AutoDec`: to native code of the same
thread, to the function on threads that has called the thread or woken it up, or to the host. -/
def executed (m : Machine) (outres : Object) : Option Machine :=
  match m.active with
  | [] => none
  | a :: rest =>
      match a.outer, a.caller, rest with
      | traps :: outer, _, _ =>
          some { m with active := { a with traps := traps, outer := outer } :: rest }
      | [], .call nparams, b :: _ =>
          let m := { m with active := rest }
          some (m.callReturned b.thread a.thread nparams b.dest outres).1
      | [], .wakeup, b :: _ | [], .wakeupthrow _, b :: _ =>
          let m := { m with active := rest }
          some (m.wakeupReturned b.thread a.thread b.dest outres).1
      | [], .host nparams, [] =>
          let vm := m.vm a.thread
          let vm := if vm.suspended then vm else vm.Pop nparams
          some { m.set a.thread vm with active := [] }
      | _, _, _ => none

/-- The same when it fails. -/
def executeFailed (m : Machine) : Option Machine :=
  let m := { m with throwing := false }
  match m.active with
  | [] => none
  | a :: rest =>
      match a.outer, a.caller, rest with
      | traps :: outer, _, _ =>
          some { m with active := { a with traps := traps, outer := outer } :: rest }
      | [], .call nparams, b :: _ =>
          let m := { m with active := rest }
          some (m.callFailed b.thread a.thread nparams b.dest).1
      | [], .wakeup, b :: _ =>
          let m := { m with active := rest }
          some (m.wakeupFailed b.thread a.thread b.dest true).1
      | [], .wakeupthrow rethrow_error, b :: _ =>
          let m := { m with active := rest }
          some (m.wakeupFailed b.thread a.thread b.dest rethrow_error).1
      | [], .host nparams, [] =>
          some { m.set a.thread ((m.vm a.thread).Pop nparams) with active := [] }
      | _, _, _ => none

/-- What `_OP_CALL` makes of `GS_SUSPEND_FLAG`: the `Execute` of `v` that counts `traps` comes
back. -/
def suspended (m : Machine) (v : Ref) (traps : Int) (arg0 : Nat) : Machine :=
  let vm := (m.vm v).leaveNative
  let vm := { vm with
    suspended := true
    suspended_target := sarg0 arg0
    suspended_root := vm.callsstack.head?.any CallInfo.root
    suspended_traps := traps }.autoDec
  { m.set v vm with saved := Function.update m.saved v { vm := vm, register := arg0 } }

/-- `base_suspend`, called by `v`. When native code has called it, it only gives its value back. -/
def base_suspend (m : Machine) (v : Ref) (traps : Int) (dest : Option Nat) :
    Option (Machine × Outcome) :=
  if (m.vm v).suspended then
    let err := "cannot suspend an already suspended vm"
    some ((m.set v ((m.vm v).GS_throwerror err)).failed v dest)
  else if (m.vm v).nnativecalls ≠ 2 then
    let err := "cannot suspend through native calls/metamethods"
    some ((m.set v ((m.vm v).GS_throwerror err)).failed v dest)
  else
    match dest with
    | none => some (m.returned v none true)
    | some arg0 =>
        let outres := (m.vm v).GetUp 1
        ((m.suspended v traps arg0).executed outres).map fun m => (m, .returned outres)

/-- The call of a function on threads by the running thread `a`: the frame is there and the
function about to run. The `nargs` arguments are those from register `base` on. -/
def enter (rt : Runtime) (m : Machine) (a : Activation) (rest : List Activation)
    (f : ThreadFunction) (base nargs : Nat) (dest : Option Nat) : Machine :=
  let vm := m.vm a.thread
  let target := match dest with
    | some arg0 => sarg0 arg0
    | none => -1
  { m.set a.thread (vm.enterNative (rt.nclosure f) nargs (vm.stackbase + base) target) with
    active := { a with dest := dest } :: rest }

/-- `CallNative` for a function on threads. -/
def callNative (rt : Runtime) (m : Machine) (f : ThreadFunction) (base nargs : Nat)
    (dest : Option Nat) : Option (Machine × Outcome) :=
  match m.active with
  | [] => none
  | a :: rest =>
      let v := a.thread
      match (m.vm v).checkNative f nargs ((m.vm v).stackbase + base) with
      | some err =>
          let vm := (m.vm v).GS_throwerror err
          some ({ m.set v vm with throwing := dest.isSome }, .failed)
      | none =>
          let m := m.enter rt a rest f base nargs dest
          match f with
          | .call => some (m.thread_call rt v dest)
          | .wakeup => m.thread_wakeup v dest
          | .wakeupthrow => m.thread_wakeupthrow v dest
          | .suspend => m.base_suspend v a.traps dest
          | .getstatus => some (m.thread_getstatus v dest)

/-- `exception_trap` of the innermost `Execute`. -/
def exception_trap (m : Machine) : Option Machine :=
  match m.active with
  | [] => none
  | a :: rest =>
      let vm := m.vm a.thread
      match vm.unwind vm.lasterror vm.callsstack with
      | none => none
      | some (vm, true) =>
          some { m.set a.thread vm with
            active := { a with traps := a.traps - 1 } :: rest
            throwing := false }
      | some (vm', false) =>
          (m.set a.thread { vm' with lasterror := vm.lasterror }.autoDec).executeFailed

/-- `_OP_RETURN` in the first frame of the innermost `Execute`. -/
def Return (m : Machine) (arg0 arg1 : Nat) : Option Machine :=
  match m.active with
  | [] => none
  | a :: _ =>
      let vm := m.vm a.thread
      let outres := if arg0 ≠ 0xFF then vm.stack (vm.stackbase + arg1) else .null
      (m.set a.thread vm.LeaveFrame.autoDec).executed outres

end Machine

/-! ### Runs -/

/-- What the code of the running thread has made of its `Execute` when it comes to the next
operation: the frames over the first one, that one, and the rest of the machine. -/
structure Script where
  frames : List CallInfo
  first : CallInfo
  stackbase : Nat
  stack : Nat → Object
  top : Nat
  etraps : List ExceptionTrap
  openouters : List Nat
  traps : Int
  lasterror : Object
  roottable : Object

/-- Frames of closures, the last one being the first of an `Execute`. -/
def Script.Valid (code : Script) : Prop :=
  (∀ ci ∈ code.frames, ci.native = false ∧ ci.root = false) ∧
    code.first.native = false ∧ code.first.root = true

/-- What happens to the threads. All of it is done by the running one, save `host`. -/
inductive Op where
  | callNative (f : ThreadFunction) (base nargs : Nat) (dest : Option Nat)
  /-- Other code of a script. -/
  | script (code : Script)
  /-- Code of a native function: between `enterNative` and `leaveNative` it may use its stack and
  call functions. -/
  | enterNative (p : Ref) (base nargs : Nat)
  | native (stack : Nat → Object) (top : Nat) (lasterror : Object)
  | leaveNative
  /-- `GSVM::Call` by native code, or for a metamethod. -/
  | invoke (closure : Object) (nparams stackbase : Nat)
  /-- An assignment to a variable that a closure has captured from the thread `t`. -/
  | setOuter (t : Ref) (i : Nat) (v : Object)
  /-- An instruction fails. -/
  | raise (err : Object)
  | exception_trap
  /-- `_OP_RETURN` in the first frame of the innermost `Execute`. -/
  | return (arg0 arg1 : Nat)
  /-- The host calls a function on a thread that is idle. -/
  | host (t : Ref) (closure : Object) (args : List Object)

/-- Whether the thread is in a native function. -/
def Control.inNative (c : Control) : Bool := c.callsstack.head?.any CallInfo.native

namespace VM

/-- The frames below those of the innermost `Execute`. -/
def below (vm : VM) : List CallInfo := (vm.callsstack.dropWhile fun ci => !ci.root).tail

def runScript (vm : VM) (code : Script) : VM :=
  { vm with
    callsstack := code.frames ++ code.first :: vm.below
    stackbase := code.stackbase
    stack := code.stack
    top := code.top
    etraps := code.etraps
    openouters := code.openouters
    lasterror := code.lasterror
    roottable := code.roottable }

end VM

namespace Machine

/-- `GSVM::Call` on the thread of `a`, by its own native code. -/
def invoke (rt : Runtime) (m : Machine) (a : Activation) (rest : List Activation) (closure : Object)
    (nparams stackbase : Nat) : Machine :=
  match (m.vm a.thread).Call rt closure nparams stackbase with
  | (vm, .started) =>
      { m.set a.thread vm with active := { a with traps := 0, outer := a.traps :: a.outer } :: rest }
  | (vm, _) => m.set a.thread vm

/-- `GS_call` by the host. -/
def hostCall (rt : Runtime) (m : Machine) (t : Ref) (closure : Object) (args : List Object) :
    Machine :=
  let vm := args.foldl VM.Push ((m.vm t).Push closure)
  match vm.Call rt closure args.length (vm.top - args.length) with
  | (vm, .started) =>
      { m.set t vm with active := [{ thread := t, caller := .host args.length }] }
  | (vm, _) => m.set t (vm.Pop args.length)

def step (rt : Runtime) (m : Machine) (op : Op) : Option Machine :=
  match op, m.active with
  | .callNative f base nargs dest, _ => (m.callNative rt f base nargs dest).map (·.1)
  | .exception_trap, _ => m.exception_trap
  | .return arg0 arg1, _ => m.Return arg0 arg1
  | .host t closure args, [] => some (m.hostCall rt t closure args)
  | .script code, a :: rest =>
      some { m.set a.thread ((m.vm a.thread).runScript code) with
        active := { a with traps := code.traps } :: rest }
  | .enterNative p base nargs, a :: _ =>
      let vm := m.vm a.thread
      some (m.set a.thread (vm.enterNative p nargs (vm.stackbase + base) (-1)))
  | .native stack top lasterror, a :: _ =>
      let vm := { m.vm a.thread with stack := stack, top := top, lasterror := lasterror }
      some (m.set a.thread vm)
  | .leaveNative, a :: _ => some (m.set a.thread (m.vm a.thread).leaveNative)
  | .invoke closure nparams stackbase, a :: rest =>
      some (m.invoke rt a rest closure nparams stackbase)
  | .setOuter t i v, _ :: _ => some (m.set t ((m.vm t).setSlot i v))
  | .raise err, a :: _ =>
      some { m.set a.thread { m.vm a.thread with lasterror := err } with throwing := true }
  | _, _ => none

/-- The thread that runs is in native code. -/
def inNative (m : Machine) : Prop := ∃ a ∈ m.active.head?, (m.vm a.thread).inNative = true

end Machine

/-- What the compiler and the machine see to. An error is handled before anything else is done. An
instruction is not one of native code and has a register of its frame for the result. Frames are
left that were entered, and a variable is one that is captured. -/
def Op.Valid (m : Machine) : Op → Prop
  | .callNative _ _ _ dest =>
      m.throwing = false ∧ ∀ arg0 ∈ dest, ¬ m.inNative ∧ arg0 < 256 ∧
        (arg0 = 0xFF ∨ ∀ a ∈ m.active.head?,
          (m.vm a.thread).stackbase + arg0 < (m.vm a.thread).top)
  | .script code => m.throwing = false ∧ ¬ m.inNative ∧ code.Valid
  | .enterNative .. | .invoke .. => m.throwing = false
  | .native .. | .leaveNative => m.throwing = false ∧ m.inNative
  | .setOuter t i _ => m.throwing = false ∧ i ∈ (m.vm t).openouters
  | .raise _ => m.throwing = false ∧ ¬ m.inNative
  | .exception_trap => m.throwing = true
  | .return .. =>
      m.throwing = false ∧
        ∀ a ∈ m.active.head?, ∃ ci ∈ (m.vm a.thread).callsstack.head?, ci.root = true
  | .host t _ _ => m.throwing = false ∧ (m.vm t).GS_getvmstate = .idle

instance (m : Machine) : Decidable m.inNative :=
  inferInstanceAs (Decidable (∃ a ∈ m.active.head?, (m.vm a.thread).inNative = true))

instance (code : Script) : Decidable code.Valid := inferInstanceAs (Decidable (_ ∧ _ ∧ _))

instance (m : Machine) : (op : Op) → Decidable (op.Valid m)
  | .callNative .. | .script _ | .native .. | .leaveNative | .setOuter .. | .raise _ | .return ..
  | .host .. => inferInstanceAs (Decidable (_ ∧ _))
  | .enterNative .. | .invoke .. | .exception_trap => inferInstanceAs (Decidable (_ = _))

/-- The machine after some operations. -/
def Machine.run (rt : Runtime) : List Op → Machine → Option Machine
  | [], m => some m
  | op :: ops, m =>
      if op.Valid m then (m.step rt op).bind (run rt ops) else none

/-- A step that is one of those `allowed`. -/
def Step (rt : Runtime) (allowed : Machine → Op → Prop) (m m' : Machine) : Prop :=
  ∃ op : Op, op.Valid m ∧ allowed m op ∧ m.step rt op = some m'

/-- At the start all threads are idle, each with its function on its stack, and none runs. -/
structure Machine.Initial (m : Machine) : Prop where
  active : m.active = []
  throwing : m.throwing = false
  idle : ∀ t, (m.vm t).toControl = {}

end GameScript.Threads
