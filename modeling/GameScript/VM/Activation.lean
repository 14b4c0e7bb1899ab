import GameScript.VM.Traps
import GameScript.VM.Arithmetic

/-!
Frames coming and going, as functions on states: how `EnterFrame` makes one, and how a
generator is suspended and resumed. The objects in it are the array of a variable tail, and the
weak reference that a suspended generator keeps of `this`.
-/

namespace GameScript

open Effect

/-- The objects of a runtime, the arrays that calls made, as they were made, and what weak
references refer to. -/
structure CallHeap (Heap : Type) where
  rest : Heap
  arrays : List (List Object)
  weakrefs : List Object

/-- A runtime that answers no request of its own. -/
def silentRuntime : Runtime where
  Heap := Unit
  fl := .unused
  strcmp _ _ := 0
  serve _ heap _ generators _ := { result := .error .null, heap := heap, generators := generators }

namespace CallHeap

variable {Heap : Type}

/-- `GetWeakRef` of an object that is counted; another value stands for itself. -/
def weakRef (h : CallHeap Heap) (o : Object) : Object × CallHeap Heap :=
  if o.isRefCounted then
    match h.weakrefs.idxOf? o with
    | some n => (.weakref n, h)
    | none => (.weakref h.weakrefs.length, { h with weakrefs := h.weakrefs ++ [o] })
  else (o, h)

/-- What a value that is kept for `this` stands for. The object of a weak reference is null
when it is gone. -/
def strongRef (h : CallHeap Heap) (alive : Object → Bool) : Object → Object
  | .weakref n =>
    match h.weakrefs[n]? with
    | some o => if alive o then o else .null
    | none => .null
  | o => o

end CallHeap

/-- A runtime together with the objects of calls. `alive` says which objects there still are. -/
def Runtime.withReferences (rt : Runtime) (alive : rt.Heap → Object → Bool) : Runtime where
  Heap := CallHeap rt.Heap
  fl := rt.fl
  strcmp := rt.strcmp
  serve q heap closures generators outers :=
    match q with
    | .newArray values =>
      { result := .ok (.values [.array heap.arrays.length])
        heap := { heap with arrays := heap.arrays ++ [values] }
        generators := generators }
    | .weakRef o =>
      { result := .ok (.values [(heap.weakRef o).1])
        heap := (heap.weakRef o).2
        generators := generators }
    | .strongRef o =>
      { result := .ok (.values [heap.strongRef (alive heap.rest) o])
        heap := heap
        generators := generators }
    | q =>
      let response := rt.serve q heap.rest closures generators outers
      { result := response.result
        heap := { heap with rest := response.heap }
        written := response.written
        closures := response.closures
        outers := response.outers
        generators := response.generators }

theorem isRefCounted_weakref (p : Ref) : (Object.weakref p).isRefCounted = true := by
  have hcode : ObjectType.weakref.code &&& 0x08000000 ≠ 0 := by decide
  exact decide_eq_true hcode

namespace CallHeap

variable {Heap : Type}

/-- A weak reference leads back to the object as long as it is alive. -/
theorem strongRef_weakRef (h : CallHeap Heap) {alive : Object → Bool} {o : Object}
    (ho : o.isRefCounted = true → alive o = true) :
    (h.weakRef o).2.strongRef alive (h.weakRef o).1 = o := by
  unfold weakRef
  by_cases hcounted : o.isRefCounted = true
  · rw [if_pos hcounted]
    cases hidx : h.weakrefs.idxOf? o with
    | some n =>
      have hget : h.weakrefs[n]? = some o := by
        obtain ⟨hlt, heq⟩ := List.findIdx?_eq_some_iff_getElem.mp hidx
        rw [List.getElem?_eq_getElem hlt]
        simpa using heq.1
      dsimp only [strongRef]
      rw [hget]
      exact if_pos (ho hcounted)
    | none =>
      dsimp only [strongRef]
      rw [List.getElem?_concat_length]
      exact if_pos (ho hcounted)
  · rw [if_neg hcounted]
    cases o with
    | weakref p => exact absurd (isRefCounted_weakref p) hcounted
    | _ => rfl

/-- A heap that has all the weak references of another and perhaps more. -/
def Extends (h h' : CallHeap Heap) : Prop := h.weakrefs <+: h'.weakrefs

end CallHeap

namespace VM

variable {rt : Runtime} {alive : rt.Heap → Object → Bool}

theorem absorb_quiet {Heap : Type} (vm : VM Heap) (result : Except Object Answer) (heap : Heap) :
    vm.absorb { result := result, heap := heap, generators := vm.generators } =
      { vm with heap := heap } := by
  unfold absorb writeOuters
  simp only [List.foldl_nil, List.append_nil, List.map_nil]

/-- An answer that changes nothing but the heap. -/
theorem ask1_quiet {rt : Runtime} {q : Request} {vm : VM rt.Heap} {o : Object} {heap : rt.Heap}
    (h : served rt vm q = {
      result := .ok (.values [o]), heap := heap, generators := vm.generators }) :
    rt.ask1 q vm = .ok o { vm with heap := heap } := by
  unfold Runtime.ask1 Runtime.ask
  rw [bind_apply, bind_apply, askNative_apply, h]
  dsimp only
  rw [absorb_quiet]
  rfl

theorem ask1_newArray (values : List Object) (vm : VM (rt.withReferences alive).Heap) :
    (rt.withReferences alive).ask1 (.newArray values) vm =
      .ok (.array vm.heap.arrays.length)
        { vm with heap := { vm.heap with arrays := vm.heap.arrays ++ [values] } } :=
  ask1_quiet rfl

theorem ask1_weakRef (o : Object) (vm : VM (rt.withReferences alive).Heap) :
    (rt.withReferences alive).ask1 (.weakRef o) vm =
      .ok (vm.heap.weakRef o).1 { vm with heap := (vm.heap.weakRef o).2 } :=
  ask1_quiet rfl

theorem ask1_strongRef' (o : Object) (vm : VM (rt.withReferences alive).Heap) :
    (rt.withReferences alive).ask1 (.strongRef o) vm =
      .ok (vm.heap.strongRef (alive vm.heap.rest) o) vm :=
  ask1_quiet rfl

/-! ### Making a frame -/

/-- A frame up to `newtop` can be made: the stack has room for it, or can grow. -/
def Room {Heap : Type} (vm : VM Heap) (newtop : Nat) : Prop :=
  newtop + MIN_STACK_OVERHEAD ≤ vm.stacksize ∨ vm.nmetamethodscall = 0

/-- `EnterFrame` on the frames. -/
def entered {Heap : Type} (vm : VM Heap) (newbase : Nat) (tailcall : Bool) : List CallInfo :=
  if tailcall then vm.callstack.modifyHead fun ci => { ci with ncalls := ci.ncalls + 1 }
  else {
    prevstkbase := newbase - vm.stackbase
    prevtop := vm.top - vm.stackbase } :: vm.callstack

/-- The size of the stack when a frame up to `newtop` has been made. -/
def grownStack {Heap : Type} (vm : VM Heap) (newtop : Nat) : Nat :=
  if vm.stacksize < newtop + MIN_STACK_OVERHEAD then newtop + MIN_STACK_OVERHEAD * 4
  else vm.stacksize

theorem le_grownStack {Heap : Type} (vm : VM Heap) (newtop : Nat) :
    vm.stacksize ≤ grownStack vm newtop ∧ newtop + MIN_STACK_OVERHEAD ≤ grownStack vm newtop := by
  unfold grownStack MIN_STACK_OVERHEAD
  split <;> omega

theorem setWindow_apply {Heap : Type} {newtop : Nat} {vm : VM Heap} (hroom : Room vm newtop)
    (newbase : Nat) : setWindow newbase newtop vm = .ok () { vm with
      stackbase := newbase
      top := newtop
      stacksize := grownStack vm newtop } := by
  unfold setWindow grownStack
  rw [modify_bind_apply, get_bind_apply]
  unfold when
  by_cases hsmall : vm.stacksize < newtop + MIN_STACK_OVERHEAD
  · have hmeta : ¬ vm.nmetamethodscall ≠ 0 := by
      rcases hroom with hroom | hroom
      · exact absurd hroom (Nat.not_le.mpr hsmall)
      · exact fun hne => hne hroom
    rw [if_pos hsmall, if_pos hsmall, bind_apply, if_neg hmeta]
    rfl
  · rw [if_neg hsmall, if_neg hsmall]
    rfl

theorem setWindow_full {Heap : Type} {newtop : Nat} {vm : VM Heap} (hroom : ¬ Room vm newtop)
    (newbase : Nat) : ∃ err vm', setWindow newbase newtop vm = .error (.raise err) vm' := by
  unfold Room at hroom
  rw [not_or] at hroom
  unfold setWindow
  rw [modify_bind_apply, get_bind_apply]
  unfold when
  rw [if_pos (Nat.not_le.mp hroom.1), bind_apply, if_pos hroom.2]
  exact ⟨_, _, rfl⟩

theorem enterFrame_apply {Heap : Type} {newtop : Nat} {vm : VM Heap} (hroom : Room vm newtop)
    (newbase : Nat) (tailcall : Bool) :
    enterFrame newbase newtop tailcall vm = .ok () { vm with
      callstack := entered vm newbase tailcall
      stackbase := newbase
      top := newtop
      stacksize := grownStack vm newtop } := by
  unfold enterFrame entered
  cases tailcall with
  | true =>
    exact @setWindow_apply _ newtop { vm with
      callstack := vm.callstack.modifyHead fun ci => { ci with ncalls := ci.ncalls + 1 } }
      hroom newbase
  | false =>
    exact @setWindow_apply _ newtop { vm with
      callstack := {
        prevstkbase := newbase - vm.stackbase
        prevtop := vm.top - vm.stackbase } :: vm.callstack } hroom newbase

theorem enterFrame_full {Heap : Type} {newtop : Nat} {vm : VM Heap} (hroom : ¬ Room vm newtop)
    (newbase : Nat) (tailcall : Bool) :
    ∃ err vm', enterFrame newbase newtop tailcall vm = .error (.raise err) vm' := by
  unfold enterFrame
  cases tailcall with
  | true =>
    exact @setWindow_full _ newtop { vm with
      callstack := vm.callstack.modifyHead fun ci => { ci with ncalls := ci.ncalls + 1 } }
      hroom newbase
  | false =>
    exact @setWindow_full _ newtop { vm with
      callstack := {
        prevstkbase := newbase - vm.stackbase
        prevtop := vm.top - vm.stackbase } :: vm.callstack } hroom newbase

theorem resultSlot_apply {Heap : Type} {callerbase : Nat} {target : Int}
    (h : 0 ≤ (callerbase : Int) + target) (vm : VM Heap) :
    resultSlot callerbase target vm = .ok ((callerbase : Int) + target).toNat vm :=
  congrFun (if_pos h) vm

/-! ### Suspending and resuming a generator -/

/-- The registers that `Yield` saves: `this` as a weak reference, and those below `target`. -/
def savedRegisters (vm : VM (rt.withReferences alive).Heap) (target : Nat) : List Object :=
  (List.range (vm.top - vm.stackbase)).map fun n =>
    if n = 0 then (vm.heap.weakRef (vm.stack vm.stackbase)).1
    else if n < target then vm.stack (vm.stackbase + n) else .null

/-- The traps of a frame, relative to it. -/
def savedTraps {Heap : Type} (vm : VM Heap) (ci : CallInfo) : List ExceptionTrap :=
  ((vm.etraps.take ci.etraps).map fun et => { et with
    stackbase := et.stackbase - vm.stackbase
    stacksize := et.stacksize - vm.stackbase }).reverse

/-- The generator `g` as `Yield` leaves it. -/
def suspendedAs (vm : VM (rt.withReferences alive).Heap) (ci : CallInfo) (target : Nat)
    (g : Generator) : Generator :=
  { g with
    state := .eSuspended
    stack := savedRegisters vm target
    ci := { ci with generator := none }
    etraps := savedTraps vm ci ++ g.etraps }

/-- The state after `Yield`. -/
def yielded (vm : VM (rt.withReferences alive).Heap) (ci : CallInfo) (p : Ref) (target : Nat) :
    VM (rt.withReferences alive).Heap :=
  { vm with
    stack := fun m => if vm.stackbase ≤ m ∧ m < vm.top then .null else vm.stack m
    etraps := vm.etraps.drop ci.etraps
    generators := vm.generators.modify p (suspendedAs vm ci target)
    heap := (vm.heap.weakRef (vm.stack vm.stackbase)).2 }

theorem yieldGenerator_apply {vm : VM (rt.withReferences alive).Heap} {ci : CallInfo}
    {callstack : List CallInfo} (hstack : vm.callstack = ci :: callstack) {p : Ref}
    {g : Generator} (hg : vm.generators[p]? = some g) (hrunning : g.state = .eRunning)
    (target : Nat) :
    yieldGenerator (rt.withReferences alive) p target vm = .ok () (yielded vm ci p target) := by
  unfold yieldGenerator
  rw [get_bind_apply, bind_apply, getCi_apply hstack]
  dsimp only
  rw [hg]
  dsimp only
  rw [hrunning]
  dsimp only
  rw [bind_apply, ask1_weakRef]
  dsimp only
  rw [modify_bind_apply]
  rfl

/-- The traps of a suspended generator, relocated to the slot its frame comes to. -/
def restoredTraps (g : Generator) (newbase : Nat) : List ExceptionTrap :=
  ((g.etraps.take g.ci.etraps).map fun et => { et with
    stackbase := et.stackbase + newbase
    stacksize := et.stacksize + newbase }).reverse

/-- The stack with the registers of a generator from `newbase` on. -/
def restoredStack (vm : VM (rt.withReferences alive).Heap) (g : Generator) : Nat → Object :=
  fun m =>
    if m = vm.top then vm.heap.strongRef (alive vm.heap.rest) (g.stack.headD .null)
    else if vm.top < m ∧ m < vm.top + g.stack.length then g.stack.getD (m - vm.top) .null
    else vm.stack m

/-- The state after `Resume` into the register `target`. -/
def resumedAs (vm : VM (rt.withReferences alive).Heap) (g : Generator) (p : Ref) (target : Nat) :
    VM (rt.withReferences alive).Heap :=
  { vm with
    callstack := (entered vm vm.top false).modifyHead (resumed g p target)
    stackbase := vm.top
    top := vm.top + g.stack.length
    stacksize := grownStack vm (vm.top + g.stack.length)
    stack := restoredStack vm g
    etraps := restoredTraps g vm.top ++ vm.etraps
    generators := vm.generators.modify p fun g => { g with
      state := .eRunning
      stack := g.stack.mapIdx fun n v => if n = 0 then v else .null
      etraps := g.etraps.drop g.ci.etraps } }

theorem resumeGenerator_apply {vm : VM (rt.withReferences alive).Heap} {p : Ref} {g : Generator}
    (hg : vm.generators[p]? = some g) (hsuspended : g.state = .eSuspended)
    (hroom : Room vm (vm.top + g.stack.length)) (target : Nat) :
    resumeGenerator (rt.withReferences alive) p target vm = .ok () (resumedAs vm g p target) := by
  unfold resumeGenerator
  rw [get_bind_apply]
  dsimp only
  rw [hg]
  dsimp only
  rw [hsuspended]
  dsimp only
  rw [bind_apply, enterFrame_apply hroom]
  dsimp only
  unfold modifyCi
  rw [modify_bind_apply, bind_apply, ask1_strongRef']
  rfl

/-- Without room for the frame it raises, in a frame of its own that has no closure. -/
theorem resumeGenerator_full {vm : VM (rt.withReferences alive).Heap} {p : Ref} {g : Generator}
    (hg : vm.generators[p]? = some g) (hsuspended : g.state = .eSuspended)
    (hroom : ¬ Room vm (vm.top + g.stack.length)) (target : Nat) : ∃ err vm',
      resumeGenerator (rt.withReferences alive) p target vm = .error (.raise err) vm' := by
  obtain ⟨err, vm', hfull⟩ := enterFrame_full hroom vm.top false
  unfold resumeGenerator
  rw [get_bind_apply]
  dsimp only
  rw [hg]
  dsimp only
  rw [hsuspended]
  dsimp only
  rw [bind_apply, hfull]
  exact ⟨err, vm', rfl⟩

end VM

end GameScript
