import GameScript.VM.Activation

/-!
How a call binds its arguments. `StartCall` puts the surplus arguments into an array, the
default values into the registers of missing ones and the bound environment into `this`, all
on the stack of the caller, and makes the frame afterwards. A generator function gives the
frame up at once, with the registers saved in its generator.

The frame makes sure that there is room for its registers. The default values are written
before, so that those of many missing parameters can end up past the end of the stack.
-/

namespace GameScript

open Effect

/-! ### What a call means -/

namespace Closure

/-- `_nparameters`, `this` included. -/
abbrev nparameters (c : Closure) : Nat := c.function.parameters.length

/-- `_ndefaultparams`. -/
abbrev ndefaultparams (c : Closure) : Nat := c.function.defaultparams.length

abbrev variadic (c : Closure) : Prop := c.function.varparams ≠ 0

/-- The number of arguments fits the parameters. -/
def Accepts (c : Closure) (args : Nat) : Prop :=
  args = nparameters c ∨ nparameters c - ndefaultparams c ≤ args ∧ args < nparameters c ∨
    variadic c ∧ nparameters c - 1 ≤ args

instance (c : Closure) (args : Nat) : Decidable (Accepts c args) :=
  inferInstanceAs (Decidable (_ ∨ _))

/-- A closure as the compiler and `CLOSURE_OP` make it: the last parameters have default
values or the last one is variadic, and the parameters are registers of the frame. -/
structure Wellformed (c : Closure) : Prop where
  defaults : c.defaultparams.length = ndefaultparams c
  this : ndefaultparams c < nparameters c
  tail : variadic c → ndefaultparams c = 0
  frame : nparameters c ≤ c.function.stacksize.toInt.toNat

/-- The value of parameter `i` in a call with `args` arguments from the slot `stackbase` on;
`arr` is the array of the surplus ones. -/
def argument {Heap : Type} (c : Closure) (vm : VM Heap) (args stackbase : Nat) (arr : Object)
    (i : Nat) : Object :=
  match c.env with
  | some env => if i = 0 then env else value
  | none => value
where
  value :=
    if variadic c ∧ i = nparameters c - 1 then arr
    else if i < args then vm.stack (stackbase + i)
    else c.defaultparams.getD (i - (nparameters c - ndefaultparams c)) .null

/-- The arguments after those that parameters are there for. -/
def surplus {Heap : Type} (c : Closure) (vm : VM Heap) (args stackbase : Nat) : List Object :=
  vm.slots (stackbase + (nparameters c - 1)) (args - (nparameters c - 1))

/-- The slots that `StartCall` writes before the frame is made. -/
def boundSlots (c : Closure) (args stackbase : Nat) : List Nat :=
  (if variadic c then
    (stackbase + (nparameters c - 1)) ::
      List.range' (stackbase + (nparameters c - 1)) (args - (nparameters c - 1))
  else List.range' (stackbase + args) (nparameters c - args)) ++
    if c.env.isSome then [stackbase] else []

end Closure

namespace VM

open Closure

variable {rt : Runtime} {alive : rt.Heap → Object → Bool}

/-! ### The arguments -/

/-- The stack with the arguments bound, but for the environment. -/
def boundStack {Heap : Type} (vm : VM Heap) (c : Closure) (args stackbase : Nat) (arr : Object) :
    Nat → Object := fun m =>
  if variadic c then
    if m = stackbase + (nparameters c - 1) then arr
    else if stackbase + (nparameters c - 1) ≤ m ∧ m < stackbase + args then .null
    else vm.stack m
  else if stackbase + args ≤ m ∧ m < stackbase + nparameters c then
    c.defaultparams.getD
      (ndefaultparams c - (nparameters c - args) + (m - (stackbase + args))) .null
  else vm.stack m

/-- The heap with the array of the surplus arguments, if there is a variadic parameter. -/
def boundHeap {Heap : Type} (h : CallHeap Heap) (c : Closure) (surplus : List Object) :
    CallHeap Heap :=
  if c.variadic then { h with arrays := h.arrays ++ [surplus] } else h

theorem boundHeap_variadic {Heap : Type} (h : CallHeap Heap) {c : Closure} (hvar : c.variadic)
    (surplus : List Object) :
    boundHeap h c surplus = { h with arrays := h.arrays ++ [surplus] } := if_pos hvar

theorem boundHeap_fixed {Heap : Type} (h : CallHeap Heap) {c : Closure} (hvar : ¬ c.variadic)
    (surplus : List Object) : boundHeap h c surplus = h := if_neg hvar

/-- The state with the arguments bound, but for the environment. -/
def boundArguments (vm : VM (rt.withReferences alive).Heap) (c : Closure) (args stackbase : Nat) :
    VM (rt.withReferences alive).Heap :=
  { vm with
    stack := boundStack vm c args stackbase (.array vm.heap.arrays.length)
    heap := boundHeap vm.heap c (c.surplus vm args stackbase) }

theorem boundStack_variadic {Heap : Type} (vm : VM Heap) {c : Closure} (hvar : c.variadic)
    (args stackbase : Nat) (arr : Object) : boundStack vm c args stackbase arr = fun m =>
      if m = stackbase + (c.nparameters - 1) then arr
      else if stackbase + (c.nparameters - 1) ≤ m ∧ m < stackbase + args then .null
      else vm.stack m := by
  funext m
  exact if_pos hvar

theorem boundStack_fixed {Heap : Type} (vm : VM Heap) {c : Closure} (hvar : ¬ c.variadic)
    (args stackbase : Nat) (arr : Object) : boundStack vm c args stackbase arr = fun m =>
      if stackbase + args ≤ m ∧ m < stackbase + c.nparameters then
        c.defaultparams.getD
          (c.ndefaultparams - (c.nparameters - args) + (m - (stackbase + args))) .null
      else vm.stack m := by
  funext m
  exact if_neg hvar

/-- A variadic function accepts as many arguments as it names, or more. -/
theorem accepts_variadic {c : Closure} {args : Nat} (hc : Wellformed c) (hvar : variadic c) :
    Accepts c args ↔ nparameters c - 1 ≤ args := by
  have htail := hc.tail hvar
  unfold Accepts
  constructor
  · rintro (h | h | h)
    · omega
    · omega
    · exact h.2
  · exact fun h => .inr (.inr ⟨hvar, h⟩)

/-- Any other function accepts as many as it names, or lacks some that have
defaults. -/
theorem accepts_fixed {c : Closure} {args : Nat} (hvar : ¬ variadic c) :
    Accepts c args ↔ args = nparameters c ∨
      nparameters c - ndefaultparams c ≤ args ∧ args < nparameters c := by
  unfold Accepts
  constructor
  · rintro (h | h | h)
    · exact .inl h
    · exact .inr h
    · exact absurd h.1 hvar
  · exact fun h => h.imp_right .inl

/-- Accepted arguments are bound. -/
theorem bindArguments_accepts {c : Closure} {args : Nat} (hc : Wellformed c)
    (haccepts : Accepts c args) (stackbase : Nat) (vm : VM (rt.withReferences alive).Heap) :
    bindArguments (rt.withReferences alive) c args stackbase vm =
      .ok () (boundArguments vm c args stackbase) := by
  unfold bindArguments
  dsimp only
  by_cases hvar : variadic c
  · have hle := (accepts_variadic hc hvar).mp haccepts
    have hcount : ¬ args < nparameters c - 1 := Nat.not_lt.mpr hle
    rw [if_pos hvar, bind_apply]
    unfold when
    rw [if_neg hcount, pure_apply]
    dsimp only
    rw [get_bind_apply, bind_apply, ask1_newArray]
    have hheap : boundHeap vm.heap c (c.surplus vm args stackbase) =
        { vm.heap with arrays := vm.heap.arrays ++ [c.surplus vm args stackbase] } :=
      boundHeap_variadic vm.heap hvar _
    unfold boundArguments
    rw [boundStack_variadic vm hvar, hheap]
    rfl
  · have hheap : boundHeap vm.heap c (c.surplus vm args stackbase) = vm.heap :=
      boundHeap_fixed vm.heap hvar _
    unfold boundArguments
    rw [if_neg hvar, boundStack_fixed vm hvar, hheap]
    rcases (accepts_fixed hvar).mp haccepts with heq | ⟨hle, hlt⟩
    · have hstack : (fun m => if stackbase + args ≤ m ∧ m < stackbase + c.nparameters then
          c.defaultparams.getD
            (c.ndefaultparams - (c.nparameters - args) + (m - (stackbase + args))) .null
          else vm.stack m) = vm.stack := by
        funext m
        rw [if_neg (fun h => by omega)]
      rw [if_neg (fun hne => hne heq.symm), pure_apply, hstack]
    · have hdefaults : c.ndefaultparams ≠ 0 ∧ args < c.nparameters ∧
          c.nparameters - args ≤ c.ndefaultparams := by
        omega
      rw [if_pos (fun heq => Nat.ne_of_lt hlt heq.symm), if_pos hdefaults]
      rfl

/-- Another number of arguments raises. -/
theorem bindArguments_rejects {c : Closure} {args : Nat} (hc : Wellformed c)
    (haccepts : ¬ Accepts c args) (stackbase : Nat) (vm : VM (rt.withReferences alive).Heap) :
    ∃ err, bindArguments (rt.withReferences alive) c args stackbase vm =
      .error (.raise err) vm := by
  unfold bindArguments
  dsimp only
  by_cases hvar : variadic c
  · have hcount : args < nparameters c - 1 :=
      Nat.not_le.mp fun hle => haccepts ((accepts_variadic hc hvar).mpr hle)
    rw [if_pos hvar, bind_apply]
    unfold when
    rw [if_pos hcount]
    exact ⟨_, rfl⟩
  · rw [if_neg hvar]
    have hne : c.function.parameters.length ≠ args :=
      fun heq => haccepts (.inl heq.symm)
    have hdefaults : ¬ (c.function.defaultparams.length ≠ 0 ∧
        args < c.function.parameters.length ∧
        c.function.parameters.length - args ≤ c.function.defaultparams.length) := by
      rintro ⟨_, hlt, hle⟩
      have hdiff : c.nparameters - args ≤ c.ndefaultparams := hle
      exact haccepts ((accepts_fixed hvar).mpr (.inr ⟨by omega, hlt⟩))
    rw [if_pos hne, if_neg hdefaults]
    exact ⟨_, rfl⟩

/-- The state with `this` bound too. -/
def boundEnv (vm : VM (rt.withReferences alive).Heap) (c : Closure) (args stackbase : Nat) :
    VM (rt.withReferences alive).Heap :=
  match c.env with
  | some env => (boundArguments vm c args stackbase).setSlot stackbase env
  | none => boundArguments vm c args stackbase

theorem bindEnvironment_apply (vm : VM (rt.withReferences alive).Heap) (c : Closure)
    (args stackbase : Nat) :
    bindEnvironment c stackbase (boundArguments vm c args stackbase) =
      .ok () (boundEnv vm c args stackbase) := by
  unfold bindEnvironment boundEnv
  cases c.env <;> rfl

/-- The parameters are in their registers before the frame is made. -/
theorem boundEnv_stack {c : Closure} (hc : c.Wellformed) {args : Nat} (haccepts : c.Accepts args)
    (stackbase : Nat) (vm : VM (rt.withReferences alive).Heap) {i : Nat}
    (hi : i < c.nparameters) :
    (boundEnv vm c args stackbase).stack (stackbase + i) =
      c.argument vm args stackbase (.array vm.heap.arrays.length) i := by
  have hvalue : (boundArguments vm c args stackbase).stack (stackbase + i) =
      argument.value c vm args stackbase (.array vm.heap.arrays.length) i := by
    change boundStack vm c args stackbase _ (stackbase + i) = _
    unfold argument.value
    by_cases hvar : c.variadic
    · have hle := (accepts_variadic hc hvar).mp haccepts
      rw [boundStack_variadic vm hvar]
      by_cases hlast : i = c.nparameters - 1
      · rw [if_pos ⟨hvar, hlast⟩]
        exact if_pos (by omega)
      · rw [if_neg (fun h => hlast h.2), if_pos (by omega)]
        dsimp only
        rw [if_neg (by omega), if_neg (by omega)]
    · rw [boundStack_fixed vm hvar, if_neg (fun h => hvar h.1)]
      have hfixed := (accepts_fixed hvar).mp haccepts
      dsimp only
      by_cases hgiven : i < args
      · rw [if_neg (by omega), if_pos hgiven]
      · have hthis := hc.this
        rw [if_pos (by omega), if_neg hgiven]
        congr 1
        omega
  unfold boundEnv argument
  cases henv : c.env with
  | none => exact hvalue
  | some env =>
    change (if stackbase + i = stackbase then env else _) = if i = 0 then env else _
    by_cases hi0 : i = 0
    · rw [if_pos (by omega), if_pos hi0]
    · rw [if_neg (by omega), if_neg hi0]
      exact hvalue

/-! ### The call -/

/-- The state in which the called function starts. -/
def started (vm : VM (rt.withReferences alive).Heap) (p : Ref) (c : Closure) (target : Int)
    (args stackbase : Nat) (tailcall : Bool) : VM (rt.withReferences alive).Heap :=
  { boundEnv vm c args stackbase with
    callstack := (entered vm stackbase tailcall).modifyHead (·.start p target)
    stackbase := stackbase
    top := stackbase + c.function.stacksize.toInt.toNat
    stacksize := grownStack vm (stackbase + c.function.stacksize.toInt.toNat) }

/-- What binding the arguments leaves alone. -/
theorem boundEnv_same (vm : VM (rt.withReferences alive).Heap) (c : Closure)
    (args stackbase : Nat) : boundEnv vm c args stackbase = { vm with
      stack := (boundEnv vm c args stackbase).stack
      heap := boundHeap vm.heap c (c.surplus vm args stackbase) } := by
  unfold boundEnv
  cases c.env <;> rfl

variable {vm : VM (rt.withReferences alive).Heap} {p : Ref} {c : Closure} {args : Nat}

/-- A call with a fitting number of arguments, up to the part of generator functions. -/
theorem StartCall_accepts (hp : vm.closures[p]? = some c) (hc : c.Wellformed)
    (haccepts : c.Accepts args) {stackbase : Nat}
    (hroom : Room vm (stackbase + c.function.stacksize.toInt.toNat)) (target : Int)
    (tailcall : Bool) :
    StartCall (rt.withReferences alive) p target args stackbase tailcall vm =
      when c.function.bgenerator
        (startGenerator (rt.withReferences alive) p target c.function.stacksize.toInt.toNat)
        (started vm p c target args stackbase tailcall) := by
  have hsame := boundEnv_same vm c args stackbase
  have hroom' : Room (boundEnv vm c args stackbase)
      (stackbase + c.function.stacksize.toInt.toNat) := by
    rw [hsame]
    exact hroom
  unfold StartCall
  rw [bind_apply, getClosure_apply hp]
  dsimp only
  rw [bind_apply, bindArguments_accepts hc haccepts]
  dsimp only
  rw [bind_apply, bindEnvironment_apply]
  dsimp only
  rw [bind_apply, enterFrame_apply hroom']
  dsimp only
  unfold modifyCi
  rw [modify_bind_apply]
  unfold started
  rw [hsame]
  rfl

/-- A call with another number of arguments raises, and so does one without room. -/
theorem StartCall_rejects (hp : vm.closures[p]? = some c) (hc : c.Wellformed) {stackbase : Nat}
    (h : ¬ (c.Accepts args ∧ Room vm (stackbase + c.function.stacksize.toInt.toNat)))
    (target : Int) (tailcall : Bool) : ∃ err vm',
      StartCall (rt.withReferences alive) p target args stackbase tailcall vm =
        .error (.raise err) vm' := by
  unfold StartCall
  rw [bind_apply, getClosure_apply hp]
  dsimp only
  by_cases haccepts : c.Accepts args
  · have hroom : ¬ Room (boundEnv vm c args stackbase)
        (stackbase + c.function.stacksize.toInt.toNat) := by
      rw [boundEnv_same vm c args stackbase]
      exact fun hroom => h ⟨haccepts, hroom⟩
    obtain ⟨err, vm', hfull⟩ := enterFrame_full hroom stackbase tailcall
    rw [bind_apply, bindArguments_accepts hc haccepts]
    dsimp only
    rw [bind_apply, bindEnvironment_apply]
    dsimp only
    rw [bind_apply, hfull]
    exact ⟨err, vm', rfl⟩
  · obtain ⟨err, hbind⟩ := bindArguments_rejects hc haccepts stackbase vm
    rw [bind_apply, hbind]
    exact ⟨err, vm, rfl⟩

/-! ### Generator functions -/

/-- The generator that a call of a generator function makes. -/
def newGenerator (vm : VM (rt.withReferences alive).Heap) (ci : CallInfo) (p : Ref)
    (stacksize : Nat) : Generator :=
  suspendedAs vm ci stacksize { closure := p }

theorem resultSlot_undefined {Heap : Type} {callerbase : Nat} {target : Int}
    (h : ¬ 0 ≤ (callerbase : Int) + target) (vm : VM Heap) :
    resultSlot callerbase target vm = .error .undefined vm :=
  congrFun (if_neg h) vm

theorem modify_concat {α : Type} (l : List α) (a : α) (f : α → α) :
    (l ++ [a]).modify l.length f = l ++ [f a] := by
  induction l with
  | nil => rfl
  | cons b l ih =>
    rw [List.cons_append, List.length_cons, List.modify_succ_cons, ih]
    rfl

/-- `Return` from a frame that is not the first one of an `Execute`, to a register. -/
theorem Return_inner {vm : VM (rt.withReferences alive).Heap} {ci : CallInfo}
    {callstack : List CallInfo} (hstack : vm.callstack = ci :: callstack) (hroot : ci.root = false)
    (hslot : ci.target ≠ -1 → 0 ≤ ((vm.stackbase - ci.prevstkbase : Nat) : Int) + ci.target)
    (arg0 arg1 : Nat) : ∃ vm', Return arg0 arg1 vm = .ok none vm' ∧
      vm'.stackbase = vm.stackbase - ci.prevstkbase ∧ vm'.generators = vm.generators ∧
      vm'.stacksize = vm.stacksize ∧ vm'.heap = vm.heap ∧ vm'.callstack = callstack := by
  unfold Return
  rw [get_bind_apply, bind_apply, getCi_apply hstack]
  dsimp only
  rw [hroot]
  by_cases htarget : ci.target = -1
  · obtain ⟨stack, outers, openouters, hleave⟩ := leaveFrame_eq vm hstack
    unfold when
    rw [bind_apply, if_neg (fun h => h.2 htarget), pure_apply]
    dsimp only
    rw [modify_bind_apply, hleave]
    exact ⟨_, rfl, rfl, rfl, rfl, rfl, rfl⟩
  · unfold when
    rw [bind_apply, if_pos ⟨rfl, htarget⟩, bind_apply, resultSlot_apply (hslot htarget)]
    obtain ⟨stack, outers, openouters, hleave⟩ := leaveFrame_eq (vm.setSlot
      (((vm.stackbase - ci.prevstkbase : Nat) : Int) + ci.target).toNat
      (vm.returnValue arg0 arg1)) hstack
    dsimp only
    rw [modify_apply]
    dsimp only
    rw [modify_bind_apply, hleave]
    exact ⟨_, rfl, rfl, rfl, rfl, rfl, rfl⟩

/-- `startGenerator` once the registers are saved. -/
theorem startGenerator_saved {vm : VM (rt.withReferences alive).Heap} {ci : CallInfo}
    {callstack : List CallInfo} (hstack : vm.callstack = ci :: callstack) (p : Ref) (target : Int)
    (stacksize : Nat) : ∃ vm₁ : VM (rt.withReferences alive).Heap,
      vm₁.callstack = ci :: callstack ∧ vm₁.stackbase = vm.stackbase ∧
      vm₁.generators = vm.generators ++ [newGenerator vm ci p stacksize] ∧
      vm₁.stacksize = vm.stacksize ∧ vm₁.heap = (vm.heap.weakRef (vm.stack vm.stackbase)).2 ∧
      startGenerator (rt.withReferences alive) p target stacksize vm = (do
        let _ ← Return 1 target.toNat
        let slot ← resultSlot (← get).stackbase target
        modify fun vm' : VM (rt.withReferences alive).Heap =>
          vm'.setSlot slot (.generator vm.generators.length)) vm₁ := by
  have hstack₁ : ({ vm with generators := vm.generators ++ [{ closure := p }] } :
      VM (rt.withReferences alive).Heap).callstack = ci :: callstack := hstack
  have hgen : (vm.generators ++ [{ closure := p }])[vm.generators.length]? =
      some { closure := p } := List.getElem?_concat_length ..
  have hyield := yieldGenerator_apply hstack₁ hgen rfl stacksize
  refine ⟨yielded { vm with generators := vm.generators ++ [{ closure := p }] } ci
    vm.generators.length stacksize, hstack, rfl, modify_concat _ _ _, rfl, rfl, ?_⟩
  unfold startGenerator
  rw [get_bind_apply, modify_bind_apply, bind_apply, hyield]

/-- The function gives up its frame, and the generator goes to a register of the caller. -/
theorem startGenerator_ok {vm : VM (rt.withReferences alive).Heap} {ci : CallInfo}
    {callstack : List CallInfo} (hstack : vm.callstack = ci :: callstack) (hroot : ci.root = false)
    (hslot : 0 ≤ ((vm.stackbase - ci.prevstkbase : Nat) : Int) + ci.target) (p : Ref)
    (stacksize : Nat) : ∃ vm',
      startGenerator (rt.withReferences alive) p ci.target stacksize vm = .ok () vm' ∧
      vm'.generators = vm.generators ++ [newGenerator vm ci p stacksize] ∧
      vm'.stacksize = vm.stacksize ∧
      vm'.heap = (vm.heap.weakRef (vm.stack vm.stackbase)).2 ∧ vm'.callstack = callstack := by
  obtain ⟨vm₁, hcallstack, hbase₁, hgenerators, hsize₁, hheap₁, hstart⟩ :=
    startGenerator_saved hstack p ci.target stacksize
  obtain ⟨vm₂, hreturn, hbase, hgens, hsize, hheap, hcalls⟩ :=
    Return_inner hcallstack hroot (fun _ => by rw [hbase₁]; exact hslot) 1 ci.target.toNat
  rw [hbase₁] at hbase
  rw [hstart, bind_apply, hreturn]
  dsimp only
  rw [get_bind_apply, bind_apply, hbase, resultSlot_apply hslot]
  exact ⟨_, rfl, hgens.trans hgenerators, hsize.trans hsize₁, hheap.trans hheap₁, hcalls⟩

/-- Without such a register it comes to a place outside of the stack. -/
theorem startGenerator_undefined {vm : VM (rt.withReferences alive).Heap} {ci : CallInfo}
    {callstack : List CallInfo} (hstack : vm.callstack = ci :: callstack) (hroot : ci.root = false)
    (hslot : ¬ 0 ≤ ((vm.stackbase - ci.prevstkbase : Nat) : Int) + ci.target) (p : Ref)
    (stacksize : Nat) : ∃ vm',
      startGenerator (rt.withReferences alive) p ci.target stacksize vm =
        .error .undefined vm' := by
  obtain ⟨vm₁, hcallstack, hbase₁, -, -, -, hstart⟩ :=
    startGenerator_saved hstack p ci.target stacksize
  rw [hstart]
  by_cases htarget : ci.target = -1
  · obtain ⟨vm₂, hreturn, hbase, -⟩ :=
      Return_inner hcallstack hroot (fun h => absurd htarget h) 1 ci.target.toNat
    rw [hbase₁] at hbase
    rw [bind_apply, hreturn]
    dsimp only
    rw [get_bind_apply, bind_apply, hbase, resultSlot_undefined hslot]
    exact ⟨_, rfl⟩
  · rw [← hbase₁] at hslot
    have hreturn : Return 1 ci.target.toNat vm₁ = .error .undefined vm₁ := by
      unfold Return
      rw [get_bind_apply, bind_apply, getCi_apply hcallstack]
      dsimp only
      unfold when
      rw [hroot, bind_apply, if_pos ⟨rfl, htarget⟩, bind_apply, resultSlot_undefined hslot]
    rw [bind_apply, hreturn]
    exact ⟨_, rfl⟩

/-! ### Binding as a whole -/

/-- The object that a call leaves for `this` in the generator it makes. -/
def keptThis (vm : VM (rt.withReferences alive).Heap) (c : Closure) (args stackbase : Nat) :
    Object :=
  ((boundHeap vm.heap c (c.surplus vm args stackbase)).weakRef
    (c.argument vm args stackbase (.array vm.heap.arrays.length) 0)).1

/-- Parameter `i` has its value where the body of the function finds it: in a register of the
frame, or among the registers that the generator has saved, where `this` is a weak reference. -/
def Holds (vm vm' : VM (rt.withReferences alive).Heap) (c : Closure) (args stackbase i : Nat) :
    Prop :=
  let value := c.argument vm args stackbase (.array vm.heap.arrays.length) i
  if c.function.bgenerator then
    ∃ g, vm'.generators = vm.generators ++ [g] ∧ g.state = .eSuspended ∧
      g.stack[i]? = some (if i = 0 then keptThis vm c args stackbase else value)
  else vm'.stackbase = stackbase ∧ vm'.stack (stackbase + i) = value

/-- The slots that `StartCall` writes once there is a frame: none, or what a generator function
writes when it gives the frame up. -/
def returnSlots {Heap : Type} (vm : VM Heap) (c : Closure) (target : Int) (stackbase : Nat) :
    List Nat :=
  if c.function.bgenerator then
    let newtop := stackbase + c.function.stacksize.toInt.toNat
    ((vm.stackbase : Int) + target).toNat ::
      (List.range' stackbase (newtop - stackbase) ++ List.range' vm.top (newtop + 1 - vm.top))
  else []

/-- What a call comes to. It succeeds for the right numbers of arguments and no others, and then
every parameter has its argument, its default or the array of the surplus arguments, and no
slot outside of the stack has been written. -/
def BindsArguments (rt : Runtime) (alive : rt.Heap → Object → Bool)
    (vm : VM (rt.withReferences alive).Heap) (p : Ref) (c : Closure) (target : Int)
    (args stackbase : Nat) (tailcall : Bool) : Prop :=
  ((∃ vm', StartCall (rt.withReferences alive) p target args stackbase tailcall vm = .ok () vm') ↔
    c.Accepts args) ∧
  ∀ vm', StartCall (rt.withReferences alive) p target args stackbase tailcall vm = .ok () vm' →
    (∀ i < c.nparameters, Holds vm vm' c args stackbase i) ∧
    (c.variadic → vm'.heap.arrays = vm.heap.arrays ++ [c.surplus vm args stackbase]) ∧
    (∀ m ∈ c.boundSlots args stackbase, m < vm.stacksize) ∧
    ∀ m ∈ returnSlots vm c target stackbase, m < vm'.stacksize

/-- The parameters of a function that is no generator function are in the registers of its
frame. -/
theorem started_holds (hc : c.Wellformed) (haccepts : c.Accepts args)
    (hgen : c.function.bgenerator = false) (p : Ref) (target : Int) (stackbase : Nat)
    (tailcall : Bool) {i : Nat} (hi : i < c.nparameters) :
    Holds vm (started vm p c target args stackbase tailcall) c args stackbase i := by
  unfold Holds
  dsimp only
  rw [hgen, if_neg Bool.false_ne_true]
  exact ⟨rfl, boundEnv_stack hc haccepts stackbase vm hi⟩

/-- The registers that the generator of a call saves. -/
theorem newGenerator_stack (hc : c.Wellformed) (haccepts : c.Accepts args) (p q : Ref)
    (target : Int) (stackbase : Nat) (ci : CallInfo) {i : Nat} (hi : i < c.nparameters) :
    (newGenerator (started vm p c target args stackbase false) ci q
      c.function.stacksize.toInt.toNat).stack[i]? =
        some (if i = 0 then keptThis vm c args stackbase
          else c.argument vm args stackbase (.array vm.heap.arrays.length) i) := by
  have hframe := hc.frame
  have hsize : (started vm p c target args stackbase false).top -
      (started vm p c target args stackbase false).stackbase =
        c.function.stacksize.toInt.toNat := Nat.add_sub_cancel_left _ _
  have hstack := boundEnv_stack hc haccepts stackbase vm hi
  have hthis : ((started vm p c target args stackbase false).heap.weakRef
      ((started vm p c target args stackbase false).stack stackbase)).1 =
        keptThis vm c args stackbase := by
    have hzero := boundEnv_stack hc haccepts stackbase vm
      (Nat.lt_of_le_of_lt (Nat.zero_le _) hc.this)
    unfold keptThis
    rw [← hzero]
    change ((boundEnv vm c args stackbase).heap.weakRef _).1 = _
    rw [boundEnv_same vm c args stackbase]
    rfl
  change (savedRegisters (started vm p c target args stackbase false) _)[i]? = _
  unfold savedRegisters
  rw [hsize, List.getElem?_map, List.getElem?_range (by omega)]
  apply congrArg some
  dsimp only
  by_cases hzero : i = 0
  · rw [if_pos hzero, if_pos hzero]
    exact hthis
  · rw [if_neg hzero, if_neg hzero, if_pos (by omega)]
    exact hstack

theorem started_arrays (hvar : c.variadic) (p : Ref) (target : Int) (stackbase : Nat)
    (tailcall : Bool) : (started vm p c target args stackbase tailcall).heap.arrays =
      vm.heap.arrays ++ [c.surplus vm args stackbase] := by
  change (boundEnv vm c args stackbase).heap.arrays = _
  rw [boundEnv_same vm c args stackbase]
  exact congrArg CallHeap.arrays (boundHeap_variadic vm.heap hvar _)

theorem weakRef_arrays {Heap : Type} (h : CallHeap Heap) (o : Object) :
    (h.weakRef o).2.arrays = h.arrays := by
  unfold CallHeap.weakRef
  split
  · split <;> rfl
  · rfl

/-- The slots that binding writes are in the stack when those of the default values are. -/
theorem boundSlots_lt (hc : c.Wellformed) (haccepts : c.Accepts args) {stackbase stacksize : Nat}
    (hargs : stackbase + args < stacksize)
    (hdefaults : ¬ c.variadic → args < c.nparameters → stackbase + c.nparameters ≤ stacksize) :
    ∀ m ∈ c.boundSlots args stackbase, m < stacksize := by
  intro m hm
  unfold boundSlots at hm
  rcases List.mem_append.mp hm with hm | hm
  · by_cases hvar : c.variadic
    · have hle := (accepts_variadic hc hvar).mp haccepts
      rw [if_pos hvar, List.mem_cons, List.mem_range'_1] at hm
      omega
    · rw [if_neg hvar, List.mem_range'_1] at hm
      have hroom := hdefaults hvar (by omega)
      omega
  · split at hm
    · obtain rfl := List.mem_singleton.mp hm
      omega
    · cases hm

/-- The last of them is that of the last parameter. -/
theorem defaults_of_boundSlots_lt {stackbase stacksize : Nat} (hvar : ¬ c.variadic)
    (hmissing : args < c.nparameters)
    (h : ∀ m ∈ c.boundSlots args stackbase, m < stacksize) :
    stackbase + c.nparameters ≤ stacksize := by
  have hmem : stackbase + c.nparameters - 1 ∈ c.boundSlots args stackbase := by
    unfold boundSlots
    rw [if_neg hvar]
    apply List.mem_append_left
    rw [List.mem_range'_1]
    omega
  have hlt := h _ hmem
  omega

theorem returnSlots_lt {stackbase stacksize : Nat} {target : Int}
    (htarget : c.function.bgenerator = true → (vm.stackbase : Int) + target < stacksize)
    (hsize : stackbase + c.function.stacksize.toInt.toNat + MIN_STACK_OVERHEAD ≤ stacksize) :
    ∀ m ∈ returnSlots vm c target stackbase, m < stacksize := by
  intro m hm
  unfold returnSlots at hm
  unfold MIN_STACK_OVERHEAD at hsize
  split at hm
  · rename_i hgen
    have hlt := htarget hgen
    rw [List.mem_cons, List.mem_append, List.mem_range'_1, List.mem_range'_1] at hm
    omega
  · cases hm

/-- The frame of a call that is no tail call. -/
theorem started_frame (vm : VM (rt.withReferences alive).Heap) (c : Closure) (args : Nat)
    {stackbase : Nat} (hcaller : vm.stackbase ≤ stackbase) (p : Ref) (target : Int) :
    ∃ ci : CallInfo, ci.target = target ∧ ci.root = false ∧ ci.closure = some p ∧ ci.ip = 0 ∧
      (started vm p c target args stackbase false).callstack = ci :: vm.callstack ∧
      (started vm p c target args stackbase false).stackbase - ci.prevstkbase = vm.stackbase := by
  refine ⟨({
    prevstkbase := stackbase - vm.stackbase
    prevtop := vm.top - vm.stackbase } : CallInfo).start p target, rfl, rfl, rfl, rfl, rfl, ?_⟩
  exact Nat.sub_sub_self hcaller

/-- The call of a generator function saves its frame where its result has a
place. -/
theorem startGenerator_started (hc : c.Wellformed) (haccepts : c.Accepts args)
    (hgen : c.function.bgenerator = true) {stackbase : Nat} (hcaller : vm.stackbase ≤ stackbase)
    (p : Ref) (target : Int) :
    (0 ≤ (vm.stackbase : Int) + target → ∃ vm',
      startGenerator (rt.withReferences alive) p target c.function.stacksize.toInt.toNat
        (started vm p c target args stackbase false) = .ok () vm' ∧
      (∀ i < c.nparameters, Holds vm vm' c args stackbase i) ∧
      (c.variadic → vm'.heap.arrays = vm.heap.arrays ++ [c.surplus vm args stackbase]) ∧
      vm'.stacksize = grownStack vm (stackbase + c.function.stacksize.toInt.toNat)) ∧
    (¬ 0 ≤ (vm.stackbase : Int) + target → ∃ vm',
      startGenerator (rt.withReferences alive) p target c.function.stacksize.toInt.toNat
        (started vm p c target args stackbase false) = .error .undefined vm') := by
  obtain ⟨ci, htarget, hroot, -, -, hstack, hbase⟩ := started_frame vm c args hcaller p target
  subst htarget
  constructor
  · intro hslot
    obtain ⟨vm', hstart, hgenerators, hsize, hheap, -⟩ :=
      startGenerator_ok hstack hroot (by rw [hbase]; exact hslot) p
        c.function.stacksize.toInt.toNat
    refine ⟨vm', hstart, ?_, ?_, hsize⟩
    · intro i hi
      unfold Holds
      dsimp only
      rw [if_pos hgen]
      refine ⟨_, ?_, rfl, newGenerator_stack hc haccepts p p ci.target stackbase ci hi⟩
      rw [hgenerators]
      change (boundEnv vm c args stackbase).generators ++ _ = _
      rw [boundEnv_same vm c args stackbase]
    · intro hvar
      rw [hheap]
      exact (weakRef_arrays _ _).trans (started_arrays hvar p ci.target stackbase false)
  · intro hslot
    exact startGenerator_undefined hstack hroot (by rw [hbase]; exact hslot) p
      c.function.stacksize.toInt.toNat

section

variable {target : Int} {stackbase : Nat} {tailcall : Bool}
  {vm' : VM (rt.withReferences alive).Heap}

/-- A call that succeeds lacks room for its default values at most. -/
theorem bindsArguments_of_ok (hc : c.Wellformed) (haccepts : c.Accepts args)
    (hargs : stackbase + args < vm.stacksize)
    (hok : StartCall (rt.withReferences alive) p target args stackbase tailcall vm = .ok () vm')
    (hholds : ∀ i < c.nparameters, Holds vm vm' c args stackbase i)
    (harrays : c.variadic → vm'.heap.arrays = vm.heap.arrays ++ [c.surplus vm args stackbase])
    (hreturn : ∀ m ∈ returnSlots vm c target stackbase, m < vm'.stacksize) :
    BindsArguments rt alive vm p c target args stackbase tailcall ↔
      (¬ c.variadic → args < c.nparameters → stackbase + c.nparameters ≤ vm.stacksize) := by
  unfold BindsArguments
  rw [hok]
  constructor
  · rintro ⟨-, hbound⟩ hvar hmissing
    exact defaults_of_boundSlots_lt hvar hmissing (hbound vm' rfl).2.2.1
  · intro hdefaults
    refine ⟨⟨fun _ => haccepts, fun _ => ⟨vm', rfl⟩⟩, ?_⟩
    rintro vm'' h
    cases h
    exact ⟨hholds, harrays, boundSlots_lt hc haccepts hargs hdefaults, hreturn⟩

/-- A call that fails does so because of the number of its arguments. -/
theorem bindsArguments_of_error {x : Stop}
    (herror : StartCall (rt.withReferences alive) p target args stackbase tailcall vm =
      .error x vm') :
    BindsArguments rt alive vm p c target args stackbase tailcall ↔ ¬ c.Accepts args := by
  unfold BindsArguments
  rw [herror]
  constructor
  · rintro ⟨hiff, -⟩ haccepts
    obtain ⟨_, h⟩ := hiff.mpr haccepts
    cases h
  · intro hrejects
    refine ⟨⟨?_, fun h => absurd h hrejects⟩, ?_⟩
    · rintro ⟨_, h⟩
      cases h
    · rintro _ h
      cases h

end

/-- **Calls bind their arguments, where there is room.** For a call whose arguments are on the
stack, a generator function's result going to a register below the end of it: the call succeeds
exactly for the numbers of arguments that fit the parameters, and binds them inside of the
stack, if and only if, when the number fits, the frame can be made, the default values that are
missing fit on the stack as it is before that, and the register is not below the stack. -/
theorem bindsArguments_iff (hp : vm.closures[p]? = some c) (hc : c.Wellformed) {stackbase : Nat}
    (hcaller : vm.stackbase ≤ stackbase) (hargs : stackbase + args < vm.stacksize) {target : Int}
    {tailcall : Bool} (htarget : c.function.bgenerator = true →
      (vm.stackbase : Int) + target < vm.stacksize ∧ tailcall = false) :
    BindsArguments rt alive vm p c target args stackbase tailcall ↔
      (c.Accepts args → Room vm (stackbase + c.function.stacksize.toInt.toNat) ∧
        (¬ c.variadic → args < c.nparameters → stackbase + c.nparameters ≤ vm.stacksize) ∧
        (c.function.bgenerator = true → 0 ≤ (vm.stackbase : Int) + target)) := by
  have hgrown := le_grownStack vm (stackbase + c.function.stacksize.toInt.toNat)
  have hsize : c.function.bgenerator = true → (vm.stackbase : Int) + target <
      grownStack vm (stackbase + c.function.stacksize.toInt.toNat) :=
    fun hgen => Int.lt_of_lt_of_le (htarget hgen).1 (Int.ofNat_le.mpr hgrown.1)
  have hreturn := returnSlots_lt hsize hgrown.2
  by_cases hfits : c.Accepts args ∧ Room vm (stackbase + c.function.stacksize.toInt.toNat)
  · obtain ⟨haccepts, hroom⟩ := hfits
    have hstart := StartCall_accepts hp hc haccepts hroom target tailcall
    unfold when at hstart
    by_cases hgen : c.function.bgenerator = true
    · obtain ⟨-, rfl⟩ := htarget hgen
      obtain ⟨hok, hundefined⟩ := startGenerator_started hc haccepts hgen hcaller p target
      rw [if_pos hgen] at hstart
      by_cases hslot : 0 ≤ (vm.stackbase : Int) + target
      · obtain ⟨vm', hrun, hholds, harrays, hvm'⟩ := hok hslot
        rw [bindsArguments_of_ok hc haccepts hargs (hstart.trans hrun) hholds harrays
          (by rw [hvm']; exact hreturn)]
        exact ⟨fun h _ => ⟨hroom, h, fun _ => hslot⟩, fun h => (h haccepts).2.1⟩
      · obtain ⟨vm', hrun⟩ := hundefined hslot
        rw [bindsArguments_of_error (hstart.trans hrun)]
        exact ⟨fun h => absurd haccepts h, fun h => absurd ((h haccepts).2.2 hgen) hslot⟩
    · rw [if_neg hgen] at hstart
      rw [bindsArguments_of_ok hc haccepts hargs hstart
        (fun i hi => started_holds hc haccepts (by simpa using hgen) p target stackbase tailcall hi)
        (fun hvar => started_arrays hvar p target stackbase tailcall) hreturn]
      exact ⟨fun h _ => ⟨hroom, h, fun h' => absurd h' hgen⟩, fun h => (h haccepts).2.1⟩
  · obtain ⟨err, vm', hrun⟩ := StartCall_rejects hp hc hfits target tailcall
    rw [bindsArguments_of_error hrun]
    exact ⟨fun h h' => absurd h' h, fun h haccepts => hfits ⟨haccepts, (h haccepts).1⟩⟩

/-- A closure of `n` parameters besides `this`, each with a default value. -/
def withDefaults (n : Nat) : Closure where
  function := {
    sourcename := .null, name := .null, stacksize := Int64.ofNat (n + 1), bgenerator := false
    varparams := 0, rettype := none, localvarinfos := [], lineinfos := [], literals := []
    parameters := List.replicate (n + 1) .null, functions := [], outervalues := []
    defaultparams := List.replicate n 0, instructions := [] }
  outervalues := []
  defaultparams := List.replicate n .null
  env := none

/-- A frame of two registers, with the room above it that `EnterFrame` makes sure of. -/
def callerOf (c : Closure) : VM (silentRuntime.withReferences fun _ _ => true).Heap where
  stack _ := .null
  stacksize := 2 + MIN_STACK_OVERHEAD
  stackbase := 0
  top := 2
  callstack := [{ prevstkbase := 0, prevtop := 0 }]
  etraps := []
  traps := 0
  openouters := []
  outers := []
  closures := [c]
  generators := []
  nmetamethodscall := 0
  heap := { rest := (), arrays := [], weakrefs := [] }

theorem bindsArguments_one : BindsArguments silentRuntime (fun _ _ => true)
      (callerOf (withDefaults 1)) 0 (withDefaults 1) 0 1 1 false ↔
    ((withDefaults 1).Accepts 1 → Room (callerOf (withDefaults 1))
        (1 + (withDefaults 1).function.stacksize.toInt.toNat) ∧
      (¬ (withDefaults 1).variadic → 1 < (withDefaults 1).nparameters →
        1 + (withDefaults 1).nparameters ≤ (callerOf (withDefaults 1)).stacksize) ∧
      ((withDefaults 1).function.bgenerator = true →
        0 ≤ ((callerOf (withDefaults 1)).stackbase : Int) + 0)) :=
  bindsArguments_iff rfl ⟨rfl, by decide, by decide, by decide⟩ (by decide) (by decide)
    (fun h => by cases h)

/-- The default values of nineteen parameters do not fit into the room above the frame. -/
theorem not_bindsArguments_everywhere : ¬ ∀ (rt : Runtime) (alive : rt.Heap → Object → Bool)
    (vm : VM (rt.withReferences alive).Heap) (p : Ref) (c : Closure) (target : Int)
    (args stackbase : Nat) (tailcall : Bool),
    vm.closures[p]? = some c → c.Wellformed → vm.stackbase ≤ stackbase →
    stackbase + args < vm.stacksize →
    (c.function.bgenerator = true →
      (vm.stackbase : Int) + target < vm.stacksize ∧ tailcall = false) →
    BindsArguments rt alive vm p c target args stackbase tailcall := by
  intro h
  have hc : (withDefaults 19).Wellformed := ⟨rfl, by decide, by decide, by decide⟩
  have hbinds := h silentRuntime (fun _ _ => true) (callerOf (withDefaults 19)) 0
    (withDefaults 19) 0 1 1 false rfl hc (by decide) (by decide) (fun h => by cases h)
  have hstart : StartCall (silentRuntime.withReferences fun _ _ => true) 0 0 1 1 false
      (callerOf (withDefaults 19)) = _ :=
    StartCall_accepts rfl hc (by decide) (.inr rfl) 0 false
  have hslots := (hbinds.2 _ hstart).2.2.1
  have hroom := defaults_of_boundSlots_lt (by decide) (by decide) hslots
  exact absurd hroom (by decide)

end VM

end GameScript
