import GameScript.VM.Threads

/-!
One thread: the layers of its frames, with the number of calls of `Execute` and of native functions
it is in; what a suspension leaves of it and what `GS_wakeupvm` makes of that.
-/

namespace GameScript.Threads

/-! ### Frames -/

/-- The frames of a thread, seen from the top. Those of closures lie over a first one, those of
native functions over any frame. -/
inductive Layered : List CallInfo → Prop where
  | nil : Layered []
  | root {ci callsstack} : ci.root = true → ci.native = false → Layered callsstack →
      Layered (ci :: callsstack)
  | script {ci below callsstack} : ci.root = false → ci.native = false → below.native = false →
      Layered (below :: callsstack) → Layered (ci :: below :: callsstack)
  | native {ci below callsstack} : ci.root = false → ci.native = true →
      Layered (below :: callsstack) → Layered (ci :: below :: callsstack)

theorem Layered.tail {ci : CallInfo} {callsstack : List CallInfo}
    (h : Layered (ci :: callsstack)) : Layered callsstack := by
  cases h with
  | root _ _ h => exact h
  | script _ _ _ h => exact h
  | native _ _ h => exact h

/-- The frames of the innermost `Execute`, when no native function is on top. -/
theorem Layered.split {callsstack : List CallInfo} (h : Layered callsstack) (hne : callsstack ≠ [])
    (htop : ∀ ci ∈ callsstack.head?, ci.native = false) :
    ∃ frames first below, callsstack = frames ++ first :: below ∧
      (∀ ci ∈ frames, ci.native = false ∧ ci.root = false) ∧ first.native = false ∧
      first.root = true ∧ Layered below := by
  induction h with
  | nil => exact absurd rfl hne
  | @root ci callsstack hroot hnative h _ =>
      exact ⟨[], ci, callsstack, rfl, by simp, hnative, hroot, h⟩
  | @script ci below callsstack hroot hnative hbelow h ih =>
      obtain ⟨frames, first, rest, heq, hframes, hfirst⟩ :=
        ih (List.cons_ne_nil _ _) (by simpa using hbelow)
      refine ⟨ci :: frames, first, rest, by rw [heq]; rfl, ?_, hfirst⟩
      intro c hc
      rcases List.mem_cons.mp hc with rfl | hc
      · exact ⟨hnative, hroot⟩
      · exact hframes c hc
  | native hroot hnative h ih => simp [hnative] at htop

/-- Script frames above the first frame of an Execute belong to it. -/
theorem Layered.append {frames below : List CallInfo} {first : CallInfo}
    (hframes : ∀ ci ∈ frames, ci.native = false ∧ ci.root = false) (hnative : first.native = false)
    (hroot : first.root = true) (h : Layered below) : Layered (frames ++ first :: below) := by
  induction frames with
  | nil => exact .root hroot hnative h
  | cons ci frames ih =>
      have hci : ci.native = false ∧ ci.root = false := hframes ci List.mem_cons_self
      have hrest : Layered (frames ++ first :: below) :=
        ih fun c hc => hframes c (List.mem_cons_of_mem _ hc)
      cases frames with
      | nil => exact .script hci.2 hci.1 hnative hrest
      | cons c frames =>
          have hc : c.native = false := (hframes c (by simp)).1
          exact .script hci.2 hci.1 hc hrest

/-- The number of calls of `Execute` that frames belong to. -/
def executes (callsstack : List CallInfo) : Nat := callsstack.countP CallInfo.root

def natives (callsstack : List CallInfo) : Nat := callsstack.countP CallInfo.native

@[simp] theorem executes_cons (ci : CallInfo) (l : List CallInfo) :
    executes (ci :: l) = executes l + if ci.root = true then 1 else 0 := List.countP_cons

@[simp] theorem natives_cons (ci : CallInfo) (l : List CallInfo) :
    natives (ci :: l) = natives l + if ci.native = true then 1 else 0 := List.countP_cons

theorem executes_append {frames : List CallInfo}
    (hframes : ∀ ci ∈ frames, ci.native = false ∧ ci.root = false) (l : List CallInfo) :
    executes (frames ++ l) = executes l := by
  have hzero : frames.countP CallInfo.root = 0 := by
    rw [List.countP_eq_zero]
    intro ci hci
    simp [(hframes ci hci).2]
  rw [executes, List.countP_append, hzero, Nat.zero_add, executes]

theorem natives_append {frames : List CallInfo}
    (hframes : ∀ ci ∈ frames, ci.native = false ∧ ci.root = false) (l : List CallInfo) :
    natives (frames ++ l) = natives l := by
  have hzero : frames.countP CallInfo.native = 0 := by
    rw [List.countP_eq_zero]
    intro ci hci
    simp [(hframes ci hci).1]
  rw [natives, List.countP_append, hzero, Nat.zero_add, natives]

/-- No frame is without a first one below it. -/
theorem Layered.eq_nil {callsstack : List CallInfo} (h : Layered callsstack)
    (hzero : executes callsstack = 0) : callsstack = [] := by
  induction h with
  | nil => rfl
  | root hroot _ _ => simp [hroot] at hzero
  | script hroot _ _ _ ih => exact absurd (ih (by simpa [hroot] using hzero)) (by simp)
  | native hroot _ _ ih => exact absurd (ih (by simpa [hroot] using hzero)) (by simp)

/-- A thread that is not suspended and is in `n` nested calls of `Execute`. -/
structure Executing (c : Control) (n : Nat) : Prop where
  running : c.suspended = false
  layered : Layered c.callsstack
  executes : executes c.callsstack = n
  nnativecalls : c.nnativecalls = n + natives c.callsstack

/-- A thread in a function on threads that an instruction with this destination has called. -/
structure Waiting (c : Control) (dest : Option Nat) : Prop where
  native : c.inNative = true
  instruction : dest.isSome = true → ∀ ci ∈ c.callsstack.tail.head?, ci.native = false

section

variable {c : Control} {vm vm' : VM} {n : Nat}

theorem Executing.callsstack_ne (h : Executing c (n + 1)) : c.callsstack ≠ [] := by
  intro hnil
  have hexecutes : Threads.executes c.callsstack = n + 1 := h.executes
  rw [hnil] at hexecutes
  exact Nat.succ_ne_zero n hexecutes.symm

theorem Executing.callsstack_nil (h : Executing c 0) : c.callsstack = [] :=
  h.layered.eq_nil h.executes

theorem Executing.getvmstate_running (h : Executing c (n + 1)) : c.GS_getvmstate = .running := by
  simp [Control.GS_getvmstate, h.running, h.callsstack_ne]

theorem Executing.getvmstate_idle (h : Executing c 0) : c.GS_getvmstate = .idle := by
  simp [Control.GS_getvmstate, h.running, h.callsstack_nil]

theorem executing_default : Executing {} 0 where
  running := rfl
  layered := .nil
  executes := rfl
  nnativecalls := rfl

/-! ### What leaves the frames alone -/

@[simp] theorem setSlot_control (i : Nat) (v : Object) :
    (vm.setSlot i v).toControl = vm.toControl := rfl

@[simp] theorem push_control (v : Object) : (vm.Push v).toControl = vm.toControl := rfl

@[simp] theorem pop_control (n : Nat) : (vm.Pop n).toControl = vm.toControl := by
  induction n generalizing vm with
  | zero => rfl
  | succ n ih => exact ih

@[simp] theorem throwerror_control (err : String) :
    (vm.GS_throwerror err).toControl = vm.toControl := rfl

@[simp] theorem throwobject_control : vm.GS_throwobject.toControl = vm.toControl := rfl

@[simp] theorem pushAll_control (vs : List Object) :
    (vs.foldl VM.Push vm).toControl = vm.toControl := by
  induction vs generalizing vm with
  | nil => rfl
  | cons v vs ih => exact ih

@[simp] theorem settop_control (newtop : Nat) : (vm.GS_settop newtop).toControl = vm.toControl := by
  unfold VM.GS_settop
  dsimp only
  split
  · exact pop_control _
  · exact pushAll_control _

/-! ### Entering and leaving native functions -/

/-- A native function runs within the Execute that calls it. -/
theorem Executing.enterNative (h : Executing vm.toControl (n + 1)) (p : Ref) (nargs newbase : Nat)
    (target : Int) : Executing (vm.enterNative p nargs newbase target).toControl (n + 1) := by
  have ⟨hrunning, hlayered, hexecutes, hnatives⟩ := h
  cases hstack : vm.callsstack with
  | nil => exact absurd hstack h.callsstack_ne
  | cons ci callsstack =>
      rw [hstack] at hlayered hexecutes hnatives
      constructor
      · exact hrunning
      · simp only [VM.enterNative, VM.EnterFrame, hstack]
        exact .native rfl rfl hlayered
      · simpa [VM.enterNative, VM.EnterFrame, hstack] using hexecutes
      · simp only [VM.enterNative, VM.EnterFrame, hstack, hnatives, natives_cons]
        exact Nat.add_assoc _ _ 1

/-- What enters a native function waits in it. -/
theorem waiting_enterNative (dest : Option Nat) (h : dest.isSome = true → vm.inNative = false)
    (p : Ref) (nargs newbase : Nat) (target : Int) :
    Waiting (vm.enterNative p nargs newbase target).toControl dest := by
  constructor
  · rfl
  · intro hdest ci hci
    have hnative : vm.callsstack.head?.any CallInfo.native = false := h hdest
    change ci ∈ vm.callsstack.head? at hci
    rw [Option.mem_def] at hci
    simpa [hci] using hnative

/-- What is left of a thread when a native function ends depends on its frames only. -/
theorem leaveNative_congr (h : vm.toControl = vm'.toControl) :
    vm.leaveNative.toControl = vm'.leaveNative.toControl := by
  obtain ⟨c, stack, top, lasterror, roottable⟩ := vm
  obtain ⟨c', stack', top', lasterror', roottable'⟩ := vm'
  cases h
  unfold VM.leaveNative VM.LeaveFrame
  cases c.callsstack <;> rfl

theorem leaveFrame_callsstack : vm.LeaveFrame.callsstack = vm.callsstack.tail := by
  unfold VM.LeaveFrame
  split
  · next h => simp [h]
  · next h => simp [h]

theorem leaveFrame_suspended : vm.LeaveFrame.suspended = vm.suspended := by
  unfold VM.LeaveFrame
  split <;> rfl

theorem leaveFrame_nnativecalls : vm.LeaveFrame.nnativecalls = vm.nnativecalls := by
  unfold VM.LeaveFrame
  split <;> rfl

/-- The end of a native function leaves the Execute that called it. -/
theorem Executing.leaveNative (h : Executing vm.toControl n) (hnative : vm.inNative = true) :
    Executing vm.leaveNative.toControl n := by
  obtain ⟨hrunning, hlayered, hexecutes, hnatives⟩ := h
  cases hstack : vm.callsstack with
  | nil => simp [Control.inNative, hstack] at hnative
  | cons ci callsstack =>
      have hci : ci.native = true := by simpa [Control.inNative, hstack] using hnative
      have hroot : ci.root = false := by
        rw [hstack] at hlayered
        cases hlayered with
        | root _ hnot _ => simp [hci] at hnot
        | script hroot _ _ _ => exact hroot
        | native hroot _ _ => exact hroot
      have htail : vm.leaveNative.callsstack = callsstack := by
        change vm.LeaveFrame.callsstack = callsstack
        rw [leaveFrame_callsstack, hstack]
        rfl
      rw [hstack] at hlayered hexecutes hnatives
      constructor
      · exact (leaveFrame_suspended).trans hrunning
      · rw [htail]
        exact hlayered.tail
      · rw [htail]
        simpa [hroot] using hexecutes
      · rw [htail]
        change vm.LeaveFrame.nnativecalls - 1 = _
        rw [leaveFrame_nnativecalls, hnatives, natives_cons, if_pos hci]
        omega

/-! ### Calls, returns and errors -/

/-- A call from a native function starts another Execute. -/
theorem Executing.call_started {rt : Runtime} {closure : Object} {nparams stackbase : Nat}
    (h : Executing vm.toControl n)
    (hcall : vm.Call rt closure nparams stackbase = (vm', .started)) :
    Executing vm'.toControl (n + 1) := by
  obtain ⟨hrunning, hlayered, hexecutes, hnatives⟩ := h
  unfold VM.Call at hcall
  split at hcall
  · cases hcall
  · cases hcall
  · split at hcall
    · cases hcall
    · cases hcall
      constructor
      · exact hrunning
      · exact .root rfl rfl hlayered
      · exact (executes_cons _ _).trans (congrArg (· + 1) hexecutes)
      · simp only [VM.EnterFrame, VM.setSlots, natives_cons, hnatives]
        exact Nat.add_right_comm n _ 1

/-- A call that starts no Execute leaves the frames as they were. -/
theorem call_control {rt : Runtime} {closure : Object} {nparams stackbase : Nat} {o : Outcome}
    (hcall : vm.Call rt closure nparams stackbase = (vm', o)) (ho : o ≠ .started) :
    vm'.toControl = vm.toControl := by
  unfold VM.Call at hcall
  split at hcall
  · cases hcall
    rfl
  · cases hcall
    rfl
  · split at hcall
    · cases hcall
      rfl
    · cases hcall
      exact absurd rfl ho

/-- A call that fails leaves the stack as it is. -/
theorem call_failed {rt : Runtime} {closure : Object} {nparams stackbase : Nat}
    (hcall : vm.Call rt closure nparams stackbase = (vm', .failed)) :
    vm'.top = vm.top ∧ vm'.stack = vm.stack := by
  unfold VM.Call at hcall
  split at hcall
  · cases hcall
    exact ⟨rfl, rfl⟩
  · cases hcall
  · split at hcall
    · cases hcall
      exact ⟨rfl, rfl⟩
    · cases hcall

theorem call_error {rt : Runtime} {closure err : Object} {nparams stackbase : Nat}
    (h : rt.callee closure (vm.args stackbase nparams) = .error err) :
    vm.Call rt closure nparams stackbase = ({ vm with lasterror := err }, .failed) := by
  rw [VM.Call, h]

/-- The first frame of the innermost `Execute` and those over it. -/
theorem Executing.split (h : Executing vm.toControl (n + 1)) (hnative : vm.inNative = false) :
    ∃ frames first, vm.callsstack = frames ++ first :: vm.below ∧
      (∀ ci ∈ frames, ci.native = false ∧ ci.root = false) ∧ first.native = false ∧
      first.root = true ∧ Layered vm.below := by
  have htop : ∀ ci ∈ vm.callsstack.head?, ci.native = false := by
    intro ci hci
    rw [Option.mem_def] at hci
    simpa [Control.inNative, hci] using hnative
  obtain ⟨frames, first, below, heq, hframes, hfirst, hroot, hbelow⟩ :=
    h.layered.split h.callsstack_ne htop
  have hdrop : vm.callsstack.dropWhile (fun ci => !ci.root) = first :: below := by
    rw [heq, List.dropWhile_append_of_pos fun ci hci => by simp [(hframes ci hci).2]]
    exact List.dropWhile_cons_of_neg (by simp [hroot])
  have hvm : vm.below = below := by
    rw [VM.below, hdrop]
    rfl
  rw [hvm]
  exact ⟨frames, first, heq, hframes, hfirst, hroot, hbelow⟩

/-- Below the frames of the innermost Execute there is one Execute less. -/
theorem Executing.below (h : Executing vm.toControl (n + 1)) (hnative : vm.inNative = false) :
    Threads.executes vm.below = n ∧ vm.nnativecalls = n + 1 + natives vm.below ∧
      Layered vm.below := by
  obtain ⟨frames, first, heq, hframes, hfirst, hroot, hbelow⟩ := h.split hnative
  have hexecutes : Threads.executes vm.callsstack = n + 1 := h.executes
  have hnatives : vm.nnativecalls = n + 1 + natives vm.callsstack := h.nnativecalls
  rw [heq, executes_append hframes, executes_cons, if_pos hroot] at hexecutes
  rw [heq, natives_append hframes, natives_cons, hfirst] at hnatives
  exact ⟨Nat.add_right_cancel hexecutes, hnatives, hbelow⟩

/-- Script code changes only the frames of its own Execute. -/
theorem Executing.runScript {code : Script} (h : Executing vm.toControl (n + 1))
    (hnative : vm.inNative = false) (hcode : code.Valid) :
    Executing (vm.runScript code).toControl (n + 1) := by
  obtain ⟨hframes, hfirst, hroot⟩ := hcode
  obtain ⟨hexecutes, hnatives, hlayered⟩ := h.below hnative
  constructor
  · exact h.running
  · exact hlayered.append hframes hfirst hroot
  · simp only [VM.runScript]
    rw [executes_append hframes, executes_cons, if_pos hroot, hexecutes]
  · simp only [VM.runScript]
    rw [natives_append hframes, natives_cons, hfirst]
    exact hnatives

/-- The first frame of the innermost `Execute` is left. -/
theorem Executing.leaveFrame {ci : CallInfo} (h : Executing vm.toControl (n + 1))
    (hci : vm.callsstack.head? = some ci) (hroot : ci.root = true) :
    Executing vm.LeaveFrame.autoDec.toControl n := by
  obtain ⟨hrunning, hlayered, hexecutes, hnatives⟩ := h
  obtain ⟨callsstack, hstack⟩ : ∃ callsstack, vm.callsstack = ci :: callsstack := by
    cases hstack : vm.callsstack with
    | nil => simp [hstack] at hci
    | cons c callsstack =>
        have : c = ci := by simpa [hstack] using hci
        exact ⟨callsstack, by rw [this]⟩
  have htail : vm.LeaveFrame.callsstack = callsstack := by
    rw [leaveFrame_callsstack, hstack]
    rfl
  rw [hstack] at hlayered hexecutes hnatives
  have hnative : ci.native = false := by
    cases hlayered with
    | root _ hnative _ => exact hnative
    | script hnot _ _ _ => simp [hroot] at hnot
    | native hnot _ _ => simp [hroot] at hnot
  constructor
  · exact leaveFrame_suspended.trans hrunning
  · exact htail ▸ hlayered.tail
  · change Threads.executes vm.LeaveFrame.callsstack = n
    rw [htail]
    simpa [hroot] using hexecutes
  · change vm.LeaveFrame.nnativecalls - 1 = n + natives vm.LeaveFrame.callsstack
    rw [htail, leaveFrame_nnativecalls, hnatives, natives_cons, hnative]
    simp only [Bool.false_eq_true, if_false]
    omega

/-- What an error leaves: the frames below the one that catches it and this, or those below the
innermost `Execute`. -/
theorem unwind_callsstack {currerror : Object} {caught : Bool} :
    ∀ {frames : List CallInfo} {first : CallInfo} {below : List CallInfo} {vm : VM},
      vm.callsstack = frames ++ first :: below →
      (∀ ci ∈ frames, ci.native = false ∧ ci.root = false) → first.native = false →
      first.root = true →
      vm.unwind currerror (frames ++ first :: below) = some (vm', caught) →
      vm'.suspended = vm.suspended ∧ vm'.nnativecalls = vm.nnativecalls ∧
        if caught then ∃ frames' first', vm'.callsstack = frames' ++ first' :: below ∧
          (∀ ci ∈ frames', ci.native = false ∧ ci.root = false) ∧ first'.native = false ∧
          first'.root = true
        else vm'.callsstack = below
  | [], first, below, vm, hstack, hframes, hfirst, hroot, hunwind => by
      simp only [List.nil_append, VM.unwind] at hunwind hstack
      split at hunwind
      · split at hunwind
        · cases hunwind
        · cases hunwind
          exact ⟨rfl, rfl, [], _, rfl, by simp, hfirst, hroot⟩
      · cases hunwind
        refine ⟨leaveFrame_suspended, leaveFrame_nnativecalls, ?_⟩
        simp [leaveFrame_callsstack, hstack]
  | ci :: frames, first, below, vm, hstack, hframes, hfirst, hroot, hunwind => by
      have hci : ci.native = false ∧ ci.root = false := hframes ci List.mem_cons_self
      have hrest : ∀ c ∈ frames, c.native = false ∧ c.root = false :=
        fun c hc => hframes c (List.mem_cons_of_mem _ hc)
      simp only [List.cons_append, VM.unwind] at hunwind
      split at hunwind
      · split at hunwind
        · cases hunwind
        · cases hunwind
          refine ⟨rfl, rfl, { ci with ip := _, etraps := _ } :: frames, first, rfl, ?_, hfirst, hroot⟩
          intro c hc
          rcases List.mem_cons.mp hc with rfl | hc
          · exact hci
          · exact hrest c hc
      · rw [if_neg (by simp [hci.2])] at hunwind
        have hleft : vm.LeaveFrame.callsstack = frames ++ first :: below := by
          rw [leaveFrame_callsstack, hstack]
          rfl
        have ih := unwind_callsstack hleft hrest hfirst hroot hunwind
        rw [leaveFrame_suspended, leaveFrame_nnativecalls] at ih
        exact ih

/-- An error that is caught leaves the Execute running. -/
theorem Executing.unwind_caught {currerror : Object} (h : Executing vm.toControl (n + 1))
    (hnative : vm.inNative = false)
    (hunwind : vm.unwind currerror vm.callsstack = some (vm', true)) :
    Executing vm'.toControl (n + 1) := by
  obtain ⟨frames, first, heq, hframes, hfirst, hroot, -⟩ := h.split hnative
  obtain ⟨hexecutes, hnatives, hlayered⟩ := h.below hnative
  rw [heq] at hunwind
  obtain ⟨hsuspended, hcalls, frames', first', heq', hframes', hfirst', hroot'⟩ :=
    unwind_callsstack heq hframes hfirst hroot hunwind
  constructor
  · exact hsuspended.trans h.running
  · rw [heq']
    exact hlayered.append hframes' hfirst' hroot'
  · rw [heq', executes_append hframes', executes_cons, if_pos hroot', hexecutes]
  · rw [heq', natives_append hframes', natives_cons, hfirst', hcalls]
    exact hnatives

/-- An error that is not caught leaves all the frames of its Execute. -/
theorem Executing.unwind_left {currerror : Object} (h : Executing vm.toControl (n + 1))
    (hnative : vm.inNative = false)
    (hunwind : vm.unwind currerror vm.callsstack = some (vm', false)) :
    Executing vm'.autoDec.toControl n := by
  obtain ⟨frames, first, heq, hframes, hfirst, hroot, -⟩ := h.split hnative
  obtain ⟨hexecutes, hnatives, hlayered⟩ := h.below hnative
  rw [heq] at hunwind
  obtain ⟨hsuspended, hcalls, heq'⟩ := unwind_callsstack heq hframes hfirst hroot hunwind
  have heq' : vm'.callsstack = vm.below := heq'
  constructor
  · exact hsuspended.trans h.running
  · exact heq'.symm ▸ hlayered
  · exact heq'.symm ▸ hexecutes
  · change vm'.nnativecalls - 1 = n + natives vm'.callsstack
    rw [hcalls, hnatives, heq']
    omega

/-! ### The stack -/

@[simp] theorem push_top (v : Object) : (vm.Push v).top = vm.top + 1 := rfl

theorem push_slot {v : Object} {i : Nat} (h : i < vm.top) : (vm.Push v).stack i = vm.stack i :=
  Function.update_of_ne (Nat.ne_of_lt h) _ _

theorem push_getUp (v : Object) : (vm.Push v).GetUp 1 = v := Function.update_self _ _ _

@[simp] theorem pop_top (n : Nat) : (vm.Pop n).top = vm.top - n := by
  induction n generalizing vm with
  | zero => rfl
  | succ n ih =>
      refine ih.trans ?_
      change vm.top - 1 - n = vm.top - (n + 1)
      omega

theorem pop_slot {n i : Nat} (h : i < vm.top - n) : (vm.Pop n).stack i = vm.stack i := by
  induction n generalizing vm with
  | zero => rfl
  | succ n ih =>
      have hi : i < vm.top - 1 - n := by omega
      refine (ih hi).trans (Function.update_of_ne ?_ _ _)
      omega

theorem pushAll_top (vs : List Object) : (vs.foldl VM.Push vm).top = vm.top + vs.length := by
  induction vs generalizing vm with
  | nil => rfl
  | cons v vs ih =>
      refine ih.trans ?_
      simp only [push_top, List.length_cons]
      omega

theorem pushAll_slot {vs : List Object} {i : Nat} (h : i < vm.top) :
    (vs.foldl VM.Push vm).stack i = vm.stack i := by
  induction vs generalizing vm with
  | nil => rfl
  | cons v vs ih => exact (ih (Nat.lt_succ_of_lt h)).trans (push_slot h)

/-- A thread is as another state of it, whatever lies above its stack. A variable that a closure
has captured may have got another value. -/
structure Same (vm vm' : VM) : Prop where
  control : vm.toControl = vm'.toControl
  top : vm.top = vm'.top
  slot : ∀ i < vm.top, i ∉ vm.openouters → vm.stack i = vm'.stack i

theorem Same.refl (vm : VM) : Same vm vm := ⟨rfl, rfl, fun _ _ _ => rfl⟩

theorem Same.trans {vm₁ vm₂ vm₃ : VM} (h : Same vm₁ vm₂) (h' : Same vm₂ vm₃) : Same vm₁ vm₃ where
  control := h.control.trans h'.control
  top := h.top.trans h'.top
  slot i hi hfree := by
    have hfree' : i ∉ vm₂.openouters := h.control ▸ hfree
    exact (h.slot i hi hfree).trans (h'.slot i (h.top ▸ hi) hfree')

/-- What has been put on a stack is taken off. -/
theorem same_pop (hcontrol : vm'.toControl = vm.toControl) (htop : vm'.top = vm.top + n)
    (hslot : ∀ i < vm.top, vm'.stack i = vm.stack i) : Same (vm'.Pop n) vm where
  control := (pop_control n).trans hcontrol
  top := by
    rw [pop_top, htop]
    exact Nat.add_sub_cancel _ _
  slot i hi _ := by
    rw [pop_top] at hi
    refine (pop_slot hi).trans (hslot i ?_)
    omega

theorem same_throwobject (vm : VM) (err : Object) : Same (vm.Push err).GS_throwobject vm :=
  same_pop rfl rfl fun _ hi => push_slot hi

/-! ### Suspended threads -/

/-- What a suspension leaves: the only `Execute` of the thread has come back. -/
structure Suspension.Sound (s : Suspension) : Prop where
  suspended : s.vm.suspended = true
  layered : Layered s.vm.callsstack
  executes : Threads.executes s.vm.callsstack = 1
  natives : Threads.natives s.vm.callsstack = 0
  nnativecalls : s.vm.nnativecalls = 0
  root : ∀ ci ∈ s.vm.callsstack.head?, ci.root = s.vm.suspended_root
  target : s.vm.suspended_target = sarg0 s.register
  lt : s.register < 256
  register : s.register = 0xFF ∨ s.vm.stackbase + s.register < s.vm.top

/-- A thread goes on right after its suspension, with `value` in the register that waits for the
value of `suspend`. -/
structure Resumed (s : Suspension) (value : Object) (vm : VM) : Prop where
  control : vm.toControl = { s.vm.toControl with suspended := false, nnativecalls := 1 }
  top : vm.top = s.vm.top
  value : s.register ≠ 0xFF → vm.stack (vm.stackbase + s.register) = value
  slot : ∀ i < vm.top, i ∉ vm.openouters →
    s.register = 0xFF ∨ i ≠ vm.stackbase + s.register → vm.stack i = s.vm.stack i

/-- A thread that is woken up runs in one Execute. -/
theorem Resumed.executing {s : Suspension} {value : Object} (hs : s.Sound)
    (h : Resumed s value vm) : Executing vm.toControl 1 := by
  rw [h.control]
  constructor
  · rfl
  · exact hs.layered
  · exact hs.executes
  · simp [hs.natives]

/-- A thread that is woken up is not in a native function. -/
theorem Resumed.not_inNative {s : Suspension} {value : Object} (hs : s.Sound)
    (h : Resumed s value vm) : vm.inNative = false := by
  have hnatives : s.vm.callsstack.countP CallInfo.native = 0 := hs.natives
  rw [List.countP_eq_zero] at hnatives
  rw [h.control, Control.inNative]
  cases hhead : s.vm.callsstack.head? with
  | none => rfl
  | some ci => simpa using hnatives ci (List.mem_of_mem_head? hhead)

/-- The register of an instruction that `sarg0` reads as it is meant. -/
theorem sarg0_cases {arg0 : Nat} (hlt : arg0 < 256) (h : -1 ≤ sarg0 arg0) :
    (arg0 = 0xFF ∧ sarg0 arg0 = -1) ∨ (arg0 ≠ 0xFF ∧ sarg0 arg0 = arg0) := by
  unfold sarg0 at h ⊢
  split at h <;> split <;> omega

/-- The frames that `ET_RESUME_VM` runs are those of the suspension. -/
theorem Suspension.Sound.resume_callsstack {s : Suspension} (hs : s.Sound) :
    (s.vm.callsstack.modifyHead fun ci => { ci with root := s.vm.suspended_root }) =
      s.vm.callsstack := by
  have hroot := hs.root
  cases hstack : s.vm.callsstack with
  | nil => rfl
  | cons ci callsstack =>
      have hci : ci.root = s.vm.suspended_root := hroot ci (by simp [hstack])
      simp [← hci]

/-- The value is where the suspension waits for it, and the stack is as it was. -/
theorem takeValue_spec {s : Suspension} {wakeupret : Bool} (hs : s.Sound)
    (hcontrol : vm.toControl = s.vm.toControl)
    (htop : vm.top = s.vm.top + if wakeupret then 1 else 0)
    (htarget : -1 ≤ s.vm.suspended_target) :
    ∃ vm', vm.takeValue wakeupret = some vm' ∧ vm'.toControl = vm.toControl ∧
      vm'.top = s.vm.top ∧ vm'.lasterror = vm.lasterror ∧
      (s.register ≠ 0xFF →
        vm'.stack (vm.stackbase + s.register) = if wakeupret then vm.GetUp 1 else .null) ∧
      ∀ i < s.vm.top, s.register = 0xFF ∨ i ≠ vm.stackbase + s.register →
        vm'.stack i = vm.stack i := by
  have hvm : vm.suspended_target = sarg0 s.register := by rw [hcontrol, hs.target]
  have hbase : vm.stackbase = s.vm.stackbase := by rw [hcontrol]
  have hpop : ∀ vm₁ : VM, vm₁.top = vm.top →
      (if wakeupret then vm₁.Pop 1 else vm₁).top = s.vm.top ∧
        ∀ i < s.vm.top, (if wakeupret then vm₁.Pop 1 else vm₁).stack i = vm₁.stack i := by
    intro vm₁ htop₁
    cases wakeupret with
    | false => exact ⟨htop₁.trans htop, fun _ _ => rfl⟩
    | true =>
        have htop₁ : vm₁.top = s.vm.top + 1 := htop₁.trans htop
        refine ⟨by rw [if_pos rfl, pop_top, htop₁]; rfl, fun i hi => ?_⟩
        exact pop_slot (by omega)
  have hpopControl : ∀ vm₁ : VM, (if wakeupret then vm₁.Pop 1 else vm₁).toControl = vm₁.toControl :=
    fun vm₁ => by cases wakeupret <;> rfl
  have hpopError : ∀ vm₁ : VM, (if wakeupret then vm₁.Pop 1 else vm₁).lasterror = vm₁.lasterror :=
    fun vm₁ => by cases wakeupret <;> rfl
  rw [hs.target] at htarget
  unfold VM.takeValue
  rw [hvm]
  rcases sarg0_cases hs.lt htarget with ⟨hnone, hsarg⟩ | ⟨hsome, hsarg⟩
  · -- no register waits for the value
    refine ⟨if wakeupret then vm.Pop 1 else vm, by simp [hsarg], hpopControl vm, (hpop vm rfl).1,
      hpopError vm, fun h => absurd hnone h, fun i hi _ => (hpop vm rfl).2 i hi⟩
  · have hlt : vm.stackbase + s.register < s.vm.top := hbase ▸ hs.register.resolve_left hsome
    let vm₁ := vm.setSlot (vm.stackbase + s.register) (if wakeupret then vm.GetUp 1 else .null)
    have hset : vm.setAt (vm.stackbase + s.register) (if wakeupret then vm.GetUp 1 else .null) =
        some vm₁ := by
      rw [VM.setAt, if_pos (by omega)]
      rfl
    have hne : (s.register : Int) ≠ -1 := by omega
    refine ⟨if wakeupret then vm₁.Pop 1 else vm₁, ?_, hpopControl vm₁, (hpop vm₁ rfl).1,
      hpopError vm₁, fun _ => ?_, fun i hi hfree => ?_⟩
    · simp only [hsarg, ne_eq, hne, not_false_eq_true, if_true, hset, Option.map_some]
    · exact ((hpop vm₁ rfl).2 _ hlt).trans (Function.update_self _ _ _)
    · refine ((hpop vm₁ rfl).2 i hi).trans (Function.update_of_ne ?_ _ _)
      exact hfree.resolve_left hsome

/-- `GS_wakeupvm` on a thread that is as its suspension has left it, but for the value on top of its
stack if it is given one. -/
theorem wakeupvm_started {s : Suspension} (wakeupret : Bool) (hs : s.Sound)
    (hcontrol : vm.toControl = s.vm.toControl)
    (htop : vm.top = s.vm.top + if wakeupret then 1 else 0)
    (hslot : ∀ i < s.vm.top, i ∉ s.vm.openouters → vm.stack i = s.vm.stack i)
    (htarget : -1 ≤ s.vm.suspended_target) :
    ∃ vm', vm.GS_wakeupvm wakeupret = some (vm', .started) ∧
      Resumed s (if wakeupret then vm.GetUp 1 else .null) vm' ∧
      vm'.lasterror = vm.lasterror := by
  obtain ⟨vm₁, htake, hcontrol₁, htop₁, herror, hvalue, hslot₁⟩ :=
    takeValue_spec hs hcontrol htop htarget
  have hcontrol₁ : vm₁.toControl = s.vm.toControl := hcontrol₁.trans hcontrol
  have hsuspended : vm.suspended = true := by rw [hcontrol, hs.suspended]
  have hzero : vm₁.nnativecalls = 0 := by rw [hcontrol₁, hs.nnativecalls]
  have hbase : vm.stackbase = s.vm.stackbase := by rw [hcontrol]
  refine ⟨{ vm₁ with
    nnativecalls := vm₁.nnativecalls + 1
    callsstack := vm₁.callsstack.modifyHead fun ci => { ci with root := vm₁.suspended_root }
    suspended := false }, ?_, ?_, herror⟩
  · rw [VM.GS_wakeupvm, hsuspended, htake]
    simp [VM.resume, hzero, MAX_NATIVE_CALLS]
  · have hframes := hs.resume_callsstack
    constructor
    · simp only [hcontrol₁, hframes, hs.nnativecalls]
    · exact htop₁
    · intro hsome
      simp only [hcontrol₁, ← hbase]
      exact hvalue hsome
    · intro i hi hfree hi'
      simp only [hcontrol₁] at hfree hi'
      have hi : i < s.vm.top := htop₁ ▸ hi
      exact (hslot₁ i hi (hbase ▸ hi')).trans (hslot i hi hfree)

end

end GameScript.Threads
