import GameScript.VM.ThreadStates

/-!
Runs of threads: every thread is idle, running or suspended after each operation, a call that
succeeds is one of an idle thread and a wakeup that succeeds is one of a suspended thread, which
goes on right after its suspension.
-/

namespace GameScript.Threads

open Relation

variable {rt : Runtime} {m m' m₀ : Machine} {a : Activation} {rest : List Activation}
  {dest : Option Nat} {base nargs : Nat} {f : ThreadFunction} {o : Ref}

/-! ### What is asked of threads -/

def Machine.Idle (m : Machine) (t : Ref) : Prop :=
  (m.vm t).GS_getvmstate = .idle ∧ (m.vm t).callsstack = [] ∧ ∀ a ∈ m.active, a.thread ≠ t

def Machine.Running (m : Machine) (t : Ref) : Prop :=
  (m.vm t).GS_getvmstate = .running ∧ (m.vm t).callsstack ≠ [] ∧ ∃ a ∈ m.active, a.thread = t

/-- The frames are those that the last suspension has saved. -/
def Machine.Suspended (m : Machine) (t : Ref) : Prop :=
  (m.vm t).GS_getvmstate = .suspended ∧ (∀ a ∈ m.active, a.thread ≠ t) ∧
    Same (m.vm t) (m.saved t).vm

/-- What is in a register of a thread. -/
def VM.register (vm : VM) (i : Nat) : Object := vm.stack (vm.stackbase + i)

/-- The thread `o` runs on from where it was suspended. -/
structure Machine.Resumes (m m' : Machine) (o : Ref) (value : Object) : Prop where
  suspended : m.Suspended o
  resumed : Resumed (m.saved o) value (m'.vm o)
  active : ∃ a ∈ m'.active.head?, a.thread = o ∧ a.traps = (m.saved o).vm.suspended_traps

/-- What a function on threads has done when it has not failed. It was called by `v` with the
arguments from register `base` on. -/
def Contract (m m' : Machine) (v : Ref) (base nargs : Nat) : ThreadFunction → Prop
  | .call => ∃ o, (m.vm v).register base = .thread o ∧ m.Idle o
  | .wakeup => ∃ o, (m.vm v).register base = .thread o ∧ m'.throwing = false ∧
      m.Resumes m' o (if nargs > 1 then (m.vm v).register (base + 1) else .null)
  | .wakeupthrow => ∃ o, (m.vm v).register base = .thread o ∧ m'.throwing = true ∧
      (m'.vm o).lasterror = (m.vm v).register (base + 1) ∧ m.Resumes m' o .null
  | .suspend | .getstatus => True

/-- After all runs of `allowed` steps the threads are in one of the three states, and an `allowed`
function on threads does what it is asked. -/
def ThreadsInOrder (rt : Runtime) (allowed : Machine → Op → Prop) : Prop :=
  ∀ m₀ m, m₀.Initial → ReflTransGen (Step rt allowed) m₀ m →
    (∀ t, m.Idle t ∨ m.Running t ∨ m.Suspended t) ∧
    ∀ f base nargs dest m' outcome, Op.Valid m (.callNative f base nargs dest) →
      allowed m (.callNative f base nargs dest) →
      m.callNative rt f base nargs dest = some (m', outcome) → outcome ≠ .failed →
      ∀ a ∈ m.active.head?, Contract m m' a.thread base nargs f

/-- Calls are of threads that are idle, or have nothing on top of their stack that can be called; and
the threads woken up wait for their value in a register that is read as it is meant. -/
def Op.InOrder (rt : Runtime) (m : Machine) : Op → Prop
  | .callNative f base nargs dest => ∀ a rest, m.active = a :: rest →
      let m := m.enter rt a rest f base nargs dest
      match f with
      | .call => ∀ o, (m.vm a.thread).stack_get 1 = .thread o →
          (m.vm o).GS_getvmstate = .idle ∨ NotCallable rt m a.thread o
      | .wakeup | .wakeupthrow => Wakeable m a.thread
      | .suspend | .getstatus => True
  | _ => True

/-- **A thread is idle, running or suspended.** -/
theorem Coherent.states (h : Coherent m) (t : Ref) : m.Idle t ∨ m.Running t ∨ m.Suspended t := by
  by_cases hactive : ∃ a ∈ m.active, a.thread = t
  · obtain ⟨a, ha, rfl⟩ := hactive
    have hexecuting := h.executing a ha
    exact .inr (.inl ⟨hexecuting.getvmstate_running, hexecuting.callsstack_ne, a, ha, rfl⟩)
  · have hnot : ∀ a ∈ m.active, a.thread ≠ t := fun a ha heq => hactive ⟨a, ha, heq⟩
    rcases h.inactive t hnot with hidle | ⟨hs, hsame⟩
    · exact .inl ⟨hidle.getvmstate_idle, hidle.callsstack_nil, hnot⟩
    · refine .inr (.inr ⟨?_, hnot, hsame⟩)
      have hsuspended : (m.vm t).suspended = true := by rw [hsame.control, hs.suspended]
      simp [Control.GS_getvmstate, hsuspended]

/-! ### Calls of the functions -/

theorem enter_vm : (m.enter rt a rest f base nargs dest).vm a.thread =
    (m.vm a.thread).enterNative (rt.nclosure f) nargs ((m.vm a.thread).stackbase + base)
      (match dest with
        | some arg0 => sarg0 arg0
        | none => -1) := Function.update_self ..

theorem enter_vm_of_ne (h : o ≠ a.thread) :
    (m.enter rt a rest f base nargs dest).vm o = m.vm o := Function.update_of_ne h ..

theorem enter_gettop :
    ((m.enter rt a rest f base nargs dest).vm a.thread).GS_gettop = nargs := by
  rw [enter_vm]
  exact Nat.add_sub_cancel_left _ _

theorem enter_stack_get (i : Nat) :
    ((m.enter rt a rest f base nargs dest).vm a.thread).stack_get (i + 1) =
      (m.vm a.thread).register (base + i) := by
  rw [enter_vm]
  change (m.vm a.thread).stack (i + 1 + ((m.vm a.thread).stackbase + base) - 1) = _
  rw [VM.register]
  congr 1
  omega

/-- A function on threads is entered from the thread that is running. -/
theorem Coherent.enter (h : Coherent m) (hactive : m.active = a :: rest)
    (hthrowing : m.throwing = false)
    (hdest : dest.isSome = true → (m.vm a.thread).inNative = false) :
    Calling (m.enter rt a rest f base nargs dest) { a with dest := dest } rest := by
  constructor
  · let c : Activation := { a with dest := dest }
    apply h.run (c := c) hactive rfl ((h.head hactive).enterNative ..)
    intro hthrow
    exact absurd (hthrowing.symm.trans hthrow) Bool.false_ne_true
  · rfl
  · exact hthrowing
  · change Waiting ((m.enter rt a rest f base nargs dest).vm a.thread).toControl dest
    rw [enter_vm]
    exact waiting_enterNative dest hdest ..

/-- A thread that is idle or suspended is not the one that calls. -/
theorem Coherent.enter_state (h : Coherent m) (hactive : m.active = a :: rest) {state : VMState}
    (hstate : state ≠ .running)
    (ho : ((m.enter rt a rest f base nargs dest).vm o).GS_getvmstate = state) :
    o ≠ a.thread ∧ (m.vm o).GS_getvmstate = state := by
  have hcaller : ((m.enter rt a rest f base nargs dest).vm a.thread).GS_getvmstate = .running := by
    rw [enter_vm]
    exact ((h.head hactive).enterNative ..).getvmstate_running
  have hne : o ≠ a.thread := by
    rintro rfl
    exact hstate (ho.symm.trans hcaller)
  rw [enter_vm_of_ne hne] at ho
  exact ⟨hne, ho⟩

theorem enter_leave {vm : VM} {p : Ref} {target : Int} :
    (vm.enterNative p nargs (vm.stackbase + base) target).leaveNative.stackbase = vm.stackbase ∧
      (vm.stackbase ≤ vm.top →
        (vm.enterNative p nargs (vm.stackbase + base) target).leaveNative.top = vm.top) := by
  simp only [VM.leaveNative, VM.enterNative, VM.EnterFrame, VM.LeaveFrame]
  refine ⟨by omega, fun h => by omega⟩

/-- A function on threads has the parameters that it wants. -/
theorem checkNative_nparams {vm : VM} {newbase : Nat}
    (h : vm.checkNative f nargs newbase = none) (hf : f.nparamscheck = -1) : 1 ≤ nargs := by
  unfold VM.checkNative at h
  rw [hf] at h
  dsimp only at h
  split at h
  · cases h
  · split at h
    · cases h
    · omega

/-- An instruction that calls a function on threads keeps to its frame. -/
theorem valid_callNative (h : Op.Valid m (.callNative f base nargs dest))
    (hactive : m.active = a :: rest) :
    m.throwing = false ∧ (dest.isSome = true → (m.vm a.thread).inNative = false) ∧
      ∀ arg0 ∈ dest, arg0 < 256 ∧
        (arg0 = 0xFF ∨ (m.vm a.thread).stackbase + arg0 < (m.vm a.thread).top) := by
  obtain ⟨hthrowing, hdest⟩ := h
  have hhead : a ∈ m.active.head? := by simp [hactive]
  refine ⟨hthrowing, ?_, ?_⟩
  · intro hsome
    obtain ⟨arg0, harg0⟩ := Option.isSome_iff_exists.mp hsome
    by_contra hnative
    exact (hdest arg0 harg0).1 ⟨a, hhead, Bool.not_eq_false _ ▸ hnative⟩
  · intro arg0 harg0
    obtain ⟨-, hlt, hregister⟩ := hdest arg0 harg0
    exact ⟨hlt, hregister.imp_right fun hslot => hslot a hhead⟩

/-- A function on threads that is called in order keeps the threads coherent.
-/
theorem Coherent.callNative (h : Coherent m) (hvalid : Op.Valid m (.callNative f base nargs dest))
    (hsafe : Op.InOrder rt m (.callNative f base nargs dest)) {r : Machine × Outcome}
    (hcall : m.callNative rt f base nargs dest = some r) : Coherent r.1 := by
  unfold Machine.callNative at hcall
  cases hactive : m.active with
  | nil => simp [hactive] at hcall
  | cons a rest =>
      simp only [hactive] at hcall
      obtain ⟨hthrowing, hdest, hregister⟩ := valid_callNative hvalid hactive
      have hsafe := hsafe a rest hactive
      split at hcall
      · next err _ =>
        cases hcall
        let vm : VM := (m.vm a.thread).GS_throwerror err
        have hvm : Executing vm.toControl (a.outer.length + 1) := h.head hactive
        have hrun : Coherent { m.set a.thread vm with
            active := a :: rest, throwing := dest.isSome } :=
          h.run hactive rfl hvm hdest
        rw [← hactive] at hrun
        exact hrun
      · next hcheck =>
        have hcalling : Calling (m.enter rt a rest f base nargs dest) { a with dest := dest } rest :=
          h.enter hactive hthrowing hdest
        cases f with
        | call =>
            cases hcall
            apply hcalling.call ?_ hsafe
            exact enter_gettop.symm ▸ checkNative_nparams hcheck rfl
        | wakeup => exact hcalling.wakeup hsafe hcall
        | wakeupthrow => exact hcalling.wakeupthrow hsafe hcall
        | getstatus =>
            cases hcall
            exact hcalling.getstatus
        | suspend =>
            apply hcalling.suspend ?_ hcall
            intro arg0 harg0
            obtain ⟨hlt, hslot⟩ := hregister arg0 harg0
            refine ⟨hlt, hslot.imp_right fun hslot => ?_⟩
            change ((m.enter rt a rest .suspend base nargs dest).vm a.thread).leaveNative.stackbase +
              arg0 < ((m.enter rt a rest .suspend base nargs dest).vm a.thread).leaveNative.top
            rw [enter_vm, enter_leave.1, enter_leave.2 (by omega)]
            exact hslot

/-! ### What the functions have done -/

theorem call_notCallable {v : Ref} (hget : (m.vm v).stack_get 1 = .thread o)
    (h : NotCallable rt m v o) : (m.thread_call rt v dest).2 = .failed := by
  obtain ⟨err, herr⟩ := h
  simp only [Machine.thread_call, hget, call_error herr]
  rfl

theorem call_notThread {v : Ref} (h : ∀ o, (m.vm v).stack_get 1 ≠ .thread o) :
    (m.thread_call rt v dest).2 = .failed := by
  unfold Machine.thread_call
  split
  · next o ho => exact absurd ho (h o)
  · rfl

theorem Coherent.idle_of_enter (h : Coherent m) (hactive : m.active = a :: rest)
    (ho : ((m.enter rt a rest f base nargs dest).vm o).GS_getvmstate = .idle) : m.Idle o := by
  obtain ⟨-, hstate⟩ := h.enter_state hactive (by simp) ho
  exact ⟨hstate, (h.idle_executing hstate).callsstack_nil, h.inactive_of_state (by simp [hstate])⟩

/-- What has been woken up is a suspended thread, and it runs on. -/
theorem Coherent.resumes (h : Coherent m) (hactive : m.active = a :: rest) {vm : VM}
    {value : Object} {b : Activation}
    (ho : ((m.enter rt a rest f base nargs dest).vm o).GS_getvmstate = .suspended)
    (hresumed : Resumed (m.saved o) value vm) (hvm : m'.vm o = vm)
    (hb : m'.active.head? = some b) (hthread : b.thread = o)
    (htraps : b.traps = vm.suspended_traps) : m.Resumes m' o value := by
  obtain ⟨-, hstate⟩ := h.enter_state hactive (by simp) ho
  obtain ⟨-, hsame⟩ := h.suspended_sound hstate
  constructor
  · exact ⟨hstate, h.inactive_of_state (by simp [hstate]), hsame⟩
  · exact hvm ▸ hresumed
  · refine ⟨b, hb, hthread, ?_⟩
    rw [htraps, hresumed.control]

/-- A function on threads that succeeds keeps its contract with its caller. -/
theorem Coherent.contract {outcome : Outcome} (h : Coherent m)
    (hvalid : Op.Valid m (.callNative f base nargs dest))
    (hsafe : Op.InOrder rt m (.callNative f base nargs dest))
    (hcall : m.callNative rt f base nargs dest = some (m', outcome)) (hok : outcome ≠ .failed)
    (hactive : m.active = a :: rest) : Contract m m' a.thread base nargs f := by
  obtain ⟨hthrowing, hdest, -⟩ := valid_callNative hvalid hactive
  have hcalling : Calling (m.enter rt a rest f base nargs dest) { a with dest := dest } rest :=
    h.enter hactive hthrowing hdest
  have hsafe := hsafe a rest hactive
  have hbase : ((m.enter rt a rest f base nargs dest).vm a.thread).stack_get 1 =
      (m.vm a.thread).register base := enter_stack_get 0
  have hvalue : ((m.enter rt a rest f base nargs dest).vm a.thread).stack_get 2 =
      (m.vm a.thread).register (base + 1) := enter_stack_get 1
  simp only [Machine.callNative, hactive] at hcall
  split at hcall
  · cases hcall
    exact absurd rfl hok
  · cases f with
    | suspend => trivial
    | getstatus => trivial
    | call =>
        obtain ⟨rfl, rfl⟩ := Prod.mk.inj (Option.some.inj hcall)
        by_cases hget : ∃ o, (m.vm a.thread).register base = .thread o
        · obtain ⟨o, hget⟩ := hget
          refine ⟨o, hget, ?_⟩
          rcases hsafe o (hbase.trans hget) with hidle | hnot
          · exact h.idle_of_enter hactive hidle
          · exact absurd (call_notCallable (hbase.trans hget) hnot) hok
        · refine absurd (call_notThread fun o ho => hget ⟨o, ?_⟩) hok
          exact hbase.symm.trans ho
    | wakeup =>
        by_cases hfor : ForSuspended (m.enter rt a rest .wakeup base nargs dest) a.thread
        · obtain ⟨o, hget, ho⟩ := hfor
          obtain ⟨vm, hresumed, heq⟩ := hcalling.wakeup_started dest hget ho
            (hsafe o hget ho)
          cases hcall.symm.trans heq
          have hwakeup : wakeupValue ((m.enter rt a rest .wakeup base nargs dest).vm a.thread) =
              if nargs > 1 then (m.vm a.thread).register (base + 1) else .null := by
            rw [wakeupValue, enter_gettop, hvalue]
          have hresumed : Resumed (m.saved o)
              (wakeupValue ((m.enter rt a rest .wakeup base nargs dest).vm a.thread)) vm := hresumed
          rw [hwakeup] at hresumed
          exact ⟨o, hbase.symm.trans hget, hthrowing,
            h.resumes hactive ho hresumed (set_vm_self o vm) rfl rfl rfl⟩
        · obtain ⟨err, heq⟩ := wakeup_failed dest hfor
          cases hcall.symm.trans heq
          exact absurd rfl hok
    | wakeupthrow =>
        by_cases hfor : ForSuspended (m.enter rt a rest .wakeupthrow base nargs dest) a.thread
        · obtain ⟨o, hget, ho⟩ := hfor
          obtain ⟨vm, rethrow_error, hresumed, herror, heq⟩ :=
            hcalling.wakeupthrow_started dest hget ho (hsafe o hget ho)
          cases hcall.symm.trans heq
          refine ⟨o, hbase.symm.trans hget, rfl, ?_,
            h.resumes hactive ho hresumed (set_vm_self o vm) rfl rfl rfl⟩
          exact (congrArg VM.lasterror (set_vm_self o vm)).trans (herror.trans hvalue)
        · obtain ⟨err, heq⟩ := wakeupthrow_failed dest hfor
          cases hcall.symm.trans heq
          exact absurd rfl hok

/-! ### Runs -/

/-- At the start no thread waits for another. -/
theorem Machine.Initial.coherent (h : m.Initial) : Coherent m := by
  constructor
  · simp [h.active]
  · simp [h.active]
  · simp [h.active]
  · intro t _
    exact .inl (h.idle t ▸ executing_default)
  · simp [h.active]

theorem Coherent.inNative_false (hactive : m.active = a :: rest) (hnative : ¬ m.inNative) :
    (m.vm a.thread).inNative = false := by
  by_contra hnot
  exact hnative ⟨a, by simp [hactive], Bool.not_eq_false _ ▸ hnot⟩

theorem Coherent.inNative_true (hactive : m.active = a :: rest) (hnative : m.inNative) :
    (m.vm a.thread).inNative = true := by
  obtain ⟨c, hc, hnative⟩ := hnative
  have heq : a = c := by simpa [hactive] using hc
  exact heq ▸ hnative

/-- Code of the running thread that throws nothing and stays in its `Execute`. -/
theorem Coherent.code (h : Coherent m) (hactive : m.active = a :: rest)
    (hthrowing : m.throwing = false) {vm : VM}
    (hvm : Executing vm.toControl (a.outer.length + 1)) : Coherent (m.set a.thread vm) := by
  have hrun : Coherent { m.set a.thread vm with active := a :: rest, throwing := m.throwing } :=
    h.run hactive rfl hvm fun hthrow => absurd (hthrowing.symm.trans hthrow) Bool.false_ne_true
  rw [← hactive] at hrun
  exact hrun

/-- A call from the running thread keeps the threads coherent. -/
theorem Coherent.invoke {closure : Object} {nparams stackbase : Nat} (h : Coherent m)
    (hactive : m.active = a :: rest) (hthrowing : m.throwing = false) :
    Coherent (m.invoke rt a rest closure nparams stackbase) := by
  unfold Machine.invoke
  split
  · next vm hcall =>
    let c : Activation := { a with traps := 0, outer := a.traps :: a.outer }
    apply h.run (c := c) hactive rfl ((h.head hactive).call_started hcall)
    intro hthrow
    exact absurd (hthrowing.symm.trans hthrow) Bool.false_ne_true
  · next vm outcome hne hcall =>
    apply h.code hactive hthrowing
    have hcontrol := call_control hcall hne
    exact hcontrol ▸ h.head hactive

/-- A closure that assigns to another thread's variable keeps the threads
coherent. -/
theorem Coherent.setOuter {t : Ref} {i : Nat} {v : Object} (h : Coherent m)
    (hactive : m.active = a :: rest) (hthrowing : m.throwing = false)
    (hi : i ∈ (m.vm t).openouters) : Coherent (m.set t ((m.vm t).setSlot i v)) := by
  have hcontrol : ∀ t', ((m.set t ((m.vm t).setSlot i v)).vm t').toControl =
      (m.vm t').toControl := (quiet_set (v := t) (.inr rfl) (setSlot_control i v)).control
  have hactive' : (m.set t ((m.vm t).setSlot i v)).active = a :: rest := hactive
  apply h.stay hactive hactive' rfl fun _ _ => rfl
  · rw [hcontrol]
    exact h.head hactive
  · intro t' _
    refine ⟨hcontrol t', fun _ => ?_⟩
    by_cases ht : t' = t
    · subst ht
      rw [set_vm_self]
      refine ⟨rfl, rfl, fun j _ hfree => Function.update_of_ne ?_ _ _⟩
      rintro rfl
      exact hfree hi
    · rw [set_vm_of_ne ht]
      exact Same.refl _
  · intro hthrow
    exact absurd (hthrowing.symm.trans hthrow) Bool.false_ne_true

/-- The host has a function called on a thread while none runs. -/
theorem Coherent.hostCall {t : Ref} {closure : Object} {args : List Object} (h : Coherent m)
    (hactive : m.active = []) (hthrowing : m.throwing = false)
    (hidle : (m.vm t).GS_getvmstate = .idle) : Coherent (m.hostCall rt t closure args) := by
  have hexecuting := h.idle_executing hidle
  have hpushed : (args.foldl VM.Push ((m.vm t).Push closure)).toControl = (m.vm t).toControl :=
    pushAll_control _
  unfold Machine.hostCall
  dsimp only
  split
  · next vm hcall =>
    have hstarted : Executing vm.toControl 1 := Executing.call_started (hpushed ▸ hexecuting) hcall
    constructor
    · simp
    · intro c hc
      rw [List.mem_singleton.mp hc]
      exact (set_vm_self (m := m) t vm).symm ▸ hstarted
    · simp
    · intro t' ht'
      have hne : t' ≠ t := (ht' _ List.mem_cons_self).symm
      have hold := h.inactive t' (by simp [hactive])
      exact (set_vm_of_ne (m := m) hne vm).symm ▸ hold
    · intro hthrow
      exact absurd (hthrowing.symm.trans hthrow) Bool.false_ne_true
  · next vm outcome hne hcall =>
    have hcontrol : (vm.Pop args.length).toControl = (m.vm t).toControl :=
      (pop_control _).trans ((call_control hcall hne).trans hpushed)
    constructor
    · simp [Machine.set, hactive]
    · simp [Machine.set, hactive]
    · simp [Machine.set, hactive]
    · intro t' _
      by_cases ht : t' = t
      · subst ht
        rw [set_vm_self]
        exact .inl (hcontrol ▸ hexecuting)
      · rw [set_vm_of_ne ht]
        exact h.inactive t' (by simp [hactive])
    · simp [Machine.set, hactive]

/-- What one step keeps. -/
theorem Coherent.step {op : Op} (h : Coherent m) (hvalid : op.Valid m) (hsafe : op.InOrder rt m)
    (hstep : m.step rt op = some m') : Coherent m' := by
  cases op with
  | callNative f base nargs dest =>
      obtain ⟨r, hcall, rfl⟩ := Option.map_eq_some_iff.mp hstep
      exact h.callNative hvalid hsafe hcall
  | exception_trap => exact h.exception_trap hstep hvalid
  | «return» arg0 arg1 => exact h.return hvalid.1 hvalid.2 hstep
  | host t closure args =>
      cases hactive : m.active with
      | nil =>
          simp only [Machine.step, hactive, Option.some.injEq] at hstep
          exact hstep ▸ h.hostCall hactive hvalid.1 hvalid.2
      | cons a rest => simp [Machine.step, hactive] at hstep
  | script code =>
      obtain ⟨hthrowing, hnative, hcode⟩ := hvalid
      cases hactive : m.active with
      | nil => simp [Machine.step, hactive] at hstep
      | cons a rest =>
          simp only [Machine.step, hactive, Option.some.injEq] at hstep
          subst hstep
          let c : Activation := { a with traps := code.traps }
          apply h.run (c := c) hactive rfl
          · exact (h.head hactive).runScript (Coherent.inNative_false hactive hnative) hcode
          · intro hthrow
            exact absurd (hthrowing.symm.trans hthrow) Bool.false_ne_true
  | enterNative p base nargs =>
      cases hactive : m.active with
      | nil => simp [Machine.step, hactive] at hstep
      | cons a rest =>
          simp only [Machine.step, hactive, Option.some.injEq] at hstep
          exact hstep ▸ h.code hactive hvalid ((h.head hactive).enterNative ..)
  | native stack top lasterror =>
      cases hactive : m.active with
      | nil => simp [Machine.step, hactive] at hstep
      | cons a rest =>
          simp only [Machine.step, hactive, Option.some.injEq] at hstep
          exact hstep ▸ h.code hactive hvalid.1 (h.head hactive)
  | leaveNative =>
      cases hactive : m.active with
      | nil => simp [Machine.step, hactive] at hstep
      | cons a rest =>
          simp only [Machine.step, hactive, Option.some.injEq] at hstep
          have hnative := Coherent.inNative_true hactive hvalid.2
          exact hstep ▸ h.code hactive hvalid.1 ((h.head hactive).leaveNative hnative)
  | invoke closure nparams stackbase =>
      cases hactive : m.active with
      | nil => simp [Machine.step, hactive] at hstep
      | cons a rest =>
          simp only [Machine.step, hactive, Option.some.injEq] at hstep
          exact hstep ▸ h.invoke hactive hvalid
  | setOuter t i v =>
      cases hactive : m.active with
      | nil => simp [Machine.step, hactive] at hstep
      | cons a rest =>
          simp only [Machine.step, hactive, Option.some.injEq] at hstep
          exact hstep ▸ h.setOuter hactive hvalid.1 hvalid.2
  | raise err =>
      cases hactive : m.active with
      | nil => simp [Machine.step, hactive] at hstep
      | cons a rest =>
          simp only [Machine.step, hactive, Option.some.injEq] at hstep
          let vm : VM := { m.vm a.thread with lasterror := err }
          have hvm : Executing vm.toControl (a.outer.length + 1) := h.head hactive
          have hrun : Coherent { m.set a.thread vm with active := a :: rest, throwing := true } :=
            h.run hactive rfl hvm fun _ => Coherent.inNative_false hactive hvalid.2
          rw [← hactive] at hrun
          exact hstep ▸ hrun

/-- What all runs in order keep. -/
theorem coherent_of_run (h₀ : m₀.Initial)
    (hrun : ReflTransGen (Step rt fun m op => op.InOrder rt m) m₀ m) : Coherent m := by
  induction hrun with
  | refl => exact h₀.coherent
  | tail _ hstep ih =>
      obtain ⟨op, hvalid, hsafe, hstep⟩ := hstep
      exact ih.step hvalid hsafe hstep

/-- When calls are of idle threads, or find nothing to call, and registers are read as they are
meant, every thread is idle, running or suspended as it was left, and the functions on threads
keep to that. -/
theorem threads_in_order (rt : Runtime) : ThreadsInOrder rt fun m op => op.InOrder rt m := by
  intro m₀ m h₀ hrun
  have h : Coherent m := coherent_of_run h₀ hrun
  refine ⟨h.states, ?_⟩
  intro f base nargs dest m' outcome hvalid hsafe hcall hok a ha
  have hactive : ∃ rest, m.active = a :: rest := by
    cases hcases : m.active with
    | nil => simp [hcases] at ha
    | cons b rest =>
        have heq : b = a := by simpa [hcases] using ha
        exact ⟨rest, heq ▸ rfl⟩
  obtain ⟨rest, hactive⟩ := hactive
  exact h.contract hvalid hsafe hcall hok hactive

/-! ### A call of a suspended thread -/

/-- A sequence of operations is a run of steps. -/
theorem run_steps {ops : List Op} (h : m₀.run rt ops = some m) :
    ReflTransGen (Step rt fun _ _ => True) m₀ m := by
  induction ops generalizing m₀ with
  | nil =>
      cases h
      exact .refl
  | cons op ops ih =>
      simp only [Machine.run] at h
      split at h
      · next hvalid =>
        obtain ⟨m₁, hstep, hrun⟩ := Option.bind_eq_some_iff.mp h
        exact .head ⟨op, hvalid, trivial, hstep⟩ (ih hrun)
      · cases h

namespace SuspendedCall

/-- Closure 5 is run by the host, closure 10 is the function of the thread 1, and closure 11 is what
that gives to `suspend`. -/
def runtime : Runtime where
  callee closure args :=
    match closure with
    | .closure 5 => .frame 5 (args ++ [.null, .null, .null])
    | .closure 10 => .frame 10 (args ++ [.null, .null])
    | .closure 11 => .frame 11 args
    | closure => .error closure
  nclosure _ := 0

def initial : Machine where
  vm t :=
    { stack := fun i => if i = 0 ∧ t = 1 then .closure 10 else .null
      top := t
      roottable := .table 0 }
  saved _ := { vm := { stack := fun _ => .null, top := 0, roottable := .null }, register := 0 }

/-- The code of a frame over the slots `stack`. -/
def code (closure : Ref) (stack : List Object) : Script where
  frames := []
  first := { closure := .closure closure, prevstkbase := 1, prevtop := 2, root := true }
  stackbase := 1
  stack := fun i => stack.getD i .null
  top := stack.length
  etraps := []
  openouters := []
  traps := 0
  lasterror := .null
  roottable := .table 0

/-- The host runs closure 5. That calls the thread 1, which suspends with closure 11 as the argument,
the last register of its frame. -/
def ops : List Op :=
  [.host 0 (.closure 5) [.table 0],
    .script (code 5 [.closure 5, .table 0, .null, .thread 1, .null]),
    .callNative .call 2 1 (some 1),
    .script (code 10 [.closure 10, .table 0, .table 0, .closure 11]),
    .callNative .suspend 1 2 (some 1)]

/-- The thread is suspended, and it can be called. -/
theorem call_started : ∃ m, initial.run runtime ops = some m ∧
    (m.vm 1).GS_getvmstate = .suspended ∧ Op.Valid m (.callNative .call 2 1 (some 1)) ∧
    (m.vm 0).register 2 = .thread 1 ∧ m.active.head?.map Activation.thread = some 0 ∧
    ((m.callNative runtime .call 2 1 (some 1)).map Prod.snd) = some .started := by
  refine ⟨_, rfl, ?_⟩
  decide

end SuspendedCall

/-! ### A thread that is woken up -/

namespace WokenUp

/-- The host runs closure 5. That calls the thread 1, which suspends with the value 7, and has 9 for
it then. -/
def ops : List Op :=
  [.host 0 (.closure 5) [.table 0],
    .script (SuspendedCall.code 5 [.closure 5, .table 0, .null, .thread 1, .null]),
    .callNative .call 2 1 (some 1),
    .script (SuspendedCall.code 10 [.closure 10, .table 0, .table 0, .integer 7]),
    .callNative .suspend 1 2 (some 1),
    .script (SuspendedCall.code 5 [.closure 5, .table 0, .null, .thread 1, .integer 9])]

def after (n : Nat) : Machine :=
  (SuspendedCall.initial.run SuspendedCall.runtime (ops.take n)).getD SuspendedCall.initial

abbrev InOrder (m : Machine) (op : Op) : Prop := op.InOrder SuspendedCall.runtime m

theorem step_after (n : Nat) {op : Op} (_ : ops[n]? = some op) (hvalid : op.Valid (after n))
    (hsafe : InOrder (after n) op)
    (hstep : (after n).step SuspendedCall.runtime op = some (after (n + 1))) :
    Step SuspendedCall.runtime InOrder (after n) (after (n + 1)) :=
  ⟨op, hvalid, hsafe, hstep⟩

theorem run_after :
    ReflTransGen (Step SuspendedCall.runtime InOrder) SuspendedCall.initial (after 6) := by
  have hcall : InOrder (after 2) (.callNative .call 2 1 (some 1)) := by
    intro a rest hactive
    cases hactive
    intro m o ho
    cases ho
    exact .inl rfl
  have hsuspend : InOrder (after 4) (.callNative .suspend 1 2 (some 1)) := fun a rest _ => trivial
  have h₂ : ReflTransGen (Step SuspendedCall.runtime InOrder) SuspendedCall.initial (after 2) :=
    .tail (.single (step_after 0 rfl (by decide) trivial rfl))
      (step_after 1 rfl (by decide) trivial rfl)
  have h₄ : ReflTransGen (Step SuspendedCall.runtime InOrder) SuspendedCall.initial (after 4) :=
    .tail (h₂.tail (step_after 2 rfl (by decide) hcall rfl))
      (step_after 3 rfl (by decide) trivial rfl)
  exact .tail (h₄.tail (step_after 4 rfl (by decide) hsuspend rfl))
    (step_after 5 rfl (by decide) trivial rfl)

/-- The machine in which the thread 1 is woken up. -/
def woken : Machine :=
  (((after 6).callNative SuspendedCall.runtime .wakeup 2 2 (some 1)).map Prod.fst).getD (after 6)

end WokenUp

/-- A thread that has suspended goes on where it was suspended, with the value that the wakeup has
for it. -/
theorem threads_in_order_wokenUp :
    (WokenUp.after 6).callNative SuspendedCall.runtime .wakeup 2 2 (some 1) =
        some (WokenUp.woken, .started) ∧
      (WokenUp.after 6).Resumes WokenUp.woken 1 (.integer 9) := by
  have hcall : (WokenUp.after 6).callNative SuspendedCall.runtime .wakeup 2 2 (some 1) =
      some (WokenUp.woken, .started) := rfl
  have hinitial : SuspendedCall.initial.Initial := ⟨rfl, rfl, fun _ => rfl⟩
  have hsafe : WokenUp.InOrder (WokenUp.after 6) (.callNative .wakeup 2 2 (some 1)) := by
    intro a rest hactive
    cases hactive
    intro m o ho _
    cases ho
    decide
  obtain ⟨-, hcontract⟩ :=
    threads_in_order SuspendedCall.runtime _ _ hinitial WokenUp.run_after
  obtain ⟨o, ho, -, hresumes⟩ := hcontract .wakeup 2 2 (some 1) _ .started (by decide) hsafe hcall
    (by decide) _ rfl
  cases ho
  exact ⟨hcall, hresumes⟩

/-- A suspended thread is called when the value that it has been suspended with is a function. -/
theorem not_threads_in_order : ¬ ∀ rt, ThreadsInOrder rt fun _ _ => True := by
  intro h
  obtain ⟨m, hrun, hstate, hvalid, hthread, hactive, hcall⟩ := SuspendedCall.call_started
  have hinitial : SuspendedCall.initial.Initial := ⟨rfl, rfl, fun _ => rfl⟩
  obtain ⟨-, hcontract⟩ := h SuspendedCall.runtime _ m hinitial (run_steps hrun)
  obtain ⟨⟨m', outcome⟩, hcallNative, rfl⟩ := Option.map_eq_some_iff.mp hcall
  obtain ⟨a, ha, hzero⟩ := Option.map_eq_some_iff.mp hactive
  obtain ⟨o, ho, hidle, -⟩ :=
    hcontract .call 2 1 (some 1) m' .started hvalid trivial hcallNative (by simp) a ha
  rw [hzero, hthread] at ho
  cases ho
  rw [hstate] at hidle
  cases hidle

end GameScript.Threads
