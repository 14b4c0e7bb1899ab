import Mathlib.Logic.Relation
import Mathlib.Data.List.Nodup
import GameScript.VM.ThreadFrames

/-!
The states of threads. A thread is idle with no frame, or it is among the active ones, or it is
suspended and all of it is as its last suspension has left it; what a wakeup runs is that.

`call` does not look at the state of the thread, only at what lies on top of its stack, so the
order holds for calls of idle threads and for those that find nothing to call there. The register
that waits for the value of `suspend` is read as a signed byte, so it has to be below 128.
-/

namespace GameScript.Threads

open Relation

/-! ### Where the threads are -/

/-- A thread that is not active is idle or as its suspension has left it. -/
def Inactive (vm : VM) (s : Suspension) : Prop :=
  Executing vm.toControl 0 ∨ s.Sound ∧ Same vm s.vm

/-- No thread is active twice, and those that wait are in a function on threads. -/
structure Coherent (m : Machine) : Prop where
  nodup : (m.active.map Activation.thread).Nodup
  executing : ∀ a ∈ m.active, Executing (m.vm a.thread).toControl (a.outer.length + 1)
  waiting : ∀ a ∈ m.active.tail, Waiting (m.vm a.thread).toControl a.dest
  inactive : ∀ t, (∀ a ∈ m.active, a.thread ≠ t) → Inactive (m.vm t) (m.saved t)
  throwing : m.throwing = true → ∀ a ∈ m.active.head?, (m.vm a.thread).inNative = false

variable {rt : Runtime} {m m' m₁ : Machine} {a a' b : Activation} {rest : List Activation}
  {v o : Ref} {dest : Option Nat} {outcome : Outcome}

/-- A thread that is not running keeps its frames and, when it is suspended, its stack. -/
structure Keeps (vm vm' : VM) : Prop where
  control : vm'.toControl = vm.toControl
  same : vm.suspended = true → Same vm' vm

theorem Keeps.refl (vm : VM) : Keeps vm vm := ⟨rfl, fun _ => Same.refl vm⟩

theorem Inactive.keeps {vm vm' : VM} {s : Suspension} (h : Inactive vm s) (hkeeps : Keeps vm vm') :
    Inactive vm' s := by
  rcases h with hidle | ⟨hs, hsaved⟩
  · exact .inl (hkeeps.control ▸ hidle)
  · have hsuspended : vm.suspended = true := by rw [hsaved.control, hs.suspended]
    exact .inr ⟨hs, (hkeeps.same hsuspended).trans hsaved⟩

theorem Coherent.head (h : Coherent m) (hactive : m.active = a :: rest) :
    Executing (m.vm a.thread).toControl (a.outer.length + 1) :=
  h.executing a (hactive ▸ List.mem_cons_self)

theorem Coherent.head_ne (h : Coherent m) (hactive : m.active = a :: rest) :
    ∀ c ∈ rest, c.thread ≠ a.thread := by
  intro c hc heq
  have hnodup := h.nodup
  rw [hactive, List.map_cons, List.nodup_cons] at hnodup
  exact hnodup.1 (heq ▸ List.mem_map_of_mem hc)

/-- The running thread goes on. -/
theorem Coherent.stay (h : Coherent m) (hactive : m.active = a :: rest)
    (hactive' : m'.active = a' :: rest) (hthread : a'.thread = a.thread)
    (hsaved : ∀ t ≠ a.thread, m'.saved t = m.saved t)
    (hself : Executing (m'.vm a.thread).toControl (a'.outer.length + 1))
    (hothers : ∀ t ≠ a.thread, Keeps (m.vm t) (m'.vm t))
    (hthrowing : m'.throwing = true → (m'.vm a.thread).inNative = false) : Coherent m' := by
  have hne := h.head_ne hactive
  constructor
  · simpa [hactive, hactive', hthread] using h.nodup
  · intro c hc
    rw [hactive'] at hc
    rcases List.mem_cons.mp hc with rfl | hc
    · rw [hthread]
      exact hself
    · rw [(hothers _ (hne c hc)).control]
      exact h.executing c (hactive ▸ List.mem_cons_of_mem _ hc)
  · intro c hc
    rw [hactive'] at hc
    rw [(hothers _ (hne c hc)).control]
    exact h.waiting c (hactive ▸ hc)
  · intro t ht
    have hta : t ≠ a.thread := by
      rintro rfl
      exact ht a' (hactive' ▸ List.mem_cons_self) hthread
    have hold : Inactive (m.vm t) (m.saved t) := by
      apply h.inactive
      rw [hactive]
      intro c hc
      rcases List.mem_cons.mp hc with rfl | hc
      · exact hta.symm
      · exact ht c (hactive' ▸ List.mem_cons_of_mem _ hc)
    rw [hsaved t hta]
    exact hold.keeps (hothers t hta)
  · intro hthrow c hc
    have hc : a' = c := by simpa [hactive'] using hc
    rw [← hc, hthread]
    exact hthrowing hthrow

/-- Code of the running thread. -/
theorem Coherent.run (h : Coherent m) (hactive : m.active = a :: rest) {c : Activation}
    (hthread : c.thread = a.thread) {vm : VM}
    (hvm : Executing vm.toControl (c.outer.length + 1)) {throwing : Bool}
    (hthrowing : throwing = true → vm.inNative = false) :
    Coherent { m.set a.thread vm with active := c :: rest, throwing := throwing } := by
  have hself : (m.set a.thread vm).vm a.thread = vm := Function.update_self ..
  have hothers : ∀ t ≠ a.thread, (m.set a.thread vm).vm t = m.vm t :=
    fun t ht => Function.update_of_ne ht ..
  let m' : Machine := { m.set a.thread vm with active := c :: rest, throwing := throwing }
  have hactive' : m'.active = c :: rest := rfl
  apply h.stay hactive hactive' hthread fun _ _ => rfl
  · exact hself.symm ▸ hvm
  · exact fun t ht => (hothers t ht).symm ▸ Keeps.refl _
  · exact fun hthrow => hself.symm ▸ hthrowing hthrow

/-- A thread that is not active begins to run, and the one that ran waits. -/
theorem Coherent.activate (h : Coherent m) (hactive : m.active = a :: rest)
    (hnew : ∀ c ∈ m.active, c.thread ≠ b.thread) (hactive' : m'.active = b :: a :: rest)
    (hsaved : m'.saved = m.saved)
    (hself : (m'.vm a.thread).toControl = (m.vm a.thread).toControl)
    (hwaiting : Waiting (m.vm a.thread).toControl a.dest)
    (hb : Executing (m'.vm b.thread).toControl (b.outer.length + 1))
    (hothers : ∀ t ≠ b.thread, Keeps (m.vm t) (m'.vm t))
    (hthrowing : m'.throwing = true → (m'.vm b.thread).inNative = false) : Coherent m' := by
  constructor
  · rw [hactive', List.map_cons, List.nodup_cons, ← hactive]
    refine ⟨?_, h.nodup⟩
    intro hmem
    obtain ⟨c, hc, heq⟩ := List.mem_map.mp hmem
    exact hnew c hc heq
  · intro c hc
    rw [hactive'] at hc
    rcases List.mem_cons.mp hc with rfl | hc
    · exact hb
    · rw [← hactive] at hc
      rw [(hothers _ (hnew c hc)).control]
      exact h.executing c hc
  · intro c hc
    rw [hactive'] at hc
    rcases List.mem_cons.mp hc with rfl | hc
    · rw [hself]
      exact hwaiting
    · rw [(hothers _ (hnew c (hactive ▸ List.mem_cons_of_mem _ hc))).control]
      exact h.waiting c (hactive ▸ hc)
  · intro t ht
    have htb : t ≠ b.thread := fun heq => ht b (hactive' ▸ List.mem_cons_self) heq.symm
    rw [hsaved]
    refine (h.inactive t fun c hc => ht c ?_).keeps (hothers t htb)
    exact hactive' ▸ List.mem_cons_of_mem _ (hactive ▸ hc)
  · intro hthrow c hc
    have hc : b = c := by simpa [hactive'] using hc
    exact hc ▸ hthrowing hthrow

/-- The instruction that has called a function on threads is not in native code. -/
theorem Waiting.left {vm vm' : VM} (h : Waiting vm.toControl dest) (hdest : dest.isSome = true)
    (hvm : vm'.toControl = vm.leaveNative.toControl) : vm'.inNative = false := by
  have htail : vm'.callsstack = vm.callsstack.tail := by
    rw [hvm]
    exact leaveFrame_callsstack
  rw [Control.inNative, htail]
  cases hhead : vm.callsstack.tail.head? with
  | none => rfl
  | some ci => exact h.instruction hdest ci hhead

/-- The running thread is left, and the one that waits for it goes on. -/
theorem Coherent.deactivate (h : Coherent m) (hactive : m.active = a :: b :: rest)
    (hactive' : m'.active = b :: rest) (hleft : Inactive (m'.vm a.thread) (m'.saved a.thread))
    (hb : (m'.vm b.thread).toControl = (m.vm b.thread).leaveNative.toControl)
    (hothers : ∀ t, t ≠ b.thread → t ≠ a.thread → m'.vm t = m.vm t)
    (hsaved : ∀ t ≠ a.thread, m'.saved t = m.saved t)
    (hthrowing : m'.throwing = true → b.dest.isSome = true) : Coherent m' := by
  have hne := h.head_ne hactive
  have hnodup := h.nodup
  rw [hactive, List.map_cons, List.nodup_cons, List.map_cons, List.nodup_cons] at hnodup
  have hneb : ∀ c ∈ rest, c.thread ≠ b.thread := by
    intro c hc heq
    exact hnodup.2.1 (heq ▸ List.mem_map_of_mem hc)
  have hwaiting : Waiting (m.vm b.thread).toControl b.dest := h.waiting b (by simp [hactive])
  have hexecuting : Executing (m.vm b.thread).toControl (b.outer.length + 1) :=
    h.executing b (by simp [hactive])
  constructor
  · rw [hactive', List.map_cons, List.nodup_cons]
    exact hnodup.2
  · intro c hc
    rw [hactive'] at hc
    rcases List.mem_cons.mp hc with rfl | hc
    · rw [hb]
      exact hexecuting.leaveNative hwaiting.native
    · rw [hothers _ (hneb c hc) (hne c (List.mem_cons_of_mem _ hc))]
      exact h.executing c (by simp [hactive, hc])
  · intro c hc
    rw [hactive'] at hc
    rw [hothers _ (hneb c hc) (hne c (List.mem_cons_of_mem _ hc))]
    exact h.waiting c (by simp [hactive, List.mem_of_mem_tail, show c ∈ rest from hc])
  · intro t ht
    by_cases hta : t = a.thread
    · exact hta ▸ hleft
    · have htb : t ≠ b.thread := fun heq => ht b (hactive' ▸ List.mem_cons_self) heq.symm
      rw [hothers t htb hta, hsaved t hta]
      apply h.inactive
      rw [hactive]
      intro c hc
      rcases List.mem_cons.mp hc with rfl | hc
      · exact Ne.symm hta
      · exact ht c (hactive' ▸ hc)
  · intro hthrow c hc
    have hc : b = c := by simpa [hactive'] using hc
    exact hc ▸ hwaiting.left (hthrowing hthrow) hb

/-- The last active thread is left. -/
theorem Coherent.empty (h : Coherent m) (hactive : m.active = [a]) (hactive' : m'.active = [])
    (hleft : Inactive (m'.vm a.thread) (m'.saved a.thread))
    (hothers : ∀ t ≠ a.thread, m'.vm t = m.vm t)
    (hsaved : ∀ t ≠ a.thread, m'.saved t = m.saved t) : Coherent m' := by
  constructor
  · simp [hactive']
  · simp [hactive']
  · simp [hactive']
  · intro t _
    by_cases hta : t = a.thread
    · exact hta ▸ hleft
    · rw [hothers t hta, hsaved t hta]
      apply h.inactive
      intro c hc
      have hc : c = a := by simpa [hactive] using hc
      exact hc ▸ Ne.symm hta
  · simp [hactive']

/-! ### Back in the function that waits -/

@[simp] theorem set_vm_self (t : Ref) (vm : VM) : (m.set t vm).vm t = vm := Function.update_self ..

theorem set_vm_of_ne {t t' : Ref} (h : t' ≠ t) (vm : VM) : (m.set t vm).vm t' = m.vm t' :=
  Function.update_of_ne h ..

/-- Only the stacks of `v` and `o` change. -/
structure Quiet (m m' : Machine) (v o : Ref) : Prop where
  active : m'.active = m.active
  saved : m'.saved = m.saved
  throwing : m'.throwing = m.throwing
  control : ∀ t, (m'.vm t).toControl = (m.vm t).toControl
  others : ∀ t, t ≠ v → t ≠ o → m'.vm t = m.vm t

theorem Quiet.trans {m₂ : Machine} (h : Quiet m m₁ v o) (h' : Quiet m₁ m₂ v o) :
    Quiet m m₂ v o where
  active := h'.active.trans h.active
  saved := h'.saved.trans h.saved
  throwing := h'.throwing.trans h.throwing
  control t := (h'.control t).trans (h.control t)
  others t hv ho := (h'.others t hv ho).trans (h.others t hv ho)

/-- A change of the stack alone is quiet. -/
theorem quiet_set {t : Ref} {vm : VM} (ht : t = v ∨ t = o)
    (hvm : vm.toControl = (m.vm t).toControl) : Quiet m (m.set t vm) v o where
  active := rfl
  saved := rfl
  throwing := rfl
  control t' := by
    by_cases h : t' = t
    · subst h
      rw [set_vm_self, hvm]
    · rw [set_vm_of_ne h]
  others t' hv ho := by
    apply set_vm_of_ne
    rcases ht with rfl | rfl
    · exact hv
    · exact ho

theorem quiet_moveResult : Quiet m (m.moveResult v o) v o :=
  (quiet_set (.inl rfl) (push_control _)).trans (quiet_set (.inr rfl) (pop_control _))

theorem quiet_moveError : Quiet m (m.moveError v o) v o := quiet_set (.inl rfl) rfl

/-- The function on threads that `v` is in has come to its end. -/
structure Back (m m' : Machine) (v o : Ref) (dest : Option Nat) : Prop where
  active : m'.active = m.active
  saved : m'.saved = m.saved
  caller : (m'.vm v).toControl = (m.vm v).leaveNative.toControl
  control : o ≠ v → (m'.vm o).toControl = (m.vm o).toControl
  others : ∀ t, t ≠ v → t ≠ o → m'.vm t = m.vm t
  throwing : m'.throwing = true → m.throwing = true ∨ dest.isSome = true

theorem Quiet.back (h : Quiet m m₁ v o) (h' : Back m₁ m' v o dest) : Back m m' v o dest where
  active := h'.active.trans h.active
  saved := h'.saved.trans h.saved
  caller := h'.caller.trans (leaveNative_congr (h.control v))
  control hne := (h'.control hne).trans (h.control o)
  others t hv ho := (h'.others t hv ho).trans (h.others t hv ho)
  throwing hthrow := h.throwing ▸ h'.throwing hthrow

theorem returned_others {t : Ref} (ret : Bool) (h : t ≠ v) :
    (m.returned v dest ret).1.vm t = m.vm t := set_vm_of_ne h _

/-- A function that returns has given its native frame up. -/
theorem back_returned (ret : Bool) : Back m (m.returned v dest ret).1 v o dest where
  active := rfl
  saved := rfl
  caller := by
    simp only [Machine.returned, set_vm_self]
    cases dest with
    | none => rfl
    | some arg0 =>
        dsimp only
        split
        · rfl
        · rfl
  control hne := by rw [returned_others ret hne]
  others _ hv _ := returned_others ret hv
  throwing hthrow := .inl hthrow

theorem failed_others {t : Ref} (h : t ≠ v) : (m.failed v dest).1.vm t = m.vm t := set_vm_of_ne h _

theorem back_failed : Back m (m.failed v dest).1 v o dest where
  active := rfl
  saved := rfl
  caller := congrArg VM.toControl (set_vm_self v _)
  control hne := by rw [failed_others hne]
  others _ hv _ := failed_others hv
  throwing hthrow := .inr hthrow

/-- What `call` has given to the caller is on its stack, its native frame
given up. -/
theorem back_callReturned (nparams : Nat) (res : Object) :
    Back m (m.callReturned v o nparams dest res).1 v o dest := by
  have hpush : Quiet m (m.set o
      ((if (m.vm o).suspended then m.vm o else (m.vm o).Pop nparams).Push res)) v o := by
    apply quiet_set (.inr rfl)
    split
    · rfl
    · simp
  exact (hpush.trans quiet_moveResult).back (back_returned true)

theorem back_callFailed (nparams : Nat) : Back m (m.callFailed v o nparams dest).1 v o dest :=
  ((quiet_set (.inr rfl) (by simp)).trans quiet_moveError).back back_failed

/-- What `wakeup` has given to the caller is on its stack, its native frame
given up. -/
theorem back_wakeupReturned (ret : Object) : Back m (m.wakeupReturned v o dest ret).1 v o dest := by
  have hmove : Quiet m ((m.set o ((m.vm o).Push ret)).moveResult v o) v o :=
    (quiet_set (.inr rfl) (push_control ret)).trans quiet_moveResult
  unfold Machine.wakeupReturned
  dsimp only
  split
  · exact (hmove.trans (quiet_set (.inr rfl) (by simp))).back (back_returned true)
  · exact hmove.back (back_returned true)

theorem back_wakeupFailed (rethrow_error : Bool) :
    Back m (m.wakeupFailed v o dest rethrow_error).1 v o dest := by
  have htop : Quiet m (m.set o ((m.vm o).GS_settop 1)) v o := quiet_set (.inr rfl) (by simp)
  unfold Machine.wakeupFailed
  cases rethrow_error with
  | false => exact htop.back (back_returned false)
  | true => exact (htop.trans quiet_moveError).back back_failed

theorem back_throwerror (err : String) :
    Back m ((m.set v ((m.vm v).GS_throwerror err)).failed v dest).1 v o dest :=
  (quiet_set (.inl rfl) (throwerror_control err)).back back_failed

/-- The result that `thread_call` takes from a stack has been put there for it. -/
theorem same_moveResult (res : Object) (hne : o ≠ v) :
    Same (((m.set o ((m.vm o).Push res)).moveResult v o).vm o) (m.vm o) := by
  simp only [Machine.moveResult, set_vm_self, set_vm_of_ne hne]
  exact same_pop rfl rfl fun _ hi => push_slot hi

theorem same_callReturned {nparams : Nat} {res : Object} (hne : o ≠ v)
    (hsuspended : (m.vm o).suspended = true) :
    Same ((m.callReturned v o nparams dest res).1.vm o) (m.vm o) := by
  simp only [Machine.callReturned, hsuspended, if_true]
  rw [returned_others true hne]
  exact same_moveResult res hne

/-- A thread that is suspended again stays as it was saved. -/
theorem same_wakeupReturned {ret : Object} (hne : o ≠ v)
    (hsuspended : (m.vm o).suspended = true) :
    Same ((m.wakeupReturned v o dest ret).1.vm o) (m.vm o) := by
  have hmove := same_moveResult (m := m) ret hne
  have hstate : ¬ (((m.set o ((m.vm o).Push ret)).moveResult v o).vm o).GS_getvmstate = .idle := by
    rw [hmove.control]
    simp [Control.GS_getvmstate, hsuspended]
  simp only [Machine.wakeupReturned, hstate, if_false]
  rw [returned_others true hne]
  exact hmove

/-- The running thread comes back from a function on threads. -/
theorem Coherent.back (h : Coherent m) (hactive : m.active = a :: rest)
    (hwaiting : Waiting (m.vm a.thread).toControl dest) (hthrowing : m.throwing = false)
    (hback : Back m m' a.thread o dest)
    (hsame : o ≠ a.thread → (m.vm o).suspended = true → Same (m'.vm o) (m.vm o)) :
    Coherent m' := by
  apply h.stay hactive (hback.active.trans hactive) rfl (fun t _ => congrFun hback.saved t)
  · rw [hback.caller]
    exact (h.head hactive).leaveNative hwaiting.native
  · intro t hv
    by_cases ho : t = o
    · subst ho
      exact ⟨hback.control hv, hsame hv⟩
    · rw [hback.others t hv ho]
      exact Keeps.refl _
  · intro hthrow
    have hdest : dest.isSome = true := by simpa [hthrowing] using hback.throwing hthrow
    exact hwaiting.left hdest hback.caller

/-! ### The functions on threads -/

/-- The thread `a` is in a function on threads. -/
structure Calling (m : Machine) (a : Activation) (rest : List Activation) : Prop where
  coherent : Coherent m
  active : m.active = a :: rest
  throwing : m.throwing = false
  waiting : Waiting (m.vm a.thread).toControl a.dest

/-- The function fails before it has touched another thread. -/
theorem Calling.throwerror (h : Calling m a rest) (err : String) :
    Coherent ((m.set a.thread ((m.vm a.thread).GS_throwerror err)).failed a.thread a.dest).1 :=
  h.coherent.back h.active h.waiting h.throwing (o := a.thread) (back_throwerror err)
    fun hne => absurd rfl hne

theorem Calling.executing (h : Calling m a rest) :
    Executing (m.vm a.thread).toControl (a.outer.length + 1) := h.coherent.head h.active

/-- A thread that is not running is not active. -/
theorem Coherent.inactive_of_state (h : Coherent m) (ho : (m.vm o).GS_getvmstate ≠ .running) :
    ∀ c ∈ m.active, c.thread ≠ o := by
  intro c hc heq
  exact ho (heq ▸ (h.executing c hc).getvmstate_running)

theorem Coherent.idle_executing (h : Coherent m) (ho : (m.vm o).GS_getvmstate = .idle) :
    Executing (m.vm o).toControl 0 := by
  have hinactive : ∀ c ∈ m.active, c.thread ≠ o := h.inactive_of_state (by simp [ho])
  rcases h.inactive o hinactive with hidle | ⟨hs, hsame⟩
  · exact hidle
  · rw [hsame.control] at ho
    simp [Control.GS_getvmstate, hs.suspended] at ho

theorem Coherent.suspended_sound (h : Coherent m) (ho : (m.vm o).GS_getvmstate = .suspended) :
    (m.saved o).Sound ∧ Same (m.vm o) (m.saved o).vm := by
  have hinactive : ∀ c ∈ m.active, c.thread ≠ o := h.inactive_of_state (by simp [ho])
  rcases h.inactive o hinactive with hidle | hsuspended
  · simp [hidle.getvmstate_idle] at ho
  · exact hsuspended

/-- `thread_call` finds nothing to call on top of the stack of `o`. -/
def NotCallable (rt : Runtime) (m : Machine) (v o : Ref) : Prop :=
  let nparams := (m.vm v).GS_gettop
  let vm := m.pushArguments v o
  ∃ err, rt.callee (vm.GetUp (nparams + 1)) (vm.args (vm.top - nparams) nparams) = .error err

theorem pushArguments_control : (m.pushArguments v o).toControl = (m.vm o).toControl :=
  (pushAll_control _).trans (push_control _)

theorem pushArguments_top (h : 1 ≤ (m.vm v).GS_gettop) :
    (m.pushArguments v o).top = (m.vm o).top + (m.vm v).GS_gettop := by
  simp only [Machine.pushArguments, pushAll_top, push_top, List.length_map, List.length_range]
  omega

theorem pushArguments_slot {i : Nat} (h : i < (m.vm o).top) :
    (m.pushArguments v o).stack i = (m.vm o).stack i :=
  (pushAll_slot (Nat.lt_succ_of_lt h)).trans (push_slot h)

/-- A call that has failed leaves the stack of `o` as it was. -/
theorem same_callFailed {vm : VM} (hne : o ≠ v) (hparams : 1 ≤ (m.vm v).GS_gettop)
    (hcontrol : vm.toControl = (m.pushArguments v o).toControl)
    (hvm : vm.top = (m.pushArguments v o).top ∧ vm.stack = (m.pushArguments v o).stack) :
    Same (((m.set o vm).callFailed v o (m.vm v).GS_gettop dest).1.vm o) (m.vm o) := by
  have hfinal : ((m.set o vm).callFailed v o (m.vm v).GS_gettop dest).1.vm o =
      vm.Pop (m.vm v).GS_gettop := by
    simp only [Machine.callFailed, Machine.moveError]
    rw [failed_others hne, set_vm_of_ne hne, set_vm_self, set_vm_self]
  rw [hfinal]
  apply same_pop
  · exact hcontrol.trans pushArguments_control
  · rw [hvm.1, pushArguments_top hparams]
  · intro i hi
    rw [hvm.2]
    exact pushArguments_slot hi

/-- **`call` keeps the threads coherent**, if the thread it is given is idle
or refuses the call. -/
theorem Calling.call (h : Calling m a rest) (hparams : 1 ≤ (m.vm a.thread).GS_gettop)
    (hsafe : ∀ o, (m.vm a.thread).stack_get 1 = .thread o →
      (m.vm o).GS_getvmstate = .idle ∨ NotCallable rt m a.thread o) :
    Coherent (m.thread_call rt a.thread a.dest).1 := by
  unfold Machine.thread_call
  split
  · next o ho =>
    dsimp only
    have hidle : ¬ NotCallable rt m a.thread o → Executing (m.vm o).toControl 0 ∧
        ∀ c ∈ m.active, c.thread ≠ o := by
      intro hnot
      have hstate := (hsafe o ho).resolve_right hnot
      exact ⟨h.coherent.idle_executing hstate, h.coherent.inactive_of_state (by simp [hstate])⟩
    split
    · next vm hcall =>
      -- nothing has been called
      have hcontrol := call_control hcall (by simp)
      have hquiet : Quiet m (m.set o vm) a.thread o :=
        quiet_set (.inr rfl) (hcontrol.trans pushArguments_control)
      apply h.coherent.back h.active h.waiting h.throwing (hquiet.back (back_callFailed _))
      intro hne _
      exact same_callFailed hne hparams hcontrol (call_failed hcall)
    · next vm res hcall =>
      -- the call has come back at once
      have hcontrol := call_control hcall (by simp)
      have hquiet : Quiet m (m.set o vm) a.thread o :=
        quiet_set (.inr rfl) (hcontrol.trans pushArguments_control)
      apply h.coherent.back h.active h.waiting h.throwing (hquiet.back (back_callReturned _ res))
      intro _ hsuspended
      have hnot : ¬ NotCallable rt m a.thread o := by
        rintro ⟨err, herr⟩
        rw [call_error herr] at hcall
        cases hcall
      rw [(hidle hnot).1.running] at hsuspended
      cases hsuspended
    · next vm hcall =>
      -- a frame of `o` begins to run
      have hnot : ¬ NotCallable rt m a.thread o := by
        rintro ⟨err, herr⟩
        rw [call_error herr] at hcall
        cases hcall
      obtain ⟨hexecuting, hnew⟩ := hidle hnot
      have hne : a.thread ≠ o := hnew a (h.active ▸ List.mem_cons_self)
      have hstarted : Executing vm.toControl 1 := by
        have hpushed : Executing (m.pushArguments a.thread o).toControl 0 :=
          pushArguments_control ▸ hexecuting
        exact hpushed.call_started hcall
      let called : Activation := { thread := o, caller := .call (m.vm a.thread).GS_gettop }
      apply h.coherent.activate (b := called) h.active hnew
      · exact congrArg _ h.active
      · rfl
      · rw [set_vm_of_ne hne]
      · exact h.waiting
      · rw [set_vm_self]
        exact hstarted
      · intro t ht
        rw [set_vm_of_ne ht]
        exact Keeps.refl _
      · intro hthrow
        exact absurd (h.throwing.symm.trans hthrow) Bool.false_ne_true
  · exact h.throwerror _

/-- A suspended thread that is woken up. -/
theorem Calling.activate (h : Calling m a rest) {vm : VM} {value : Object}
    (ho : (m.vm o).GS_getvmstate = .suspended) (hvm : Resumed (m.saved o) value vm)
    (hb : b.thread = o) (houter : b.outer = []) (throwing : Bool) :
    Coherent { m.set o vm with active := b :: m.active, throwing := throwing } := by
  obtain ⟨hs, -⟩ := h.coherent.suspended_sound ho
  have hnew : ∀ c ∈ m.active, c.thread ≠ o := h.coherent.inactive_of_state (by simp [ho])
  have hne : a.thread ≠ o := hnew a (h.active ▸ List.mem_cons_self)
  subst hb
  apply h.coherent.activate h.active hnew
  · exact congrArg _ h.active
  · rfl
  · exact congrArg VM.toControl (set_vm_of_ne hne vm)
  · exact h.waiting
  · rw [houter]
    exact (set_vm_self (m := m) b.thread vm).symm ▸ hvm.executing hs
  · intro t ht
    exact (set_vm_of_ne (m := m) ht vm).symm ▸ Keeps.refl _
  · intro _
    exact (set_vm_self (m := m) b.thread vm).symm ▸ hvm.not_inNative hs

/-- What `thread_wakeup` gives to the thread. -/
def wakeupValue (vm : VM) : Object := if vm.GS_gettop > 1 then vm.stack_get 2 else .null

/-- A suspended thread that is woken up goes on from what it has saved, with
the value it is given. -/
theorem Calling.wakeup_started (h : Calling m a rest) (dest : Option Nat)
    (hget : (m.vm a.thread).stack_get 1 = .thread o) (ho : (m.vm o).GS_getvmstate = .suspended)
    (htarget : -1 ≤ (m.vm o).suspended_target) :
    ∃ vm, Resumed (m.saved o) (wakeupValue (m.vm a.thread)) vm ∧
      m.thread_wakeup a.thread dest = some ({ m.set o vm with
        active := { thread := o, traps := vm.suspended_traps, caller := .wakeup } :: m.active },
        .started) := by
  obtain ⟨hs, hsame⟩ := h.coherent.suspended_sound ho
  have htarget : -1 ≤ (m.saved o).vm.suspended_target := hsame.control ▸ htarget
  by_cases hret : (m.vm a.thread).GS_gettop > 1
  · have hslot : ∀ i < (m.saved o).vm.top, i ∉ (m.saved o).vm.openouters →
        ((m.vm o).Push ((m.vm a.thread).stack_get 2)).stack i = (m.saved o).vm.stack i := by
      intro i hi hfree
      have hi : i < (m.vm o).top := hsame.top ▸ hi
      exact (push_slot hi).trans (hsame.slot i hi (hsame.control ▸ hfree))
    obtain ⟨vm, hwakeup, hresumed, -⟩ := wakeupvm_started true hs
      ((push_control _).trans hsame.control) (congrArg (· + 1) hsame.top) hslot htarget
    refine ⟨vm, ?_, ?_⟩
    · simpa [wakeupValue, hret, push_getUp] using hresumed
    · simp [Machine.thread_wakeup, hget, ho, Machine.notSuspended, hret, hwakeup]
  · have hslot : ∀ i < (m.saved o).vm.top, i ∉ (m.saved o).vm.openouters →
        (m.vm o).stack i = (m.saved o).vm.stack i := by
      intro i hi hfree
      exact hsame.slot i (hsame.top ▸ hi) (hsame.control ▸ hfree)
    obtain ⟨vm, hwakeup, hresumed, -⟩ := wakeupvm_started false hs
      hsame.control hsame.top hslot htarget
    refine ⟨vm, ?_, ?_⟩
    · simpa [wakeupValue, hret] using hresumed
    · simp [Machine.thread_wakeup, hget, ho, Machine.notSuspended, hret, hwakeup]

/-- A suspended thread that is woken up with an error goes on from what it has
saved, throwing it. -/
theorem Calling.wakeupthrow_started (h : Calling m a rest) (dest : Option Nat)
    (hget : (m.vm a.thread).stack_get 1 = .thread o) (ho : (m.vm o).GS_getvmstate = .suspended)
    (htarget : -1 ≤ (m.vm o).suspended_target) :
    ∃ vm rethrow_error, Resumed (m.saved o) .null vm ∧
      vm.lasterror = (m.vm a.thread).stack_get 2 ∧
      m.thread_wakeupthrow a.thread dest = some ({ m.set o vm with
        active := { thread := o, traps := vm.suspended_traps,
                    caller := .wakeupthrow rethrow_error } :: m.active
        throwing := true }, .started) := by
  obtain ⟨hs, hsame⟩ := h.coherent.suspended_sound ho
  have htarget : -1 ≤ (m.saved o).vm.suspended_target := hsame.control ▸ htarget
  have hthrow := (same_throwobject (m.vm o) ((m.vm a.thread).stack_get 2)).trans hsame
  have hslot : ∀ i < (m.saved o).vm.top, i ∉ (m.saved o).vm.openouters →
      ((m.vm o).Push ((m.vm a.thread).stack_get 2)).GS_throwobject.stack i =
        (m.saved o).vm.stack i := by
    intro i hi hfree
    exact hthrow.slot i (hthrow.top ▸ hi) (hthrow.control ▸ hfree)
  obtain ⟨vm, hwakeup, hresumed, herror⟩ := wakeupvm_started false hs
    hthrow.control hthrow.top hslot htarget
  have herror : vm.lasterror = (m.vm a.thread).stack_get 2 := herror.trans (push_getUp _)
  simp only [Machine.thread_wakeupthrow, hget, ho, Machine.notSuspended, hwakeup]
  exact ⟨vm, _, hresumed, herror, rfl⟩

/-- A thread that is not suspended is not woken up. -/
theorem notSuspended_some {state : VMState} (h : state ≠ .suspended) :
    ∃ err, Machine.notSuspended state = some err := by
  cases state with
  | idle => exact ⟨_, rfl⟩
  | running => exact ⟨_, rfl⟩
  | suspended => exact absurd rfl h

/-- The function on threads has been called for a suspended thread. -/
def ForSuspended (m : Machine) (v : Ref) : Prop :=
  ∃ o, (m.vm v).stack_get 1 = .thread o ∧ (m.vm o).GS_getvmstate = .suspended

/-- `wakeup` of anything but a suspended thread fails in its caller. -/
theorem wakeup_failed (dest : Option Nat) (h : ¬ ForSuspended m v) :
    ∃ err, m.thread_wakeup v dest =
      some ((m.set v ((m.vm v).GS_throwerror err)).failed v dest) := by
  unfold Machine.thread_wakeup
  split
  · next o ho =>
    obtain ⟨err, herr⟩ := notSuspended_some fun hstate => h ⟨o, ho, hstate⟩
    rw [herr]
    exact ⟨err, rfl⟩
  · exact ⟨_, rfl⟩

/-- `wakeupthrow` of anything but a suspended thread fails in its caller. -/
theorem wakeupthrow_failed (dest : Option Nat) (h : ¬ ForSuspended m v) :
    ∃ err, m.thread_wakeupthrow v dest =
      some ((m.set v ((m.vm v).GS_throwerror err)).failed v dest) := by
  unfold Machine.thread_wakeupthrow
  split
  · next o ho =>
    obtain ⟨err, herr⟩ := notSuspended_some fun hstate => h ⟨o, ho, hstate⟩
    rw [herr]
    exact ⟨err, rfl⟩
  · exact ⟨_, rfl⟩

/-- The thread that a wakeup is for, if it is suspended, waits for its value in a register that is
read as it is meant. -/
def Wakeable (m : Machine) (v : Ref) : Prop :=
  ∀ o, (m.vm v).stack_get 1 = .thread o → (m.vm o).GS_getvmstate = .suspended →
    -1 ≤ (m.vm o).suspended_target

theorem Calling.wakeup (h : Calling m a rest) (hsafe : Wakeable m a.thread)
    {r : Machine × Outcome} (hwakeup : m.thread_wakeup a.thread a.dest = some r) :
    Coherent r.1 := by
  by_cases hfor : ForSuspended m a.thread
  · obtain ⟨o, hget, ho⟩ := hfor
    obtain ⟨vm, hresumed, heq⟩ := h.wakeup_started a.dest hget ho (hsafe o hget ho)
    cases hwakeup.symm.trans heq
    exact h.activate ho hresumed rfl rfl _
  · obtain ⟨err, heq⟩ := wakeup_failed a.dest hfor
    cases hwakeup.symm.trans heq
    exact h.throwerror err

theorem Calling.wakeupthrow (h : Calling m a rest) (hsafe : Wakeable m a.thread)
    {r : Machine × Outcome} (hwakeup : m.thread_wakeupthrow a.thread a.dest = some r) :
    Coherent r.1 := by
  by_cases hfor : ForSuspended m a.thread
  · obtain ⟨o, hget, ho⟩ := hfor
    obtain ⟨vm, rethrow_error, hresumed, -, heq⟩ :=
      h.wakeupthrow_started a.dest hget ho (hsafe o hget ho)
    cases hwakeup.symm.trans heq
    exact h.activate ho hresumed rfl rfl true
  · obtain ⟨err, heq⟩ := wakeupthrow_failed a.dest hfor
    cases hwakeup.symm.trans heq
    exact h.throwerror err

/-- `getstatus` changes the stacks only. -/
theorem Calling.getstatus (h : Calling m a rest) :
    Coherent (m.thread_getstatus a.thread a.dest).1 := by
  unfold Machine.thread_getstatus
  split
  · next o ho =>
    dsimp only
    have hquiet : ∀ status, Quiet m (m.set a.thread ((m.vm a.thread).Push status)) a.thread
        a.thread := fun status => quiet_set (.inl rfl) (push_control status)
    exact h.coherent.back h.active h.waiting h.throwing ((hquiet _).back (back_returned true))
      fun hne => absurd rfl hne
  · exact h.throwerror _

/-! ### Executions that come back -/

theorem Coherent.tail_ne (h : Coherent m) (hactive : m.active = a :: b :: rest) :
    a.thread ≠ b.thread := (h.head_ne hactive b List.mem_cons_self).symm

/-- The innermost `Execute` of `a` is over: its frames are left, or it is the only one of its thread
and that is suspended now. -/
structure Leaving (m m₁ : Machine) (a : Activation) : Prop where
  throwing : m₁.throwing = false
  others : ∀ t ≠ a.thread, m₁.vm t = m.vm t
  saved : ∀ t ≠ a.thread, m₁.saved t = m.saved t
  left : Executing (m₁.vm a.thread).toControl a.outer.length ∨
    a.outer = [] ∧ (m₁.saved a.thread).Sound ∧ Same (m₁.vm a.thread) (m₁.saved a.thread).vm

theorem Leaving.inactive (h : Leaving m m₁ a) (houter : a.outer = []) :
    Inactive (m₁.vm a.thread) (m₁.saved a.thread) := by
  rcases h.left with hidle | ⟨-, hsuspended⟩
  · rw [houter] at hidle
    exact .inl hidle
  · exact .inr hsuspended

theorem Leaving.setActive (h : Leaving m m₁ a) (active : List Activation) :
    Leaving m { m₁ with active := active } a :=
  ⟨h.throwing, h.others, h.saved, h.left⟩

/-- Native code of the thread goes on. -/
theorem Coherent.nested (h : Coherent m) (hactive : m.active = a :: rest)
    (hleaving : Leaving m m₁ a) {traps : Int} {outer : List Int} (houter : a.outer = traps :: outer)
    (hactive₁ : m₁.active = { a with traps := traps, outer := outer } :: rest) : Coherent m₁ := by
  apply h.stay hactive hactive₁ rfl hleaving.saved
  · rcases hleaving.left with hexecuting | ⟨hnil, -⟩
    · simpa [houter] using hexecuting
    · simp [houter] at hnil
  · intro t ht
    rw [hleaving.others t ht]
    exact Keeps.refl _
  · intro hthrow
    exact absurd (hleaving.throwing.symm.trans hthrow) Bool.false_ne_true

/-- The function on threads that has waited for `a` is at its end. -/
theorem Leaving.back (hleaving : Leaving m m₁ a) (h : Coherent m)
    (hactive : m.active = a :: b :: rest) (hactive₁ : m₁.active = b :: rest) (houter : a.outer = [])
    (hback : Back m₁ m' b.thread a.thread b.dest)
    (hsame : (m₁.vm a.thread).suspended = true → Same (m'.vm a.thread) (m₁.vm a.thread)) :
    Coherent m' := by
  have hne := h.tail_ne hactive
  apply h.deactivate hactive (hback.active.trans hactive₁)
  · rw [hback.saved]
    exact (hleaving.inactive houter).keeps ⟨hback.control hne, hsame⟩
  · rw [hback.caller, hleaving.others _ hne.symm]
  · intro t hb ha
    rw [hback.others t hb ha, hleaving.others t ha]
  · intro t ha
    rw [hback.saved, hleaving.saved t ha]
  · intro hthrow
    simpa [hleaving.throwing] using hback.throwing hthrow

/-- The host has got back the thread that it has called. -/
theorem Leaving.host (hleaving : Leaving m m₁ a) (h : Coherent m) (hactive : m.active = [a])
    (houter : a.outer = []) {vm : VM} (hkeeps : Keeps (m₁.vm a.thread) vm) :
    Coherent { m₁.set a.thread vm with active := [] } := by
  apply h.empty hactive rfl
  · exact (set_vm_self (m := m₁) a.thread vm).symm ▸ (hleaving.inactive houter).keeps hkeeps
  · intro t ht
    exact (set_vm_of_ne (m := m₁) ht vm).trans (hleaving.others t ht)
  · exact hleaving.saved

/-- The end of an Execute gives control back to whoever started it. -/
theorem Coherent.executed {outres : Object} (h : Coherent m) (hactive : m.active = a :: rest)
    (hleaving : Leaving m m₁ a) (hactive₁ : m₁.active = a :: rest)
    (hexecuted : m₁.executed outres = some m') : Coherent m' := by
  unfold Machine.executed at hexecuted
  rw [hactive₁] at hexecuted
  dsimp only at hexecuted
  split at hexecuted
  · next traps outer _ houter =>
    cases hexecuted
    exact h.nested hactive (hleaving.setActive _) houter rfl
  · next nparams b rest' houter _ =>
    cases hexecuted
    exact (hleaving.setActive _).back h hactive rfl houter (back_callReturned nparams outres)
      (same_callReturned (h.tail_ne hactive))
  · next b rest' houter _ =>
    cases hexecuted
    exact (hleaving.setActive _).back h hactive rfl houter (back_wakeupReturned outres)
      (same_wakeupReturned (h.tail_ne hactive))
  · next b rest' houter _ =>
    cases hexecuted
    exact (hleaving.setActive _).back h hactive rfl houter (back_wakeupReturned outres)
      (same_wakeupReturned (h.tail_ne hactive))
  · next nparams houter _ =>
    cases hexecuted
    apply hleaving.host h hactive houter
    split
    · exact Keeps.refl _
    · next hrunning => exact ⟨pop_control nparams, fun hsuspended => absurd hsuspended hrunning⟩
  · cases hexecuted

/-- An error leaves the frames of the innermost `Execute`. -/
theorem Coherent.executeFailed (h : Coherent m) (hactive : m.active = a :: rest)
    (hactive₁ : m₁.active = a :: rest)
    (hothers : ∀ t ≠ a.thread, m₁.vm t = m.vm t) (hsaved : m₁.saved = m.saved)
    (hleft : Executing (m₁.vm a.thread).toControl a.outer.length)
    (hfailed : m₁.executeFailed = some m') : Coherent m' := by
  have hleaving : Leaving m { m₁ with throwing := false } a :=
    ⟨rfl, hothers, fun t _ => congrFun hsaved t, .inl hleft⟩
  have hrunning : ¬ (m₁.vm a.thread).suspended = true := by simp [hleft.running]
  unfold Machine.executeFailed at hfailed
  dsimp only at hfailed
  rw [hactive₁] at hfailed
  dsimp only at hfailed
  split at hfailed
  · next traps outer _ houter =>
    cases hfailed
    exact h.nested hactive (hleaving.setActive _) houter rfl
  · next nparams b rest' houter _ =>
    cases hfailed
    exact (hleaving.setActive _).back h hactive rfl houter (back_callFailed nparams)
      fun hsuspended => absurd hsuspended hrunning
  · next b rest' houter _ =>
    cases hfailed
    exact (hleaving.setActive _).back h hactive rfl houter (back_wakeupFailed true)
      fun hsuspended => absurd hsuspended hrunning
  · next rethrow_error b rest' houter _ =>
    cases hfailed
    exact (hleaving.setActive _).back h hactive rfl houter (back_wakeupFailed rethrow_error)
      fun hsuspended => absurd hsuspended hrunning
  · next nparams houter _ =>
    cases hfailed
    apply hleaving.host h hactive houter
    exact ⟨pop_control nparams, fun hsuspended => absurd hsuspended hrunning⟩
  · cases hfailed

/-- An error is caught in this Execute or ends it. -/
theorem Coherent.exception_trap (h : Coherent m) (htrap : m.exception_trap = some m')
    (hthrowing : m.throwing = true) : Coherent m' := by
  unfold Machine.exception_trap at htrap
  cases hactive : m.active with
  | nil => simp [hactive] at htrap
  | cons a rest =>
      simp only [hactive] at htrap
      have hnative : (m.vm a.thread).inNative = false := h.throwing hthrowing a (by simp [hactive])
      have hexecuting := h.head hactive
      split at htrap
      · cases htrap
      · next vm hunwind =>
        cases htrap
        let c : Activation := { a with traps := a.traps - 1 }
        exact h.run (c := c) hactive rfl (hexecuting.unwind_caught hnative hunwind)
          fun hthrow => absurd hthrow Bool.false_ne_true
      · next vm hunwind =>
        let vm' : VM := { vm with lasterror := (m.vm a.thread).lasterror }.autoDec
        have hvm : Executing vm.autoDec.toControl a.outer.length :=
          hexecuting.unwind_left hnative hunwind
        have hleft : Executing ((m.set a.thread vm').vm a.thread).toControl a.outer.length := by
          rw [set_vm_self]
          exact hvm
        have hactive' : (m.set a.thread vm').active = a :: rest := hactive
        have hothers : ∀ t ≠ a.thread, (m.set a.thread vm').vm t = m.vm t :=
          fun t ht => set_vm_of_ne ht vm'
        exact h.executeFailed hactive hactive' hothers rfl hleft htrap

/-- A return leaves a frame, and with the first frame of an Execute the
Execute. -/
theorem Coherent.return {arg0 arg1 : Nat} (h : Coherent m) (hthrowing : m.throwing = false)
    (hroot : ∀ a ∈ m.active.head?, ∃ ci ∈ (m.vm a.thread).callsstack.head?, ci.root = true)
    (hreturn : m.Return arg0 arg1 = some m') : Coherent m' := by
  unfold Machine.Return at hreturn
  cases hactive : m.active with
  | nil => simp [hactive] at hreturn
  | cons a rest =>
      simp only [hactive] at hreturn
      obtain ⟨ci, hci, hfirst⟩ := hroot a (by simp [hactive])
      let vm : VM := (m.vm a.thread).LeaveFrame.autoDec
      have hleaving : Leaving m (m.set a.thread vm) a := by
        constructor
        · exact hthrowing
        · exact fun t ht => set_vm_of_ne ht vm
        · exact fun _ _ => rfl
        · rw [set_vm_self]
          exact .inl ((h.head hactive).leaveFrame hci hfirst)
      exact h.executed hactive hleaving hactive hreturn

/-- The only `Execute` of a thread is suspended by the only native function it is in. -/
theorem Calling.suspension (h : Calling m a rest) (hcalls : (m.vm a.thread).nnativecalls = 2)
    {arg0 : Nat} (hlt : arg0 < 256) (traps : Int)
    (hregister : arg0 = 0xFF ∨
      (m.vm a.thread).leaveNative.stackbase + arg0 < (m.vm a.thread).leaveNative.top) :
    a.outer = [] ∧ ((m.suspended a.thread traps arg0).saved a.thread).Sound := by
  let vm := (m.vm a.thread).leaveNative
  have hleft : Executing vm.toControl (a.outer.length + 1) :=
    h.executing.leaveNative h.waiting.native
  have hone : vm.nnativecalls = 1 := by
    change (m.vm a.thread).LeaveFrame.nnativecalls - 1 = 1
    rw [leaveFrame_nnativecalls, hcalls]
  have hcount : 1 = a.outer.length + 1 + natives vm.callsstack := hone.symm.trans hleft.nnativecalls
  have houter : a.outer.length = 0 := by omega
  refine ⟨List.length_eq_zero_iff.mp houter, ?_⟩
  simp only [Machine.suspended, Function.update_self]
  constructor
  · rfl
  · exact hleft.layered
  · exact hleft.executes.trans (by rw [houter])
  · change natives vm.callsstack = 0
    omega
  · change vm.nnativecalls - 1 = 0
    rw [hone]
  · intro ci hci
    change ci ∈ vm.callsstack.head? at hci
    rw [Option.mem_def] at hci
    change ci.root = vm.callsstack.head?.any CallInfo.root
    rw [hci]
    rfl
  · rfl
  · exact hlt
  · exact hregister

/-- `suspend` saves the thread and gives control back to the one that woke it
up. -/
theorem Calling.suspend (h : Calling m a rest) {traps : Int}
    (hdest : ∀ arg0 ∈ a.dest, arg0 < 256 ∧ (arg0 = 0xFF ∨
      (m.vm a.thread).leaveNative.stackbase + arg0 < (m.vm a.thread).leaveNative.top))
    {r : Machine × Outcome} (hsuspend : m.base_suspend a.thread traps a.dest = some r) :
    Coherent r.1 := by
  unfold Machine.base_suspend at hsuspend
  split at hsuspend
  · cases hsuspend
    exact h.throwerror _
  · split at hsuspend
    · cases hsuspend
      exact h.throwerror _
    · next hcalls =>
      have hcalls : (m.vm a.thread).nnativecalls = 2 := not_not.mp hcalls
      cases hd : a.dest with
      | none =>
          rw [hd] at hsuspend
          cases hsuspend
          have hback : Back m (m.returned a.thread none true).1 a.thread a.thread a.dest :=
            hd ▸ back_returned true
          exact h.coherent.back h.active h.waiting h.throwing hback fun hne => absurd rfl hne
      | some arg0 =>
          obtain ⟨hlt, hregister⟩ := hdest arg0 hd
          obtain ⟨houter, hsound⟩ := h.suspension hcalls hlt traps hregister
          rw [hd] at hsuspend
          obtain ⟨m', hexecuted, heq⟩ := Option.map_eq_some_iff.mp hsuspend
          cases heq
          have hleaving : Leaving m (m.suspended a.thread traps arg0) a := by
            constructor
            · exact h.throwing
            · exact fun t ht => set_vm_of_ne ht _
            · exact fun t ht => Function.update_of_ne ht _ _
            · have hsame : (m.suspended a.thread traps arg0).vm a.thread =
                  ((m.suspended a.thread traps arg0).saved a.thread).vm := by
                simp [Machine.suspended]
              exact .inr ⟨houter, hsound, hsame ▸ Same.refl _⟩
          exact h.coherent.executed h.active hleaving h.active hexecuted

end GameScript.Threads
