import GameScript.VM.Local

/-!
What the frames below the current one keep while instructions call, return, yield,
resume and fail. `Over good rest k` says that somewhere on the call stack, under at
least `k` other frames, there is a frame that meets `good` over the frames `rest`.
Only the instructions that end a frame lower `k`, and only a tail call changes the
closure of a frame.
-/

namespace GameScript.VM

open Effect

variable {Heap : Type} {α : Type}

/-- There is a frame that meets `good` right over `rest`, with `k` frames or more on it. -/
def Over (good : List Closure → CallInfo → Prop) (rest : List CallInfo) (k : Nat)
    (vm : VM Heap) : Prop :=
  ∃ upper ci, vm.callstack = upper ++ ci :: rest ∧ k ≤ upper.length ∧ good vm.closures ci

/-- A property of frames that new closures and the counters of the frame do not change. -/
structure Stable (good : List Closure → CallInfo → Prop) : Prop where
  counters : ∀ {closures ci ci'}, ci.fixed = ci'.fixed → good closures ci → good closures ci'
  append : ∀ {closures ci} (new : List Closure), good closures ci → good (closures ++ new) ci

variable {good : List Closure → CallInfo → Prop} {rest : List CallInfo} {k : Nat}

theorem Over.of_le {vm : VM Heap} {k' : Nat} (h : Over good rest k vm) (hk : k' ≤ k) :
    Over good rest k' vm := by
  obtain ⟨upper, ci, hstack, hle, hgood⟩ := h
  exact ⟨upper, ci, hstack, Nat.le_trans hk hle, hgood⟩

/-- Only the call stack and the closures matter. -/
theorem Over.congr {vm vm' : VM Heap} (h : Over good rest k vm)
    (hstack : vm'.callstack = vm.callstack) (hclosures : vm'.closures = vm.closures) :
    Over good rest k vm' := by
  unfold Over
  rw [hstack, hclosures]
  exact h

theorem Over.length {vm : VM Heap} (h : Over good rest k vm) :
    rest.length + k < vm.callstack.length := by
  obtain ⟨upper, ci, hstack, hle, -⟩ := h
  rw [hstack]
  simp only [List.length_append, List.length_cons]
  omega

theorem Over.push {vm : VM Heap} (h : Over good rest k vm) (ci : CallInfo) :
    Over good rest (k + 1) { vm with callstack := ci :: vm.callstack } := by
  obtain ⟨upper, ci', hstack, hle, hgood⟩ := h
  refine ⟨ci :: upper, ci', ?_, ?_, hgood⟩
  · simp [hstack]
  · simpa using hle

theorem Over.modifyHead (hs : Stable good) {vm : VM Heap} (h : Over good rest k vm)
    {f : CallInfo → CallInfo} (hf : ∀ ci, (f ci).fixed = ci.fixed) :
    Over good rest k { vm with callstack := vm.callstack.modifyHead f } := by
  obtain ⟨upper, ci, hstack, hle, hgood⟩ := h
  cases upper with
  | nil => exact ⟨[], f ci, by simp [hstack], hle, hs.counters (hf ci).symm hgood⟩
  | cons ci' upper => exact ⟨f ci' :: upper, ci, by simp [hstack], by simpa using hle, hgood⟩

/-- With a frame over it, the frame is not the head. -/
theorem Over.modifyHead_succ {vm : VM Heap} (h : Over good rest (k + 1) vm)
    (f : CallInfo → CallInfo) :
    Over good rest (k + 1) { vm with callstack := vm.callstack.modifyHead f } := by
  obtain ⟨upper, ci, hstack, hle, hgood⟩ := h
  cases upper with
  | nil => simp at hle
  | cons ci' upper => exact ⟨f ci' :: upper, ci, by simp [hstack], by simpa using hle, hgood⟩

theorem Over.tail {vm : VM Heap} (h : Over good rest (k + 1) vm) :
    Over good rest k { vm with callstack := vm.callstack.tail } := by
  obtain ⟨upper, ci, hstack, hle, hgood⟩ := h
  cases upper with
  | nil => simp at hle
  | cons ci' upper => exact ⟨upper, ci, by simp [hstack], by simpa using hle, hgood⟩

theorem Over.append (hs : Stable good) {vm : VM Heap} (h : Over good rest k vm)
    (new : List Closure) : Over good rest k { vm with closures := vm.closures ++ new } := by
  obtain ⟨upper, ci, hstack, hle, hgood⟩ := h
  exact ⟨upper, ci, hstack, hle, hs.append new hgood⟩

/-! ### Operations that leave the call stack alone -/

section

variable (vm : VM Heap)

@[simp] theorem setSlot_callstack (n : Nat) (v : Object) :
    (vm.setSlot n v).callstack = vm.callstack := rfl

@[simp] theorem setSlot_closures (n : Nat) (v : Object) :
    (vm.setSlot n v).closures = vm.closures := rfl

@[simp] theorem nullSlots_callstack (lo hi : Nat) :
    (vm.nullSlots lo hi).callstack = vm.callstack := rfl

@[simp] theorem nullSlots_closures (lo hi : Nat) :
    (vm.nullSlots lo hi).closures = vm.closures := rfl

@[simp] theorem writeOuter_callstack (p : Ref) (v : Object) :
    (vm.writeOuter p v).callstack = vm.callstack := by
  unfold writeOuter
  split <;> rfl

@[simp] theorem writeOuter_closures (p : Ref) (v : Object) :
    (vm.writeOuter p v).closures = vm.closures := by
  unfold writeOuter
  split <;> rfl

/-- Closing outer variables changes neither the call stack nor the closures.
-/
theorem closeFrom_frames (stackindex : Nat) (ps : List Ref) :
    (vm.closeFrom stackindex ps).callstack = vm.callstack ∧
      (vm.closeFrom stackindex ps).closures = vm.closures := by
  induction ps generalizing vm with
  | nil => exact ⟨rfl, rfl⟩
  | cons p ps ih =>
    unfold closeFrom
    split
    · split
      · exact ih _
      · exact ⟨rfl, rfl⟩
    · exact ⟨rfl, rfl⟩

@[simp] theorem closeOuters_callstack (stackindex : Nat) :
    (vm.closeOuters stackindex).callstack = vm.callstack :=
  (closeFrom_frames vm stackindex _).1

@[simp] theorem closeOuters_closures (stackindex : Nat) :
    (vm.closeOuters stackindex).closures = vm.closures :=
  (closeFrom_frames vm stackindex _).2

/-- Assigning to outer variables changes neither the call stack nor the
closures. -/
theorem writeOuters_frames (written : List (Ref × Object)) :
    (vm.writeOuters written).callstack = vm.callstack ∧
      (vm.writeOuters written).closures = vm.closures := by
  unfold writeOuters
  induction written generalizing vm with
  | nil => exact ⟨rfl, rfl⟩
  | cons w written ih =>
    have h := ih (vm.writeOuter w.1 w.2)
    rw [writeOuter_callstack, writeOuter_closures] at h
    exact h

@[simp] theorem absorb_callstack (r : Response Heap) :
    (vm.absorb r).callstack = vm.callstack := (writeOuters_frames vm r.written).1

@[simp] theorem absorb_closures (r : Response Heap) :
    (vm.absorb r).closures = vm.closures ++ r.closures := by
  change (vm.writeOuters r.written).closures ++ r.closures = _
  rw [(writeOuters_frames vm r.written).2]

@[simp] theorem leaveFrame_callstack : vm.leaveFrame.callstack = vm.callstack.tail := by
  unfold leaveFrame
  split
  · simp [*]
  · simp [*]

@[simp] theorem leaveFrame_closures : vm.leaveFrame.closures = vm.closures := by
  unfold leaveFrame
  split <;> simp

end

theorem Over.absorb (hs : Stable good) {vm : VM Heap} (h : Over good rest k vm)
    (r : Response Heap) : Over good rest k (vm.absorb r) :=
  (h.append hs r.closures).congr (absorb_callstack vm r) (absorb_closures vm r)

/-- What stays in a frame keeps the frames below, and keeps what its own frame meets. -/
theorem local_over (hs : Stable good) (rt : Runtime) :
    Local rt (fun _ => True) (Keeps (Over good rest k)) where
  set _ _ _ _ h := h.congr rfl rfl
  head _ _ hf h := h.modifyHead hs hf
  traps _ _ _ h := h.congr rfl rfl
  absorb _ answer h := h.absorb hs answer
  write _ _ _ h := h.congr (by simp) (by simp)
  close _ _ h := h.congr (by simp) (by simp)

/-! ### Closures -/

section

variable {r : VM Heap → VM Heap → Prop} [Std.Refl r] [IsTrans (VM Heap) r]

/-- A closure captures a variable of its parent's frame or shares one of its
parent's own. -/
theorem within_captureOuter (hfind : ∀ n, Within r (findOuter n)) (current : Closure)
    (v : OuterVar) : Within r (captureOuter current v) := by
  unfold captureOuter
  split
  · exact within_bind within_get fun vm => hfind _
  · split
    · exact within_pure _
    · exact within_undefined

theorem within_captureOuters (hfind : ∀ n, Within r (findOuter n)) (current : Closure) :
    ∀ vs : List OuterVar, Within r (captureOuters current vs)
  | [] => within_pure _
  | v :: vs =>
    within_bind (within_captureOuter hfind current v) fun _ =>
      within_bind (within_captureOuters hfind current vs) fun _ => within_pure _

theorem within_boundEnvironment (i : Instruction) :
    Within r (boundEnvironment i : VMM Heap (Option Object)) := by
  unfold boundEnvironment
  split
  · exact within_pure _
  · refine within_bind (within_STK _) fun o => ?_
    split
    · exact within_pure _
    · exact within_pure _
    · exact within_pure _
    · exact within_pure _
    · exact within_raiseError _

/-- A new closure finds cells for its outer variables and is added to the closures. -/
theorem within_closureOp {i : Instruction} (hfind : ∀ n, Within r (findOuter n))
    (hnew : ∀ (vm : VM Heap) c, r vm { vm with closures := vm.closures ++ [c] })
    (hset : ∀ v, Within r (setTarget i v)) : Within r (closureOp i) := by
  refine within_bind within_currentClosure fun current => ?_
  refine within_bind (within_index1 i) fun n => ?_
  split
  · exact within_undefined
  · refine within_bind (within_captureOuters hfind current _) fun outervalues => ?_
    refine within_bind within_get fun vm => ?_
    refine within_bind (within_boundEnvironment i) fun env => ?_
    exact within_bind (within_modify fun vm' => hnew vm' _) fun _ => hset _

end

theorem over_findOuter (n : Nat) :
    Within (Keeps (Over good rest k)) (findOuter n : VMM Heap Ref) :=
  fun _ h => h.congr rfl rfl

/-- An instruction that only moves data keeps every frame where it is. -/
theorem over_execData (hs : Stable good) (rt : Runtime) (i : Instruction) :
    Within (Keeps (Over good rest k)) (execData rt i) := by
  have hl : Local rt (fun _ => True) (Keeps (Over good rest k)) := local_over hs rt
  by_cases hop : i.op = .CLOSURE
  · unfold execData
    rw [hop]
    exact within_closureOp over_findOuter (fun vm c h => h.append hs [c]) fun v =>
      hl.setTarget trivial v
  · exact hl.execData (fun _ _ => trivial) hop

/-! ### Calls -/

/-- Moving the window of the stack is within every relation that does not look
at it. -/
theorem within_setWindow {r : VM Heap → VM Heap → Prop} [Std.Refl r] [IsTrans (VM Heap) r]
    (hwindow : ∀ (vm : VM Heap) stackbase top, r vm { vm with stackbase := stackbase, top := top })
    (hsize : ∀ (vm : VM Heap) stacksize, r vm { vm with stacksize := stacksize })
    (newbase newtop : Nat) : Within r (setWindow newbase newtop : VMM Heap Unit) := by
  refine within_bind (within_modify fun vm => hwindow vm _ _) fun _ => ?_
  refine within_bind within_get fun vm => within_when fun _ => ?_
  refine within_bind (within_when fun _ => within_raiseError _) fun _ => ?_
  exact within_modify fun vm => hsize vm _

theorem over_setWindow (newbase newtop : Nat) :
    Within (Keeps (Over good rest k)) (setWindow newbase newtop : VMM Heap Unit) :=
  within_setWindow (fun _ _ _ h => h.congr rfl rfl) (fun _ _ h => h.congr rfl rfl) newbase newtop

theorem over_enterFrame_tailcall (hs : Stable good) (newbase newtop : Nat) :
    Within (Keeps (Over good rest k)) (enterFrame newbase newtop true : VMM Heap Unit) :=
  within_bind (within_modify fun _ h => h.modifyHead hs fun _ => rfl) fun _ =>
    over_setWindow newbase newtop

theorem over_enterFrame (newbase newtop : Nat) :
    Triple (Over good rest k) (enterFrame newbase newtop false : VMM Heap Unit)
      (fun _ => Over good rest (k + 1)) (Over good rest k) := by
  have hpush : Triple (Over good rest k) (pushFrame newbase : VMM Heap Unit)
      (fun _ => Over good rest (k + 1)) (Over good rest k) := triple_modify fun vm h => h.push _
  exact hpush.bind fun _ =>
    (over_setWindow newbase newtop).triple_le fun _ h => h.of_le (Nat.le_succ k)

theorem over_modifyCi_succ (f : CallInfo → CallInfo) :
    Within (Keeps (Over good rest (k + 1))) (modifyCi f : VMM Heap Unit) :=
  within_modify fun _ h => h.modifyHead_succ f

theorem within_resultSlot {r : VM Heap → VM Heap → Prop} [Std.Refl r] (callerbase : Nat)
    (target : Int) : Within r (resultSlot callerbase target : VMM Heap Nat) := by
  unfold resultSlot
  dsimp only
  split
  · exact within_pure _
  · exact within_undefined

/-- A triple whose errors may come before the frame is left. -/
theorem over_of_keeps {m : VMM Heap α} (h : Within (Keeps (Over good rest (k + 1))) m) :
    Triple (Over good rest (k + 1)) m (fun _ => Over good rest (k + 1)) (Over good rest k) :=
  h.triple_le fun _ h => h.of_le (Nat.le_succ k)

theorem over_storeResult (slot : VMM Heap Nat) (c : Prop) [Decidable c]
    (hslot : Within (Keeps (Over good rest k)) slot) (v : Object) :
    Within (Keeps (Over good rest k)) (when c do
      let slot ← slot
      modify fun vm => vm.setSlot slot v) :=
  within_when fun _ => within_bind hslot fun _ => within_modify fun _ h => h.congr rfl rfl

/-- A return leaves the frame on top: one frame fewer is on the good one. -/
theorem over_Return (arg0 arg1 : Nat) :
    Triple (Over good rest (k + 1)) (Return arg0 arg1 : VMM Heap (Option Object))
      (fun _ => Over good rest k) (Over good rest k) := by
  refine (over_of_keeps within_get).bind fun vm => ?_
  refine (over_of_keeps within_getCi).bind fun ci => ?_
  refine (over_of_keeps (over_storeResult _ _ (within_resultSlot _ _) _)).bind fun _ => ?_
  refine Triple.bind (triple_modify (q := fun _ => Over good rest k) fun vm h => ?_) fun _ => ?_
  · exact h.tail.congr (by simp) (by simp)
  · exact triple_pure fun _ h => h

/-- The good frame is there, or control has left it. -/
def OverOrLeft (good : List Closure → CallInfo → Prop) (rest : List CallInfo) (vm : VM Heap) :
    Prop :=
  Over good rest 0 vm ∨ vm.callstack.length ≤ rest.length

theorem left_of_keeps {m : VMM Heap α} (h : Within (Keeps (Over good rest 0)) m) :
    Triple (Over good rest 0) m (fun _ => Over good rest 0) (OverOrLeft good rest) :=
  h.triple_le fun _ h => .inl h

theorem Over.leaveFrame {vm : VM Heap} (h : Over good rest 0 vm) :
    OverOrLeft good rest vm.leaveFrame := by
  obtain ⟨upper, ci, hstack, hle, hgood⟩ := h
  cases upper with
  | nil => exact .inr (by simp [hstack])
  | cons ci' upper => exact .inl ⟨upper, ci, by simp [hstack], Nat.zero_le _, by simpa using hgood⟩

/-- A return with no frame in between may leave the good one itself. -/
theorem over_Return_left (arg0 arg1 : Nat) :
    Triple (Over good rest 0) (Return arg0 arg1 : VMM Heap (Option Object))
      (fun _ => OverOrLeft good rest) (OverOrLeft good rest) := by
  refine (left_of_keeps within_get).bind fun vm => ?_
  refine (left_of_keeps within_getCi).bind fun ci => ?_
  refine (left_of_keeps (over_storeResult _ _ (within_resultSlot _ _) _)).bind fun _ => ?_
  refine Triple.bind (triple_modify (q := fun _ => OverOrLeft good rest) fun vm h =>
    h.leaveFrame) fun _ => ?_
  exact triple_pure fun _ h => h

/-- A yield saves the frame on top without leaving it. -/
theorem over_yieldGenerator (hs : Stable good) (rt : Runtime) (p : Ref) (target : Nat) :
    Within (Keeps (Over good rest k)) (yieldGenerator rt p target) := by
  have hl : Local rt (fun _ => True) (Keeps (Over good rest k)) := local_over hs rt
  refine within_bind within_get fun vm => ?_
  refine within_bind within_getCi fun ci => ?_
  split
  · exact within_undefined
  · split
    · exact within_raiseError _
    · exact within_raiseError _
    · refine within_bind (hl.ask1 _) fun this => ?_
      refine within_bind (within_modify fun _ h => h.congr rfl rfl) fun _ => ?_
      exact within_modify fun _ h => h.congr rfl rfl

/-- What runs in a new frame keeps the frames below it. -/
theorem over_enterFrame_bind {newbase newtop : Nat} {f : Unit → VMM Heap α}
    (hf : ∀ u, Within (Keeps (Over good rest (k + 1))) (f u)) :
    Within (Keeps (Over good rest k)) (enterFrame newbase newtop false >>= f) := by
  intro vm h
  refine Triple.leaves ((over_enterFrame newbase newtop).bind fun u => ?_) h
  have hle (vm : VM Heap) (h : Over good rest (k + 1) vm) : Over good rest k vm :=
    h.of_le (Nat.le_succ k)
  exact (hf u).triple.mono (fun _ h => h) (fun _ => hle) hle

/-- A resumption pushes a frame on top of the others. -/
theorem over_resumeGenerator (hs : Stable good) (rt : Runtime) (p : Ref) (target : Nat) :
    Within (Keeps (Over good rest k)) (resumeGenerator rt p target) := by
  have hl : Local rt (fun _ => True) (Keeps (Over good rest (k + 1))) := local_over hs rt
  refine within_bind within_get fun vm => ?_
  split
  · exact within_undefined
  · split
    · exact within_raiseError _
    · exact within_raiseError _
    · refine over_enterFrame_bind fun _ => ?_
      refine within_bind (over_modifyCi_succ _) fun _ => ?_
      refine within_bind (hl.ask1 _) fun this => ?_
      refine within_bind (within_modify fun _ h => h.congr rfl rfl) fun _ => ?_
      exact within_modify fun _ h => h.congr rfl rfl

/-- The arguments of a call change the stack only. -/
theorem within_bindArguments {rt : Runtime} {r : VM rt.Heap → VM rt.Heap → Prop} [Std.Refl r]
    [IsTrans (VM rt.Heap) r] (habsorb : ∀ vm q, r vm (vm.absorb (served rt vm q)))
    (hstack : ∀ (vm : VM rt.Heap) stack, r vm { vm with stack := stack }) (c : Closure)
    (args stackbase : Nat) : Within r (bindArguments rt c args stackbase) := by
  unfold bindArguments
  dsimp only
  split
  · refine within_bind (within_when fun _ => within_raiseError _) fun _ => ?_
    refine within_bind within_get fun vm => ?_
    exact within_bind (within_ask1 habsorb _) fun arr => within_modify fun vm => hstack vm _
  · split
    · split
      · exact within_modify fun vm => hstack vm _
      · exact within_raiseError _
    · exact within_pure _

theorem within_bindEnvironment {r : VM Heap → VM Heap → Prop} [Std.Refl r]
    (hstack : ∀ (vm : VM Heap) stack, r vm { vm with stack := stack }) (c : Closure)
    (stackbase : Nat) : Within r (bindEnvironment c stackbase : VMM Heap Unit) := by
  unfold bindEnvironment
  split
  · exact within_modify fun vm => hstack vm _
  · exact within_pure _

theorem over_bindArguments (hs : Stable good) (rt : Runtime) (c : Closure)
    (args stackbase : Nat) :
    Within (Keeps (Over good rest k)) (bindArguments rt c args stackbase) :=
  within_bindArguments (fun _ _ h => h.absorb hs _) (fun _ _ h => h.congr rfl rfl) c
    args stackbase

theorem over_bindEnvironment (c : Closure) (stackbase : Nat) :
    Within (Keeps (Over good rest k)) (bindEnvironment c stackbase : VMM Heap Unit) :=
  within_bindEnvironment (fun _ _ h => h.congr rfl rfl) c stackbase

/-- The call of a generator function leaves the frame that was entered for it.
-/
theorem over_startGenerator (hs : Stable good) (rt : Runtime) (p : Ref) (target : Int)
    (stacksize : Nat) :
    Triple (Over good rest (k + 1)) (startGenerator rt p target stacksize)
      (fun _ => Over good rest k) (Over good rest k) := by
  have hnew : Within (Keeps (Over good rest (k + 1))) (modify fun vm => { vm with
      generators := vm.generators ++ [{ closure := p }] } : VMM rt.Heap Unit) :=
    within_modify fun _ h => h.congr rfl rfl
  refine (over_of_keeps within_get).bind fun vm => ?_
  refine (over_of_keeps hnew).bind fun _ => ?_
  refine (over_of_keeps (over_yieldGenerator hs rt _ _)).bind fun _ => ?_
  refine (over_Return 1 target.toNat).bind fun _ => ?_
  have hslot : Within (Keeps (Over good rest k)) (do
      let slot ← resultSlot (← get).stackbase target
      modify fun vm' => vm'.setSlot slot (.generator vm.generators.length)
      : VMM rt.Heap Unit) := by
    refine within_bind within_get fun vm' => ?_
    refine within_bind (within_resultSlot _ _) fun slot => ?_
    exact within_modify fun _ h => h.congr rfl rfl
  exact hslot.triple

/-- The end of `StartCall`, in the frame of the callee. -/
theorem over_enterClosure (hs : Stable good) (rt : Runtime) (p : Ref) (c : Closure)
    (target : Int) (stacksize : Nat) :
    Triple (Over good rest (k + 1)) (do
        modifyCi (·.start p target)
        when c.function.bgenerator (startGenerator rt p target stacksize))
      (fun _ => Over good rest k) (Over good rest k) := by
  refine (over_of_keeps (over_modifyCi_succ _)).bind fun _ => ?_
  unfold when
  split
  · exact over_startGenerator hs rt p target stacksize
  · exact triple_pure fun _ h => h.of_le (Nat.le_succ k)

/-- A call leaves the frames alone that are there already. -/
theorem over_StartCall (hs : Stable good) (rt : Runtime) (p : Ref) (target : Int)
    (args stackbase : Nat) :
    Within (Keeps (Over good rest k)) (StartCall rt p target args stackbase false) := by
  refine within_bind (within_getClosure p) fun c => ?_
  refine within_bind (over_bindArguments hs rt c args stackbase) fun _ => ?_
  refine within_bind (over_bindEnvironment c stackbase) fun _ vm h => ?_
  exact ((over_enterFrame _ _).bind fun _ => over_enterClosure hs rt p c target _).leaves h

/-- A closure may take over a frame with nothing known of it. -/
theorem over_StartCall_tailcall (hs : Stable good) (rt : Runtime) (p : Ref) (target : Int)
    (args stackbase : Nat) :
    Triple (Over good rest (k + 1)) (StartCall rt p target args stackbase true)
      (fun _ => Over good rest k) (Over good rest k) := by
  refine (over_of_keeps (within_getClosure p)).bind fun c => ?_
  refine (over_of_keeps (over_bindArguments hs rt c args stackbase)).bind fun _ => ?_
  refine (over_of_keeps (over_bindEnvironment c stackbase)).bind fun _ => ?_
  refine (over_of_keeps (over_enterFrame_tailcall hs _ _)).bind fun _ => ?_
  exact over_enterClosure hs rt p c target _

theorem over_setTop (last_top : Nat) :
    Within (Keeps (Over good rest k))
      (modify fun vm => { vm with top := max vm.top last_top } : VMM Heap Unit) :=
  within_modify fun _ h => h.congr rfl rfl

theorem over_takeOver (hs : Stable good) (rt : Runtime) (p : Ref) (target : Int)
    (args stackbase last_top : Nat) :
    Triple (Over good rest (k + 1)) (takeOver rt p target args stackbase last_top)
      (fun _ => Over good rest k) (Over good rest k) :=
  (over_StartCall_tailcall hs rt p target args stackbase).bind fun _ =>
    (over_setTop last_top).triple

theorem over_callMeta (hs : Stable good) (rt : Runtime) (i : Instruction) (clo : Object)
    (args : List Object) : Within (Keeps (Over good rest k)) (callMeta rt i clo args) := by
  have hl : Local rt (fun _ => True) (Keeps (Over good rest k)) := local_over hs rt
  refine within_bind (hl.ask _) fun vs => ?_
  split
  · exact within_bind (within_when fun _ => hl.setTarget trivial _) fun _ => within_pure _
  · exact within_raiseError _

/-- A native function runs in a frame of its own, which is gone when it
returns. -/
theorem over_CallNative (hs : Stable good) (rt : Runtime) (clo : Object)
    (args newbase arg0 : Nat) (target : Int) :
    Within (Keeps (Over good rest k)) (CallNative rt clo args newbase arg0 target) := by
  have hl : Local rt (fun _ => True) (Keeps (Over good rest k)) := local_over hs rt
  refine within_bind within_get fun vm => ?_
  refine within_bind (hl.askNative _) fun answer => ?_
  split
  · exact within_bind (within_when fun _ => hl.setSTK trivial _) fun _ => within_pure _
  · exact within_pure _
  · rename_i p vs
    have hargs : Within (Keeps (Over good rest (k + 1)))
        (modify fun vm => vm.setSlots newbase vs : VMM rt.Heap Unit) :=
      within_modify fun _ h => h.congr rfl rfl
    intro vm h
    refine Triple.leaves ((over_enterFrame _ _).bind fun _ => ?_) h
    refine (over_of_keeps hargs).bind fun _ => ?_
    refine (over_takeOver hs rt p target vs.length newbase _).bind fun _ => ?_
    exact triple_pure fun _ h => h

/-- A call keeps what is below, whatever is called. -/
theorem over_call (hs : Stable good) (rt : Runtime) (i : Instruction) :
    Within (Keeps (Over good rest k)) (call rt i) := by
  have hl : Local rt (fun _ => True) (Keeps (Over good rest k)) := local_over hs rt
  refine within_bind (within_STK1 i) fun clo => ?_
  refine within_bind within_get fun vm => ?_
  split
  · exact within_bind (over_StartCall hs rt _ _ _ _) fun _ => within_pure _
  · exact over_CallNative hs rt _ _ _ _ _
  · refine within_bind (hl.ask _) fun vs => ?_
    split
    · refine within_bind (within_when fun _ => hl.setTarget trivial _) fun _ => ?_
      split
      · refine within_bind (within_modify fun _ h => h.congr rfl rfl) fun _ => ?_
        exact within_bind (over_StartCall hs rt _ _ _ _) fun _ => within_pure _
      · refine within_bind (within_modify fun _ h => h.congr rfl rfl) fun _ => ?_
        exact within_bind (over_CallNative hs rt _ _ _ _ _) fun _ => within_pure _
      · exact within_pure _
    · exact within_undefined
  · exact within_bind within_get fun vm => over_callMeta hs rt i _ _
  · exact within_bind within_get fun vm => over_callMeta hs rt i _ _
  · exact within_bind within_get fun vm => over_callMeta hs rt i _ _
  · exact within_raiseError _

/-! ### The instructions that end a frame -/

theorem over_killGenerator :
    Within (Keeps (Over good rest k)) (killGenerator : VMM Heap Unit) := by
  refine within_bind within_getCi fun ci => ?_
  split
  · exact within_modify fun _ h => h.congr rfl rfl
  · exact within_pure _

theorem within_checkReturnType {r : VM Heap → VM Heap → Prop} [Std.Refl r]
    [IsTrans (VM Heap) r] (i : Instruction) :
    Within r (checkReturnType i : VMM Heap Unit) := by
  refine within_when fun _ => within_bind within_currentClosure fun c => ?_
  split
  · exact within_undefined
  · refine within_when fun _ => within_bind (within_STK1 i) fun retval => ?_
    exact within_when fun _ => within_raiseError _

/-- The end of a frame gives control back to the frame below, or to the caller
of Execute. -/
theorem over_finish (i : Instruction) :
    Triple (Over good rest 0) (finish i : VMM Heap Control) (fun _ => OverOrLeft good rest)
      (OverOrLeft good rest) := by
  refine (left_of_keeps (within_index1 i)).bind fun n => ?_
  refine (over_Return_left _ _).bind fun v => ?_
  cases v with
  | none => exact triple_pure fun _ h => h
  | some v => exact triple_pure fun _ h => h

theorem over_returnOp (i : Instruction) :
    Triple (Over good rest 0) (returnOp i : VMM Heap Control) (fun _ => OverOrLeft good rest)
      (OverOrLeft good rest) := by
  refine (left_of_keeps over_killGenerator).bind fun _ => ?_
  refine (left_of_keeps (within_checkReturnType i)).bind fun _ => ?_
  exact over_finish i

/-- A yield ends the frame on top, which may be the good one. -/
theorem over_yieldOp (hs : Stable good) (rt : Runtime) (i : Instruction) :
    Triple (Over good rest 0) (yieldOp rt i) (fun _ => OverOrLeft good rest)
      (OverOrLeft good rest) := by
  have hl : Local rt (fun _ => True) (Keeps (Over good rest 0)) := local_over hs rt
  refine (left_of_keeps within_getCi).bind fun ci => ?_
  cases ci.generator with
  | none => exact triple_throw fun _ h => .inl h
  | some p =>
    refine (left_of_keeps (within_index1 i)).bind fun arg1 => ?_
    refine (left_of_keeps (within_STK _)).bind fun temp_reg => ?_
    refine (left_of_keeps (within_modify fun vm h => hl.close vm _ h)).bind fun _ => ?_
    refine (left_of_keeps (over_yieldGenerator hs rt p _)).bind fun _ => ?_
    refine (left_of_keeps (within_modify fun vm h =>
      hl.traps vm vm.etraps (vm.traps - ci.etraps) h)).bind fun _ => ?_
    refine (left_of_keeps (within_when fun _ => hl.setSTK trivial _)).bind fun _ => ?_
    exact over_finish i

/-! ### Tail calls -/

/-- The closure that takes over the frame at the instruction `i`. -/
def Successor (vm : VM Heap) (i : Instruction) (p : Ref) (c : Closure) : Prop :=
  0 ≤ i.arg1.toInt ∧ vm.stack (vm.stackbase + i.arg1.toInt.toNat) = .closure p ∧
    vm.closures[p]? = some c ∧ c.function.bgenerator = false

/-- The frame is good, and `p` is the closure `c`. -/
def With (good : List Closure → CallInfo → Prop) (p : Ref) (c : Closure)
    (closures : List Closure) (ci : CallInfo) : Prop :=
  good closures ci ∧ closures[p]? = some c

theorem Stable.with (hs : Stable good) (p : Ref) (c : Closure) : Stable (With good p c) where
  counters hci h := ⟨hs.counters hci h.1, h.2⟩
  append {closures ci} new h := by
    refine ⟨hs.append new h.1, ?_⟩
    have hlt := (List.getElem?_eq_some_iff.mp h.2).1
    rw [List.getElem?_append_left hlt]
    exact h.2

theorem Over.with {vm : VM Heap} {p : Ref} {c : Closure} (h : Over good rest k vm)
    (hc : vm.closures[p]? = some c) : Over (With good p c) rest k vm := by
  obtain ⟨upper, ci, hstack, hle, hgood⟩ := h
  exact ⟨upper, ci, hstack, hle, hgood, hc⟩

theorem Over.without {vm : VM Heap} {p : Ref} {c : Closure} (h : Over (With good p c) rest k vm) :
    Over good rest k vm := by
  obtain ⟨upper, ci, hstack, hle, hgood⟩ := h
  exact ⟨upper, ci, hstack, hle, hgood.1⟩

theorem over_of_keeps_with {m : VMM Heap α} {p : Ref} {c : Closure}
    (h : Within (Keeps (Over (With good p c) rest k)) m) :
    Triple (Over (With good p c) rest k) m (fun _ => Over (With good p c) rest k)
      (Over good rest k) :=
  h.triple_le fun _ h => h.without

/-- What is known of a closure holds of the closure that is read. -/
theorem triple_getClosure_with (p : Ref) (c : Closure) :
    Triple (Over (With good p c) rest k) (getClosure p : VMM Heap Closure)
      (fun c' vm => c' = c ∧ Over (With good p c) rest k vm) (Over good rest k) := by
  refine triple_get_bind fun vm h => ?_
  obtain ⟨upper, ci, hstack, hle, hgood⟩ := h
  rw [hgood.2]
  refine triple_pure ?_
  rintro _ rfl
  exact ⟨rfl, upper, ci, hstack, hle, hgood⟩

/-- The frame that `p` takes over keeps to be good. -/
theorem Over.successor {vm : VM Heap} {p : Ref} {c : Closure} (h : Over (With good p c) rest k vm)
    {target : Int} (hgood : k = 0 → ∀ {closures ci}, With good p c closures ci →
      good closures (ci.start p target)) :
    Over good rest k { vm with callstack := vm.callstack.modifyHead (·.start p target) } := by
  obtain ⟨upper, ci, hstack, hle, hci⟩ := h
  cases upper with
  | nil => exact ⟨[], _, by simp [hstack], hle, hgood (Nat.le_zero.mp hle) hci⟩
  | cons ci' upper =>
    exact ⟨ci'.start p target :: upper, ci, by simp [hstack], by simpa using hle, hci.1⟩

/-- A frame may be taken over by a closure that keeps it good. -/
theorem over_takeOver_successor (hs : Stable good) (rt : Runtime) {p : Ref} {c : Closure}
    (hc : c.function.bgenerator = false) {target : Int}
    (hgood : k = 0 → ∀ {closures ci}, With good p c closures ci →
      good closures (ci.start p target))
    (args stackbase last_top : Nat) :
    Triple (Over (With good p c) rest k) (takeOver rt p target args stackbase last_top)
      (fun _ => Over good rest k) (Over good rest k) := by
  have hw := hs.with p c
  refine Triple.bind ((triple_getClosure_with p c).bind fun c' => ?_) fun _ =>
    (over_setTop last_top).triple
  rintro vm ⟨rfl, h⟩
  refine ((over_of_keeps_with (over_bindArguments hw rt c' args stackbase)).bind fun _ => ?_) vm h
  refine (over_of_keeps_with (over_bindEnvironment c' stackbase)).bind fun _ => ?_
  refine (over_of_keeps_with (over_enterFrame_tailcall hw _ _)).bind fun _ => ?_
  refine Triple.bind (triple_modify (q := fun _ => Over good rest k) fun vm h =>
    h.successor hgood) fun _ => ?_
  rw [hc]
  exact triple_pure fun _ h => h

theorem getCi_apply {vm : VM Heap} {ci : CallInfo} {callstack : List CallInfo}
    (h : vm.callstack = ci :: callstack) : getCi vm = .ok ci vm := by
  unfold getCi
  rw [get_bind_apply, h]
  rfl

/-- The frame is good, and its result goes to `target`. -/
def Aimed (good : List Closure → CallInfo → Prop) (target : Int) (closures : List Closure)
    (ci : CallInfo) : Prop :=
  good closures ci ∧ ci.target = target

theorem Stable.aimed (hs : Stable good) (target : Int) : Stable (Aimed good target) where
  counters hci h := ⟨hs.counters hci h.1, (congrArg CallInfo.target hci).symm.trans h.2⟩
  append new h := ⟨hs.append new h.1, h.2⟩

theorem Over.unaimed {vm : VM Heap} {target : Int} (h : Over (Aimed good target) rest k vm) :
    Over good rest k vm := by
  obtain ⟨upper, ci, hstack, hle, hgood⟩ := h
  exact ⟨upper, ci, hstack, hle, hgood.1⟩

/-- What stays in a frame leaves the number of frames as it is. -/
theorem local_depth (rt : Runtime) (n : Nat) :
    Local rt (fun _ => True) (Keeps fun vm => vm.callstack.length ≤ n) where
  set _ _ _ _ h := h
  head _ _ _ h := by simpa using h
  traps _ _ _ h := h
  absorb _ _ h := by simpa using h
  write _ _ _ h := by simpa using h
  close _ _ h := by simpa using h

/-- The frame that `p` takes over is the good one or one over it. -/
theorem over_reuseFrame_target (hs : Stable good) (rt : Runtime) (i : Instruction) {p : Ref}
    {c : Closure} (hc : c.function.bgenerator = false) {target : Int}
    (hgood : k = 0 → ∀ {closures ci}, With good p c closures ci →
      ci.target = target ∧ good closures (ci.start p target)) :
    Triple (fun vm => Over (With good p c) rest k vm ∧
        (k = 0 → vm.callstack.length ≤ rest.length + 1))
      (reuseFrame rt i p) (fun _ => Over good rest k) (Over good rest k) := by
  have hboth {β : Type} {m : VMM rt.Heap β} (h : ∀ {r : VM rt.Heap → VM rt.Heap → Prop}
      [Std.Refl r] [IsTrans (VM rt.Heap) r], Local rt (fun _ => True) r → Within r m) :
      Triple (fun vm => Over (With good p c) rest k vm ∧
          (k = 0 → vm.callstack.length ≤ rest.length + 1)) m
        (fun _ vm => Over (With good p c) rest k vm ∧
          (k = 0 → vm.callstack.length ≤ rest.length + 1)) (Over good rest k) := by
    intro vm hvm
    have hover := (over_of_keeps_with (h (local_over (hs.with p c) rt))) vm hvm.1
    have hdepth := h (local_depth rt (rest.length + 1)) vm
    cases hr : m vm with
    | ok a vm' =>
      rw [hr] at hover
      rw [leaves_ok hr] at hdepth
      exact ⟨hover, fun hk => hdepth (hvm.2 hk)⟩
    | error e vm' =>
      rw [hr] at hover
      exact hover
  refine (hboth fun _ => within_get).bind fun vm => ?_
  refine (hboth fun hl => within_modify fun vm => hl.close vm _).bind fun _ => ?_
  refine (hboth fun hl => within_forM_mem fun n _ =>
    within_bind (within_STK _) fun v => hl.setSTK trivial v).bind fun _ => ?_
  refine Triple.bind (q := fun ci vm => (k = 0 → ci.target = target) ∧
    Over (With good p c) rest k vm) ?_ fun ci => ?_
  · rintro vm ⟨hover, hdepth⟩
    obtain ⟨upper, ci, hstack, hle, hci⟩ := hover
    cases upper with
    | nil =>
      rw [getCi_apply hstack]
      exact ⟨fun hk => (hgood hk hci).1, [], ci, hstack, hle, hci⟩
    | cons ci' upper =>
      rw [getCi_apply hstack]
      refine ⟨fun hk => ?_, ci' :: upper, ci, hstack, hle, hci⟩
      have hlen := hdepth hk
      rw [hstack, List.length_append, List.length_cons, List.length_cons] at hlen
      omega
  · rintro vm ⟨htarget, hover⟩
    have hstart (hk : k = 0) {closures : List Closure} {ci' : CallInfo}
        (h : With good p c closures ci') : good closures (ci'.start p ci.target) := by
      rw [htarget hk]
      exact (hgood hk h).2
    refine Triple.bind (over_takeOver_successor hs rt hc hstart _ _ _) (fun _ => ?_) vm hover
    exact triple_pure fun _ h => h

/-- A frame that a closure takes over keeps its target. -/
theorem over_reuseFrame (hs : Stable good) (rt : Runtime) (i : Instruction) {p : Ref}
    {c : Closure} (hc : c.function.bgenerator = false) {vm : VM rt.Heap}
    (hgood : k = 0 → ∀ {closures ci}, With good p c closures ci →
      good closures (ci.start p ci.target))
    (h : Over (With good p c) rest k vm) : Over good rest k (leaves (reuseFrame rt i p) vm) := by
  obtain ⟨upper, ci, hstack, hle, hci⟩ := h
  cases upper with
  | nil =>
    obtain rfl : k = 0 := Nat.le_zero.mp hle
    have haimed : Over (With (Aimed good ci.target) p c) rest 0 vm :=
      ⟨[], ci, hstack, hle, ⟨hci.1, rfl⟩, hci.2⟩
    have hdepth : vm.callstack.length ≤ rest.length + 1 := by
      rw [hstack]
      exact Nat.le_refl _
    have hstart {closures : List Closure} {ci' : CallInfo}
        (h : With (Aimed good ci.target) p c closures ci') :
        ci'.target = ci.target ∧ Aimed good ci.target closures (ci'.start p ci.target) := by
      obtain ⟨⟨hgood', htarget⟩, hp⟩ := h
      refine ⟨htarget, ?_, rfl⟩
      rw [← htarget]
      exact hgood rfl ⟨hgood', hp⟩
    exact ((over_reuseFrame_target (hs.aimed ci.target) rt i hc fun _ => hstart).leaves
      ⟨haimed, fun _ => hdepth⟩).unaimed
  | cons ci' upper =>
    have hover : Over (With good p c) rest (upper.length + 1) vm :=
      ⟨ci' :: upper, ci, hstack, Nat.le_refl _, hci⟩
    have hupper (hk : upper.length + 1 = 0) : False := Nat.succ_ne_zero _ hk
    exact ((over_reuseFrame_target hs rt i hc (fun hk => (hupper hk).elim :
      upper.length + 1 = 0 → ∀ {closures ci}, With good p c closures ci →
        ci.target = 0 ∧ good closures (ci.start p 0))).leaves
      ⟨hover, fun hk => (hupper hk).elim⟩).of_le hle

theorem STK1_apply {i : Instruction} (h : 0 ≤ i.arg1.toInt) (vm : VM Heap) :
    STK1 i vm = .ok (vm.stack (vm.stackbase + i.arg1.toInt.toNat)) vm := by
  unfold STK1 index1
  rw [if_pos h]
  rfl

theorem STK1_undefined {i : Instruction} (h : ¬ 0 ≤ i.arg1.toInt) (vm : VM Heap) :
    STK1 i vm = .error .undefined vm := by
  unfold STK1 index1
  rw [if_neg h]
  rfl

theorem getClosure_apply {vm : VM Heap} {p : Ref} {c : Closure} (h : vm.closures[p]? = some c) :
    getClosure p vm = .ok c vm := by
  unfold getClosure
  rw [get_bind_apply, h]
  rfl

theorem getClosure_undefined {vm : VM Heap} {p : Ref} (h : vm.closures[p]? = none) :
    getClosure p vm = .error .undefined vm := by
  unfold getClosure
  rw [get_bind_apply, h]
  rfl

/-- A tail call from a good frame whose successor is good too, or from a frame over it. -/
theorem over_tailCall (hs : Stable good) (rt : Runtime) (i : Instruction) {vm : VM rt.Heap}
    (hgood : ∀ p c, Successor vm i p c → k = 0 → ∀ {closures ci},
      With good p c closures ci → good closures (ci.start p ci.target))
    (h : Over good rest k vm) : Over good rest k (leaves (tailCall rt i) vm) := by
  unfold tailCall
  rw [leaves_bind]
  by_cases harg1 : 0 ≤ i.arg1.toInt
  · rw [STK1_apply harg1]
    dsimp only
    split
    · rename_i p hp
      rw [leaves_bind]
      cases hc : vm.closures[p]? with
      | none => rwa [getClosure_undefined hc]
      | some c =>
        rw [getClosure_apply hc]
        dsimp only
        split
        · exact over_call hs rt i vm h
        · rename_i hgen
          have hgen' : c.function.bgenerator = false := by simpa using hgen
          exact over_reuseFrame hs rt i hgen' (hgood p c ⟨harg1, hp, hc, hgen'⟩) (h.with hc)
    · exact over_call hs rt i vm h
  · rwa [STK1_undefined harg1]

/-! ### Generators -/

/-- RESUME keeps what is below the frame it pushes. -/
theorem over_resumeOp (hs : Stable good) (rt : Runtime) (i : Instruction) :
    Within (Keeps (Over good rest k)) (resumeOp rt i) := by
  refine within_bind (within_STK1 i) fun o => ?_
  split
  · refine within_bind (over_resumeGenerator hs rt _ _) fun _ => ?_
    refine within_bind within_getCi fun ci => ?_
    exact within_modify fun _ h => h.congr rfl rfl
  · exact within_raiseError _

/-- FOREACH keeps what is below, also where it resumes a generator. -/
theorem over_foreachOp (hs : Stable good) (rt : Runtime) (i : Instruction) :
    Within (Keeps (Over good rest k)) (foreachOp rt i) := by
  have hl : Local rt (fun _ => True) (Keeps (Over good rest k)) := local_over hs rt
  refine within_bind (within_STK _) fun o => ?_
  split
  · refine within_bind within_get fun vm => ?_
    split
    · exact within_undefined
    · split
      · exact hl.jump _
      · refine within_bind (within_STK _) fun n => ?_
        refine within_bind (hl.setSTK trivial _) fun _ => ?_
        refine within_bind (hl.setSTK trivial _) fun _ => ?_
        refine within_bind (within_ignoreFailure (over_resumeGenerator hs rt _ _)) fun _ => ?_
        exact within_pure _
      · exact within_raiseError _
  · refine within_bind (within_STK _) fun n => ?_
    refine within_bind (hl.ask _) fun vs => ?_
    split
    · refine within_bind (hl.setSTK trivial _) fun _ => ?_
      refine within_bind (hl.setSTK trivial _) fun _ => ?_
      exact within_bind (hl.setSTK trivial _) fun _ => hl.jump _
    · exact hl.jump _

/-! ### Steps -/

/-- The frame in which the current instruction runs is of the closure `c`. -/
def Runs (vm : VM Heap) (c : Closure) : Prop :=
  ∃ ci callstack p, vm.callstack = ci :: callstack ∧ ci.closure = some p ∧
    vm.closures[p]? = some c

theorem getCi_ok {vm vm' : VM Heap} {ci : CallInfo} (h : getCi vm = .ok ci vm') :
    vm' = vm ∧ ∃ callstack, vm.callstack = ci :: callstack := by
  cases hstack : vm.callstack with
  | nil =>
    unfold getCi at h
    rw [get_bind_apply, hstack] at h
    cases h
  | cons ci' callstack =>
    rw [getCi_apply hstack] at h
    cases h
    exact ⟨rfl, callstack, rfl⟩

theorem getClosure_ok {vm vm' : VM Heap} {p : Ref} {c : Closure}
    (h : getClosure p vm = .ok c vm') : vm' = vm ∧ vm.closures[p]? = some c := by
  cases hp : vm.closures[p]? with
  | none =>
    rw [getClosure_undefined hp] at h
    cases h
  | some c' =>
    rw [getClosure_apply hp] at h
    cases h
    exact ⟨rfl, rfl⟩

theorem Runs.currentClosure {vm : VM Heap} {c : Closure} (h : Runs vm c) :
    VM.currentClosure vm = .ok c vm := by
  obtain ⟨ci, callstack, p, hstack, hci, hp⟩ := h
  unfold VM.currentClosure
  rw [bind_apply, getCi_apply hstack]
  dsimp only
  rw [hci]
  exact getClosure_apply hp

theorem currentClosure_ok {vm vm' : VM Heap} {c : Closure}
    (h : VM.currentClosure vm = .ok c vm') : vm' = vm ∧ Runs vm c := by
  obtain ⟨ci, vm₁, hci, hclo⟩ := bind_eq_ok.mp h
  obtain ⟨rfl, callstack, hstack⟩ := getCi_ok hci
  cases hclosure : ci.closure with
  | none =>
    rw [hclosure] at hclo
    cases hclo
  | some p =>
    rw [hclosure] at hclo
    obtain ⟨rfl, hp⟩ := getClosure_ok hclo
    exact ⟨rfl, ci, callstack, p, hstack, hclosure, hp⟩

/-- A fetched instruction is the next one of the running closure. -/
theorem fetch_ok {vm vm' : VM Heap} {i : Instruction} (h : fetch vm = .ok i vm') :
    ∃ ci callstack p c, vm.callstack = ci :: callstack ∧ ci.closure = some p ∧
      vm.closures[p]? = some c ∧ c.function.instructions[ci.ip]? = some i ∧
      vm' = { vm with callstack := { ci with ip := ci.ip + 1 } :: callstack } := by
  obtain ⟨c, vm₁, hc, hnext⟩ := bind_eq_ok.mp h
  obtain ⟨rfl, ci, callstack, p, hstack, hclosure, hp⟩ := currentClosure_ok hc
  obtain ⟨ci', vm₂, hci, hi⟩ := bind_eq_ok.mp hnext
  rw [getCi_apply hstack] at hci
  cases hci
  refine ⟨ci, callstack, p, c, hstack, hclosure, hp, ?_⟩
  cases hget : c.function.instructions[ci.ip]? with
  | none =>
    rw [hget] at hi
    cases hi
  | some i' =>
    rw [hget] at hi
    cases hi
    exact ⟨rfl, by simp [hstack]⟩

/-- An instruction is fetched from the closure on top, whose pointer moves on.
-/
theorem fetch_apply {vm : VM Heap} {ci : CallInfo} {callstack : List CallInfo} {p : Ref}
    {c : Closure} {i : Instruction} (hstack : vm.callstack = ci :: callstack)
    (hclosure : ci.closure = some p) (hp : vm.closures[p]? = some c)
    (hi : c.function.instructions[ci.ip]? = some i) :
    fetch vm = .ok i { vm with callstack := { ci with ip := ci.ip + 1 } :: callstack } := by
  have hruns : Runs vm c := ⟨ci, callstack, p, hstack, hclosure, hp⟩
  unfold VM.fetch
  rw [bind_apply, hruns.currentClosure]
  dsimp only
  rw [bind_apply, getCi_apply hstack]
  dsimp only
  rw [hi]
  change EStateM.Result.ok i { vm with callstack := vm.callstack.modifyHead _ } = _
  rw [hstack]
  rfl

theorem fetch_length {vm vm' : VM Heap} {i : Instruction} (h : fetch vm = .ok i vm') :
    vm'.callstack.length = vm.callstack.length := by
  obtain ⟨ci, callstack, p, c, hstack, -, -, -, rfl⟩ := fetch_ok h
  simp [hstack]

/-- The fetch only counts in the frame on top. -/
theorem over_fetch (hs : Stable good) :
    Within (Keeps (Over good rest k)) (fetch : VMM Heap Instruction) := by
  refine within_bind within_currentClosure fun c => ?_
  refine within_bind within_getCi fun ci => ?_
  split
  · refine within_bind (within_modify fun _ h => h.modifyHead hs fun _ => rfl) fun _ => ?_
    exact within_pure _
  · exact within_undefined

theorem exec_return (rt : Runtime) {i : Instruction} (h : i.op = .RETURN) :
    exec rt i = returnOp i := by
  unfold exec
  rw [h]

theorem exec_yield (rt : Runtime) {i : Instruction} (h : i.op = .YIELD) :
    exec rt i = yieldOp rt i := by
  unfold exec
  rw [h]

/-- An instruction that does not end its frame keeps the good frame, if a closure that
takes it over is good. -/
theorem over_exec (hs : Stable good) (rt : Runtime) {i : Instruction} {vm : VM rt.Heap}
    (hreturn : i.op ≠ .RETURN) (hyield : i.op ≠ .YIELD)
    (hgood : i.op = .TAILCALL → ∀ p c, Successor vm i p c → k = 0 →
      ∀ {closures ci}, With good p c closures ci → good closures (ci.start p ci.target))
    (h : Over good rest k vm) : Over good rest k (leaves (exec rt i) vm) := by
  unfold exec
  split
  · exact over_call hs rt i vm h
  · rename_i hop
    exact over_tailCall hs rt i (hgood hop) h
  · rename_i hop
    exact absurd hop hreturn
  · rename_i hop
    exact absurd hop hyield
  · exact within_bind (over_resumeOp hs rt i) (fun _ => within_pure _) vm h
  · exact within_bind (over_foreachOp hs rt i) (fun _ => within_pure _) vm h
  · exact within_bind (over_execData hs rt i) (fun _ => within_pure _) vm h

/-- Any instruction, run in the good frame or in one over it. -/
theorem overOrLeft_exec (hs : Stable good) (rt : Runtime) {i : Instruction} {vm : VM rt.Heap}
    (hgood : i.op = .TAILCALL → vm.callstack.length = rest.length + 1 →
      ∀ p c, Successor vm i p c → ∀ {closures ci},
        With good p c closures ci → good closures (ci.start p ci.target))
    (h : Over good rest 0 vm) : OverOrLeft good rest (leaves (exec rt i) vm) := by
  by_cases hreturn : i.op = .RETURN
  · rw [exec_return rt hreturn]
    exact (over_returnOp i).leaves h
  by_cases hyield : i.op = .YIELD
  · rw [exec_yield rt hyield]
    exact (over_yieldOp hs rt i).leaves h
  left
  obtain ⟨upper, ci, hstack, -, hci⟩ := h
  cases upper with
  | nil =>
    refine over_exec hs rt hreturn hyield (fun hop p c hp _ => ?_)
      ⟨[], ci, hstack, Nat.le_refl 0, hci⟩
    exact hgood hop (by simp [hstack]) p c hp
  | cons ci' upper =>
    have hover : Over good rest 1 vm := ⟨ci' :: upper, ci, hstack, by simp, hci⟩
    refine (over_exec hs rt hreturn hyield (fun _ p c _ hk => ?_) hover).of_le (Nat.zero_le 1)
    exact absurd hk Nat.one_ne_zero

/-! ### Errors -/

@[simp] theorem killGeneratorOf_callstack (vm : VM Heap) (ci : CallInfo) :
    (vm.killGeneratorOf ci).callstack = vm.callstack := by
  unfold killGeneratorOf
  split <;> rfl

@[simp] theorem killGeneratorOf_closures (vm : VM Heap) (ci : CallInfo) :
    (vm.killGeneratorOf ci).closures = vm.closures := by
  unfold killGeneratorOf
  split <;> rfl

/-- A trap is entered in the frame it was set in. -/
theorem enterTrap_frames {err : Object} {last_top : Nat} {ci : CallInfo}
    {callstack : List CallInfo} {vm vm' : VM Heap}
    (h : vm.enterTrap err last_top ci callstack = .next vm') :
    vm'.closures = vm.closures ∧
      ∃ ci', vm'.callstack = ci' :: callstack ∧ ci'.fixed = ci.fixed := by
  unfold enterTrap at h
  split at h
  · cases h
  · cases h
    exact ⟨rfl, _, rfl, rfl⟩

/-- Unwinding to a trap leaves frames and enters none. -/
theorem unwind_length {err : Object} {last_top : Nat} (n : Nat) {vm vm' : VM Heap}
    (h : unwind err last_top n vm = .next vm') : vm'.callstack.length ≤ vm.callstack.length := by
  induction n generalizing vm with
  | zero => cases h
  | succ n ih =>
    unfold unwind at h
    split at h
    · cases h
    · rename_i ci callstack hstack
      rw [hstack]
      split at h
      · obtain ⟨-, ci', hstack', -⟩ := enterTrap_frames h
        rw [hstack']
        exact Nat.le_refl _
      · split at h
        · cases h
        · have hle := ih h
          simp only [leaveFrame_callstack, killGeneratorOf_callstack, hstack, List.tail_cons] at hle
          exact Nat.le_succ_of_le hle

/-- An error ends up in the good frame, in a frame over it, or leaves it. -/
theorem Over.unwind (hs : Stable good) {err : Object} {last_top : Nat} (n : Nat)
    {vm vm' : VM Heap} (h : Over good rest k vm) (hu : unwind err last_top n vm = .next vm') :
    OverOrLeft good rest vm' := by
  induction n generalizing vm k with
  | zero => cases hu
  | succ n ih =>
    obtain ⟨upper, ci, hstack, hle, hci⟩ := h
    unfold VM.unwind at hu
    split at hu
    · cases hu
    rename_i ci₁ callstack hstack₁
    split at hu
    · obtain ⟨hclosures, ci₂, hstack₂, hfixed⟩ := enterTrap_frames hu
      rw [hstack] at hstack₁
      left
      cases upper with
      | nil =>
        cases hstack₁
        refine ⟨[], ci₂, hstack₂, Nat.le_refl 0, ?_⟩
        rw [hclosures]
        exact hs.counters hfixed.symm hci
      | cons ci' upper =>
        cases hstack₁
        refine ⟨ci₂ :: upper, ci, hstack₂, Nat.zero_le _, ?_⟩
        rwa [hclosures]
    · split at hu
      · cases hu
      rw [hstack] at hstack₁
      cases upper with
      | nil =>
        right
        have hlen := unwind_length n hu
        simpa only [leaveFrame_callstack, killGeneratorOf_callstack, hstack, List.nil_append,
          List.tail_cons] using hlen
      | cons ci' upper =>
        have hover : Over good rest 0 (vm.killGeneratorOf ci₁).leaveFrame :=
          ⟨upper, ci, by simp [hstack], Nat.zero_le _, by simpa using hci⟩
        exact ih hover hu

/-- The error handler is asked in the frame of the error. -/
theorem Over.exceptionTrap (hs : Stable good) (rt : Runtime) {err : Object}
    {vm vm' : VM rt.Heap} (h : Over good rest k vm)
    (ht : exceptionTrap rt err vm = .next vm') :
    OverOrLeft good rest vm' := by
  have hl : Local rt (fun _ => True) (Keeps (Over good rest k)) := local_over hs rt
  have hask : Within (Keeps (Over good rest k))
      (ignoreFailure (rt.ask (.exception err (vm.traps ≠ 0)))) :=
    within_ignoreFailure (hl.ask _)
  unfold VM.exceptionTrap at ht
  split at ht
  · rename_i hr
    exact (hask.ok hr h).unwind hs _ ht
  · rename_i hr
    exact (hask.error hr h).unwind hs _ ht

/-- An error that is caught is caught in this frame or in one below it. -/
theorem exceptionTrap_length (rt : Runtime) {err : Object} {vm vm' : VM rt.Heap}
    (h : exceptionTrap rt err vm = .next vm') : vm'.callstack.length ≤ vm.callstack.length := by
  have hl : Local rt (fun _ => True) (Keeps fun vm' => vm'.callstack.length ≤ vm.callstack.length) :=
    local_depth rt _
  have hask := within_ignoreFailure (hl.ask (.exception err (vm.traps ≠ 0)))
  unfold VM.exceptionTrap at h
  split at h
  · rename_i hr
    exact Nat.le_trans (unwind_length _ h) (hask.ok hr (Nat.le_refl _))
  · rename_i hr
    exact Nat.le_trans (unwind_length _ h) (hask.error hr (Nat.le_refl _))

theorem OverOrLeft.exceptionTrap (hs : Stable good) (rt : Runtime) {err : Object}
    {vm vm' : VM rt.Heap} (h : OverOrLeft good rest vm)
    (ht : exceptionTrap rt err vm = .next vm') : OverOrLeft good rest vm' := by
  obtain h | h := h
  · exact h.exceptionTrap hs rt ht
  · exact .inr (Nat.le_trans (exceptionTrap_length rt ht) h)

/-- What a step does to a good frame somewhere on the call stack. -/
theorem Over.step (hs : Stable good) (rt : Runtime) {vm vm' : VM rt.Heap}
    (h : Over good rest 0 vm) (hstep : step rt vm = .next vm')
    (hgood : ∀ i vm₁, fetch vm = .ok i vm₁ → i.op = .TAILCALL →
      vm₁.callstack.length = rest.length + 1 → ∀ p c, Successor vm₁ i p c →
        ∀ {closures ci}, With good p c closures ci → good closures (ci.start p ci.target)) :
    OverOrLeft good rest vm' := by
  have hexec : OverOrLeft good rest (leaves (do exec rt (← fetch)) vm) := by
    rw [leaves_bind]
    cases hf : fetch vm with
    | ok i vm₁ =>
      exact overOrLeft_exec hs rt (hgood i vm₁ hf) ((over_fetch hs).ok hf h)
    | error e vm₁ => exact .inl ((over_fetch hs).error hf h)
  unfold VM.step at hstep
  split at hstep
  · rename_i hr
    cases hstep
    rwa [leaves_ok hr] at hexec
  · cases hstep
  · cases hstep
  · rename_i hr
    rw [leaves_error hr] at hexec
    exact hexec.exceptionTrap hs rt hstep
  · cases hstep

end GameScript.VM
