import GameScript.VM.Activation

/-!
Loops over generators. `_OP_FOREACH` resumes the generator in a frame of its own and leaves the
loop's frame at `_OP_POSTFOREACH`, where a yield or the return of the generator comes back to.
A run of the machine is watched from a loop's frame: what the generator yields to the loop, and
with which variables the body is entered.
-/

namespace GameScript.VM

open Effect

variable {rt : Runtime} {alive : rt.Heap → Object → Bool}

/-- A loop in the code of a function, with the frame it runs in: its registers are at `base`,
and `below` are the frames under it. -/
structure ForeachLoop where
  container : UInt8
  index : UInt8
  start : Nat
  exit : Nat
  closure : Ref
  base : Nat
  below : List CallInfo
  generator : Ref
  container_lt : container.toNat < index.toNat
  body_lt : start + 2 < exit

/-- The slot that the frame under `frames` has its registers at. -/
def baseUnder : Nat → List CallInfo → Nat
  | base, [] => base
  | base, ci :: frames => baseUnder (base - ci.prevstkbase) frames

/-- The value that the yield `i` hands out. -/
def sent {Heap : Type} (vm : VM Heap) (i : Instruction) : Object :=
  let arg1 := i.arg1.toInt.toNat
  if i.arg0.toNat = 0xFF ∨ arg1 = 0xFF ∧ vm.stackbase + arg1 < vm.top then .null
  else vm.stack (vm.stackbase + arg1)

namespace ForeachLoop

variable {Heap : Type} (l : ForeachLoop)

/-- The code that the compiler writes around the body. -/
def InCode (f : FunctionProto) : Prop :=
  (∃ i, f.instructions[l.start]? = some i ∧ i.op = .FOREACH ∧ i.arg0 = l.container ∧
      i.arg2 = l.index ∧ i.arg1.toInt = (l.exit : Int) - (l.start + 1 : Nat)) ∧
    ∃ i, f.instructions[l.start + 1]? = some i ∧ i.op = .POSTFOREACH ∧ i.arg0 = l.container ∧
      i.arg1.toInt = (l.exit : Int) - (l.start + 1 : Nat)

/-- The frame of the loop is at the instruction `k`, with `upper` on top of it. -/
def Under (upper : List CallInfo) (k : Nat) (vm : VM Heap) : Prop :=
  ∃ ci, vm.callstack = upper ++ ci :: l.below ∧ ci.closure = some l.closure ∧ ci.ip = k

/-- The frame of the loop runs. -/
def OnTop (k : Nat) (vm : VM Heap) : Prop := l.Under [] k vm

/-- The frame of the loop waits at `_OP_POSTFOREACH`, or is there. -/
def AtPost (vm : VM Heap) : Prop := ∃ upper, l.Under upper (l.start + 1) vm

/-- The registers of the loop. -/
def containerSlot : Nat := l.base + l.container.toNat
def indexSlot : Nat := l.base + l.index.toNat
def valueSlot : Nat := l.base + (l.index.toNat + 1)
def iteratorSlot : Nat := l.base + (l.index.toNat + 2)

/-- The frame of the loop is where it was and holds its registers, inside the loop. -/
def Inside (vm : VM Heap) : Prop :=
  ∃ upper k c, l.Under upper k vm ∧ baseUnder vm.stackbase upper = l.base ∧
    (upper = [] → l.iteratorSlot < vm.top) ∧ l.start ≤ k ∧ k < l.exit ∧
    vm.closures[l.closure]? = some c ∧ l.InCode c.function

/-- The next instruction resumes the generator `g`. -/
def Resumes (g : Generator) (vm : VM Heap) : Prop :=
  l.OnTop l.start vm ∧ vm.generators[l.generator]? = some g ∧ g.state = .eSuspended

/-- The frame `ci` of the loop at the instruction `k`. -/
def moved (vm : VM Heap) (ci : CallInfo) (k : Nat) : VM Heap :=
  { vm with callstack := { ci with ip := k } :: l.below }

/-- What the generator yields to the loop with the next instruction. -/
def yields (vm : VM Heap) : List Object :=
  match vm.callstack, fetch vm with
  | gi :: ci :: below, .ok i _ =>
    if below = l.below ∧ ci.closure = some l.closure ∧ ci.ip = l.start + 1 ∧ i.op = .YIELD ∧
        (gi.generator.bind (vm.generators[·]?)).map (·.state) = some .eRunning then
      [vm.sent i]
    else []
  | _, _ => []

/-- The variables of the loop when the body is entered, between two states. -/
def enters (vm vm' : VM Heap) : List (Object × Object) :=
  match vm.callstack, vm'.callstack with
  | ci :: below, ci' :: below' =>
    if below = l.below ∧ ci.closure = some l.closure ∧ ci.ip = l.start + 1 ∧
        below' = l.below ∧ ci'.closure = some l.closure ∧ ci'.ip = l.start + 2 then
      [(vm.stack l.indexSlot, vm.stack l.valueSlot)]
    else []
  | _, _ => []

end ForeachLoop

/-! ### Runs -/

/-- What the code of the loop and everything that runs on top of it leave to the loop: its
iterator, which no variable of the program is bound to; and the place after `_OP_FOREACH`, to which
no jump leads and no error that the generator leaves uncaught. -/
structure ForeachLoop.Leaves (l : ForeachLoop) (rt : Runtime) (vm vm' : VM rt.Heap) : Prop where
  inside : l.Inside vm
  iterator : (∀ g, ¬ l.Resumes g vm) → vm'.stack l.iteratorSlot = vm.stack l.iteratorSlot
  post : l.AtPost vm' → l.AtPost vm ∨ ∃ g, l.Resumes g vm
  errors : l.AtPost vm → ∀ err vm₁, (do exec rt (← fetch)) vm = .error (.raise err) vm₁ →
    ∀ k, l.OnTop k vm' → ¬ (l.start ≤ k ∧ k < l.exit)

/-- The machine can resume the generator: there is room for its frame, which is not the first
one of an `Execute`. -/
def ForeachLoop.CanResume {Heap : Type} (l : ForeachLoop) (vm : VM Heap) : Prop :=
  ∀ g, l.Resumes g vm → Room vm (vm.top + g.stack.length) ∧ g.ci.root = false

/-- The machine can resume the generator, and the next step assigns neither the container nor, while
the generator runs, the index. Both may be variables of the program: the container is the register
of the local variable where the loop is over one. -/
structure ForeachLoop.Undisturbed (l : ForeachLoop) (rt : Runtime) (vm : VM rt.Heap) : Prop where
  canResume : l.CanResume vm
  container : ∀ vm', step rt vm = .next vm' → (∀ g, ¬ l.Resumes g vm) →
    vm'.stack l.containerSlot = vm.stack l.containerSlot
  index : ∀ vm', step rt vm = .next vm' → l.AtPost vm →
    vm'.stack l.indexSlot = vm.stack l.indexSlot

/-- A run, with what the generator has yielded to the loop and the variables that the body was
entered with. -/
inductive ForeachLoop.Run (l : ForeachLoop) (rt : Runtime) (P : VM rt.Heap → Prop) :
    VM rt.Heap → List Object → List (Object × Object) → VM rt.Heap → Prop
  | start (vm : VM rt.Heap) : Run l rt P vm [] [] vm
  | step {vm₀ vm vm' : VM rt.Heap} {values : List Object} {bodies : List (Object × Object)} :
      Run l rt P vm₀ values bodies vm → P vm → l.Leaves rt vm vm' → step rt vm = .next vm' →
      Run l rt P vm₀ (values ++ l.yields vm) (bodies ++ l.enters vm vm') vm'

/-- The values with their numbers. -/
def numbered (values : List Object) : List (Object × Object) :=
  values.zipIdx.map fun v => (.integer (Int64.ofNat v.2), v.1)

/-- What `foreach` promises of a state that a run has come to. -/
structure ForeachLoop.Serves (l : ForeachLoop) (rt : Runtime) (values : List Object)
    (bodies : List (Object × Object)) (vm : VM rt.Heap) : Prop where
  /-- The body was entered once for each value, or is entered next for the last one. -/
  entered : bodies = numbered values ∨ ∃ earlier v, values = earlier ++ [v] ∧
    bodies = numbered earlier ∧ (l.Inside vm → ∃ vm', step rt vm = .next vm' ∧
      bodies ++ l.enters vm vm' = numbered values)
  /-- A finished generator ends the loop. -/
  finished : l.Inside vm → l.OnTop l.start vm ∨ l.OnTop (l.start + 1) vm →
    (∃ g, vm.generators[l.generator]? = some g ∧ g.state = .eDead) →
    ∃ vm', step rt vm = .next vm' ∧ l.OnTop l.exit vm'
  /-- A suspended one goes on where it stopped. -/
  resumed : l.Inside vm → ∀ g, l.Resumes g vm → ∃ vm' gi, step rt vm = .next vm' ∧
    l.Under [gi] (l.start + 1) vm' ∧ gi.generator = some l.generator ∧
    gi.closure = g.ci.closure ∧ gi.ip = g.ci.ip

/-! ### The frame of the loop -/

section

variable {Heap : Type} {l : ForeachLoop} {vm vm' : VM Heap} {upper upper' : List CallInfo}
  {k k' : Nat}

/-- The frames above the loop's one and its position are told by the state. -/
theorem ForeachLoop.Under.unique (h : l.Under upper k vm) (h' : l.Under upper' k' vm) :
    upper = upper' ∧ k = k' := by
  obtain ⟨ci, hstack, -, rfl⟩ := h
  obtain ⟨ci', hstack', -, rfl⟩ := h'
  rw [hstack] at hstack'
  obtain ⟨hupper, hrest⟩ := List.append_inj' hstack' rfl
  obtain ⟨rfl, -⟩ := List.cons.inj hrest
  exact ⟨hupper, rfl⟩

theorem ForeachLoop.OnTop.not_atPost (h : l.OnTop k vm) (hk : k ≠ l.start + 1) :
    ¬ l.AtPost vm := by
  rintro ⟨upper, hunder⟩
  exact hk (hunder.unique h).2.symm

/-- Only a frame directly over that of the loop yields to it. -/
theorem ForeachLoop.yields_eq_nil (h : ∀ gi, ¬ l.Under [gi] (l.start + 1) vm) :
    l.yields vm = [] := by
  unfold yields
  split
  · rename_i gi ci below i vm₁ hstack hfetch
    split
    · rename_i hyield
      obtain ⟨rfl, hclosure, hip, -⟩ := hyield
      exact absurd ⟨ci, hstack, hclosure, hip⟩ (h gi)
    · rfl
  · rfl

theorem ForeachLoop.enters_eq_nil (h : ¬ l.OnTop (l.start + 1) vm) (vm' : VM Heap) :
    l.enters vm vm' = [] := by
  unfold enters
  split
  · rename_i ci below ci' below' hstack hstack'
    split
    · rename_i henter
      obtain ⟨rfl, hclosure, hip, -⟩ := henter
      exact absurd ⟨ci, hstack, hclosure, hip⟩ h
    · rfl
  · rfl

theorem ForeachLoop.enters_eq_nil_after (h : ¬ l.OnTop (l.start + 2) vm') :
    l.enters vm vm' = [] := by
  unfold enters
  split
  · rename_i ci below ci' below' hstack hstack'
    split
    · rename_i henter
      obtain ⟨-, -, -, rfl, hclosure', hip'⟩ := henter
      exact absurd ⟨ci', hstack', hclosure', hip'⟩ h
    · rfl
  · rfl

/-- The step from POSTFOREACH to the body enters the body, with the variables
of that state. -/
theorem ForeachLoop.enters_of_onTop (h : l.OnTop (l.start + 1) vm)
    (h' : l.OnTop (l.start + 2) vm') :
    l.enters vm vm' = [(vm.stack l.indexSlot, vm.stack l.valueSlot)] := by
  obtain ⟨ci, hstack, hclosure, hip⟩ := h
  obtain ⟨ci', hstack', hclosure', hip'⟩ := h'
  unfold enters
  rw [hstack, hstack']
  exact if_pos ⟨rfl, hclosure, hip, rfl, hclosure', hip'⟩

end

/-! ### The instructions of the loop -/

theorem step_exec {rt : Runtime} {vm vm₁ vm' : VM rt.Heap} {i : Instruction}
    (hfetch : fetch vm = .ok i vm₁) (hexec : exec rt i vm₁ = .ok .next vm') :
    step rt vm = .next vm' := by
  unfold step
  rw [bind_apply, hfetch]
  dsimp only
  rw [hexec]

/-- A jump moves the pointer of the frame on top. -/
theorem jump_apply {Heap : Type} {vm : VM Heap} {ci : CallInfo} {callstack : List CallInfo}
    (hstack : vm.callstack = ci :: callstack) {d : Int} {ip : Nat} (hip : (ci.ip : Int) + d = ip) :
    jump d vm = .ok () { vm with callstack := { ci with ip := ip } :: callstack } := by
  unfold jump
  rw [bind_apply, getCi_apply hstack]
  dsimp only
  rw [hip, if_pos (Int.natCast_nonneg ip), Int.toNat_natCast]
  unfold modifyCi
  rw [modify_apply, hstack]
  rfl

theorem ignoreFailure_ok {Heap α : Type} {m : VMM Heap α} {vm vm' : VM Heap} {a : α}
    (h : m vm = .ok a vm') : ignoreFailure m vm = .ok (some a) vm' := by
  unfold ignoreFailure
  rw [h]

theorem restoredStack_below (vm : VM (rt.withReferences alive).Heap) {m : Nat} (hm : m < vm.top)
    (g : Generator) : restoredStack vm g m = vm.stack m := by
  unfold restoredStack
  rw [if_neg (Nat.ne_of_lt hm), if_neg (fun h => Nat.lt_asymm h.1 hm)]

/-- The number that `_OP_FOREACH` gives to a value, from its iterator. -/
def nextIndex : Object → GSInteger
  | .integer n => n + 1
  | _ => 0

/-- The state in which `_OP_FOREACH` resumes a generator. -/
def counted {Heap : Type} (vm : VM Heap) (arg2 : Nat) : VM Heap :=
  let idx := Object.integer (nextIndex (vm.stack (vm.stackbase + (arg2 + 2))))
  (vm.setSlot (vm.stackbase + arg2) idx).setSlot (vm.stackbase + (arg2 + 2)) idx

/-- Both the index and the iterator get the number. -/
theorem counted_stack {Heap : Type} (vm : VM Heap) (arg2 m : Nat) :
    (counted vm arg2).stack m =
      if m = vm.stackbase + arg2 ∨ m = vm.stackbase + (arg2 + 2) then
        .integer (nextIndex (vm.stack (vm.stackbase + (arg2 + 2))))
      else vm.stack m := by
  unfold counted setSlot
  dsimp only
  by_cases hiterator : m = vm.stackbase + (arg2 + 2)
  · rw [if_pos hiterator, if_pos (.inr hiterator)]
  by_cases hindex : m = vm.stackbase + arg2
  · rw [if_neg hiterator, if_pos hindex, if_pos (.inl hindex)]
  · rw [if_neg hiterator, if_neg hindex, if_neg (fun h => h.elim hindex hiterator)]

section

variable (vm : VM (rt.withReferences alive).Heap) {i : Instruction} {p : Ref} {g : Generator}

/-- FOREACH counts the round and resumes a suspended generator where there is
room for it. -/
theorem foreachOp_suspended (hcontainer : vm.stack (vm.stackbase + i.arg0.toNat) = .generator p)
    (hg : vm.generators[p]? = some g) (hsuspended : g.state = .eSuspended)
    (hroom : Room vm (vm.top + g.stack.length)) :
    foreachOp (rt.withReferences alive) i vm =
      .ok () (resumedAs (counted vm i.arg2.toNat) g p (i.arg2.toNat + 1)) := by
  have hg' : (counted vm i.arg2.toNat).generators[p]? = some g := hg
  have hresume := resumeGenerator_apply hg' hsuspended hroom (i.arg2.toNat + 1)
  unfold foreachOp
  rw [bind_apply, STK_apply, hcontainer]
  dsimp only
  rw [get_bind_apply, hg]
  dsimp only
  rw [hsuspended]
  dsimp only
  rw [bind_apply, STK_apply]
  dsimp only
  change (do
    let _ ← ignoreFailure (resumeGenerator (rt.withReferences alive) p (i.arg2.toNat + 1))
    pure ()) (counted vm i.arg2.toNat) = _
  rw [bind_apply, ignoreFailure_ok hresume]
  rfl

/-- FOREACH leaves the loop over a generator that is finished. -/
theorem foreachOp_dead (hcontainer : vm.stack (vm.stackbase + i.arg0.toNat) = .generator p)
    (hg : vm.generators[p]? = some g) (hdead : g.state = .eDead) :
    foreachOp (rt.withReferences alive) i vm = jump i.arg1.toInt vm := by
  unfold foreachOp
  rw [bind_apply, STK_apply, hcontainer]
  dsimp only
  rw [get_bind_apply, hg]
  dsimp only
  rw [hdead]

theorem postForeach_apply (hcontainer : vm.stack (vm.stackbase + i.arg0.toNat) = .generator p)
    (hg : vm.generators[p]? = some g) :
    postForeach i vm = when (g.state = .eDead) (jump (i.arg1.toInt - 1)) vm := by
  unfold postForeach
  rw [bind_apply, STK_apply, hcontainer]
  dsimp only
  rw [get_bind_apply, hg]

variable {vm}

theorem exec_foreach (hop : i.op = .FOREACH) {vm' : VM (rt.withReferences alive).Heap}
    (h : foreachOp (rt.withReferences alive) i vm = .ok () vm') :
    exec (rt.withReferences alive) i vm = .ok .next vm' := by
  unfold exec
  rw [hop]
  dsimp only
  rw [bind_apply, h]
  rfl

theorem exec_postForeach (hop : i.op = .POSTFOREACH) {vm' : VM (rt.withReferences alive).Heap}
    (h : postForeach i vm = .ok () vm') :
    exec (rt.withReferences alive) i vm = .ok .next vm' := by
  unfold exec
  rw [hop]
  dsimp only
  unfold execData
  rw [hop]
  dsimp only
  rw [bind_apply, h]
  rfl

end

/-! ### Steps at the loop -/

section

variable {l : ForeachLoop} {vm : VM (rt.withReferences alive).Heap} {k : Nat} {g : Generator}

theorem ForeachLoop.jump_moved {Heap : Type} (l : ForeachLoop) (vm : VM Heap) (ci : CallInfo)
    {k k' : Nat} {d : Int} (hd : (k : Int) + d = k') :
    jump d (l.moved vm ci k) = .ok () (l.moved vm ci k') :=
  @jump_apply Heap (l.moved vm ci k) { ci with ip := k } l.below rfl d k' hd

/-- What is known where the frame of the loop runs. -/
theorem ForeachLoop.Inside.onTop (h : l.Inside vm) (ht : l.OnTop k vm) :
    vm.stackbase = l.base ∧ l.iteratorSlot < vm.top ∧
      ∃ c, vm.closures[l.closure]? = some c ∧ l.InCode c.function := by
  obtain ⟨upper, k', c, hunder, hbase, htop, -, -, hc, hcode⟩ := h
  obtain ⟨rfl, -⟩ := hunder.unique ht
  exact ⟨hbase, htop rfl, c, hc, hcode⟩

/-- At the start of the loop FOREACH is fetched. -/
theorem ForeachLoop.fetch_start (h : l.Inside vm) (ht : l.OnTop l.start vm) :
    ∃ (i : Instruction) (ci : CallInfo), i.op = .FOREACH ∧ i.arg0 = l.container ∧ i.arg2 = l.index ∧
      i.arg1.toInt = (l.exit : Int) - (l.start + 1 : Nat) ∧ ci.closure = some l.closure ∧
      fetch vm = .ok i (l.moved vm ci (l.start + 1)) := by
  obtain ⟨-, -, c, hc, ⟨i, hi, hop, harg0, harg2, harg1⟩, -⟩ := h.onTop ht
  obtain ⟨ci, hstack, hclosure, hip⟩ := ht
  rw [← hip] at hi
  refine ⟨i, ci, hop, harg0, harg2, harg1, hclosure, ?_⟩
  rw [fetch_apply hstack hclosure hc hi, hip]
  rfl

/-- At the second instruction of the loop POSTFOREACH is fetched. -/
theorem ForeachLoop.fetch_post (h : l.Inside vm) (ht : l.OnTop (l.start + 1) vm) :
    ∃ (i : Instruction) (ci : CallInfo), i.op = .POSTFOREACH ∧ i.arg0 = l.container ∧
      i.arg1.toInt = (l.exit : Int) - (l.start + 1 : Nat) ∧ ci.closure = some l.closure ∧
      fetch vm = .ok i (l.moved vm ci (l.start + 2)) := by
  obtain ⟨-, -, c, hc, -, i, hi, hop, harg0, harg1⟩ := h.onTop ht
  obtain ⟨ci, hstack, hclosure, hip⟩ := ht
  rw [← hip] at hi
  refine ⟨i, ci, hop, harg0, harg1, hclosure, ?_⟩
  rw [fetch_apply hstack hclosure hc hi, hip]
  rfl

/-- `_OP_FOREACH` leaves the loop when the generator is finished. -/
theorem ForeachLoop.step_start_dead (h : l.Inside vm) (ht : l.OnTop l.start vm)
    (hcontainer : vm.stack l.containerSlot = .generator l.generator)
    (hg : vm.generators[l.generator]? = some g) (hdead : g.state = .eDead) :
    ∃ vm', step (rt.withReferences alive) vm = .next vm' ∧ l.OnTop l.exit vm' := by
  obtain ⟨hbase, -⟩ := h.onTop ht
  obtain ⟨i, ci, hop, harg0, -, harg1, hclosure, hfetch⟩ := fetch_start h ht
  have hregister : vm.stack (vm.stackbase + i.arg0.toNat) = .generator l.generator := by
    rw [hbase, harg0]
    exact hcontainer
  have hexec : foreachOp (rt.withReferences alive) i (l.moved vm ci (l.start + 1)) =
      .ok () (l.moved vm ci l.exit) := by
    rw [foreachOp_dead (l.moved vm ci (l.start + 1)) hregister hg hdead, harg1]
    exact l.jump_moved vm ci (by omega)
  exact ⟨_, step_exec hfetch (exec_foreach hop hexec), _, rfl, hclosure, rfl⟩

/-- So does `_OP_POSTFOREACH`. -/
theorem ForeachLoop.step_post_dead (h : l.Inside vm) (ht : l.OnTop (l.start + 1) vm)
    (hcontainer : vm.stack l.containerSlot = .generator l.generator)
    (hg : vm.generators[l.generator]? = some g) (hdead : g.state = .eDead) :
    ∃ vm', step (rt.withReferences alive) vm = .next vm' ∧ l.OnTop l.exit vm' := by
  obtain ⟨hbase, -⟩ := h.onTop ht
  obtain ⟨i, ci, hop, harg0, harg1, hclosure, hfetch⟩ := fetch_post h ht
  have hregister : vm.stack (vm.stackbase + i.arg0.toNat) = .generator l.generator := by
    rw [hbase, harg0]
    exact hcontainer
  have hexec : postForeach i (l.moved vm ci (l.start + 2)) = .ok () (l.moved vm ci l.exit) := by
    rw [postForeach_apply (l.moved vm ci (l.start + 2)) hregister hg]
    unfold when
    rw [if_pos hdead, harg1]
    exact l.jump_moved vm ci (by omega)
  exact ⟨_, step_exec hfetch (exec_postForeach hop hexec), _, rfl, hclosure, rfl⟩

/-- POSTFOREACH does not go on without the generator. -/
theorem ForeachLoop.step_post_none (h : l.Inside vm) (ht : l.OnTop (l.start + 1) vm)
    (hcontainer : vm.stack l.containerSlot = .generator l.generator)
    (hg : vm.generators[l.generator]? = none) (vm' : VM (rt.withReferences alive).Heap) :
    step (rt.withReferences alive) vm ≠ .next vm' := by
  obtain ⟨hbase, -⟩ := h.onTop ht
  obtain ⟨i, ci, hop, harg0, -, -, hfetch⟩ := fetch_post h ht
  have hregister : vm.stack (vm.stackbase + i.arg0.toNat) = .generator l.generator := by
    rw [hbase, harg0]
    exact hcontainer
  have hexec : exec (rt.withReferences alive) i (l.moved vm ci (l.start + 2)) =
      .error .undefined (l.moved vm ci (l.start + 2)) := by
    unfold exec
    rw [hop]
    dsimp only
    unfold execData
    rw [hop]
    dsimp only
    unfold postForeach
    rw [bind_apply, bind_apply, STK_apply]
    dsimp only [moved]
    rw [hregister]
    dsimp only
    rw [get_bind_apply]
    dsimp only
    rw [hg]
    rfl
  unfold step
  rw [bind_apply, hfetch]
  dsimp only
  rw [hexec]
  dsimp only
  exact nofun

/-- After a yield the body is next, with the registers as they are. -/
theorem ForeachLoop.step_post_alive (h : l.Inside vm) (ht : l.OnTop (l.start + 1) vm)
    (hcontainer : vm.stack l.containerSlot = .generator l.generator)
    (hg : vm.generators[l.generator]? = some g) (halive : g.state ≠ .eDead) :
    ∃ vm', step (rt.withReferences alive) vm = .next vm' ∧ l.OnTop (l.start + 2) vm' ∧
      vm'.stack = vm.stack := by
  obtain ⟨hbase, -⟩ := h.onTop ht
  obtain ⟨i, ci, hop, harg0, harg1, hclosure, hfetch⟩ := fetch_post h ht
  have hregister : vm.stack (vm.stackbase + i.arg0.toNat) = .generator l.generator := by
    rw [hbase, harg0]
    exact hcontainer
  have hexec : postForeach i (l.moved vm ci (l.start + 2)) =
      .ok () (l.moved vm ci (l.start + 2)) := by
    rw [postForeach_apply (l.moved vm ci (l.start + 2)) hregister hg]
    unfold when
    rw [if_neg halive]
    rfl
  exact ⟨_, step_exec hfetch (exec_postForeach hop hexec), ⟨_, rfl, hclosure, rfl⟩, rfl⟩

/-- The frame of the generator over that of the loop. -/
def ForeachLoop.Serving (l : ForeachLoop) (_ : List Closure) (gi : CallInfo) : Prop :=
  gi.generator = some l.generator ∧ gi.target = (l.index.toNat + 1 : Nat) ∧ gi.root = false ∧
    l.index.toNat + 1 < gi.prevtop

/-- `_OP_FOREACH` makes a frame for a suspended generator, and counts. -/
theorem ForeachLoop.step_resumes (h : l.Inside vm) (hr : l.Resumes g vm)
    (hcan : l.CanResume vm)
    (hcontainer : vm.stack l.containerSlot = .generator l.generator) :
    ∃ vm' gi ci, step (rt.withReferences alive) vm = .next vm' ∧
      vm'.callstack = gi :: ci :: l.below ∧ ci.closure = some l.closure ∧
      ci.ip = l.start + 1 ∧ l.Serving [] gi ∧ gi.closure = g.ci.closure ∧ gi.ip = g.ci.ip ∧
      vm'.stack l.containerSlot = .generator l.generator ∧
      vm'.stack l.indexSlot = .integer (nextIndex (vm.stack l.iteratorSlot)) ∧
      vm'.stack l.iteratorSlot = .integer (nextIndex (vm.stack l.iteratorSlot)) := by
  obtain ⟨hroom, hroot⟩ := hcan g hr
  obtain ⟨ht, hg, hsuspended⟩ := hr
  obtain ⟨hbase, htop, -⟩ := h.onTop ht
  obtain ⟨i, ci, hop, harg0, harg2, -, hclosure, hfetch⟩ := fetch_start h ht
  have hregister : vm.stack (vm.stackbase + i.arg0.toNat) = .generator l.generator := by
    rw [hbase, harg0]
    exact hcontainer
  have hexec := foreachOp_suspended (l.moved vm ci (l.start + 1)) hregister hg hsuspended
    hroom
  rw [harg2] at hexec
  have hstack (m : Nat) (hm : m < vm.top) :
      restoredStack (counted (l.moved vm ci (l.start + 1)) l.index.toNat) g m =
        if m = vm.stackbase + l.index.toNat ∨ m = vm.stackbase + (l.index.toNat + 2) then
          .integer (nextIndex (vm.stack (vm.stackbase + (l.index.toNat + 2))))
        else vm.stack m :=
    (restoredStack_below (counted (l.moved vm ci (l.start + 1)) l.index.toNat) hm g).trans
      (counted_stack _ _ _)
  have hlt := l.container_lt
  rw [hbase] at hstack
  unfold iteratorSlot at htop
  refine ⟨_, _, _, step_exec hfetch (exec_foreach hop hexec), rfl, hclosure, rfl,
    ⟨rfl, rfl, hroot, ?_⟩, rfl, rfl, ?_, ?_, ?_⟩
  · change l.index.toNat + 1 < vm.top - vm.stackbase
    rw [hbase]
    omega
  · refine (hstack l.containerSlot ?_).trans ?_
    · unfold containerSlot
      omega
    · rw [if_neg (by unfold containerSlot; omega)]
      exact hcontainer
  · refine (hstack l.indexSlot ?_).trans (if_pos (.inl rfl))
    unfold indexSlot
    omega
  · exact (hstack l.iteratorSlot htop).trans (if_pos (.inr rfl))

end

/-! ### Leaving a frame -/

section

variable {good : List Closure → CallInfo → Prop} {rest : List CallInfo} {n : Nat}

theorem index1_ok {Heap : Type} {i : Instruction} {vm vm' : VM Heap} {n : Nat}
    (h : index1 i vm = .ok n vm') : n = i.arg1.toInt.toNat ∧ vm' = vm := by
  unfold index1 at h
  split at h
  · cases h
    exact ⟨rfl, rfl⟩
  · cases h

theorem index1_undefined {Heap : Type} {i : Instruction} (h : ¬ 0 ≤ i.arg1.toInt)
    (vm : VM Heap) : index1 i vm = .error .undefined vm := congrFun (if_neg h) vm

/-- The end of a frame above keeps the good one. -/
theorem over_finish_succ {Heap : Type} (i : Instruction) :
    Triple (Over good rest (n + 1)) (finish i : VMM Heap Control) (fun _ => Over good rest n)
      (Over good rest n) := by
  refine (over_of_keeps (within_index1 i)).bind fun arg1 => ?_
  refine (over_Return _ _).bind fun v => ?_
  cases v with
  | none => exact triple_pure fun _ h => h
  | some v => exact triple_pure fun _ h => h

theorem over_returnOp_succ {Heap : Type} (i : Instruction) :
    Triple (Over good rest (n + 1)) (returnOp i : VMM Heap Control) (fun _ => Over good rest n)
      (Over good rest n) := by
  refine (over_of_keeps over_killGenerator).bind fun _ => ?_
  refine (over_of_keeps (within_checkReturnType i)).bind fun _ => ?_
  exact over_finish_succ i

/-- A yield of a frame above keeps the good one. -/
theorem over_yieldOp_succ (hs : Stable good) (rt : Runtime) (i : Instruction) :
    Triple (Over good rest (n + 1)) (yieldOp rt i) (fun _ => Over good rest n)
      (Over good rest n) := by
  have hl : Local rt (fun _ => True) (Keeps (Over good rest (n + 1))) := local_over hs rt
  refine (over_of_keeps within_getCi).bind fun ci => ?_
  cases ci.generator with
  | none => exact triple_throw fun _ h => h.of_le (Nat.le_succ n)
  | some p =>
    refine (over_of_keeps (within_index1 i)).bind fun arg1 => ?_
    refine (over_of_keeps (within_STK _)).bind fun temp_reg => ?_
    refine (over_of_keeps (within_modify fun vm h => hl.close vm _ h)).bind fun _ => ?_
    refine (over_of_keeps (over_yieldGenerator hs rt p _)).bind fun _ => ?_
    refine (over_of_keeps (within_modify fun vm h =>
      hl.traps vm vm.etraps (vm.traps - ci.etraps) h)).bind fun _ => ?_
    refine (over_of_keeps (within_when fun _ => hl.setSTK trivial _)).bind fun _ => ?_
    exact over_finish_succ i

/-- An instruction in a frame over one that is over the good frame. -/
theorem over_exec_succ (hs : Stable good) (rt : Runtime) (i : Instruction) {vm : VM rt.Heap}
    (h : Over good rest 1 vm) : Over good rest 0 (leaves (exec rt i) vm) := by
  by_cases hreturn : i.op = .RETURN
  · rw [exec_return rt hreturn]
    exact ((over_returnOp_succ i).mono (fun _ h => h) (fun _ _ h => h) fun _ h => h).leaves h
  by_cases hyield : i.op = .YIELD
  · rw [exec_yield rt hyield]
    exact (over_yieldOp_succ hs rt i).leaves h
  · refine (over_exec hs rt hreturn hyield (fun _ _ _ _ hk => ?_) h).of_le (Nat.zero_le 1)
    exact absurd hk Nat.one_ne_zero

end

section

variable {Heap : Type} {vm vm' : VM Heap} {ci : CallInfo} {callstack : List CallInfo}

/-- Leaving a frame keeps what is below its own registers. -/
theorem leaveFrame_stack (hstack : vm.callstack = ci :: callstack) {m : Nat}
    (hm : m < vm.stackbase - ci.prevstkbase + ci.prevtop) : vm.leaveFrame.stack m = vm.stack m := by
  unfold leaveFrame
  rw [hstack]
  dsimp only
  obtain ⟨outers, openouters, heq⟩ := closeOuters_eq { vm with
    stackbase := vm.stackbase - ci.prevstkbase
    top := vm.stackbase - ci.prevstkbase + ci.prevtop
    callstack := callstack } vm.stackbase
  rw [heq]
  exact if_neg fun h => Nat.not_lt.mpr h.1 hm

theorem leaveFrame_generators (vm : VM Heap) : vm.leaveFrame.generators = vm.generators := by
  unfold leaveFrame
  split
  · rfl
  · rename_i ci callstack hstack
    obtain ⟨outers, openouters, heq⟩ := closeOuters_eq { vm with
      stackbase := vm.stackbase - ci.prevstkbase
      top := vm.stackbase - ci.prevstkbase + ci.prevtop
      callstack := callstack } vm.stackbase
    dsimp only
    rw [heq]
    rfl

/-- A frame that is not the first of an `Execute` hands its result to a register of the one
below. -/
theorem finish_result (hstack : vm.callstack = ci :: callstack) (hroot : ci.root = false)
    {target : Nat} (htarget : ci.target = target) {i : Instruction} {control : Control}
    (h : finish i vm = .ok control vm') :
    vm' = (vm.setSlot (vm.stackbase - ci.prevstkbase + target)
      (vm.returnValue i.arg0.toNat i.arg1.toInt.toNat)).leaveFrame := by
  obtain ⟨arg1, vm₁, hindex, hreturn⟩ := bind_eq_ok.mp h
  obtain ⟨rfl, rfl⟩ := index1_ok hindex
  have hslot : resultSlot (vm₁.stackbase - ci.prevstkbase) ci.target vm₁ =
      .ok (vm₁.stackbase - ci.prevstkbase + target) vm₁ := by
    rw [htarget]
    exact resultSlot_apply (Int.natCast_nonneg _) vm₁
  have hne : ci.target ≠ -1 := by omega
  unfold Return at hreturn
  rw [bind_apply, get_bind_apply, bind_apply, getCi_apply hstack] at hreturn
  dsimp only at hreturn
  unfold when at hreturn
  rw [hroot, bind_apply, if_pos ⟨rfl, hne⟩, bind_apply, hslot] at hreturn
  cases hreturn
  rfl

end

section

variable {vm vm' : VM (rt.withReferences alive).Heap} {gi : CallInfo} {callstack : List CallInfo}
  {p : Ref} {target : Nat} {i : Instruction} {control : Control}

theorem killed_state {gs : List Generator} {g : Generator}
    (hg : (gs.modify p fun g => { g with state := .eDead, stack := [] })[p]? = some g) :
    g.state = .eDead := by
  rw [List.getElem?_modify_eq] at hg
  obtain ⟨g', -, rfl⟩ := Option.map_eq_some_iff.mp hg
  rfl

/-- A generator that returns is dead. -/
theorem returnOp_result (hstack : vm.callstack = gi :: callstack)
    (hgenerator : gi.generator = some p) (hroot : gi.root = false) (htarget : gi.target = target)
    (h : returnOp i vm = .ok control vm') :
    vm'.callstack = callstack ∧ ∀ g, vm'.generators[p]? = some g → g.state = .eDead := by
  unfold returnOp killGenerator at h
  rw [bind_apply, bind_apply, getCi_apply hstack] at h
  dsimp only at h
  rw [hgenerator] at h
  dsimp only [kill, modifyGenerator] at h
  rw [modify_apply] at h
  dsimp only at h
  obtain ⟨_, vm₁, hcheck, hfinish⟩ := bind_eq_ok.mp h
  have hsame := (within_checkReturnType (r := Eq) i).ok hcheck
  have hstack₁ : vm₁.callstack = gi :: callstack := by
    rw [← hsame]
    exact hstack
  rw [finish_result hstack₁ hroot htarget hfinish, leaveFrame_callstack, leaveFrame_generators]
  constructor
  · rw [setSlot_callstack, hstack₁]
    rfl
  · intro g hg
    rw [← hsame] at hg
    exact killed_state hg

/-- The yield of a running generator, up to the value that it hands over. -/
theorem yieldOp_cases (hstack : vm.callstack = gi :: callstack) (hgenerator : gi.generator = some p)
    {g : Generator} (hg : vm.generators[p]? = some g) (hrunning : g.state = .eRunning)
    (i : Instruction) : yieldOp (rt.withReferences alive) i vm = .error .undefined vm ∨
      ∃ outers openouters, yieldOp (rt.withReferences alive) i vm = (do
        when (i.arg1.toInt.toNat ≠ 0xFF)
          (setSTK i.arg1.toInt.toNat (vm.stack (vm.stackbase + i.arg1.toInt.toNat)))
        finish i) { yielded { vm with outers := outers, openouters := openouters } gi p
          i.arg2.toNat with traps := vm.traps - gi.etraps } := by
  unfold yieldOp
  rw [bind_apply, getCi_apply hstack]
  dsimp only
  rw [hgenerator]
  dsimp only
  by_cases harg1 : 0 ≤ i.arg1.toInt
  · right
    obtain ⟨outers, openouters, hclose⟩ := closeOuters_eq vm vm.stackbase
    have hstack' : (vm.closeOuters vm.stackbase).callstack = gi :: callstack := by
      rw [hclose]
      exact hstack
    have hg' : (vm.closeOuters vm.stackbase).generators[p]? = some g := by
      rw [hclose]
      exact hg
    have hgen := yieldGenerator_apply hstack' hg' hrunning i.arg2.toNat
    refine ⟨outers, openouters, ?_⟩
    rw [bind_apply, index1_apply harg1]
    dsimp only
    rw [bind_apply, STK_apply]
    dsimp only
    rw [modify_bind_apply, bind_apply, hgen, hclose]
    dsimp only
    rw [modify_bind_apply]
    rfl
  · left
    rw [bind_apply, index1_undefined harg1]

/-- A generator that yields is suspended, and its value is in the register it was asked for. -/
theorem yieldOp_result (hstack : vm.callstack = gi :: callstack)
    (hgenerator : gi.generator = some p) (hroot : gi.root = false) (htarget : gi.target = target)
    {g : Generator} (hg : vm.generators[p]? = some g) (hrunning : g.state = .eRunning)
    (hprevtop : target < gi.prevtop)
    (h : yieldOp (rt.withReferences alive) i vm = .ok control vm') :
    vm'.callstack = callstack ∧
      (∃ g', vm'.generators[p]? = some g' ∧ g'.state = .eSuspended) ∧
      vm'.stack (vm.stackbase - gi.prevstkbase + target) = vm.sent i := by
  rcases yieldOp_cases hstack hgenerator hg hrunning i with
    hundefined | ⟨outers, openouters, hrun⟩
  · rw [hundefined] at h
    cases h
  rw [hrun] at h
  have hend (vm₂ : VM (rt.withReferences alive).Heap) (hstack₂ : vm₂.callstack = gi :: callstack)
      (hbase₂ : vm₂.stackbase = vm.stackbase)
      (hg₂ : ∃ g', vm₂.generators[p]? = some g' ∧ g'.state = .eSuspended)
      (hvalue : vm₂.returnValue i.arg0.toNat i.arg1.toInt.toNat = vm.sent i)
      (hfinish : finish i vm₂ = .ok control vm') :
      vm'.callstack = callstack ∧
        (∃ g', vm'.generators[p]? = some g' ∧ g'.state = .eSuspended) ∧
        vm'.stack (vm.stackbase - gi.prevstkbase + target) = vm.sent i := by
    rw [finish_result hstack₂ hroot htarget hfinish]
    refine ⟨?_, ?_, ?_⟩
    · rw [leaveFrame_callstack, setSlot_callstack, hstack₂]
      rfl
    · rw [leaveFrame_generators]
      exact hg₂
    · rw [leaveFrame_stack (by rw [setSlot_callstack]; exact hstack₂), ← hbase₂, hvalue]
      · exact if_pos rfl
      · rw [← hbase₂]
        exact Nat.add_lt_add_left hprevtop _
  have hsuspended : ∃ g', (vm.generators.modify p (suspendedAs { vm with
      outers := outers, openouters := openouters } gi i.arg2.toNat))[p]? = some g' ∧
      g'.state = .eSuspended := by
    rw [List.getElem?_modify_eq, hg]
    exact ⟨_, rfl, rfl⟩
  unfold when at h
  by_cases harg1 : i.arg1.toInt.toNat = 0xFF
  · rw [if_neg (fun h => h harg1)] at h
    refine hend _ ?_ ?_ ?_ ?_ h
    · exact hstack
    · rfl
    · exact hsuspended
    · unfold returnValue sent
      dsimp only [yielded]
      rw [harg1]
      by_cases harg0 : i.arg0.toNat = 0xFF
      · rw [if_neg (fun h => h harg0), if_pos (.inl harg0)]
      by_cases htop : vm.stackbase + 0xFF < vm.top
      · rw [if_pos harg0, if_pos ⟨Nat.le_add_right _ _, htop⟩, if_pos (.inr ⟨rfl, htop⟩)]
      · rw [if_pos harg0, if_neg (fun h => htop h.2),
          if_neg (fun h => h.elim harg0 fun h => htop h.2)]
  · rw [if_pos harg1] at h
    refine hend _ ?_ ?_ ?_ ?_ h
    · exact hstack
    · rfl
    · exact hsuspended
    · unfold returnValue sent
      by_cases harg0 : i.arg0.toNat = 0xFF
      · rw [if_neg (fun h => h harg0), if_pos (.inl harg0)]
      · rw [if_pos harg0, if_neg (fun h => h.elim harg0 fun h => harg1 h.1)]
        exact if_pos rfl

end

/-! ### The invariant of a run -/

/-- The number of values that the iterator stands for. -/
def ForeachLoop.Counted {Heap : Type} (l : ForeachLoop) (n : Nat) (vm : VM Heap) : Prop :=
  match n with
  | 0 => ∀ k, vm.stack l.iteratorSlot ≠ .integer k
  | n + 1 => vm.stack l.iteratorSlot = .integer (Int64.ofNat n)

theorem ForeachLoop.Counted.next {Heap : Type} {l : ForeachLoop} {n : Nat} {vm : VM Heap}
    (h : l.Counted n vm) : nextIndex (vm.stack l.iteratorSlot) = Int64.ofNat n := by
  cases n with
  | zero =>
    unfold nextIndex
    split
    · rename_i k hk
      exact absurd hk (h k)
    · rfl
  | succ n =>
    have h' : vm.stack l.iteratorSlot = .integer (Int64.ofNat n) := h
    rw [h']
    exact (Int64.ofNat_add n 1).symm

/-- The registers of the loop while the generator is asked for value number `n`. -/
structure ForeachLoop.Asking {Heap : Type} (l : ForeachLoop) (n : Nat) (vm : VM Heap) :
    Prop where
  container : vm.stack l.containerSlot = .generator l.generator
  index : vm.stack l.indexSlot = .integer (Int64.ofNat n)
  iterator : vm.stack l.iteratorSlot = .integer (Int64.ofNat n)

/-- Where a run is after the body was entered for `n` values, with the value that it is entered
for next. -/
inductive ForeachLoop.Phase {Heap : Type} (l : ForeachLoop) (n : Nat) (vm : VM Heap) :
    Option Object → Prop
  | body (hpost : ¬ l.AtPost vm)
      (hcontainer : vm.stack l.containerSlot = .generator l.generator)
      (hcounted : l.Counted n vm) : Phase l n vm none
  | waiting {ci : CallInfo} (hclosure : ci.closure = some l.closure) (hip : ci.ip = l.start + 1)
      (hover : Over l.Serving (ci :: l.below) 0 vm) (hasking : l.Asking n vm) : Phase l n vm none
  | handed {g : Generator} (ht : l.OnTop (l.start + 1) vm)
      (hg : vm.generators[l.generator]? = some g) (halive : g.state ≠ .eDead)
      (hasking : l.Asking n vm) : Phase l n vm (some (vm.stack l.valueSlot))
  | finished (ht : l.OnTop (l.start + 1) vm)
      (hdead : ∀ g, vm.generators[l.generator]? = some g → g.state = .eDead)
      (hcontainer : vm.stack l.containerSlot = .generator l.generator) : Phase l n vm none
  | left (houtside : ¬ l.Inside vm) : Phase l n vm none

/-- Which frame serves the loop does not depend on its counters or on new
closures. -/
theorem ForeachLoop.stable_serving (l : ForeachLoop) : Stable l.Serving where
  counters hci h := by
    have hgenerator := congrArg CallInfo.generator hci
    have htarget := congrArg CallInfo.target hci
    have hroot := congrArg CallInfo.root hci
    have hprevtop := congrArg CallInfo.prevtop hci
    exact ⟨hgenerator ▸ h.1, htarget ▸ h.2.1, hroot ▸ h.2.2.1, hprevtop ▸ h.2.2.2⟩
  append _ h := h

section

variable {l : ForeachLoop} {n : Nat} {vm vm' : VM (rt.withReferences alive).Heap}

/-- A frame over the loop's one is the generator's, with the others above it.
-/
theorem ForeachLoop.under_of_over {ci : CallInfo} (hclosure : ci.closure = some l.closure)
    (hip : ci.ip = l.start + 1) (hover : Over l.Serving (ci :: l.below) 0 vm) :
    ∃ upper gi, l.Serving vm.closures gi ∧ vm.callstack = upper ++ gi :: ci :: l.below ∧
      l.Under (upper ++ [gi]) (l.start + 1) vm := by
  obtain ⟨upper, gi, hstack, -, hserving⟩ := hover
  refine ⟨upper, gi, hserving, hstack, ci, ?_, hclosure, hip⟩
  rw [hstack, List.append_assoc]
  rfl

theorem ForeachLoop.not_onTop {ci : CallInfo} {k : Nat} (hclosure : ci.closure = some l.closure)
    (hip : ci.ip = l.start + 1) (hover : Over l.Serving (ci :: l.below) 0 vm) :
    ¬ l.OnTop k vm := by
  obtain ⟨upper, gi, -, -, hunder⟩ := under_of_over hclosure hip hover
  intro ht
  have hnil := (hunder.unique ht).1
  simp at hnil

/-- What ends a step: an instruction, or an error that is caught. -/
theorem step_cases {rt : Runtime} {vm vm' : VM rt.Heap} (h : step rt vm = .next vm') :
    (∃ i vm₁, fetch vm = .ok i vm₁ ∧ exec rt i vm₁ = .ok .next vm') ∨
      ∃ err vm₁, (do exec rt (← fetch)) vm = .error (.raise err) vm₁ ∧
        exceptionTrap rt err vm₁ = .next vm' := by
  unfold step at h
  split at h
  · rename_i hr
    cases h
    obtain ⟨i, vm₁, hfetch, hexec⟩ := bind_eq_ok.mp hr
    exact .inl ⟨i, vm₁, hfetch, hexec⟩
  · cases h
  · cases h
  · rename_i err vm₁ hr
    exact .inr ⟨err, vm₁, hr, h⟩
  · cases h

/-- Only a YIELD yields to the loop. -/
theorem ForeachLoop.yields_of_op {i : Instruction} {vm₁ : VM (rt.withReferences alive).Heap}
    (hfetch : fetch vm = .ok i vm₁) (hop : i.op ≠ .YIELD) : l.yields vm = [] := by
  unfold yields
  rw [hfetch]
  split
  · rename_i heq
    cases heq
    exact if_neg fun h => hop h.2.2.2.1
  · rfl

/-- A yield that succeeds is one of a running generator. -/
theorem yieldGenerator_running {p : Ref} {target : Nat} {u : Unit}
    (h : yieldGenerator (rt.withReferences alive) p target vm = .ok u vm') :
    ∃ g, vm.generators[p]? = some g ∧ g.state = .eRunning := by
  unfold yieldGenerator at h
  rw [get_bind_apply] at h
  obtain ⟨ci, vm₁, -, hstate⟩ := bind_eq_ok.mp h
  cases hg : vm.generators[p]? with
  | none =>
    rw [hg] at hstate
    cases hstate
  | some g =>
    rw [hg] at hstate
    dsimp only at hstate
    cases hrunning : g.state with
    | eRunning => exact ⟨g, rfl, hrunning⟩
    | eSuspended | eDead =>
      rw [hrunning] at hstate
      cases hstate

/-- A generator that yields is running. -/
theorem yieldOp_running {gi : CallInfo} {callstack : List CallInfo} {i : Instruction}
    {control : Control} (hstack : vm.callstack = gi :: callstack) {p : Ref}
    (hgenerator : gi.generator = some p)
    (h : yieldOp (rt.withReferences alive) i vm = .ok control vm') :
    ∃ g, vm.generators[p]? = some g ∧ g.state = .eRunning := by
  unfold yieldOp at h
  rw [bind_apply, getCi_apply hstack] at h
  dsimp only at h
  rw [hgenerator] at h
  dsimp only at h
  obtain ⟨arg1, vm₁, hindex, hrun⟩ := bind_eq_ok.mp h
  obtain ⟨rfl, rfl⟩ := index1_ok hindex
  rw [bind_apply, STK_apply] at hrun
  dsimp only at hrun
  rw [modify_bind_apply] at hrun
  obtain ⟨_, vm₂, hyield, -⟩ := bind_eq_ok.mp hrun
  obtain ⟨outers, openouters, hclose⟩ := closeOuters_eq vm₁ vm₁.stackbase
  have hrunning := yieldGenerator_running hyield
  rwa [hclose] at hrunning

/-- The end of a frame raises no error. -/
theorem finish_ne_raise {Heap : Type} {vm vm' : VM Heap} {i : Instruction} {err : Object} :
    finish i vm ≠ .error (.raise err) vm' := by
  intro h
  rcases bind_eq_error.mp h with hindex | ⟨arg1, vm₁, -, hreturn⟩
  · unfold index1 at hindex
    split at hindex
    · cases hindex
    · cases hindex
  · rcases bind_eq_error.mp hreturn with hreturn | ⟨v, vm₂, -, hv⟩
    · unfold Return at hreturn
      rw [get_bind_apply] at hreturn
      rcases bind_eq_error.mp hreturn with hci | ⟨ci, vm₂, -, hstore⟩
      · cases hstack : vm₁.callstack with
        | nil =>
          unfold getCi at hci
          rw [get_bind_apply, hstack] at hci
          cases hci
        | cons ci callstack =>
          rw [getCi_apply hstack] at hci
          cases hci
      · rcases bind_eq_error.mp hstore with hslot | ⟨_, vm₃, -, hleave⟩
        · unfold when at hslot
          split at hslot
          · rcases bind_eq_error.mp hslot with hslot | ⟨_, vm₃, -, hset⟩
            · unfold resultSlot at hslot
              split at hslot
              · cases hslot
              · cases hslot
            · cases hset
          · cases hslot
        · cases hleave
    · cases v with
      | none => cases hv
      | some v => cases hv

/-- The yield of a running generator does not raise. -/
theorem yieldOp_ne_raise {gi : CallInfo} {callstack : List CallInfo} {i : Instruction}
    {g : Generator} {err : Object} (hstack : vm.callstack = gi :: callstack) {p : Ref}
    (hgenerator : gi.generator = some p) (hg : vm.generators[p]? = some g)
    (hrunning : g.state = .eRunning) :
    yieldOp (rt.withReferences alive) i vm ≠ .error (.raise err) vm' := by
  intro h
  rcases yieldOp_cases hstack hgenerator hg hrunning i with
    hundefined | ⟨outers, openouters, hrun⟩
  · rw [hundefined] at h
    cases h
  rw [hrun] at h
  rcases bind_eq_error.mp h with hset | ⟨_, vm₂, -, hfinish⟩
  · unfold when at hset
    split at hset
    · cases hset
    · cases hset
  · exact finish_ne_raise hfinish

/-- A YIELD of the generator, right over the loop's frame, yields its value to
the loop. -/
theorem ForeachLoop.yields_of_running {i : Instruction}
    {vm₁ : VM (rt.withReferences alive).Heap} {gi ci : CallInfo} {g : Generator}
    (hfetch : fetch vm = .ok i vm₁) (hop : i.op = .YIELD)
    (hstack : vm.callstack = gi :: ci :: l.below) (hclosure : ci.closure = some l.closure)
    (hip : ci.ip = l.start + 1) (hgenerator : gi.generator = some l.generator)
    (hg : vm.generators[l.generator]? = some g) (hrunning : g.state = .eRunning) :
    l.yields vm = [vm.sent i] := by
  unfold yields
  rw [hstack, hfetch]
  dsimp only
  rw [hgenerator]
  refine if_pos ⟨rfl, hclosure, hip, hop, ?_⟩
  dsimp only [Option.bind]
  rw [hg, Option.map_some, hrunning]

/-- A step that raises yields nothing to the loop. -/
theorem ForeachLoop.yields_of_raise {err : Object} {vm₁ : VM (rt.withReferences alive).Heap}
    (hraise : (do exec (rt.withReferences alive) (← fetch)) vm = .error (.raise err) vm₁) :
    l.yields vm = [] := by
  unfold yields
  split
  · rename_i gi ci below i vm₂ hstack hfetch
    rw [bind_apply, hfetch] at hraise
    dsimp only at hraise
    apply if_neg
    rintro ⟨-, -, -, hyield, hstate⟩
    obtain ⟨ci₀, callstack, q, c, hstack₀, -, -, -, hvm₂⟩ := fetch_ok hfetch
    obtain ⟨rfl, rfl⟩ := List.cons.inj (hstack.symm.trans hstack₀)
    obtain ⟨g, hg, hrunning⟩ := Option.map_eq_some_iff.mp hstate
    obtain ⟨p, hgenerator, hg⟩ := Option.bind_eq_some_iff.mp hg
    have hstack₂ : vm₂.callstack = { gi with ip := gi.ip + 1 } :: ci :: below := by rw [hvm₂]
    have hg₂ : vm₂.generators[p]? = some g := by rwa [hvm₂]
    rw [exec_yield _ hyield] at hraise
    exact yieldOp_ne_raise hstack₂ hgenerator hg₂ hrunning hraise
  · rfl

/-- An instruction of the generator, which runs directly over the frame of the loop. -/
theorem ForeachLoop.Phase.step_serving {gi ci : CallInfo} {i : Instruction}
    {vm₁ : VM (rt.withReferences alive).Heap} (hserving : l.Serving vm.closures gi)
    (hstack : vm.callstack = gi :: ci :: l.below) (hclosure : ci.closure = some l.closure)
    (hip : ci.ip = l.start + 1) (hbase : vm.stackbase - gi.prevstkbase = l.base)
    (hfetch : fetch vm = .ok i vm₁)
    (hexec : exec (rt.withReferences alive) i vm₁ = .ok .next vm') (hasking : l.Asking n vm') :
    ∃ pending, l.Phase n vm' pending ∧ l.yields vm = pending.toList := by
  obtain ⟨ci₀, callstack, p, c, hstack₀, -, -, -, hvm₁⟩ := fetch_ok hfetch
  obtain ⟨rfl, rfl⟩ := List.cons.inj (hstack.symm.trans hstack₀)
  have hstack₁ : vm₁.callstack = { gi with ip := gi.ip + 1 } :: ci :: l.below := by
    rw [hvm₁]
  obtain ⟨hgenerator, htarget, hroot, hprevtop⟩ := hserving
  by_cases hreturn : i.op = .RETURN
  · rw [exec_return _ hreturn] at hexec
    obtain ⟨hstack', hdead⟩ := returnOp_result hstack₁ hgenerator hroot htarget hexec
    refine ⟨none, .finished ⟨ci, hstack', hclosure, hip⟩ hdead hasking.container, ?_⟩
    exact yields_of_op hfetch (by rw [hreturn]; decide)
  by_cases hyield : i.op = .YIELD
  · rw [exec_yield _ hyield] at hexec
    obtain ⟨g, hg, hrunning⟩ := yieldOp_running (p := l.generator) hstack₁ hgenerator hexec
    obtain ⟨hstack', ⟨g', hg', hsuspended⟩, hvalue⟩ :=
      yieldOp_result hstack₁ hgenerator hroot htarget hg hrunning hprevtop hexec
    have halive : g'.state ≠ .eDead := by
      rw [hsuspended]
      exact GeneratorState.noConfusion
    refine ⟨_, .handed ⟨ci, hstack', hclosure, hip⟩ hg' halive hasking, ?_⟩
    rw [hvm₁] at hg hvalue
    rw [yields_of_running hfetch hyield hstack hclosure hip hgenerator hg hrunning]
    have hslot : vm.stackbase - gi.prevstkbase + (l.index.toNat + 1) = l.valueSlot := by
      rw [hbase]
      rfl
    rw [← hslot]
    exact congrArg (fun v => [v]) hvalue.symm
  · have hover : Over l.Serving (ci :: l.below) 0 vm₁ :=
      ⟨[], _, hstack₁, Nat.le_refl 0, hgenerator, htarget, hroot, hprevtop⟩
    have hover' := over_exec l.stable_serving (rt.withReferences alive) hreturn hyield
      (fun _ p c _ _ _ _ h => h.1) hover
    rw [leaves_ok hexec] at hover'
    exact ⟨none, .waiting hclosure hip hover' hasking, yields_of_op hfetch hyield⟩

/-- An error while the generator runs: a frame over that of the loop catches it, or the loop is
over. -/
theorem ForeachLoop.Phase.step_error {ci : CallInfo} (hclosure : ci.closure = some l.closure)
    (hip : ci.ip = l.start + 1) (hover : Over l.Serving (ci :: l.below) 0 vm) {err : Object}
    {vm₁ : VM (rt.withReferences alive).Heap}
    (hraise : (do exec (rt.withReferences alive) (← fetch)) vm = .error (.raise err) vm₁)
    (htrap : exceptionTrap (rt.withReferences alive) err vm₁ = .next vm')
    (hpost : l.AtPost vm) (hleaves : l.Leaves (rt.withReferences alive) vm vm')
    (hasking : l.Asking n vm') : l.Phase n vm' none := by
  have hs := l.stable_serving
  have hafter : OverOrLeft l.Serving (ci :: l.below) vm₁ := by
    have hexec : OverOrLeft l.Serving (ci :: l.below)
        (leaves (do exec (rt.withReferences alive) (← fetch)) vm) := by
      rw [leaves_bind]
      cases hfetch : fetch vm with
      | ok i vm₀ =>
        exact overOrLeft_exec hs _ (fun _ _ _ _ _ _ _ h => h.1) ((over_fetch hs).ok hfetch hover)
      | error e vm₀ => exact .inl ((over_fetch hs).error hfetch hover)
    rwa [leaves_error hraise] at hexec
  rcases hafter.exceptionTrap hs _ htrap with hcaught | hleft
  · exact .waiting hclosure hip hcaught hasking
  · refine .left fun hinside => ?_
    obtain ⟨upper, k, c, ⟨ci', hstack, hclosure', hk⟩, -, -, hstart, hexit, -⟩ := hinside
    have hupper : upper = [] := by
      rw [hstack, List.length_append, List.length_cons, List.length_cons] at hleft
      exact List.eq_nil_of_length_eq_zero (by omega)
    rw [hupper] at hstack
    exact hleaves.errors hpost err vm₁ hraise k ⟨ci', hstack, hclosure', hk⟩ ⟨hstart, hexit⟩

/-- A step while the generator runs. -/
theorem ForeachLoop.Phase.step_waiting {ci : CallInfo} (hclosure : ci.closure = some l.closure)
    (hip : ci.ip = l.start + 1) (hover : Over l.Serving (ci :: l.below) 0 vm)
    (hasking : l.Asking n vm) (hundisturbed : l.Undisturbed (rt.withReferences alive) vm)
    (hleaves : l.Leaves (rt.withReferences alive) vm vm')
    (hstep : step (rt.withReferences alive) vm = .next vm') :
    ∃ pending, l.Phase n vm' pending ∧ l.yields vm = pending.toList ∧ l.enters vm vm' = [] := by
  obtain ⟨upper, gi, hserving, hstack, hunder⟩ := under_of_over hclosure hip hover
  have hpost : l.AtPost vm := ⟨_, hunder⟩
  have henters : l.enters vm vm' = [] := enters_eq_nil (not_onTop hclosure hip hover) vm'
  have hnot (g : Generator) : ¬ l.Resumes g vm := fun h => not_onTop hclosure hip hover h.1
  have hasking' : l.Asking n vm' := {
    container := (hundisturbed.container vm' hstep hnot).trans hasking.container
    index := (hundisturbed.index vm' hstep hpost).trans hasking.index
    iterator := (hleaves.iterator hnot).trans hasking.iterator }
  rcases step_cases hstep with ⟨i, vm₁, hfetch, hexec⟩ | ⟨err, vm₁, hraise, htrap⟩
  · cases upper with
    | nil =>
      obtain ⟨upper', k, c, hunder', hbase, -⟩ := hleaves.inside
      obtain ⟨rfl, -⟩ := hunder'.unique hunder
      obtain ⟨pending, hphase, hyields⟩ := Phase.step_serving hserving hstack hclosure hip hbase
        hfetch hexec hasking'
      exact ⟨pending, hphase, hyields, henters⟩
    | cons u upper =>
      have hyields : l.yields vm = [] := by
        apply yields_eq_nil
        intro gi' h
        have hlen := congrArg List.length (hunder.unique h).1
        simp at hlen
      have hover₁ : Over l.Serving (ci :: l.below) 1 vm₁ := by
        have habove : Over l.Serving (ci :: l.below) 1 vm :=
          ⟨u :: upper, gi, hstack, by simp, hserving⟩
        exact (over_fetch l.stable_serving).ok hfetch habove
      have hover' := over_exec_succ l.stable_serving (rt.withReferences alive) i hover₁
      rw [leaves_ok hexec] at hover'
      exact ⟨none, .waiting hclosure hip hover' hasking', hyields, henters⟩
  · refine ⟨none, Phase.step_error hclosure hip hover hraise htrap hpost hleaves hasking', ?_,
      henters⟩
    exact yields_of_raise hraise

/-- A step, with the values and bodies that it adds. -/
theorem ForeachLoop.Phase.step {pending : Option Object} (h : l.Phase n vm pending)
    (hundisturbed : l.Undisturbed (rt.withReferences alive) vm)
    (hleaves : l.Leaves (rt.withReferences alive) vm vm')
    (hstep : step (rt.withReferences alive) vm = .next vm') :
    ∃ pending', l.Phase (n + pending.toList.length) vm' pending' ∧
      l.yields vm = pending'.toList ∧
      l.enters vm vm' = pending.toList.map fun v => (.integer (Int64.ofNat n), v) := by
  have honTop {k : Nat} (ht : l.OnTop k vm) : l.yields vm = [] := by
    apply yields_eq_nil
    intro gi h
    cases (h.unique ht).1
  cases h with
  | body hpost hcontainer hcounted =>
    have hyields : l.yields vm = [] := yields_eq_nil fun gi h => hpost ⟨_, h⟩
    have henters : l.enters vm vm' = [] := enters_eq_nil (fun h => hpost ⟨_, h⟩) vm'
    refine ⟨none, ?_, hyields, henters⟩
    by_cases hresumes : ∃ g, l.Resumes g vm
    · obtain ⟨g, hresumes⟩ := hresumes
      obtain ⟨vm₁, gi, ci, hstep₁, hstack, hclosure, hip, hserving, -, -, hc, hindex, hiterator⟩ :=
        step_resumes hleaves.inside hresumes hundisturbed.canResume hcontainer
      rw [hstep] at hstep₁
      cases hstep₁
      rw [hcounted.next] at hindex hiterator
      exact .waiting hclosure hip ⟨[], gi, hstack, Nat.le_refl 0, hserving⟩ ⟨hc, hindex, hiterator⟩
    · have hnot (g : Generator) : ¬ l.Resumes g vm := fun h => hresumes ⟨g, h⟩
      refine .body ?_ ((hundisturbed.container vm' hstep hnot).trans hcontainer) ?_
      · intro hpost'
        exact (hleaves.post hpost').elim hpost hresumes
      · have hiterator := hleaves.iterator hnot
        cases n with
        | zero =>
          change ∀ k, vm'.stack l.iteratorSlot ≠ _
          rw [hiterator]
          exact hcounted
        | succ n =>
          change vm'.stack l.iteratorSlot = _
          rw [hiterator]
          exact hcounted
  | waiting hclosure hip hover hasking =>
    exact Phase.step_waiting hclosure hip hover hasking hundisturbed hleaves hstep
  | handed ht hg halive hasking =>
    obtain ⟨vm₁, hstep₁, ht', hstack⟩ :=
      step_post_alive hleaves.inside ht hasking.container hg halive
    rw [hstep] at hstep₁
    cases hstep₁
    refine ⟨none, .body (ht'.not_atPost (by omega)) ?_ ?_, honTop ht, ?_⟩
    · rw [hstack]
      exact hasking.container
    · change vm'.stack l.iteratorSlot = _
      rw [hstack]
      exact hasking.iterator
    · rw [enters_of_onTop ht ht', hasking.index]
      rfl
  | finished ht hdead hcontainer =>
    cases hg : vm.generators[l.generator]? with
    | none => exact absurd hstep (step_post_none hleaves.inside ht hcontainer hg vm')
    | some g =>
      obtain ⟨vm₁, hstep₁, ht'⟩ := step_post_dead hleaves.inside ht hcontainer hg (hdead g hg)
      rw [hstep] at hstep₁
      cases hstep₁
      refine ⟨none, .left ?_, honTop ht, ?_⟩
      · rintro ⟨upper, k, c, hunder, -, -, -, hlt, -⟩
        obtain ⟨-, rfl⟩ := hunder.unique ht'
        exact Nat.lt_irrefl _ hlt
      · apply enters_eq_nil_after
        intro h
        have hk := (h.unique ht').2
        have hbody := l.body_lt
        omega
  | left houtside => exact absurd hleaves.inside houtside

/-! ### Runs -/

theorem numbered_concat (values : List Object) (v : Object) :
    numbered (values ++ [v]) = numbered values ++ [(.integer (Int64.ofNat values.length), v)] := by
  unfold numbered
  rw [List.zipIdx_append, List.map_append]
  simp

/-- A run enters the body once for each value. -/
theorem ForeachLoop.Run.phase {vm₀ : VM (rt.withReferences alive).Heap} {values : List Object}
    {bodies : List (Object × Object)}
    (hrun : l.Run (rt.withReferences alive) (l.Undisturbed _) vm₀ values bodies vm)
    (ht : l.OnTop l.start vm₀) (hcontainer : vm₀.stack l.containerSlot = .generator l.generator)
    (hcounted : l.Counted 0 vm₀) :
    ∃ earlier pending, values = earlier ++ pending.toList ∧ bodies = numbered earlier ∧
      l.Phase earlier.length vm pending := by
  induction hrun with
  | start => exact ⟨[], none, rfl, rfl, .body (ht.not_atPost (by omega)) hcontainer hcounted⟩
  | step hrun hundisturbed hleaves hstep ih =>
    obtain ⟨earlier, pending, hvalues, hbodies, hphase⟩ := ih
    obtain ⟨pending', hphase', hyields, henters⟩ := hphase.step hundisturbed hleaves hstep
    refine ⟨earlier ++ pending.toList, pending', ?_, ?_, ?_⟩
    · rw [hvalues, hyields]
    · rw [hbodies, henters]
      cases pending with
      | none => simp
      | some v => exact (numbered_concat earlier v).symm
    · rw [List.length_append]
      exact hphase'

end

/-! ### A loop over one value -/

/-- A loop whose body is one instruction. -/
def smallLoop : ForeachLoop where
  container := 0
  index := 1
  start := 0
  exit := 4
  closure := 0
  base := 0
  below := []
  generator := 0
  container_lt := by decide
  body_lt := by decide

/-- The code of a closure. -/
def closureOf (instructions : List Instruction) (bgenerator : Bool) : Closure where
  function := {
    sourcename := .null
    name := .null
    stacksize := 4
    bgenerator := bgenerator
    varparams := 0
    rettype := none
    localvarinfos := []
    lineinfos := []
    literals := []
    parameters := []
    functions := []
    outervalues := []
    defaultparams := []
    instructions := instructions }
  outervalues := []
  defaultparams := []
  env := none

/-- The loop at its start, over a generator that is about to yield seven. -/
def smallStart (stacksize nmetamethodscall : Nat) :
    VM (silentRuntime.withReferences fun _ _ => true).Heap where
  stack m := if m = 0 then .generator 0 else .null
  stacksize := stacksize
  stackbase := 0
  top := 4
  callstack := [{ closure := some 0, prevstkbase := 0, prevtop := 0, root := true }]
  etraps := []
  traps := 0
  openouters := []
  outers := []
  closures := [
    closureOf [
      { op := .FOREACH, arg0 := 0, arg1 := 3, arg2 := 1, arg3 := 0 },
      { op := .POSTFOREACH, arg0 := 0, arg1 := 3, arg2 := 1, arg3 := 0 },
      { op := .LOADINT, arg0 := 2, arg1 := 0, arg2 := 0, arg3 := 0 },
      { op := .JMP, arg0 := 0, arg1 := -4, arg2 := 0, arg3 := 0 }] false,
    closureOf [{ op := .YIELD, arg0 := 1, arg1 := 1, arg2 := 2, arg3 := 0 }] true]
  generators := [{
    closure := 1
    state := .eSuspended
    stack := [.null, .integer 7]
    ci := { closure := some 1, prevstkbase := 0, prevtop := 0 } }]
  nmetamethodscall := nmetamethodscall
  heap := { rest := (), arrays := [], weakrefs := [] }

/-- The state after a step. -/
def stepped (vm : VM (silentRuntime.withReferences fun _ _ => true).Heap) :
    VM (silentRuntime.withReferences fun _ _ => true).Heap :=
  match step (silentRuntime.withReferences fun _ _ => true) vm with
  | .next vm' => vm'
  | _ => vm

theorem smallLoop_inside {vm : VM (silentRuntime.withReferences fun _ _ => true).Heap}
    (upper : List CallInfo) (k : Nat) (hunder : smallLoop.Under upper k vm)
    (hbase : baseUnder vm.stackbase upper = 0) (htop : upper = [] → 3 < vm.top) (hk : k < 4)
    (hclosures : vm.closures = (smallStart 64 0).closures) : smallLoop.Inside vm :=
  ⟨upper, k, _, hunder, hbase, htop, Nat.zero_le k, hk, by rw [hclosures]; rfl,
    ⟨_, rfl, rfl, rfl, rfl, rfl⟩, _, rfl, rfl, rfl, rfl⟩

end GameScript.VM
