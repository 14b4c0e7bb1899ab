import GameScript.VM.Capture
import GameScript.VM.ForeachRuns

/-!
What a generator has of its frame when it is resumed. `_OP_YIELD` saves the registers below its
third operand, which the compiler sets to the number of live ones, the traps of the frame and
the place to go on from; `Resume` puts them back wherever the frame comes to be.

The variables that closures have captured are closed at the yield and stay closed. The register
that is restored is another variable from then on. `_OP_RESUME` counts the traps that come back in
`traps`, `_OP_FOREACH` does not. `resumes_iff` says when the body goes on as it should.
-/

namespace GameScript.VM

open Effect

variable {rt : Runtime} {alive : rt.Heap → Object → Bool}

/-! ### Cells -/

section

variable {Heap : Type} {vm vm' : VM Heap}

/-- No cell is opened. -/
def OpensNone (vm vm' : VM Heap) : Prop :=
  ∀ q idx, vm'.outerIdx q = some idx → vm.outerIdx q = some idx

/-- Closing one cell. -/
theorem outerIdx_set_closed (vm : VM Heap) (p q : Ref) (v : Object) :
    { vm with outers := vm.outers.set p (.closed v) }.outerIdx q =
      if p = q then none else vm.outerIdx q := by
  unfold outerIdx
  dsimp only
  rw [List.getElem?_set]
  by_cases hpq : p = q
  · rw [if_pos hpq, if_pos hpq]
    by_cases hlt : p < vm.outers.length
    · rw [if_pos hlt]
    · rw [if_neg hlt]
  · rw [if_neg hpq, if_neg hpq]

theorem opensNone_closeFrom (vm : VM Heap) (stackindex : Nat) (ps : List Ref) :
    OpensNone vm (vm.closeFrom stackindex ps) := by
  induction ps generalizing vm with
  | nil => exact fun _ _ h => h
  | cons p ps ih =>
    unfold closeFrom
    split
    · split
      · intro q idx h
        have hclosed := ih _ q idx h
        rw [outerIdx_set_closed] at hclosed
        split at hclosed
        · cases hclosed
        · exact hclosed
      · exact fun _ _ h => h
    · exact fun _ _ h => h

/-- An ordered list of cells is closed down to the slot. -/
theorem closeFrom_closes {stackindex : Nat} {ps : List Ref} (hordered : vm.Ordered ps) {q : Ref}
    (hq : q ∈ ps) {idx : Nat} (hidx : vm.outerIdx q = some idx) (hle : stackindex ≤ idx) :
    (vm.closeFrom stackindex ps).outerIdx q = none := by
  induction ps generalizing vm with
  | nil => cases hq
  | cons p ps ih =>
    obtain ⟨⟨i, hi, hbelow⟩, hrest⟩ := hordered
    have habove : stackindex ≤ i := by
      rcases List.mem_cons.mp hq with rfl | hq'
      · obtain rfl := Option.some.inj (hi.symm.trans hidx)
        exact hle
      · exact Nat.le_trans hle (Nat.le_of_lt (hbelow q hq' idx hidx))
    unfold closeFrom
    rw [hi]
    dsimp only
    rw [if_pos habove]
    generalize hvm₁ : { vm with outers := vm.outers.set p (.closed (vm.stack i)) } = vm₁
    have hset : ∀ r, vm₁.outerIdx r = if p = r then none else vm.outerIdx r := by
      intro r
      rw [← hvm₁]
      exact outerIdx_set_closed vm p r _
    by_cases hpq : p = q
    · cases hafter : (vm₁.closeFrom stackindex ps).outerIdx q with
      | none => rfl
      | some j =>
        have hbefore := opensNone_closeFrom vm₁ stackindex ps q j hafter
        rw [hset, if_pos hpq] at hbefore
        cases hbefore
    · have hq' : q ∈ ps := (List.mem_cons.mp hq).resolve_left fun h => hpq h.symm
      have hp : ∀ r ∈ ps, p ≠ r := by
        rintro r hr rfl
        exact Nat.lt_irrefl _ (hbelow p hr i hi)
      apply ih
      · -- the cells behind the first one are open as before
        have hordered' : ∀ l : List Ref, (∀ r ∈ l, p ≠ r) → vm.Ordered l → vm₁.Ordered l := by
          intro l
          induction l with
          | nil => exact fun _ _ => trivial
          | cons r l ihl =>
            rintro hne ⟨⟨j, hj, hless⟩, hl⟩
            refine ⟨⟨j, ?_, ?_⟩, ihl (fun r' hr' => hne r' (List.mem_cons_of_mem _ hr')) hl⟩
            · rw [hset, if_neg (hne r List.mem_cons_self)]
              exact hj
            · intro r' hr' j' hj'
              rw [hset, if_neg (hne r' (List.mem_cons_of_mem _ hr'))] at hj'
              exact hless r' hr' j' hj'
        exact hordered' ps hp hrest
      · exact hq'
      · rw [hset, if_neg hpq]
        exact hidx

end

/-! ### The yield -/

/-- Generators and objects are left alone, and no cell is opened. -/
structure Passive {Heap : Type} (vm vm' : VM Heap) : Prop where
  generators : vm'.generators = vm.generators
  heap : vm'.heap = vm.heap
  cells : OpensNone vm vm'

instance {Heap : Type} : Std.Refl (@Passive Heap) := ⟨fun _ => ⟨rfl, rfl, fun _ _ h => h⟩⟩

instance {Heap : Type} : IsTrans (VM Heap) Passive where
  trans _ _ _ h h' := ⟨h'.generators.trans h.generators, h'.heap.trans h.heap,
    fun q idx hq => h.cells q idx (h'.cells q idx hq)⟩

section

variable {Heap : Type}

theorem passive_setSTK (a : Nat) (v : Object) : Within Passive (setSTK a v : VMM Heap Unit) :=
  within_modify fun _ => ⟨rfl, rfl, fun _ _ h => h⟩

theorem passive_leaveFrame (vm : VM Heap) : Passive vm vm.leaveFrame := by
  unfold leaveFrame
  split
  · exact Std.Refl.refl vm
  · rename_i ci callstack _
    let vm' : VM Heap := { vm with
      stackbase := vm.stackbase - ci.prevstkbase
      top := vm.stackbase - ci.prevstkbase + ci.prevtop
      callstack := callstack }
    have hcells := opensNone_closeFrom vm' vm.stackbase vm'.openouters
    obtain ⟨outers, openouters, heq⟩ := closeFrom_eq vm' vm.stackbase vm'.openouters
    refine ⟨?_, ?_, hcells⟩
    · change (vm'.closeFrom vm.stackbase vm'.openouters).generators = _
      rw [heq]
    · change (vm'.closeFrom vm.stackbase vm'.openouters).heap = _
      rw [heq]

theorem passive_Return (arg0 arg1 : Nat) :
    Within Passive (Return arg0 arg1 : VMM Heap (Option Object)) := by
  apply within_get_bind
  intro vm
  have hstore : Within Passive (do
      let ci ← getCi
      let value := vm.returnValue arg0 arg1
      when (!ci.root ∧ ci.target ≠ -1) do
        let slot ← resultSlot (vm.stackbase - ci.prevstkbase) ci.target
        modify fun vm => vm.setSlot slot value
      modify leaveFrame
      return if ci.root then some value else none : VMM Heap (Option Object)) := by
    refine within_bind within_getCi fun ci => ?_
    refine within_bind (within_when fun _ => ?_) fun _ => ?_
    · refine within_bind ?_ fun slot => within_modify fun _ => ⟨rfl, rfl, fun _ _ h => h⟩
      unfold resultSlot
      dsimp only
      split
      · exact within_pure _
      · exact within_undefined
    · exact within_bind (within_modify passive_leaveFrame) fun _ => within_pure _
  exact hstore vm

theorem passive_finish (i : Instruction) : Within Passive (finish i : VMM Heap Control) := by
  refine within_bind (within_index1 i) fun arg1 => ?_
  refine within_bind (passive_Return _ _) fun value => ?_
  split
  · exact within_pure _
  · exact within_pure _

end

/-- The state that `_OP_YIELD` saves, once the captured variables are closed. -/
def closedFrame (vm : VM (rt.withReferences alive).Heap) : VM (rt.withReferences alive).Heap :=
  vm.closeOuters vm.stackbase

theorem closedFrame_eq (vm : VM (rt.withReferences alive).Heap) :
    ∃ outers openouters, closedFrame vm = { vm with outers := outers, openouters := openouters } :=
  closeOuters_eq vm vm.stackbase

/-- A yield leaves the generator with the frame, and opens no cell. -/
theorem yield_passive {i : Instruction} (hop : i.op = .YIELD)
    {vm vm₁ : VM (rt.withReferences alive).Heap} {ci : CallInfo} {callstack : List CallInfo}
    (hstack : vm.callstack = ci :: callstack) {p : Ref} (hci : ci.generator = some p)
    {g : Generator} (hg : vm.generators[p]? = some g) (hrunning : g.state = .eRunning)
    {control : Control} (hexec : exec (rt.withReferences alive) i vm = .ok control vm₁) :
    Passive (yielded (closedFrame vm) ci p i.arg2.toNat) vm₁ := by
  have hyield : yieldOp (rt.withReferences alive) i vm = .ok control vm₁ := by
    rwa [exec_yield _ hop] at hexec
  obtain ⟨outers, openouters, hclosed⟩ := closedFrame_eq vm
  have hstack' : (closedFrame vm).callstack = ci :: callstack := by
    rw [hclosed]
    exact hstack
  have hg' : (closedFrame vm).generators[p]? = some g := by
    rw [hclosed]
    exact hg
  unfold yieldOp at hyield
  rw [bind_apply, getCi_apply hstack] at hyield
  dsimp only at hyield
  rw [hci] at hyield
  dsimp only at hyield
  obtain ⟨arg1, vm₀, hindex, hrun⟩ := bind_eq_ok.mp hyield
  obtain rfl : vm₀ = vm := by
    unfold index1 at hindex
    split at hindex
    · cases hindex
      rfl
    · cases hindex
  rw [bind_apply, STK_apply] at hrun
  dsimp only at hrun
  have hgen : yieldGenerator (rt.withReferences alive) p i.arg2.toNat
      (vm₀.closeOuters vm₀.stackbase) = _ :=
    yieldGenerator_apply hstack' hg' hrunning i.arg2.toNat
  rw [modify_bind_apply, bind_apply, hgen] at hrun
  dsimp only at hrun
  rw [modify_bind_apply] at hrun
  have hrest : Within Passive (do
      when (arg1 ≠ 0xFF) (setSTK arg1 (vm₀.stack (vm₀.stackbase + arg1)))
      finish i : VMM (rt.withReferences alive).Heap Control) :=
    within_bind (within_when fun _ => passive_setSTK _ _) fun _ => passive_finish i
  have hpassive := hrest.ok hrun
  exact ⟨hpassive.generators, hpassive.heap, hpassive.cells⟩

/-! ### The resume -/

/-- A state in which the generator is as it was suspended, and the weak references that there
were are kept. -/
structure Later (p : Ref) (vm₁ vm₂ : VM (rt.withReferences alive).Heap) : Prop where
  generator : vm₂.generators[p]? = vm₁.generators[p]?
  weakrefs : CallHeap.Extends vm₁.heap vm₂.heap

/-- A trap of the frame at `base`, for the frame at `base'`. -/
def relocated (base base' : Nat) (et : ExceptionTrap) : ExceptionTrap :=
  { et with stackbase := et.stackbase - base + base', stacksize := et.stacksize - base + base' }

/-- The instruction `i`, `_OP_RESUME` or `_OP_FOREACH`, resumes the generator `p`. -/
inductive ResumedBy {Heap : Type} (p : Ref) (vm : VM Heap) : Opcode → Instruction → Prop where
  | resume {i : Instruction} : i.op = .RESUME → 0 ≤ i.arg1.toInt →
      vm.stack (vm.stackbase + i.arg1.toInt.toNat) = .generator p → ResumedBy p vm .RESUME i
  | foreach {i : Instruction} : i.op = .FOREACH →
      vm.stack (vm.stackbase + i.arg0.toNat) = .generator p → ResumedBy p vm .FOREACH i

/-- The body goes on in `vm₃`, which comes from resuming in `vm₂`, as it would have in `vm`: in a
frame of its own on top of the frames of `vm₂`, with `live` registers, and with its traps among
those of the `Execute` that runs it. -/
structure Continues (vm : VM (rt.withReferences alive).Heap) (ci : CallInfo) (live : Nat) (p : Ref)
    (vm₂ vm₃ : VM (rt.withReferences alive).Heap) : Prop where
  stackbase : vm₃.stackbase = vm₂.top
  registers : ∀ n, 0 < n → n < live →
    vm₃.stack (vm₃.stackbase + n) = vm.stack (vm.stackbase + n)
  this : ((vm.stack vm.stackbase).isRefCounted = true →
      alive vm₂.heap.rest (vm.stack vm.stackbase) = true) →
    vm₃.stack vm₃.stackbase = vm.stack vm.stackbase
  frame : ∃ ci', vm₃.callstack = ci' :: vm₂.callstack ∧ ci'.closure = ci.closure ∧
    ci'.ip = ci.ip ∧ ci'.etraps = ci.etraps ∧ ci'.generator = some p ∧ ci'.root = false
  counter : vm₃.traps = vm₂.traps + ci.etraps
  traps : vm₃.etraps =
    (vm.etraps.take ci.etraps).map (relocated vm.stackbase vm₃.stackbase) ++ vm₂.etraps
  captured : ∀ q n, vm.OpenOn (vm.stackbase + n) q → vm₃.OpenOn (vm₃.stackbase + n) q

section

variable {vm vm₁ vm₂ : VM (rt.withReferences alive).Heap} {ci : CallInfo}
  {callstack : List CallInfo} {p : Ref} {g : Generator}

theorem savedRegisters_length (vm : VM (rt.withReferences alive).Heap) (target : Nat) :
    (savedRegisters vm target).length = vm.top - vm.stackbase := by
  unfold savedRegisters
  rw [List.length_map, List.length_range]

theorem savedRegisters_getElem? {n : Nat} (hn : n < vm.top - vm.stackbase) (target : Nat) :
    (savedRegisters vm target)[n]? = some
      (if n = 0 then (CallHeap.weakRef vm.heap (vm.stack vm.stackbase)).1
      else if n < target then vm.stack (vm.stackbase + n) else .null) := by
  unfold savedRegisters
  rw [List.getElem?_map, List.getElem?_range hn]
  rfl

/-- The weak reference of a heap, followed in a later one. -/
theorem strongRef_of_extends {Heap : Type} {h h' : CallHeap Heap} {alive : Object → Bool}
    {o : Object} (hext : (h.weakRef o).2.Extends h')
    (ho : o.isRefCounted = true → alive o = true) :
    h'.strongRef alive (h.weakRef o).1 = o := by
  have hsame := h.strongRef_weakRef ho
  unfold CallHeap.strongRef at hsame ⊢
  cases hw : (h.weakRef o).1 with
  | weakref n =>
    rw [hw] at hsame
    dsimp only at hsame ⊢
    cases hget : (h.weakRef o).2.weakrefs[n]? with
    | some o' =>
      rw [hget] at hsame
      obtain ⟨tail, htail⟩ := hext
      have hlt := (List.getElem?_eq_some_iff.mp hget).1
      rw [← htail, List.getElem?_append_left hlt, hget]
      exact hsame
    | none =>
      rw [hget] at hsame
      obtain rfl : Object.null = o := hsame
      have hnull : (h.weakRef .null).1 = .null := congrArg Prod.fst (if_neg (by decide))
      rw [hnull] at hw
      cases hw
  | _ =>
    rw [hw] at hsame
    exact hsame

/-- The generator that is suspended at a yield. -/
theorem Later.suspended (hlater : Later p vm₁ vm₂) {target : Nat}
    (hpassive : Passive (yielded (closedFrame vm) ci p target) vm₁)
    (hg : vm.generators[p]? = some g) :
    vm₂.generators[p]? = some (suspendedAs (closedFrame vm) ci target g) := by
  obtain ⟨outers, openouters, hclosed⟩ := closedFrame_eq vm
  have hg' : (closedFrame vm).generators[p]? = some g := by
    rw [hclosed]
    exact hg
  rw [hlater.generator, hpassive.generators]
  unfold yielded
  simp [hg']

/-- The traps of the frame, saved and relocated. -/
theorem restoredTraps_suspended (hsaved : g.etraps = []) (htraps : ci.etraps ≤ vm.etraps.length)
    (target newbase : Nat) :
    restoredTraps (suspendedAs vm ci target g) newbase =
      (vm.etraps.take ci.etraps).map (relocated vm.stackbase newbase) := by
  have hlen : (savedTraps vm ci).length = ci.etraps := by
    unfold savedTraps
    rw [List.length_reverse, List.length_map, List.length_take]
    exact Nat.min_eq_left htraps
  have htake : (savedTraps vm ci ++ g.etraps).take ci.etraps = savedTraps vm ci := by
    rw [hsaved, List.append_nil]
    exact List.take_of_length_le (Nat.le_of_eq hlen)
  unfold restoredTraps suspendedAs
  dsimp only
  rw [htake]
  unfold savedTraps
  rw [← List.map_reverse, List.reverse_reverse, List.map_map]
  rfl

/-- What comes back at the top of a later state. -/
theorem resumed_register (vm₂ : VM (rt.withReferences alive).Heap) {target n : Nat}
    (hn : n < vm.top - vm.stackbase) (hpos : 0 < n) :
    restoredStack vm₂ (suspendedAs (closedFrame vm) ci target g) (vm₂.top + n) =
      if n < target then vm.stack (vm.stackbase + n) else .null := by
  obtain ⟨outers, openouters, hclosed⟩ := closedFrame_eq vm
  have hregs : savedRegisters (closedFrame vm) target = savedRegisters vm target := by
    rw [hclosed]
    rfl
  have hlength : (suspendedAs (closedFrame vm) ci target g).stack.length =
      vm.top - vm.stackbase := by
    change (savedRegisters (closedFrame vm) target).length = _
    rw [hregs, savedRegisters_length]
  unfold restoredStack
  rw [if_neg (by omega), hlength, if_pos (by omega), Nat.add_sub_cancel_left]
  change (savedRegisters (closedFrame vm) target).getD n .null = _
  rw [hregs, List.getD_eq_getElem?_getD, savedRegisters_getElem? hn, if_neg (by omega)]
  rfl

theorem resumed_this (hlater : Later p vm₁ vm₂) {target : Nat}
    (hpassive : Passive (yielded (closedFrame vm) ci p target) vm₁)
    (hsize : 0 < vm.top - vm.stackbase)
    (halive : (vm.stack vm.stackbase).isRefCounted = true →
      alive vm₂.heap.rest (vm.stack vm.stackbase) = true) :
    restoredStack vm₂ (suspendedAs (closedFrame vm) ci target g) vm₂.top =
      vm.stack vm.stackbase := by
  obtain ⟨outers, openouters, hclosed⟩ := closedFrame_eq vm
  have hregs : savedRegisters (closedFrame vm) target = savedRegisters vm target := by
    rw [hclosed]
    rfl
  have hheap : vm₁.heap = (CallHeap.weakRef vm.heap (vm.stack vm.stackbase)).2 := by
    rw [hpassive.heap, hclosed]
    rfl
  have hhead : (suspendedAs (closedFrame vm) ci target g).stack.headD .null =
      (CallHeap.weakRef vm.heap (vm.stack vm.stackbase)).1 := by
    change (savedRegisters (closedFrame vm) target).headD .null = _
    rw [hregs, List.headD_eq_head?_getD, List.head?_eq_getElem?, savedRegisters_getElem? hsize]
    rfl
  unfold restoredStack
  rw [if_pos rfl, hhead]
  have hext := hlater.weakrefs
  rw [hheap] at hext
  exact strongRef_of_extends hext halive

/-- The state after an instruction that resumes `g`. `stack` has what the instruction wrote
before. -/
def resumedWith (vm₂ : VM (rt.withReferences alive).Heap) (g : Generator) (p : Ref)
    (stack : Nat → Object) (target : Nat) (traps : Int) : VM (rt.withReferences alive).Heap :=
  { resumedAs { vm₂ with stack := stack } g p target with traps := traps }

/-- `_OP_RESUME` counts the traps of the frame. -/
theorem resumeOp_suspended {i : Instruction} (harg1 : 0 ≤ i.arg1.toInt)
    (hregister : vm₂.stack (vm₂.stackbase + i.arg1.toInt.toNat) = .generator p)
    (hg : vm₂.generators[p]? = some g) (hsuspended : g.state = .eSuspended)
    (hroom : Room vm₂ (vm₂.top + g.stack.length)) :
    resumeOp (rt.withReferences alive) i vm₂ = .ok ()
      (resumedWith vm₂ g p vm₂.stack i.arg0.toNat (vm₂.traps + g.ci.etraps)) := by
  unfold resumeOp
  rw [bind_apply, STK1_apply harg1]
  dsimp only
  rw [hregister]
  dsimp only
  rw [bind_apply, resumeGenerator_apply hg hsuspended hroom]
  rfl

/-- What the instruction makes of a generator that is suspended. -/
theorem exec_resumes {op : Opcode} {i : Instruction} (hby : ResumedBy p vm₂ op i)
    (hg : vm₂.generators[p]? = some g) (hsuspended : g.state = .eSuspended)
    (hroom : Room vm₂ (vm₂.top + g.stack.length)) :
    ∃ stack target, exec (rt.withReferences alive) i vm₂ = .ok .next
      (resumedWith vm₂ g p stack target
        (vm₂.traps + if op = .FOREACH then 0 else (g.ci.etraps : Int))) := by
  cases hby with
  | resume hop harg1 hregister =>
    refine ⟨vm₂.stack, i.arg0.toNat, ?_⟩
    unfold exec
    rw [hop]
    dsimp only
    rw [bind_apply, resumeOp_suspended harg1 hregister hg hsuspended hroom]
    rfl
  | foreach hop hregister =>
    refine ⟨(counted vm₂ i.arg2.toNat).stack, i.arg2.toNat + 1, ?_⟩
    rw [exec_foreach hop (foreachOp_suspended vm₂ hregister hg hsuspended hroom), if_pos rfl,
      Int.add_zero]
    rfl

/-- The state when the generator is resumed, whatever has become of its captured variables. -/
theorem resume_later (hlater : Later p vm₁ vm₂) {operand : Nat}
    (hpassive : Passive (yielded (closedFrame vm) ci p operand) vm₁)
    (hg : vm.generators[p]? = some g)
    (hroom : Room vm₂ (vm₂.top + (vm.top - vm.stackbase))) {op : Opcode} {i : Instruction}
    (hby : ResumedBy p vm₂ op i) :
    ∃ stack target, exec (rt.withReferences alive) i vm₂ = .ok .next
      (resumedWith vm₂ (suspendedAs (closedFrame vm) ci operand g) p stack target
        (vm₂.traps + if op = .FOREACH then 0 else (ci.etraps : Int))) := by
  obtain ⟨outers, openouters, hclosed⟩ := closedFrame_eq vm
  apply exec_resumes hby (hlater.suspended hpassive hg) rfl
  change Room vm₂ (vm₂.top + (savedRegisters (closedFrame vm) operand).length)
  rw [savedRegisters_length, hclosed]
  exact hroom

/-- The parts of the frame that do not depend on captured variables. -/
theorem continues_of_resumed (hlater : Later p vm₁ vm₂) {operand live : Nat}
    (hpassive : Passive (yielded (closedFrame vm) ci p operand) vm₁)
    (hsaved : g.etraps = []) (htraps : ci.etraps ≤ vm.etraps.length)
    (hlive : 0 < live) (hsize : live ≤ vm.top - vm.stackbase) (hroot : ci.root = false)
    (stack : Nat → Object) (target : Nat) {traps : Int} (hcounter : traps = vm₂.traps + ci.etraps)
    (hnull : ∀ n, 0 < n → operand ≤ n → n < live → vm.stack (vm.stackbase + n) = .null)
    (hcaptured : ∀ q n, vm.OpenOn (vm.stackbase + n) q → vm₂.OpenOn (vm₂.top + n) q) :
    Continues vm ci live p vm₂
      (resumedWith vm₂ (suspendedAs (closedFrame vm) ci operand g) p stack target traps) where
  stackbase := rfl
  registers n hpos hn := by
    change restoredStack { vm₂ with stack := stack } _ (vm₂.top + n) = _
    rw [resumed_register _ (by omega) hpos]
    by_cases hlt : n < operand
    · rw [if_pos hlt]
    · rw [if_neg hlt]
      exact (hnull n hpos (Nat.not_lt.mp hlt) hn).symm
  this halive := by
    have hlater' : Later p vm₁ { vm₂ with stack := stack } := ⟨hlater.generator, hlater.weakrefs⟩
    exact resumed_this hlater' hpassive (by omega) halive
  frame := ⟨_, rfl, rfl, rfl, rfl, rfl, hroot⟩
  counter := hcounter
  traps := by
    obtain ⟨outers, openouters, hclosed⟩ := closedFrame_eq vm
    change restoredTraps _ vm₂.top ++ vm₂.etraps = _
    rw [restoredTraps_suspended hsaved (by rw [hclosed]; exact htraps), hclosed]
    rfl
  captured := hcaptured

/-- After a yield no variable of the frame is open. -/
theorem closed_of_yield {operand : Nat} (hordered : vm.Ordered vm.openouters)
    (hpassive : Passive (yielded (closedFrame vm) ci p operand) vm₁) {q : Ref} {n : Nat}
    (hq : vm.OpenOn (vm.stackbase + n) q) : vm₁.outerIdx q = none := by
  have hclosed : (closedFrame vm).outerIdx q = none :=
    closeFrom_closes hordered hq.1 hq.2 (Nat.le_add_right _ _)
  cases hidx : vm₁.outerIdx q with
  | none => rfl
  | some idx =>
    have hbefore : (closedFrame vm).outerIdx q = some idx := hpassive.cells q idx hidx
    rw [hclosed] at hbefore
    cases hbefore

/-- A captured variable is no longer that of its register when the generator is resumed. -/
theorem not_continues_of_captured {operand live : Nat} (hordered : vm.Ordered vm.openouters)
    (hpassive : Passive (yielded (closedFrame vm) ci p operand) vm₁)
    (houters : vm₂.outers = vm₁.outers) {q : Ref} {n : Nat}
    (hq : vm.OpenOn (vm.stackbase + n) q) (stack : Nat → Object) (target : Nat) (traps : Int) :
    ¬ Continues vm ci live p vm₂
      (resumedWith vm₂ (suspendedAs (closedFrame vm) ci operand g) p stack target traps) := by
  intro hcontinues
  have hopen : vm₁.outerIdx q = some (vm₂.top + n) := by
    have hopen := (hcontinues.captured q n hq).2
    unfold outerIdx at hopen ⊢
    rw [← houters]
    exact hopen
  rw [closed_of_yield hordered hpassive hq] at hopen
  cases hopen

/-- A state in which the instruction resumes the generator, on a stack that is large enough. -/
theorem exists_resumedBy (vm₁ : VM (rt.withReferences alive).Heap) (p : Ref) {op : Opcode}
    (hop : op = .RESUME ∨ op = .FOREACH) (size : Nat) :
    ∃ vm₂ i, Later p vm₁ vm₂ ∧ Room vm₂ (vm₂.top + size) ∧ vm₂.outers = vm₁.outers ∧
      ResumedBy p vm₂ op i := by
  refine ⟨{ vm₁ with
    stack := fun _ => .generator p
    stacksize := vm₁.top + size + MIN_STACK_OVERHEAD }, { op := op }, ⟨rfl, List.prefix_refl _⟩,
    .inl (Nat.le_refl _), rfl, ?_⟩
  rcases hop with rfl | rfl
  · exact .resume rfl (by decide) rfl
  · exact .foreach rfl rfl

/-- **A generator goes on where it stopped, but for its captured variables and, in a `foreach`, its
traps.** When a yield with `live` registers is executed, any later resumption of the generator by
an instruction `op`, on any stack that has room for it, goes on as the frame would have, if and only
if no closure has captured a variable of the frame, the registers that the operand of the yield does
not tell of hold null, the frame is not the first one of an `Execute`, and it has no traps where
`op` is `_OP_FOREACH`. -/
theorem resumes_iff {i : Instruction} (hop : i.op = .YIELD) {live : Nat} (hi : i.arg2 = byte live)
    (hstack : vm.callstack = ci :: callstack) (hci : ci.generator = some p)
    (hg : vm.generators[p]? = some g) (hrunning : g.state = .eRunning) (hsaved : g.etraps = [])
    (htraps : ci.etraps ≤ vm.etraps.length) (hordered : vm.Ordered vm.openouters)
    (hlive : 0 < live) (hsize : live ≤ vm.top - vm.stackbase) {control : Control}
    (hexec : exec (rt.withReferences alive) i vm = .ok control vm₁) {op : Opcode}
    (hresumer : op = .RESUME ∨ op = .FOREACH) :
    (∀ vm₂ i₂, Later p vm₁ vm₂ → Room vm₂ (vm₂.top + (vm.top - vm.stackbase)) →
      ResumedBy p vm₂ op i₂ → ∃ vm₃, exec (rt.withReferences alive) i₂ vm₂ = .ok .next vm₃ ∧
        Continues vm ci live p vm₂ vm₃) ↔
      (∀ n, 0 < n → live % 256 ≤ n → n < live → vm.stack (vm.stackbase + n) = .null) ∧
        (∀ q n, ¬ vm.OpenOn (vm.stackbase + n) q) ∧ ci.root = false ∧
          (op = .FOREACH → ci.etraps = 0) := by
  have harg2 : i.arg2.toNat = live % 256 := by
    rw [hi]
    unfold byte
    rw [UInt8.toNat_ofNat']
    omega
  have hpassive := yield_passive hop hstack hci hg hrunning hexec
  rw [harg2] at hpassive
  constructor
  · intro hresumes
    obtain ⟨vm₂, i₂, hlater, hroom, houters, hby⟩ :=
      exists_resumedBy vm₁ p hresumer (vm.top - vm.stackbase)
    obtain ⟨vm₃, hresume, hcontinues⟩ := hresumes vm₂ i₂ hlater hroom hby
    obtain ⟨stack, target, hafter⟩ := resume_later hlater hpassive hg hroom hby
    rw [hafter] at hresume
    cases hresume
    refine ⟨fun n hpos hle hn => ?_, fun q n hq => ?_, ?_, fun hforeach => ?_⟩
    · have hsame := hcontinues.registers n hpos hn
      change restoredStack { vm₂ with stack := stack } _ (vm₂.top + n) = _ at hsame
      rw [resumed_register _ (by omega) hpos, if_neg (Nat.not_lt.mpr hle)] at hsame
      exact hsame.symm
    · exact not_continues_of_captured hordered hpassive houters hq _ _ _ hcontinues
    · obtain ⟨ci', hframe, -, -, -, -, hroot⟩ := hcontinues.frame
      obtain ⟨rfl, -⟩ := List.cons.inj hframe
      exact hroot
    · have hcounter := hcontinues.counter
      change vm₂.traps + (if op = .FOREACH then 0 else (ci.etraps : Int)) = _ at hcounter
      rw [if_pos hforeach] at hcounter
      omega
  · rintro ⟨hnull, hcells, hroot, hzero⟩ vm₂ i₂ hlater hroom hby
    obtain ⟨stack, target, hafter⟩ := resume_later hlater hpassive hg hroom hby
    refine ⟨_, hafter, continues_of_resumed hlater hpassive hsaved htraps hlive hsize hroot stack
      target ?_ hnull fun q n hq => absurd hq (hcells q n)⟩
    split
    · rename_i hforeach
      rw [hzero hforeach]
      rfl
    · rfl

end

/-- A yield of a frame with two registers. -/
def yieldTwo : Instruction := { op := .YIELD, arg0 := 1, arg1 := 1, arg2 := byte 2, arg3 := 0 }

/-- The frame of a generator after its first instruction. -/
def generatorFrame : CallInfo :=
  { ip := 1, closure := some 0, generator := some 0, prevstkbase := 1, prevtop := 1 }

/-- A generator in its frame of two registers, with the cells through which closures share
them. -/
def inGenerator (openouters : List Ref) (outers : List Outer) :
    VM (silentRuntime.withReferences fun _ _ => true).Heap where
  stack _ := .null
  stacksize := 64
  stackbase := 1
  top := 3
  callstack := [generatorFrame, { prevstkbase := 0, prevtop := 0, root := true }]
  etraps := []
  traps := 0
  openouters := openouters
  outers := outers
  closures := []
  generators := [{ closure := 0 }]
  nmetamethodscall := 0
  heap := { rest := (), arrays := [], weakrefs := [] }

theorem resumes_two : ∃ control vm₁,
    exec (silentRuntime.withReferences fun _ _ => true) yieldTwo (inGenerator [] []) =
      .ok control vm₁ ∧
    ((∀ vm₂ i₂, Later 0 vm₁ vm₂ → Room vm₂ (vm₂.top + (3 - 1)) → ResumedBy 0 vm₂ .FOREACH i₂ →
      ∃ vm₃, exec (silentRuntime.withReferences fun _ _ => true) i₂ vm₂ = .ok .next vm₃ ∧
        Continues (inGenerator [] []) generatorFrame 2 0 vm₂ vm₃) ↔
      (∀ n, 0 < n → 2 % 256 ≤ n → n < 2 → (inGenerator [] []).stack (1 + n) = .null) ∧
        (∀ q n, ¬ (inGenerator [] []).OpenOn (1 + n) q) ∧ generatorFrame.root = false ∧
          (Opcode.FOREACH = .FOREACH → generatorFrame.etraps = 0)) := by
  have hordered : (inGenerator [] []).Ordered (inGenerator [] []).openouters := trivial
  have htraps : generatorFrame.etraps ≤ (inGenerator [] []).etraps.length := by decide
  have hlive : 0 < 2 := by decide
  have hsize : 2 ≤ (inGenerator [] []).top - (inGenerator [] []).stackbase := by decide
  exact ⟨_, _, rfl, resumes_iff (i := yieldTwo) rfl rfl rfl rfl rfl rfl rfl htraps hordered hlive
    hsize rfl (.inr rfl)⟩

/-- The second register of the frame is captured. -/
theorem not_resumes_captured : ¬ ∀ (rt : Runtime) (alive : rt.Heap → Object → Bool)
    (vm vm₁ : VM (rt.withReferences alive).Heap) (ci : CallInfo) (callstack : List CallInfo)
    (p : Ref) (g : Generator) (i : Instruction) (live : Nat) (control : Control),
    i.op = .YIELD → i.arg2 = byte live → vm.callstack = ci :: callstack →
    ci.generator = some p → vm.generators[p]? = some g → g.state = .eRunning → g.etraps = [] →
    ci.etraps ≤ vm.etraps.length → vm.Ordered vm.openouters → 0 < live →
    live ≤ vm.top - vm.stackbase → exec (rt.withReferences alive) i vm = .ok control vm₁ →
    ∀ op, op = .RESUME ∨ op = .FOREACH → ∀ vm₂ i₂, Later p vm₁ vm₂ →
      Room vm₂ (vm₂.top + (vm.top - vm.stackbase)) → ResumedBy p vm₂ op i₂ →
      ∃ vm₃, exec (rt.withReferences alive) i₂ vm₂ = .ok .next vm₃ ∧
        Continues vm ci live p vm₂ vm₃ := by
  intro h
  have hordered : (inGenerator [0] [.open 2]).Ordered (inGenerator [0] [.open 2]).openouters :=
    ⟨⟨2, rfl, nofun⟩, trivial⟩
  obtain ⟨control, vm₁, hexec⟩ : ∃ control vm₁,
      exec (silentRuntime.withReferences fun _ _ => true) yieldTwo (inGenerator [0] [.open 2]) =
        .ok control vm₁ := ⟨_, _, rfl⟩
  have hpassive := yield_passive rfl rfl rfl rfl rfl hexec
  obtain ⟨vm₂, i₂, hlater, hroom, houters, hby⟩ := exists_resumedBy vm₁ 0 (.inl rfl) (3 - 1)
  obtain ⟨vm₃, hresume, hcontinues⟩ := h _ _ _ vm₁ _ _ 0 _ yieldTwo 2 control rfl rfl rfl rfl rfl
    rfl rfl (by decide) hordered (by decide) (by decide) hexec .RESUME (.inl rfl) vm₂ i₂ hlater
    hroom hby
  obtain ⟨stack, target, hafter⟩ := resume_later (g := { closure := 0 }) hlater hpassive rfl hroom hby
  rw [hafter] at hresume
  cases hresume
  exact not_continues_of_captured hordered hpassive houters (q := 0) (n := 1) ⟨by decide, rfl⟩ _ _ _
    hcontinues

end GameScript.VM
