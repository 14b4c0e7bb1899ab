import GameScript.Lib.Effect
import GameScript.VM.Execute

/-!
Instructions that stay in their frame. `Local rt w r` collects what such an
instruction may do to the state as closure properties of a relation `r`: it
assigns registers in `w`, moves the instruction pointer, counts traps, asks the
runtime, and assigns, opens and closes outer variables. An instruction that
assigns registers in `w` only then takes every state to one that `r` relates it to.
-/

namespace GameScript

/-- A frame without its counters, which change while it runs. -/
def CallInfo.fixed (ci : CallInfo) : CallInfo := { ci with ip := 0, etraps := 0, ncalls := 0 }

/-- The registers that an instruction assigns, the results of calls included. -/
def Instruction.dests (i : Instruction) : List Nat :=
  match i.op with
  | .LOAD | .LOADINT | .LOADFLOAT | .GETK | .MOVE | .DELETE | .GET | .EQ | .NE | .ADD | .SUB
  | .MUL | .DIV | .MOD | .BITW | .LOADROOT | .LOADBOOL | .GETOUTER | .NEWOBJ | .COMPARITH | .INC
  | .PINC | .CMP | .EXISTS | .INSTANCEOF | .AND | .OR | .NEG | .NOT | .BWNOT | .CLOSURE | .CLONE
  | .TYPEOF | .GETBASE | .RESUME => [i.arg0.toNat]
  | .NEWSLOT | .SET | .SETOUTER | .CALL | .TAILCALL =>
    if i.arg0 = 0xFF then [] else [i.arg0.toNat]
  | .DLOAD | .DMOVE => [i.arg0.toNat, i.arg2.toNat]
  | .PREPCALL | .PREPCALLK => [i.arg0.toNat, i.arg3.toNat]
  | .LOADNULLS => (List.range i.arg1.toInt.toNat).map (i.arg0.toNat + ·)
  | .INCL => [i.arg1.toInt.toNat]
  | .PINCL => [i.arg0.toNat, i.arg1.toInt.toNat]
  | .FOREACH => [i.arg2.toNat, i.arg2.toNat + 1, i.arg2.toNat + 2]
  | _ => []

namespace VM

open Effect

variable {Heap : Type} {α : Type}

/-- The answer of the runtime in a state. -/
def served (rt : Runtime) (vm : VM rt.Heap) (q : Request) : Response rt.Heap :=
  rt.serve q vm.heap vm.closures vm.generators vm.outerValues

/-- The operations that an instruction is made of while it stays in its frame and leaves the
traps alone. -/
structure Trapless (rt : Runtime) (w : Nat → Prop) (r : VM rt.Heap → VM rt.Heap → Prop) :
    Prop where
  set : ∀ (vm : VM rt.Heap) (a : Nat) (v : Object), w a →
    r vm (vm.setSlot (vm.stackbase + a) v)
  ip : ∀ (vm : VM rt.Heap) (f : CallInfo → CallInfo),
    (∀ ci, (f ci).fixed = ci.fixed ∧ (f ci).etraps = ci.etraps) →
    r vm { vm with callstack := vm.callstack.modifyHead f }
  serve : ∀ (vm : VM rt.Heap) (q : Request), r vm (vm.absorb (served rt vm q))
  write : ∀ (vm : VM rt.Heap) (p : Ref) (v : Object), r vm (vm.writeOuter p v)
  close : ∀ (vm : VM rt.Heap) (stackindex : Nat), r vm (vm.closeOuters stackindex)

/-- The operations that an instruction is made of while it stays in its frame. -/
structure Local (rt : Runtime) (w : Nat → Prop) (r : VM rt.Heap → VM rt.Heap → Prop) : Prop
    extends Trapless rt w r where
  head : ∀ (vm : VM rt.Heap) (f : CallInfo → CallInfo), (∀ ci, (f ci).fixed = ci.fixed) →
    r vm { vm with callstack := vm.callstack.modifyHead f }
  traps : ∀ (vm : VM rt.Heap) (etraps : List ExceptionTrap) (traps : Int),
    r vm { vm with etraps := etraps, traps := traps }
  absorb : ∀ (vm : VM rt.Heap) (answer : Response rt.Heap), r vm (vm.absorb answer)
  ip := fun vm f hf => head vm f fun ci => (hf ci).1
  serve := fun vm q => absorb vm (served rt vm q)

/-! ### Operations that change nothing -/

section

variable {r : VM Heap → VM Heap → Prop} [Std.Refl r]

theorem within_undefined : Within r (undefined : VMM Heap α) := within_throw _

theorem within_raiseError (msg : String) : Within r (raiseError msg : VMM Heap α) :=
  within_throw _

theorem within_STK (a : Nat) : Within r (STK a : VMM Heap Object) := fun vm => Std.Refl.refl vm

theorem within_getCi : Within r (getCi : VMM Heap CallInfo) := by
  refine within_get_bind fun vm => ?_
  cases vm.callstack with
  | nil => exact within_undefined vm
  | cons ci rest => exact within_pure ci vm

theorem within_getClosure (p : Ref) : Within r (getClosure p : VMM Heap Closure) := by
  refine within_get_bind fun vm => ?_
  cases vm.closures[p]? with
  | none => exact within_undefined vm
  | some c => exact within_pure c vm

theorem within_index1 (i : Instruction) : Within r (index1 i : VMM Heap Nat) := by
  unfold index1
  split
  · exact within_pure _
  · exact within_undefined

theorem within_when {c : Prop} [Decidable c] {m : VMM Heap Unit} (h : c → Within r m) :
    Within r (when c m) := by
  unfold when
  split
  · exact h ‹c›
  · exact within_pure _

variable [IsTrans (VM Heap) r]

theorem within_currentClosure : Within r (currentClosure : VMM Heap Closure) := by
  refine within_bind within_getCi fun ci => ?_
  cases ci.closure with
  | none => exact within_undefined
  | some p => exact within_getClosure p

theorem within_literal (n : Nat) : Within r (literal n : VMM Heap Object) := by
  refine within_bind within_currentClosure fun c => ?_
  cases c.function.literals[n]? with
  | none => exact within_undefined
  | some o => exact within_pure o

theorem within_STK1 (i : Instruction) : Within r (STK1 i : VMM Heap Object) :=
  within_bind (within_index1 i) fun n => within_STK n

/-- The object and the key that most instructions on slots start with. -/
theorem within_member {i : Instruction} {n : Nat} {f : Object → Object → VMM Heap α}
    (h : ∀ self key, Within r (f self key)) :
    Within r (do
      let self ← STK1 i
      let key ← STK n
      f self key) :=
  within_bind (within_STK1 i) fun self => within_bind (within_STK n) fun key => h self key

/-- The two operands of a binary operator. -/
theorem within_operands {i : Instruction} {n : Nat} {f : Object → Object → VMM Heap α}
    (h : ∀ o1 o2, Within r (f o1 o2)) :
    Within r (do
      let o1 ← STK n
      let o2 ← STK1 i
      f o1 o2) :=
  within_bind (within_STK n) fun o1 => within_bind (within_STK1 i) fun o2 => h o1 o2

theorem within_condLiteral (i : Instruction) : Within r (condLiteral i : VMM Heap Object) := by
  unfold condLiteral
  split
  · exact within_bind (within_index1 i) fun _ => within_literal _
  · exact within_STK1 i

end

/-- A failure that is thrown away leaves what was done up to it. -/
theorem within_ignoreFailure {r : VM Heap → VM Heap → Prop} {m : VMM Heap α}
    (h : Within r m) : Within r (ignoreFailure m) := by
  intro vm
  have hm := h vm
  unfold leaves ignoreFailure at *
  cases hr : m vm with
  | ok a vm' => simpa only [hr] using hm
  | error e vm' => cases e <;> simpa only [hr] using hm

/-! ### Reading the operands of an instruction -/

section

variable {r : VM Heap → VM Heap → Prop} [Std.Refl r]

/-- `arg1` is known where it is used. -/
theorem within_index1_bind {i : Instruction} {f : Nat → VMM Heap α}
    (hf : Within r (f i.arg1.toInt.toNat)) : Within r (index1 i >>= f) := by
  unfold index1
  split
  · exact hf
  · exact within_undefined

theorem within_classAttributes (i : Instruction) :
    Within r (classAttributes i : VMM Heap Object) := by
  unfold classAttributes
  split
  · exact within_pure _
  · exact within_STK _

theorem within_slotAttributes (i : Instruction) :
    Within r (slotAttributes i : VMM Heap Object) := by
  unfold slotAttributes
  split
  · exact within_STK _
  · exact within_pure _

variable [IsTrans (VM Heap) r]

theorem within_classBase (i : Instruction) : Within r (classBase i : VMM Heap Object) := by
  unfold classBase
  split
  · exact within_pure _
  · refine within_bind (within_STK1 i) fun o => ?_
    split
    · exact within_pure _
    · exact within_raiseError _

theorem within_appendedValue (i : Instruction) :
    Within r (appendedValue i : VMM Heap Object) := by
  unfold appendedValue
  split
  · exact within_STK1 i
  · exact within_bind (within_index1 i) fun n => within_literal n
  · exact within_pure _
  · exact within_pure _
  · exact within_pure _
  · exact within_undefined

end

/-! ### Operators that need nothing but the numbers -/

section

variable {rt : Runtime} {r : VM rt.Heap → VM rt.Heap → Prop} [Std.Refl r]

theorem within_divide (i1 i2 : GSInteger) : Within r (divide rt i1 i2) := by
  unfold divide
  split
  · exact within_undefined
  · exact within_pure _

theorem within_remainder (i1 i2 : GSInteger) : Within r (remainder rt i1 i2) := by
  unfold remainder
  split
  · exact within_undefined
  · exact within_pure _

theorem within_arithInteger (op : ArithOp) (i1 i2 : GSInteger) :
    Within r (arithInteger rt op i1 i2) := by
  cases op with
  | add | sub | mul => exact within_pure _
  | div =>
    unfold arithInteger
    dsimp only
    split
    · exact within_raiseError _
    · split
      · exact within_raiseError _
      · exact within_divide i1 i2
  | mod =>
    unfold arithInteger
    dsimp only
    split
    · exact within_raiseError _
    · split
      · exact within_pure _
      · exact within_remainder i1 i2

theorem within_shift (i2 res : GSInteger) : Within r (shift rt i2 res) := by
  unfold shift
  split
  · exact within_pure _
  · exact within_undefined

theorem within_BW_OP (op : Nat) (o1 o2 : Object) : Within r (BW_OP rt op o1 o2) := by
  unfold BW_OP
  split
  · split
    · exact within_pure _
    · exact within_pure _
    · exact within_pure _
    · exact within_shift _ _
    · exact within_shift _ _
    · exact within_shift _ _
    · exact within_raiseError _
  · exact within_raiseError _

end

/-! ### Operations that change the state -/

section

variable {rt : Runtime} {w : Nat → Prop} {r : VM rt.Heap → VM rt.Heap → Prop}

theorem Trapless.setSTK (h : Trapless rt w r) {a : Nat} (ha : w a) (v : Object) :
    Within r (VM.setSTK a v) := fun vm => h.set vm a v ha

theorem Trapless.setTarget (h : Trapless rt w r) {i : Instruction} (hi : w i.arg0.toNat)
    (v : Object) : Within r (VM.setTarget i v) := h.setSTK hi v

theorem Trapless.modifyCi (h : Trapless rt w r) {f : CallInfo → CallInfo}
    (hf : ∀ ci, (f ci).fixed = ci.fixed ∧ (f ci).etraps = ci.etraps) :
    Within r (VM.modifyCi f) := fun vm => h.ip vm f hf

theorem Local.modifyCi (h : Local rt w r) {f : CallInfo → CallInfo}
    (hf : ∀ ci, (f ci).fixed = ci.fixed) : Within r (VM.modifyCi f) := fun vm => h.head vm f hf

/-- A call into the runtime does what the runtime serves. -/
theorem within_askNative (h : ∀ vm q, r vm (vm.absorb (served rt vm q))) (q : Request) :
    Within r (rt.askNative q) := by
  intro vm
  unfold leaves Runtime.askNative
  dsimp only
  cases (rt.serve q vm.heap vm.closures vm.generators vm.outerValues).result with
  | ok answer => exact h vm q
  | error e => exact h vm q

theorem Trapless.askNative (h : Trapless rt w r) (q : Request) : Within r (rt.askNative q) :=
  within_askNative h.serve q

variable [Std.Refl r] [IsTrans (VM rt.Heap) r]

theorem Trapless.jump (h : Trapless rt w r) (d : Int) : Within r (VM.jump d) := by
  refine within_bind within_getCi fun ci => ?_
  dsimp only
  split
  · exact h.modifyCi fun _ => ⟨rfl, rfl⟩
  · exact within_undefined

theorem within_ask (h : ∀ vm q, r vm (vm.absorb (served rt vm q))) (q : Request) :
    Within r (rt.ask q) := by
  refine within_bind (within_askNative h q) fun answer => ?_
  cases answer with
  | values vs => exact within_pure vs
  | _ => exact within_undefined

theorem within_ask1 (h : ∀ vm q, r vm (vm.absorb (served rt vm q))) (q : Request) :
    Within r (rt.ask1 q) := by
  refine within_bind (within_ask h q) fun vs => ?_
  split
  · exact within_pure _
  · exact within_undefined

theorem Trapless.ask (h : Trapless rt w r) (q : Request) : Within r (rt.ask q) := within_ask h.serve q

theorem Trapless.ask1 (h : Trapless rt w r) (q : Request) : Within r (rt.ask1 q) :=
  within_ask1 h.serve q

/-! ### Operators -/

theorem Trapless.arithFallback (h : Trapless rt w r) (op : ArithOp) (o1 o2 : Object) :
    Within r (VM.arithFallback rt op o1 o2) := by
  unfold VM.arithFallback
  split
  · exact h.ask1 _
  · exact h.ask1 _

/-- Arithmetic stays in its frame, metamethods included. -/
theorem Trapless.ARITH_OP (h : Trapless rt w r) (op : ArithOp) (o1 o2 : Object) :
    Within r (VM.ARITH_OP rt op o1 o2) := by
  unfold VM.ARITH_OP
  split
  · exact within_arithInteger op _ _
  · split
    · exact within_pure _
    · exact h.arithFallback op _ _

theorem Trapless.arith (h : Trapless rt w r) (op : ArithOp) (o1 o2 : Object) :
    Within r (VM.arith rt op o1 o2) := by
  unfold VM.arith
  split
  · split
    · exact within_raiseError _
    · exact within_divide _ _
  · exact h.ARITH_OP _ _ _

theorem Trapless.NEG_OP (h : Trapless rt w r) (o : Object) : Within r (VM.NEG_OP rt o) := by
  unfold VM.NEG_OP
  split
  · exact within_pure _
  · exact within_pure _
  · exact h.ask1 _
  · exact h.ask1 _
  · exact h.ask1 _
  · exact within_raiseError _

omit [IsTrans (VM rt.Heap) r] in
theorem within_cmpResult (v : Object) : Within r (cmpResult v : VMM rt.Heap Int) := by
  unfold cmpResult
  split
  · exact within_pure _
  · exact within_raiseError _

/-- A comparison through `_cmp` stays in its frame. -/
theorem Trapless.compareMeta (h : Trapless rt w r) (o1 o2 : Object) :
    Within r (VM.compareMeta rt o1 o2) := by
  apply within_bind (h.ask _)
  intro vs
  split
  · exact within_pure _
  · exact within_cmpResult _
  · exact within_undefined

/-- A comparison of any two objects stays in its frame. -/
theorem Trapless.ObjCmp (h : Trapless rt w r) (o1 o2 : Object) : Within r (VM.ObjCmp rt o1 o2) := by
  unfold VM.ObjCmp
  split
  · exact within_pure _
  · split
    · exact within_pure _
    · exact within_pure _
    · exact within_pure _
    · exact h.compareMeta _ _
    · exact h.compareMeta _ _
    · exact h.compareMeta _ _
    · exact within_pure _
    · exact within_pure _
    · split
      · exact within_pure _
      · split
        · exact within_pure _
        · split
          · exact within_pure _
          · exact within_raiseError _

theorem Trapless.CMP_OP (h : Trapless rt w r) (op : Nat) (o1 o2 : Object) :
    Within r (VM.CMP_OP rt op o1 o2) := by
  refine within_bind (h.ObjCmp o1 o2) fun r => ?_
  split
  · exact within_pure _
  · exact within_pure _
  · exact within_pure _
  · exact within_pure _
  · exact within_pure _
  · exact within_undefined

theorem Trapless.Get (h : Trapless rt w r) (self key : Object) (selfidx : Nat) :
    Within r (VM.Get rt self key selfidx) :=
  within_bind within_getCi fun _ => h.ask1 _

theorem Trapless.Set (h : Trapless rt w r) (self key val : Object) (selfidx : Nat) :
    Within r (VM.Set rt self key val selfidx) :=
  within_bind within_getCi fun _ => within_bind (h.ask _) fun _ => within_pure _

/-- An increment of a slot assigns its target register only. -/
theorem Trapless.DerefInc (h : Trapless rt w r) (op : ArithOp) {target : Nat} (ht : w target)
    (self key incr : Object) (isPostfix : Bool) (selfidx : Nat) :
    Within r (VM.DerefInc rt op target self key incr isPostfix selfidx) := by
  refine within_bind (h.Get _ _ _) fun tmp => ?_
  refine within_bind (h.ARITH_OP _ _ _) fun v => ?_
  refine within_bind (h.setSTK ht _) fun _ => ?_
  refine within_bind (within_STK _) fun v => ?_
  refine within_bind (h.Set _ _ _ _) fun _ => ?_
  exact within_when fun _ => h.setSTK ht _

/-! ### Instructions -/

theorem Trapless.arithOp (h : Trapless rt w r) (op : ArithOp) {i : Instruction}
    (hi : w i.arg0.toNat) : Within r (VM.arithOp rt op i) := by
  refine within_operands fun o1 o2 => ?_
  exact within_bind (h.arith _ _ _) fun v => h.setTarget hi v

theorem Trapless.modOp (h : Trapless rt w r) {i : Instruction} (hi : w i.arg0.toNat) :
    Within r (VM.modOp rt i) := by
  refine within_bind (within_ignoreFailure ?_) fun v => ?_
  · refine within_bind (within_STK _) fun o1 => ?_
    exact within_bind (within_STK1 i) fun o2 => h.ARITH_OP _ _ _
  · split
    · exact h.setTarget hi _
    · exact within_pure _

theorem Trapless.prepCall (h : Trapless rt w r) {i : Instruction} (h0 : w i.arg0.toNat)
    (h3 : w i.arg3.toNat) (key : Object) : Within r (VM.prepCall rt i key) := by
  refine within_bind (within_STK _) fun o => ?_
  refine within_bind (h.Get _ _ _) fun temp_reg => ?_
  refine within_bind (within_STK _) fun o => ?_
  exact within_bind (h.setSTK h3 _) fun _ => h.setTarget h0 _

theorem Trapless.shortCircuit (h : Trapless rt w r) {i : Instruction} (hi : w i.arg0.toNat)
    (falsy : Bool) : Within r (VM.shortCircuit rt i falsy) := by
  refine within_bind (within_STK _) fun v => within_when fun _ => ?_
  exact within_bind (h.setTarget hi _) fun _ => h.jump _

/-- A type check assigns no register. -/
theorem Trapless.typeCheck (h : Trapless rt w r) (i : Instruction) :
    Within r (VM.typeCheck rt i) := by
  refine within_bind (within_STK _) fun val => ?_
  dsimp only
  split
  · split
    · exact within_bind (h.ask _) fun _ => within_pure _
    · exact within_raiseError _
  · exact within_when fun _ => within_raiseError _

/-- A new object goes to the target register. -/
theorem Trapless.newObj (h : Trapless rt w r) {i : Instruction} (hi : w i.arg0.toNat) :
    Within r (VM.newObj rt i) := by
  unfold VM.newObj
  split
  · exact within_bind (h.ask1 _) fun v => h.setTarget hi v
  · exact within_bind (h.ask1 _) fun v => h.setTarget hi v
  · refine within_bind (within_classBase i) fun base => ?_
    refine within_bind (within_classAttributes i) fun attrs => ?_
    refine within_bind (h.ask1 _) fun theclass => ?_
    refine within_bind (h.setTarget hi _) fun _ => ?_
    exact within_bind (h.ask _) fun _ => within_pure _
  · exact within_undefined

theorem Trapless.appendArray (h : Trapless rt w r) (i : Instruction) :
    Within r (VM.appendArray rt i) := by
  refine within_bind (within_appendedValue i) fun val => ?_
  refine within_bind (within_STK _) fun array => ?_
  exact within_bind (h.ask _) fun _ => within_pure _

theorem Trapless.instanceOf (h : Trapless rt w r) {i : Instruction} (hi : w i.arg0.toNat) :
    Within r (VM.instanceOf rt i) := by
  refine within_bind (within_STK1 i) fun theclass => ?_
  refine within_bind (within_STK _) fun o => ?_
  split
  · exact within_raiseError _
  · split
    · exact within_bind (h.ask1 _) fun v => h.setTarget hi v
    · exact h.setTarget hi _

theorem Local.pushTrap (h : Local rt w r) (i : Instruction) : Within r (VM.pushTrap i) := by
  refine within_get_bind fun vm => ?_
  refine within_bind within_getCi (fun ci => ?_) vm
  refine within_bind (within_when fun _ => within_undefined) fun _ => ?_
  refine within_bind (within_modify fun vm => h.traps vm _ _) fun _ => ?_
  exact h.modifyCi fun _ => rfl

theorem Local.popTraps (h : Local rt w r) (n : Nat) : Within r (VM.popTraps n) := by
  refine within_get_bind fun vm => ?_
  refine within_bind (within_when fun _ => within_undefined) (fun _ => ?_) vm
  refine within_bind (within_modify fun vm => h.traps vm _ _) fun _ => ?_
  exact h.modifyCi fun _ => rfl

theorem Trapless.getOuter (h : Trapless rt w r) {i : Instruction} (hi : w i.arg0.toNat) :
    Within r (VM.getOuter i) := by
  refine within_bind within_currentClosure fun c => ?_
  refine within_bind (within_index1 i) fun n => ?_
  split
  · exact within_bind within_get fun vm => h.setTarget hi _
  · exact within_undefined

/-- An outer variable is assigned in its cell, the copy of its value in the
target register. -/
theorem Trapless.setOuter (h : Trapless rt w r) {i : Instruction}
    (hi : i.arg0 ≠ 0xFF → w i.arg0.toNat) : Within r (VM.setOuter i) := by
  refine within_bind within_currentClosure fun c => ?_
  refine within_bind (within_index1 i) fun n => ?_
  split
  · refine within_bind (within_STK _) fun v => ?_
    refine within_bind (within_modify fun vm => h.write vm _ _) fun _ => ?_
    exact within_when fun hne => within_bind (within_STK _) fun v => h.setTarget (hi hne) v
  · exact within_undefined

/-- POSTFOREACH moves the instruction pointer only. -/
theorem Trapless.postForeach (h : Trapless rt w r) (i : Instruction) :
    Within r (VM.postForeach i) := by
  refine within_bind (within_STK _) fun o => ?_
  split
  · refine within_bind within_get fun vm => ?_
    split
    · exact within_when fun _ => h.jump _
    · exact within_undefined
  · exact within_undefined

/-- An instruction that stays in its frame, makes no closure and does not count traps stays
within a relation that allows its registers. -/
theorem Trapless.execData (h : Trapless rt w r) {i : Instruction} (hi : ∀ a ∈ i.dests, w a)
    (hop : i.op ≠ .CLOSURE) (hpush : i.op ≠ .PUSHTRAP) (hpop : i.op ≠ .POPTRAP) :
    Within r (VM.execData rt i) := by
  have htarget (h0 : w i.arg0.toNat) (v : Object) : Within r (VM.setTarget i v) :=
    h.setTarget h0 v
  unfold VM.execData
  unfold Instruction.dests at hi
  cases hop' : i.op with
  | CLOSURE => exact absurd hop' hop
  | LINE | CALL | TAILCALL | RETURN | YIELD | RESUME | FOREACH | invalid =>
    exact within_pure _
  | LOAD =>
    simp only [hop', List.mem_singleton, forall_eq] at hi
    refine within_bind (within_index1 i) fun n => ?_
    exact within_bind (within_literal n) (htarget hi)
  | LOADINT | LOADFLOAT | LOADBOOL =>
    simp only [hop', List.mem_singleton, forall_eq] at hi
    exact htarget hi _
  | DLOAD =>
    simp only [hop', List.mem_cons, forall_eq_or_imp, List.not_mem_nil] at hi
    refine within_bind (within_index1 i) fun n => ?_
    refine within_bind (within_literal n) fun v => ?_
    refine within_bind (htarget hi.1 v) fun _ => ?_
    exact within_bind (within_literal _) (h.setSTK hi.2.1)
  | PREPCALL =>
    simp only [hop', List.mem_cons, forall_eq_or_imp, List.not_mem_nil] at hi
    exact within_bind (within_STK1 i) (h.prepCall hi.1 hi.2.1)
  | PREPCALLK =>
    simp only [hop', List.mem_cons, forall_eq_or_imp, List.not_mem_nil] at hi
    refine within_bind (within_index1 i) fun n => ?_
    exact within_bind (within_literal n) (h.prepCall hi.1 hi.2.1)
  | MOVE =>
    simp only [hop', List.mem_singleton, forall_eq] at hi
    exact within_bind (within_STK1 i) (htarget hi)
  | DMOVE =>
    simp only [hop', List.mem_cons, forall_eq_or_imp, List.not_mem_nil] at hi
    refine within_bind (within_STK1 i) fun v => ?_
    refine within_bind (htarget hi.1 v) fun _ => ?_
    exact within_bind (within_STK _) (h.setSTK hi.2.1)
  | GETK =>
    simp only [hop', List.mem_singleton, forall_eq] at hi
    refine within_bind (within_STK _) fun self => ?_
    refine within_bind (within_index1 i) fun n => ?_
    refine within_bind (within_literal n) fun key => ?_
    exact within_bind (h.Get _ _ _) (htarget hi)
  | GET =>
    simp only [hop', List.mem_singleton, forall_eq] at hi
    refine within_member fun self key => ?_
    refine within_bind (within_index1 i) fun n => ?_
    exact within_bind (h.Get _ _ _) (htarget hi)
  | NEWSLOT =>
    refine within_member fun self key => ?_
    refine within_bind (within_STK _) fun val => ?_
    refine within_bind (h.ask _) fun _ => ?_
    refine within_when fun h0 => within_bind (within_STK _) ?_
    exact htarget (hi _ (by simp [hop', h0]))
  | SET =>
    refine within_member fun self key => ?_
    refine within_bind (within_STK _) fun val => ?_
    refine within_bind (within_index1 i) fun n => ?_
    refine within_bind (h.Set _ _ _ _) fun _ => ?_
    refine within_when fun h0 => within_bind (within_STK _) ?_
    exact htarget (hi _ (by simp [hop', h0]))
  | DELETE =>
    simp only [hop', List.mem_singleton, forall_eq] at hi
    exact within_member fun self key => within_bind (h.ask1 _) (htarget hi)
  | EXISTS =>
    simp only [hop', List.mem_singleton, forall_eq] at hi
    exact within_member fun self key => within_bind (h.ask1 _) (htarget hi)
  | EQ | NE =>
    simp only [hop', List.mem_singleton, forall_eq] at hi
    refine within_bind (within_STK _) fun o1 => ?_
    exact within_bind (within_condLiteral i) fun o2 => htarget hi _
  | ADD | SUB | MUL | DIV =>
    simp only [hop', List.mem_singleton, forall_eq] at hi
    exact h.arithOp _ hi
  | MOD =>
    simp only [hop', List.mem_singleton, forall_eq] at hi
    exact h.modOp hi
  | BITW =>
    simp only [hop', List.mem_singleton, forall_eq] at hi
    refine within_operands fun o1 o2 => ?_
    exact within_bind (within_BW_OP _ _ _) (htarget hi)
  | CMP =>
    simp only [hop', List.mem_singleton, forall_eq] at hi
    refine within_operands fun o1 o2 => ?_
    exact within_bind (h.CMP_OP _ _ _) (htarget hi)
  | LOADNULLS =>
    refine within_forM_mem fun n hn => h.setSTK (hi _ ?_) _
    simp only [hop']
    exact List.mem_map_of_mem hn
  | LOADROOT | GETBASE =>
    simp only [hop', List.mem_singleton, forall_eq] at hi
    refine within_bind within_getCi fun ci => ?_
    exact within_bind (h.ask1 _) (htarget hi)
  | JMP => exact h.jump _
  | JCMP =>
    refine within_bind (within_STK _) fun o1 => ?_
    refine within_bind (within_STK _) fun o2 => ?_
    exact within_bind (h.CMP_OP _ _ _) fun v => within_when fun _ => h.jump _
  | JZ => exact within_bind (within_STK _) fun v => within_when fun _ => h.jump _
  | GETOUTER =>
    simp only [hop', List.mem_singleton, forall_eq] at hi
    exact h.getOuter hi
  | SETOUTER => exact h.setOuter fun h0 => hi _ (by simp [hop', h0])
  | NEWOBJ =>
    simp only [hop', List.mem_singleton, forall_eq] at hi
    exact h.newObj hi
  | APPENDARRAY => exact h.appendArray i
  | COMPARITH =>
    simp only [hop', List.mem_singleton, forall_eq] at hi
    dsimp only
    split
    · refine within_bind (within_STK _) fun self => ?_
      refine within_bind (within_STK _) fun key => ?_
      refine within_bind (within_STK _) fun incr => ?_
      exact h.DerefInc _ hi _ _ _ _ _
    · exact within_undefined
  | INC | PINC =>
    simp only [hop', List.mem_singleton, forall_eq] at hi
    refine within_member fun self key => ?_
    refine within_bind (within_index1 i) fun n => ?_
    exact h.DerefInc _ hi _ _ _ _ _
  | INCL =>
    simp only [hop', List.mem_singleton, forall_eq] at hi
    refine within_index1_bind ?_
    refine within_bind (within_STK1 i) fun a => ?_
    exact within_bind (h.arith _ _ _) (h.setSTK hi)
  | PINCL =>
    simp only [hop', List.mem_cons, forall_eq_or_imp, List.not_mem_nil] at hi
    refine within_bind (within_STK1 i) fun a => ?_
    refine within_bind (h.ARITH_OP _ _ _) fun trg => ?_
    refine within_bind (within_STK1 i) fun v => ?_
    refine within_bind (htarget hi.1 v) fun _ => ?_
    exact within_index1_bind (h.setSTK hi.2.1 trg)
  | INSTANCEOF =>
    simp only [hop', List.mem_singleton, forall_eq] at hi
    exact h.instanceOf hi
  | AND | OR =>
    simp only [hop', List.mem_singleton, forall_eq] at hi
    exact h.shortCircuit hi _
  | NEG =>
    simp only [hop', List.mem_singleton, forall_eq] at hi
    refine within_bind (within_STK1 i) fun o => ?_
    exact within_bind (h.NEG_OP o) (htarget hi)
  | NOT =>
    simp only [hop', List.mem_singleton, forall_eq] at hi
    exact within_bind (within_STK1 i) fun o => htarget hi _
  | BWNOT =>
    simp only [hop', List.mem_singleton, forall_eq] at hi
    refine within_bind (within_STK1 i) fun o => ?_
    split
    · exact htarget hi _
    · exact within_raiseError _
  | CLONE | TYPEOF =>
    simp only [hop', List.mem_singleton, forall_eq] at hi
    refine within_bind (within_STK1 i) fun o => ?_
    exact within_bind (h.ask1 _) (htarget hi)
  | PUSHTRAP => exact absurd hop' hpush
  | POPTRAP => exact absurd hop' hpop
  | THROW => exact within_bind (within_STK _) fun v => within_throw _
  | NEWSLOTA =>
    refine within_bind (within_slotAttributes i) fun attrs => ?_
    refine within_member fun self key => ?_
    refine within_bind (within_STK _) fun val => ?_
    exact within_bind (h.ask _) fun _ => within_pure _
  | CLOSE =>
    exact within_bind (within_index1 i) fun n => within_modify fun vm => h.close vm _
  | IMPORT =>
    refine within_bind (within_STK _) fun path => ?_
    exact within_bind (h.ask _) fun _ => within_pure _
  | NAMESPACE =>
    refine within_bind within_getCi fun ci => ?_
    refine within_bind (within_STK _) fun path => ?_
    exact within_bind (h.ask _) fun _ => within_pure _
  | TYPECHECK => exact h.typeCheck i
  | MATCHTYPES =>
    refine within_operands fun o1 o2 => ?_
    exact within_when fun _ => within_raiseError _
  | POSTFOREACH => exact h.postForeach i

/-- An instruction that stays in its frame and makes no closure stays within a relation
that allows its registers. -/
theorem Local.execData (h : Local rt w r) {i : Instruction} (hi : ∀ a ∈ i.dests, w a)
    (hop : i.op ≠ .CLOSURE) : Within r (VM.execData rt i) := by
  by_cases hpush : i.op = .PUSHTRAP
  · unfold VM.execData
    rw [hpush]
    exact h.pushTrap i
  · by_cases hpop : i.op = .POPTRAP
    · unfold VM.execData
      rw [hpop]
      exact h.popTraps _
    · exact h.toTrapless.execData hi hop hpush hpop

end

end VM

end GameScript
