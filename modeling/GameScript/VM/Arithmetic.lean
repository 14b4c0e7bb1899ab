import GameScript.Returns

/-!
The instructions that compute: arithmetic, bits, comparisons, compound assignments and
increments. Each of them calls one helper on its operands. All but `_OP_MOD` leave for
`exception_trap` when the helper fails; `_OP_MOD` does not look, and goes on with what
was in its target before.
-/

namespace GameScript.VM

open Effect

variable {Heap : Type} {α : Type} (rt : Runtime)

/-! ### What the instructions do -/

/-- The instructions that compute. -/
def Computes : Opcode → Prop
  | .ADD | .SUB | .MUL | .DIV | .MOD | .BITW | .EQ | .NE | .CMP | .JCMP | .NEG | .BWNOT
  | .COMPARITH | .INC | .PINC | .INCL | .PINCL => True
  | _ => False

/-- `DerefInc` as `COMPARITH` calls it. -/
def compoundAssign (i : Instruction) : VMM rt.Heap Unit := do
  let operands := i.arg1.toUInt32.toNat
  match ArithOp.ofChar (Char.ofNat i.arg3.toNat) with
  | some op =>
    DerefInc rt op i.arg0.toNat (← STK (operands / 65536)) (← STK i.arg2.toNat)
      (← STK (operands % 65536)) false (operands / 65536)
  | none => undefined

/-- `DerefInc` as `INC` and `PINC` call it. -/
def increment (i : Instruction) (isPostfix : Bool) : VMM rt.Heap Unit := do
  DerefInc rt .add i.arg0.toNat (← STK1 i) (← STK i.arg2.toNat) (.integer (sarg3 i)) isPostfix
    (← index1 i)

/-- What is computed of the operands, by the instructions that have no container. -/
def operation (i : Instruction) : VMM rt.Heap Object := do
  match i.op with
  | .ADD => arith rt .add (← STK i.arg2.toNat) (← STK1 i)
  | .SUB => arith rt .sub (← STK i.arg2.toNat) (← STK1 i)
  | .MUL => arith rt .mul (← STK i.arg2.toNat) (← STK1 i)
  | .DIV => arith rt .div (← STK i.arg2.toNat) (← STK1 i)
  | .MOD => ARITH_OP rt .mod (← STK i.arg2.toNat) (← STK1 i)
  | .BITW => BW_OP rt i.arg3.toNat (← STK i.arg2.toNat) (← STK1 i)
  | .EQ => return .ofBool (isEqual rt.fl (← STK i.arg2.toNat) (← condLiteral i))
  | .NE => return .ofBool (!isEqual rt.fl (← STK i.arg2.toNat) (← condLiteral i))
  | .CMP => CMP_OP rt i.arg3.toNat (← STK i.arg2.toNat) (← STK1 i)
  | .JCMP => CMP_OP rt i.arg3.toNat (← STK i.arg2.toNat) (← STK i.arg0.toNat)
  | .NEG => NEG_OP rt (← STK1 i)
  | .BWNOT =>
    match ← STK1 i with
    | .integer n => return .integer (~~~n)
    | o => raiseError ("attempt to perform a bitwise op on a " ++ o.typeName)
  | .INCL => arith rt .add (← STK1 i) (.integer (sarg3 i))
  | .PINCL => ARITH_OP rt .add (← STK1 i) (.integer (sarg3 i))
  | _ => undefined

/-- The helper of an instruction on its operands. -/
def helper (i : Instruction) : VMM rt.Heap Unit :=
  match i.op with
  | .COMPARITH => compoundAssign rt i
  | .INC => increment rt i false
  | .PINC => increment rt i true
  | _ => do let _ ← operation rt i

/-- What an instruction does with the value that was computed. -/
def store (i : Instruction) (v : Object) : VMM rt.Heap Unit := do
  match i.op with
  | .JCMP => when (isFalse rt.fl v) (jump i.arg1.toInt)
  | .INCL => setSTK (← index1 i) v
  | .PINCL =>
    setTarget i (← STK1 i)
    setSTK (← index1 i) v
  | _ => setTarget i v

/-! ### What an instruction yields -/

/-- `DerefInc` succeeded: the sum of the old value was in the target when it was set in the
container, and with the operator behind its operand the old value is there in the end. -/
def Incremented (op : ArithOp) (target : Nat) (self key incr : Object) (isPostfix : Bool)
    (selfidx : Nat) (vm vm' : VM rt.Heap) : Prop :=
  ∃ tmp sum vm₁ vm₂ vm₃, Get rt self key selfidx vm = .ok tmp vm₁ ∧
    ARITH_OP rt op tmp incr vm₁ = .ok sum vm₂ ∧
    Set rt self key sum selfidx (vm₂.setSlot (vm₂.stackbase + target) sum) = .ok () vm₃ ∧
    vm' = if isPostfix then vm₃.setSlot (vm₃.stackbase + target) tmp else vm₃

/-- The instruction succeeded: it computed a value, and `vm'` has it where it belongs. -/
def Performed (i : Instruction) (vm vm' : VM rt.Heap) : Prop :=
  let reg (n : Nat) := vm.stack (vm.stackbase + n)
  match i.op with
  | .COMPARITH => ∃ op, ArithOp.ofChar (Char.ofNat i.arg3.toNat) = some op ∧
      Incremented rt op i.arg0.toNat (reg (i.arg1.toUInt32.toNat / 65536)) (reg i.arg2.toNat)
        (reg (i.arg1.toUInt32.toNat % 65536)) false (i.arg1.toUInt32.toNat / 65536) vm vm'
  | .INC => Incremented rt .add i.arg0.toNat (reg i.arg1.toInt.toNat) (reg i.arg2.toNat)
      (.integer (sarg3 i)) false i.arg1.toInt.toNat vm vm'
  | .PINC => Incremented rt .add i.arg0.toNat (reg i.arg1.toInt.toNat) (reg i.arg2.toNat)
      (.integer (sarg3 i)) true i.arg1.toInt.toNat vm vm'
  | _ => ∃ v vm₁, operation rt i vm = .ok v vm₁ ∧ store rt i v vm₁ = .ok () vm'

/-- The next instruction, if it computes, does not ignore an error: where its helper fails the
step is that of `exception_trap`, and where the step goes on to the next instruction it
succeeded. -/
structure Heeds (vm : VM rt.Heap) : Prop where
  failed : ∀ i vm₁ err vm₂, fetch vm = .ok i vm₁ → Computes i.op →
    helper rt i vm₁ = .error (.raise err) vm₂ → step rt vm = exceptionTrap rt err vm₂
  continued : ∀ i vm₁ control vm₂, fetch vm = .ok i vm₁ → Computes i.op →
    exec rt i vm₁ = .ok control vm₂ → Performed rt i vm₁ vm₂

/-- `%` fails on these operands: the divisor is the integer zero, or one of them is no number
and the metamethod, or the want of one, raises. -/
def ModuloFails (vm : VM rt.Heap) (o1 o2 : Object) : Prop :=
  match o1, o2 with
  | .integer _, .integer n => n = 0
  | o1, o2 => ¬(o1.isNumeric ∧ o2.isNumeric) ∧
      ∃ err, (served rt vm (.arithMetaMethod '%' o1 o2)).result = .error err

/-- The next instruction is a `%` that fails. -/
def AtFailingModulo (vm : VM rt.Heap) : Prop :=
  ∃ i vm₁, fetch vm = .ok i vm₁ ∧ i.op = .MOD ∧ 0 ≤ i.arg1.toInt ∧
    ModuloFails rt vm₁ (vm₁.stack (vm₁.stackbase + i.arg2.toNat))
      (vm₁.stack (vm₁.stackbase + i.arg1.toInt.toNat))

/-! ### Instructions and their helpers -/

variable {rt}

/-- An instruction that computes moves data and goes on. -/
theorem exec_of_computes {i : Instruction} (h : Computes i.op) :
    exec rt i = (do
      execData rt i
      return .next) := by
  unfold exec
  split
  · rename_i hop
    simp [hop, Computes] at h
  · rename_i hop
    simp [hop, Computes] at h
  · rename_i hop
    simp [hop, Computes] at h
  · rename_i hop
    simp [hop, Computes] at h
  · rename_i hop
    simp [hop, Computes] at h
  · rename_i hop
    simp [hop, Computes] at h
  · rfl

/-- The instructions that work on a member of a container. -/
def Derefs (op : Opcode) : Prop := op = .COMPARITH ∨ op = .INC ∨ op = .PINC

theorem helper_of_not_derefs {i : Instruction} (h : ¬ Derefs i.op) :
    helper rt i = (do let _ ← operation rt i) := by
  unfold helper
  split
  · exact absurd (.inl ‹_›) h
  · exact absurd (.inr (.inl ‹_›)) h
  · exact absurd (.inr (.inr ‹_›)) h
  · rfl

theorem performed_of_not_derefs {i : Instruction} {vm vm' : VM rt.Heap} (h : ¬ Derefs i.op) :
    Performed rt i vm vm' ↔
      ∃ v vm₁, operation rt i vm = .ok v vm₁ ∧ store rt i v vm₁ = .ok () vm' := by
  unfold Performed
  split
  · exact absurd (.inl ‹_›) h
  · exact absurd (.inr (.inl ‹_›)) h
  · exact absurd (.inr (.inr ‹_›)) h
  · exact Iff.rfl

/-- An increment of a local variable looks its register up first. -/
theorem increment_local {i : Instruction} (vm : VM rt.Heap) :
    (do setSTK (← index1 i) (← arith rt .add (← STK1 i) (.integer (sarg3 i)))) vm =
      (do
        let v ← arith rt .add (← STK1 i) (.integer (sarg3 i))
        setSTK (← index1 i) v) vm := by
  by_cases harg1 : 0 ≤ i.arg1.toInt
  · have hindex : (index1 i : VMM rt.Heap Nat) = pure i.arg1.toInt.toNat := if_pos harg1
    simp only [hindex, pure_bind]
  · have hindex : (index1 i : VMM rt.Heap Nat) = undefined := if_neg harg1
    rw [bind_apply, hindex]
    unfold STK1
    rw [hindex]
    rfl

/-- An instruction without a container computes its value and stores it, save `%`. -/
theorem execData_eq {i : Instruction} (h : Computes i.op) (hderefs : ¬ Derefs i.op)
    (hmod : i.op ≠ .MOD) (vm : VM rt.Heap) :
    execData rt i vm = (operation rt i >>= store rt i) vm := by
  cases hop : i.op with
  | COMPARITH => exact absurd (.inl hop) hderefs
  | INC => exact absurd (.inr (.inl hop)) hderefs
  | PINC => exact absurd (.inr (.inr hop)) hderefs
  | MOD => exact absurd hop hmod
  | INCL =>
    have hstore : store rt i = fun v => (do setSTK (← index1 i) v) := by
      funext v
      simp only [store, hop]
    simp only [execData, operation, hstore, hop]
    rw [increment_local]
    simp only [bind_assoc]
  | PINCL =>
    have hstore : store rt i = fun v => (do
        setTarget i (← STK1 i)
        setSTK (← index1 i) v) := by
      funext v
      simp only [store, hop]
    simp only [execData, operation, hstore, hop, bind_assoc]
  | JCMP =>
    have hstore : store rt i = fun v => when (isFalse rt.fl v) (jump i.arg1.toInt) := by
      funext v
      simp only [store, hop]
    simp only [execData, operation, hstore, hop, bind_assoc]
  | BWNOT =>
    have hstore : store rt i = setTarget i := by
      funext v
      simp only [store, hop]
    simp only [execData, operation, hstore, hop, bind_assoc]
    rw [bind_apply, bind_apply]
    cases STK1 i vm with
    | ok o vm' => cases o <;> rfl
    | error err vm' => rfl
  | ADD | SUB | MUL | DIV | BITW | EQ | NE | CMP | NEG =>
    have hstore : store rt i = setTarget i := by
      funext v
      simp only [store, hop]
    simp only [execData, operation, hstore, hop, arithOp, bind_assoc, pure_bind]
  | _ =>
    rw [hop] at h
    exact absurd h not_false

theorem execData_derefs {i : Instruction} (h : Derefs i.op) : execData rt i = helper rt i := by
  rcases h with hop | hop | hop <;>
  · unfold execData helper
    rw [hop]
    rfl

theorem STK_apply (n : Nat) (vm : VM Heap) :
    STK n vm = .ok (vm.stack (vm.stackbase + n)) vm := rfl

theorem index1_apply {i : Instruction} (h : 0 ≤ i.arg1.toInt) (vm : VM Heap) :
    index1 i vm = .ok i.arg1.toInt.toNat vm := by
  unfold index1
  rw [if_pos h]
  rfl

theorem STK1_ok {i : Instruction} {vm vm' : VM Heap} {o : Object} (h : STK1 i vm = .ok o vm') :
    0 ≤ i.arg1.toInt ∧ o = vm.stack (vm.stackbase + i.arg1.toInt.toNat) ∧ vm' = vm := by
  by_cases harg1 : 0 ≤ i.arg1.toInt
  · rw [STK1_apply harg1] at h
    cases h
    exact ⟨harg1, rfl, rfl⟩
  · rw [STK1_undefined harg1] at h
    cases h

/-! ### Where `%` fails -/

theorem askNative_apply (q : Request) (vm : VM rt.Heap) :
    rt.askNative q vm =
      match (served rt vm q).result with
      | .ok answer => .ok answer (vm.absorb (served rt vm q))
      | .error err => .error (.raise err) (vm.absorb (served rt vm q)) := rfl

theorem ask1_of_error {q : Request} {vm : VM rt.Heap} {err : Object}
    (h : (served rt vm q).result = .error err) :
    rt.ask1 q vm = .error (.raise err) (vm.absorb (served rt vm q)) := by
  unfold Runtime.ask1 Runtime.ask
  rw [bind_apply, bind_apply, askNative_apply, h]

theorem result_of_ask1_error {q : Request} {vm vm' : VM rt.Heap} {err : Object}
    (h : rt.ask1 q vm = .error (.raise err) vm') : (served rt vm q).result = .error err := by
  unfold Runtime.ask1 Runtime.ask at h
  rw [bind_apply, bind_apply, askNative_apply] at h
  cases hresult : (served rt vm q).result with
  | error e =>
    rw [hresult] at h
    cases h
    rfl
  | ok answer =>
    rw [hresult] at h
    cases answer with
    | values vs =>
      match vs, h with
      | [v], h => cases h
      | [], h => cases h
      | _ :: _ :: _, h => cases h
    | suspended v => cases h
    | tailcall p args => cases h

/-- A remainder of anything but numbers is left to the metamethod. -/
theorem ARITH_OP_mod_fallback {o1 o2 : Object}
    (hnumeric : ¬(o1.isNumeric = true ∧ o2.isNumeric = true)) :
    ARITH_OP rt .mod o1 o2 = rt.ask1 (.arithMetaMethod '%' o1 o2) := by
  have hfallback : arithFallback rt .mod o1 o2 = rt.ask1 (.arithMetaMethod '%' o1 o2) := by
    unfold arithFallback
    rw [if_neg (fun h => by cases h.1)]
    rfl
  unfold ARITH_OP
  split
  · exact absurd ⟨rfl, rfl⟩ hnumeric
  · rw [if_neg hnumeric, hfallback]

/-- `%` raises on the operands on which it fails. -/
theorem ARITH_OP_mod_raises {vm : VM rt.Heap} {o1 o2 : Object} (h : ModuloFails rt vm o1 o2) :
    ∃ err vm', ARITH_OP rt .mod o1 o2 vm = .error (.raise err) vm' := by
  unfold ModuloFails at h
  split at h
  · rename_i i1 i2
    unfold ARITH_OP arithInteger
    simp only [if_pos h]
    exact ⟨_, _, rfl⟩
  · obtain ⟨hnumeric, err, herr⟩ := h
    rw [ARITH_OP_mod_fallback hnumeric]
    exact ⟨err, _, ask1_of_error herr⟩

/-- `%` raises on no other operands. -/
theorem moduloFails_of_raises {vm vm' : VM rt.Heap} {o1 o2 err : Object}
    (h : ARITH_OP rt .mod o1 o2 vm = .error (.raise err) vm') : ModuloFails rt vm o1 o2 := by
  unfold ModuloFails
  split
  · rename_i i1 i2
    by_cases hzero : i2 = 0
    · exact hzero
    · unfold ARITH_OP arithInteger remainder at h
      simp only [if_neg hzero] at h
      split at h
      · cases h
      · split at h
        · cases h
        · cases h
  · rename_i hintegers
    by_cases hnumeric : o1.isNumeric = true ∧ o2.isNumeric = true
    · unfold ARITH_OP at h
      split at h
      · exact absurd rfl (hintegers _ _ rfl)
      · rw [if_pos hnumeric] at h
        cases h
    · rw [ARITH_OP_mod_fallback hnumeric] at h
      exact ⟨hnumeric, err, result_of_ask1_error h⟩

/-! ### Where errors are heeded -/

theorem operation_mod {i : Instruction} (hop : i.op = .MOD) :
    operation rt i = (do ARITH_OP rt .mod (← STK i.arg2.toNat) (← STK1 i)) := by
  unfold operation
  rw [hop]

/-- The operands of `%`, where it fails. -/
theorem moduloFails_of_operation {i : Instruction} {vm vm' : VM rt.Heap} {err : Object}
    (hop : i.op = .MOD) (h : operation rt i vm = .error (.raise err) vm') :
    0 ≤ i.arg1.toInt ∧ ModuloFails rt vm (vm.stack (vm.stackbase + i.arg2.toNat))
      (vm.stack (vm.stackbase + i.arg1.toInt.toNat)) := by
  rw [operation_mod hop, bind_apply, STK_apply] at h
  dsimp only at h
  by_cases harg1 : 0 ≤ i.arg1.toInt
  · rw [bind_apply, STK1_apply harg1] at h
    exact ⟨harg1, moduloFails_of_raises h⟩
  · rw [bind_apply, STK1_undefined harg1] at h
    cases h

theorem operation_of_moduloFails {i : Instruction} {vm : VM rt.Heap} (hop : i.op = .MOD)
    (harg1 : 0 ≤ i.arg1.toInt) (h : ModuloFails rt vm (vm.stack (vm.stackbase + i.arg2.toNat))
      (vm.stack (vm.stackbase + i.arg1.toInt.toNat))) :
    ∃ err vm', operation rt i vm = .error (.raise err) vm' := by
  rw [operation_mod hop, bind_apply, STK_apply]
  dsimp only
  rw [bind_apply, STK1_apply harg1]
  exact ARITH_OP_mod_raises h

/-- What `%` comes to: an error is dropped. -/
theorem execData_mod {i : Instruction} (hop : i.op = .MOD) (vm : VM rt.Heap) :
    execData rt i vm =
      match operation rt i vm with
      | .ok v vm' => setTarget i v vm'
      | .error (.raise _) vm' => .ok () vm'
      | .error .undefined vm' => .error .undefined vm' := by
  have hexec : execData rt i = modOp rt i := by
    unfold execData
    rw [hop]
  rw [hexec, operation_mod hop]
  unfold modOp
  rw [bind_apply]
  unfold ignoreFailure
  cases (do ARITH_OP rt .mod (← STK i.arg2.toNat) (← STK1 i) : VMM rt.Heap Object) vm with
  | ok v vm' => rfl
  | error stop vm' => cases stop <;> rfl

/-- The error of a helper is that of its instruction, save for `%`. -/
theorem exec_error {i : Instruction} (h : Computes i.op) (hmod : i.op ≠ .MOD)
    {vm vm' : VM rt.Heap} {stop : Stop} (herr : helper rt i vm = .error stop vm') :
    exec rt i vm = .error stop vm' := by
  rw [exec_of_computes h, bind_apply]
  by_cases hderefs : Derefs i.op
  · rw [execData_derefs hderefs, herr]
  · rw [execData_eq h hderefs hmod, bind_apply]
    rw [helper_of_not_derefs hderefs] at herr
    rcases bind_eq_error.mp herr with herr | ⟨v, vm₁, -, hpure⟩
    · rw [herr]
    · cases hpure

/-- An increment that succeeds has read the slot, added and written it. -/
theorem derefInc_ok {op : ArithOp} {target selfidx : Nat} {self key incr : Object}
    {isPostfix : Bool} {vm vm' : VM rt.Heap}
    (h : DerefInc rt op target self key incr isPostfix selfidx vm = .ok () vm') :
    Incremented rt op target self key incr isPostfix selfidx vm vm' := by
  unfold DerefInc at h
  obtain ⟨tmp, vm₁, hget, h⟩ := bind_eq_ok.mp h
  obtain ⟨sum, vm₂, hsum, h⟩ := bind_eq_ok.mp h
  obtain ⟨_, vm₃, htarget, h⟩ := bind_eq_ok.mp h
  cases htarget
  rw [bind_apply, STK_apply] at h
  obtain ⟨_, vm₄, hset, h⟩ := bind_eq_ok.mp h
  have hsame : (vm₂.setSlot (vm₂.stackbase + target) sum).stack
      ((vm₂.setSlot (vm₂.stackbase + target) sum).stackbase + target) = sum := if_pos rfl
  rw [hsame] at hset
  refine ⟨tmp, sum, vm₁, vm₂, vm₄, hget, hsum, hset, ?_⟩
  cases isPostfix with
  | true =>
    cases h
    rfl
  | false =>
    cases h
    rfl

/-- An instruction on a member that goes on has done its work. -/
theorem performed_derefs {i : Instruction} (hderefs : Derefs i.op) {vm vm' : VM rt.Heap}
    (h : helper rt i vm = .ok () vm') : Performed rt i vm vm' := by
  have hincrement : ∀ isPostfix, increment rt i isPostfix vm = .ok () vm' →
      Incremented rt .add i.arg0.toNat (vm.stack (vm.stackbase + i.arg1.toInt.toNat))
        (vm.stack (vm.stackbase + i.arg2.toNat)) (.integer (sarg3 i)) isPostfix
        i.arg1.toInt.toNat vm vm' := by
    intro isPostfix h
    unfold increment at h
    obtain ⟨self, vm₁, hself, h⟩ := bind_eq_ok.mp h
    obtain ⟨harg1, rfl, rfl⟩ := STK1_ok hself
    rw [bind_apply, STK_apply] at h
    dsimp only at h
    rw [bind_apply, index1_apply harg1] at h
    exact derefInc_ok h
  rcases hderefs with hop | hop | hop
  · unfold helper at h
    rw [hop] at h
    simp only [compoundAssign] at h
    unfold Performed
    rw [hop]
    dsimp only
    cases hchar : ArithOp.ofChar (Char.ofNat i.arg3.toNat) with
    | some op =>
      rw [hchar] at h
      exact ⟨op, rfl, derefInc_ok h⟩
    | none =>
      rw [hchar] at h
      cases h
  · unfold helper at h
    rw [hop] at h
    unfold Performed
    rw [hop]
    exact hincrement false h
  · unfold helper at h
    rw [hop] at h
    unfold Performed
    rw [hop]
    exact hincrement true h

theorem mod_not_derefs {i : Instruction} (hop : i.op = .MOD) : ¬ Derefs i.op := by
  rw [hop]
  rintro (h | h | h) <;> cases h

/-- A `%` that fails goes on. -/
theorem not_heeds {vm : VM rt.Heap} (h : AtFailingModulo rt vm) : ¬ Heeds rt vm := by
  obtain ⟨i, vm₁, hfetch, hop, harg1, hfails⟩ := h
  intro hheeds
  have hcomputes : Computes i.op := by
    rw [hop]
    trivial
  obtain ⟨err, vm₂, herr⟩ := operation_of_moduloFails hop harg1 hfails
  have hexec : exec rt i vm₁ = .ok .next vm₂ := by
    rw [exec_of_computes hcomputes, bind_apply, execData_mod hop, herr]
    rfl
  have hperformed := hheeds.continued i vm₁ .next vm₂ hfetch hcomputes hexec
  obtain ⟨v, vm₃, hok, -⟩ := (performed_of_not_derefs (mod_not_derefs hop)).mp hperformed
  rw [herr] at hok
  cases hok

/-- The helper of any other instruction that computes is guarded. -/
theorem heeds_failed {vm vm₁ vm₂ : VM rt.Heap} {i : Instruction} {err : Object}
    (h : ¬ AtFailingModulo rt vm) (hfetch : fetch vm = .ok i vm₁) (hcomputes : Computes i.op)
    (herr : helper rt i vm₁ = .error (.raise err) vm₂) :
    step rt vm = exceptionTrap rt err vm₂ := by
  have hmod : i.op ≠ .MOD := by
    intro hop
    rw [helper_of_not_derefs (mod_not_derefs hop)] at herr
    rcases bind_eq_error.mp herr with herr | ⟨v, vm₃, -, hpure⟩
    · obtain ⟨harg1, hfails⟩ := moduloFails_of_operation hop herr
      exact h ⟨i, vm₁, hfetch, hop, harg1, hfails⟩
    · cases hpure
  have hexec : exec rt i vm₁ = .error (.raise err) vm₂ := exec_error hcomputes hmod herr
  unfold step
  rw [bind_apply, hfetch]
  dsimp only
  rw [hexec]

/-- Where no remainder fails, an instruction that goes on has done all it has
to. -/
theorem heeds_continued {vm vm₁ vm₂ : VM rt.Heap} {i : Instruction} {control : Control}
    (h : ¬ AtFailingModulo rt vm) (hfetch : fetch vm = .ok i vm₁) (hcomputes : Computes i.op)
    (hexec : exec rt i vm₁ = .ok control vm₂) : Performed rt i vm₁ vm₂ := by
  rw [exec_of_computes hcomputes] at hexec
  obtain ⟨_, vm₃, hdata, hnext⟩ := bind_eq_ok.mp hexec
  cases hnext
  by_cases hop : i.op = .MOD
  · rw [performed_of_not_derefs (mod_not_derefs hop)]
    rw [execData_mod hop] at hdata
    cases hvalue : operation rt i vm₁ with
    | ok v vm₄ =>
      rw [hvalue] at hdata
      refine ⟨v, vm₄, rfl, ?_⟩
      unfold store
      rw [hop]
      exact hdata
    | error stop vm₄ =>
      rw [hvalue] at hdata
      cases stop with
      | raise err =>
        obtain ⟨harg1, hfails⟩ := moduloFails_of_operation hop hvalue
        exact absurd ⟨i, vm₁, hfetch, hop, harg1, hfails⟩ h
      | undefined => cases hdata
  · by_cases hderefs : Derefs i.op
    · rw [execData_derefs hderefs] at hdata
      exact performed_derefs hderefs hdata
    · rw [performed_of_not_derefs hderefs]
      rw [execData_eq hcomputes hderefs hop] at hdata
      exact bind_eq_ok.mp hdata

/-- Every instruction that computes heeds the errors of its helper, save a `%` that fails. -/
theorem heeds_iff (rt : Runtime) (vm : VM rt.Heap) : Heeds rt vm ↔ ¬ AtFailingModulo rt vm := by
  constructor
  · exact fun hheeds hmodulo => not_heeds hmodulo hheeds
  · intro h
    constructor
    · intro i vm₁ err vm₂ hfetch hcomputes herr
      exact heeds_failed h hfetch hcomputes herr
    · intro i vm₁ control vm₂ hfetch hcomputes hexec
      exact heeds_continued h hfetch hcomputes hexec

/-- About to compute `5 % 0` into a register that holds `7`. -/
def moduloByZero : VM emptyRuntime.Heap :=
  { calling {
      sourcename := .null, name := .null, stacksize := 4, bgenerator := false, varparams := 0
      rettype := none, localvarinfos := [], lineinfos := [], literals := [], parameters := []
      functions := [], outervalues := [], defaultparams := []
      instructions := [{ op := .MOD, arg0 := 3, arg1 := 2, arg2 := 1 }] } with
    stack := fun n => .integer (if n = 1 then 5 else if n = 2 then 0 else 7) }

/-- `5 % 0` raises nothing. -/
theorem not_heeds_moduloByZero : ¬ Heeds emptyRuntime moduloByZero :=
  not_heeds ⟨{ op := .MOD, arg0 := 3, arg1 := 2, arg2 := 1 }, _, fetch_apply rfl rfl rfl rfl,
    rfl, by decide, rfl⟩

end GameScript.VM
