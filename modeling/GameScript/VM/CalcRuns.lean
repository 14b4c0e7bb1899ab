import Mathlib.Logic.Relation
import GameScript.VM.ForeachRuns
import GameScript.VM.Calc

/-!
The machine runs the instructions that only compute as `effect` says: one instruction
(`exec_of_effect`), and a piece of the code of the running function (`steps_of_enter`).
-/

namespace GameScript.Calc

open Forward Effect VM

variable {Heap : Type}

/-! ### The registers of the running frame -/

def registers (vm : VM Heap) : Registers := fun n => vm.stack (vm.stackbase + n)

def withRegisters (vm : VM Heap) (r : Registers) : VM Heap :=
  { vm with stack := fun m => if vm.stackbase ≤ m then r (m - vm.stackbase) else vm.stack m }

@[simp] theorem registers_withRegisters (vm : VM Heap) (r : Registers) :
    registers (withRegisters vm r) = r := by
  funext n
  simp [registers, withRegisters]

theorem withStack_congr (vm : VM Heap) {f g : Nat → Object} (h : f = g) :
    { vm with stack := f } = { vm with stack := g } := by
  rw [h]

theorem withRegisters_registers (vm : VM Heap) : withRegisters vm (registers vm) = vm := by
  apply withStack_congr vm (g := vm.stack)
  funext m
  by_cases hm : vm.stackbase ≤ m <;> simp [registers, hm]

@[simp] theorem withRegisters_withRegisters (vm : VM Heap) (r r' : Registers) :
    withRegisters (withRegisters vm r) r' = withRegisters vm r' := by
  simp only [withRegisters, VM.mk.injEq, and_true]
  funext m
  split <;> rfl

/-- A write to a register of the frame is an update of the registers. -/
theorem setSlot_eq (vm : VM Heap) (n : Nat) (v : Object) :
    vm.setSlot (vm.stackbase + n) v = withRegisters vm (Function.update (registers vm) n v) := by
  apply withStack_congr
  funext m
  simp only [Function.update_apply, registers]
  by_cases hm : vm.stackbase ≤ m
  · have heq : m = vm.stackbase + n ↔ m - vm.stackbase = n := by omega
    simp [hm, heq]
  · rw [if_neg (by omega), if_neg hm]

/-- The machine after an instruction that has changed the registers and skips `k` others. -/
def proceed (vm : VM Heap) (k : Nat) (r : Registers) : VM Heap :=
  { withRegisters vm r with
    callstack := vm.callstack.modifyHead fun ci => { ci with ip := ci.ip + k } }

theorem proceed_zero (vm : VM Heap) (r : Registers) : proceed vm 0 r = withRegisters vm r := by
  cases hcs : vm.callstack <;> simp [proceed, withRegisters, hcs]

/-! ### Operands -/

section

variable {rt : Runtime}

theorem index1_value {i : Instruction} {n : Nat} (h : index1 i = .value n) :
    0 ≤ i.arg1.toInt ∧ n = i.arg1.toInt.toNat := by
  unfold index1 at h
  split at h
  · cases h
    exact ⟨‹_›, rfl⟩
  · cases h

theorem comesTo_STK (vm : VM rt.Heap) (n : Nat) :
    ComesTo vm (STK n) (.value (registers vm n)) := rfl

theorem comesTo_index1 (vm : VM rt.Heap) (i : Instruction) :
    ComesTo vm (VM.index1 i) (index1 i) := by
  unfold index1 VM.index1
  split
  · rfl
  · trivial

theorem comesTo_STK1 (vm : VM rt.Heap) (i : Instruction) :
    ComesTo vm (STK1 i) (operand1 i (registers vm)) :=
  (comesTo_index1 vm i).bind fun n => comesTo_STK vm n

variable {vm : VM rt.Heap} {c : Closure}

theorem comesTo_literal (hc : currentClosure vm = .ok c vm) (n : Nat) :
    ComesTo vm (VM.literal n) (literal c.function.literals n) := by
  unfold literal VM.literal
  cases hn : c.function.literals[n]? with
  | none => trivial
  | some o => simp [ComesTo, bind_apply, hc, hn, pure_apply]

theorem comesTo_literal1 (hc : currentClosure vm = .ok c vm) (i : Instruction) :
    ComesTo vm (do VM.literal (← VM.index1 i)) ((index1 i).bind (literal c.function.literals)) :=
  (comesTo_index1 vm i).bind (comesTo_literal hc)

theorem comesTo_condLiteral (hc : currentClosure vm = .ok c vm) (i : Instruction) :
    ComesTo vm (VM.condLiteral i) (condLiteral c.function.literals i (registers vm)) := by
  unfold condLiteral VM.condLiteral
  by_cases h : i.arg3 ≠ 0
  · rw [if_pos h, if_pos h]
    exact comesTo_literal1 hc i
  · rw [if_neg h, if_neg h]
    exact comesTo_STK1 vm i

theorem bitwiseOf_eq {n : Nat} {op : BitWiseOP} (h : bitwiseOf n = some op) : op.code = n := by
  simpa using List.find?_some h

theorem cmpOf_eq {n : Nat} {op : CmpOP} (h : cmpOf n = some op) : op.code = n := by
  simpa using List.find?_some h

/-- The bitwise operators of the machine are those of the calculation. -/
theorem comesTo_bits (vm : VM rt.Heap) (n : Nat) (o1 o2 : Object) :
    ComesTo vm (BW_OP rt n o1 o2) (bits n o1 o2) := by
  unfold bits
  cases h : bitwiseOf n with
  | none => trivial
  | some op =>
      rw [← bitwiseOf_eq h]
      exact computes_BW_OP op o1 o2 vm

/-- The comparisons of the machine are those of the calculation. -/
theorem comesTo_comparison (vm : VM rt.Heap) (n : Nat) (o1 o2 : Object) :
    ComesTo vm (CMP_OP rt n o1 o2) (comparison rt.fl rt.strcmp n o1 o2) := by
  unfold comparison
  cases h : cmpOf n with
  | none => trivial
  | some op =>
      rw [← cmpOf_eq h]
      exact computes_CMP_OP op o1 o2 vm

end

/-! ### One instruction -/

section

variable {rt : Runtime}

/-- `m` ends in the machine `vm` as the outcome says. -/
def Ends (vm : VM rt.Heap) (m : VMM rt.Heap Unit) (o : Exit Registers String) : Prop :=
  match o with
  | .goes k r => m vm = .ok () (proceed vm k r)
  | .raises msg => m vm = .error (.raise (.string (sc msg))) vm
  | .stuck => True

variable {vm : VM rt.Heap} {c : Closure} {i : Instruction}

@[simp] theorem ends_goes {m : VMM rt.Heap Unit} {k : Nat} {r : Registers} :
    Ends vm m (.goes k r) ↔ m vm = .ok () (proceed vm k r) := Iff.rfl

@[simp] theorem ends_raises {m : VMM rt.Heap Unit} {msg : String} :
    Ends vm m (.raises msg) ↔ m vm = .error (.raise (.string (sc msg))) vm := Iff.rfl

/-- What a computation comes to is stored in the target register. -/
theorem ends_setTarget {m : VMM rt.Heap Object} {v : Result Object} (h : ComesTo vm m v) :
    Ends vm (do setTarget i (← m)) (v.store i.arg0.toNat (registers vm)) := by
  cases v with
  | value v =>
      have hv : m vm = .ok v vm := h
      have hset : setTarget i v vm = .ok () (proceed vm 0 (Function.update (registers vm)
          i.arg0.toNat v)) := by
        rw [proceed_zero, ← setSlot_eq]
        rfl
      simpa [Result.store, Ends, bind_apply, hv] using hset
  | raises msg =>
      have hmsg : m vm = .error (.raise (.string (sc msg))) vm := h
      simp [Ends, Result.store, bind_apply, hmsg]
  | outside => trivial

theorem ends_bind_ok {α : Type} {m : VMM rt.Heap α} {v : α} {f : α → VMM rt.Heap Unit}
    {o : Exit Registers String} (h : m vm = .ok v vm) (hf : Ends vm (f v) o) :
    Ends vm (m >>= f) o := by
  unfold Ends at hf ⊢
  rw [bind_apply, h]
  exact hf

@[simp] theorem ends_STK_bind {n : Nat} {f : Object → VMM rt.Heap Unit}
    {o : Exit Registers String} :
    Ends vm (STK n >>= f) o ↔ Ends vm (f (registers vm n)) o := Iff.rfl

theorem ends_arith {op : ArithOp} (hop : op ≠ .mod) :
    Ends vm (arithOp rt op i) (((operand1 i (registers vm)).bind fun o =>
      arith rt.fl op (registers vm i.arg2.toNat) o).store i.arg0.toNat (registers vm)) := by
  have hcomes := (comesTo_STK1 vm i).bind fun o =>
    @computes_arith rt op (registers vm i.arg2.toNat) o hop vm
  simpa [arithOp] using ends_setTarget (i := i) hcomes

theorem ignoreFailure_value {α : Type} {m : VMM rt.Heap α} {v : α} (h : m vm = .ok v vm) :
    ignoreFailure m vm = .ok (some v) vm := by
  simp [ignoreFailure, h]

/-- A remainder of the calculation never raises: MOD does not look at the
result of its arithmetic. -/
theorem arith_mod_ne_raises (fl : FloatOps) (o1 o2 : Object) (msg : String) :
    arith fl .mod o1 o2 ≠ .raises msg := by
  unfold arith
  split
  · simp only [divided]
    split
    · simp
    · split <;> simp
  · split <;> simp

/-- `_OP_MOD` does not look whether it fails, and where it fails nothing is said. -/
theorem ends_mod :
    Ends vm (modOp rt i) (((operand1 i (registers vm)).bind fun o =>
      arith rt.fl .mod (registers vm i.arg2.toNat) o).store i.arg0.toNat (registers vm)) := by
  have hcomes := (comesTo_STK1 vm i).bind fun o =>
    @computes_ARITH_OP_mod rt (registers vm i.arg2.toNat) o vm
  cases hv : (operand1 i (registers vm)).bind fun o =>
      arith rt.fl .mod (registers vm i.arg2.toNat) o with
  | value v =>
      rw [hv] at hcomes
      have hset := ends_setTarget (i := i) (@computes_pure rt _ v vm)
      have hresult : (do ARITH_OP rt .mod (← STK i.arg2.toNat) (← STK1 i)) vm = .ok v vm := hcomes
      have hmod : modOp rt i vm = setTarget i v vm := by
        unfold modOp
        rw [bind_apply, ignoreFailure_value hresult]
      unfold Ends at hset ⊢
      rw [hmod]
      exact hset
  | raises msg =>
      cases ho : operand1 i (registers vm) with
      | value o =>
          rw [ho] at hv
          exact absurd hv (arith_mod_ne_raises _ _ _ _)
      | raises msg' => exact absurd ho (operand1_ne_raises _ _ _)
      | outside => simp [ho] at hv
  | outside => trivial

/-- An instruction that puts a value into its target. -/
theorem ends_target (hc : currentClosure vm = .ok c vm) :
    Ends vm (execData rt i) (((target rt.fl rt.strcmp c.function.literals i (registers vm))).store
      i.arg0.toNat (registers vm)) := by
  have hop1 := comesTo_STK1 vm i
  have hcond := comesTo_condLiteral hc i
  have hliteral := comesTo_literal1 hc i
  unfold target execData
  cases hop : i.op
  case LOAD => simpa using ends_setTarget (i := i) hliteral
  case LOADINT => exact ends_setTarget (computes_pure _ vm)
  case LOADFLOAT => exact ends_setTarget (computes_pure _ vm)
  case LOADBOOL => exact ends_setTarget (computes_pure _ vm)
  case MOVE => exact ends_setTarget hop1
  case EQ =>
    simpa using ends_setTarget (i := i) (hcond.bind fun o =>
      @computes_pure rt _ (Object.ofBool (isEqual rt.fl (registers vm i.arg2.toNat) o)) vm)
  case NE =>
    simpa using ends_setTarget (i := i) (hcond.bind fun o =>
      @computes_pure rt _ (Object.ofBool (!isEqual rt.fl (registers vm i.arg2.toNat) o)) vm)
  case ADD => exact ends_arith (by decide)
  case SUB => exact ends_arith (by decide)
  case MUL => exact ends_arith (by decide)
  case DIV => exact ends_arith (by decide)
  case MOD => exact ends_mod
  case BITW =>
    simpa using ends_setTarget (i := i) (hop1.bind fun o =>
      comesTo_bits vm i.arg3.toNat (registers vm i.arg2.toNat) o)
  case CMP =>
    simpa using ends_setTarget (i := i) (hop1.bind fun o =>
      comesTo_comparison vm i.arg3.toNat (registers vm i.arg2.toNat) o)
  case NEG => simpa using ends_setTarget (i := i) (hop1.bind fun o => computes_NEG_OP o vm)
  case NOT =>
    simpa using ends_setTarget (i := i) (hop1.bind fun o =>
      @computes_pure rt _ (Object.ofBool (isFalse rt.fl o)) vm)
  case BWNOT =>
    cases ho : operand1 i (registers vm) with
    | value o =>
        rw [ho] at hop1
        apply ends_bind_ok hop1
        cases o with
        | integer n => exact ends_setTarget (computes_pure _ vm)
        | _ => rfl
    | raises msg => exact absurd ho (operand1_ne_raises _ _ _)
    | outside => trivial
  all_goals exact True.intro

/-! #### Jumps -/

@[simp] theorem proceed_withRegisters (vm : VM rt.Heap) (k : Nat) (r r' : Registers) :
    proceed (withRegisters vm r) k r' = proceed vm k r' := by
  unfold proceed
  rw [withRegisters_withRegisters]
  rfl

theorem runs_withRegisters (h : VM.Runs vm c) (r : Registers) : VM.Runs (withRegisters vm r) c := h

theorem jump_withRegisters (hruns : VM.Runs vm c) {d : Int} (hd : 0 ≤ d) (r : Registers) :
    jump d (withRegisters vm r) = .ok () (proceed vm d.toNat r) := by
  obtain ⟨ci, callstack, p, hstack, -⟩ := hruns
  have hsum : (ci.ip : Int) + d = (ci.ip + d.toNat : Nat) := by omega
  rw [@jump_apply _ (Calc.withRegisters vm r) _ _ hstack _ _ hsum]
  simp [proceed, Calc.withRegisters, hstack]

/-- A jump that is taken skips the instructions that the calculation skips. -/
theorem ends_skip (hruns : VM.Runs vm c) (r : Registers) :
    match skip i r with
    | .goes k r' => jump i.arg1.toInt (withRegisters vm r) = .ok () (proceed vm k r')
    | .raises _ => False
    | .stuck => True := by
  unfold skip
  cases h : index1 i with
  | value n =>
      obtain ⟨hpos, rfl⟩ := index1_value h
      exact jump_withRegisters hruns hpos r
  | raises msg => trivial
  | outside => trivial

theorem ends_jump (hruns : VM.Runs vm c) :
    Ends vm (jump i.arg1.toInt) (skip i (registers vm)) := by
  have hskip := ends_skip (i := i) hruns (registers vm)
  rw [withRegisters_registers] at hskip
  unfold Ends
  split at hskip <;> simp_all

/-- A jump taken where a condition holds. -/
theorem ends_jump_when (hruns : VM.Runs vm c) {p : Prop} [Decidable p] :
    Ends vm (when p (jump i.arg1.toInt))
      (if p then skip i (registers vm) else .goes 0 (registers vm)) := by
  by_cases hp : p
  · simpa [when, hp] using ends_jump hruns
  · simp [when, hp, Ends, proceed_zero, withRegisters_registers, pure_apply]

theorem setTarget_apply (vm : VM rt.Heap) (v : Object) :
    setTarget i v vm =
      .ok () (withRegisters vm (Function.update (registers vm) i.arg0.toNat v)) := by
  rw [← setSlot_eq]
  rfl

theorem setSTK_apply (vm : VM rt.Heap) (n : Nat) (v : Object) :
    setSTK n v vm = .ok () (withRegisters vm (Function.update (registers vm) n v)) := by
  rw [← setSlot_eq]
  rfl

/-- AND and OR leave the left operand in the target and jump, or go on with
the right one. -/
theorem ends_decides (hruns : VM.Runs vm c) (falsy : Bool) :
    Ends vm (shortCircuit rt i falsy) (decides rt.fl falsy i (registers vm)) := by
  have hskip := ends_skip (i := i) hruns
    (Function.update (registers vm) i.arg0.toNat (registers vm i.arg2.toNat))
  unfold shortCircuit decides
  rw [ends_STK_bind]
  by_cases hfalse : isFalse rt.fl (registers vm i.arg2.toNat) = falsy
  · rw [when, if_pos hfalse, if_pos hfalse]
    unfold Ends
    rw [bind_apply, setTarget_apply]
    dsimp only
    split at hskip <;> simp_all
  · simp [when, hfalse, Ends, proceed_zero, withRegisters_registers, pure_apply]

/-- The nulls that `_OP_LOADNULLS` writes, one after the other. -/
theorem loadNulls_apply (vm : VM rt.Heap) (a n : Nat) :
    (List.range n).forM (fun k => setSTK (a + k) .null) vm = .ok ()
      (withRegisters vm fun m => if a ≤ m ∧ m < a + n then .null else registers vm m) := by
  induction n with
  | zero =>
      have hregisters : (fun m => if a ≤ m ∧ m < a + 0 then .null else registers vm m) =
          registers vm := by
        funext m
        rw [if_neg (by omega)]
      rw [hregisters, withRegisters_registers]
      rfl
  | succ n ih =>
      rw [List.range_succ, List.forM_eq_forM, List.forM_append, bind_apply, ← List.forM_eq_forM, ih]
      simp only [List.forM_eq_forM, List.forM_cons, List.forM_nil, bind_apply, setSTK_apply,
        pure_apply, withRegisters_withRegisters, registers_withRegisters]
      congr 2
      funext m
      grind [Function.update_apply]

theorem ends_dload (hruns : VM.Runs vm c) :
    Ends vm (do setTarget i (← VM.literal (← VM.index1 i))
                setSTK i.arg2.toNat (← VM.literal i.arg3.toNat))
      (match (index1 i).bind (literal c.function.literals),
          literal c.function.literals i.arg3.toNat with
        | .value o, .value o' => .goes 0
          (Function.update (Function.update (registers vm) i.arg0.toNat o) i.arg2.toNat o')
        | _, _ => .stuck) := by
  have hliteral := comesTo_literal1 hruns.currentClosure i
  cases ho : (index1 i).bind (literal c.function.literals) with
  | value o =>
      have hliteral3 := comesTo_literal (runs_withRegisters hruns
        (Function.update (registers vm) i.arg0.toNat o)).currentClosure i.arg3.toNat
      cases ho' : literal c.function.literals i.arg3.toNat with
      | value o' =>
          rw [ho, comesTo_value, bind_apply] at hliteral
          rw [ho', comesTo_value] at hliteral3
          rw [ends_goes, bind_apply]
          cases hindex : VM.index1 i vm with
          | ok n vm' =>
              simp only [hindex] at hliteral
              simp only [bind_apply, hliteral, setTarget_apply, hliteral3, setSTK_apply,
                proceed_zero, registers_withRegisters, withRegisters_withRegisters]
          | error e vm' => simp [hindex] at hliteral
      | raises msg => trivial
      | outside => trivial
  | raises msg => trivial
  | outside => trivial

theorem ends_dmove :
    Ends vm (do setTarget i (← STK1 i); setSTK i.arg2.toNat (← STK i.arg3.toNat))
      (match operand1 i (registers vm) with
        | .value o =>
          let r := Function.update (registers vm) i.arg0.toNat o
          .goes 0 (Function.update r i.arg2.toNat (r i.arg3.toNat))
        | _ => .stuck) := by
  have hop1 := comesTo_STK1 vm i
  cases ho : operand1 i (registers vm) with
  | value o =>
      rw [ho, comesTo_value] at hop1
      have hSTK (vm : VM rt.Heap) (n : Nat) : STK n vm = .ok (registers vm n) vm := rfl
      simp only [Ends, bind_apply, hop1, setTarget_apply, hSTK, setSTK_apply, proceed_zero,
        registers_withRegisters, withRegisters_withRegisters]
  | raises msg => trivial
  | outside => trivial

theorem ends_loadnulls :
    Ends vm ((List.range i.arg1.toInt.toNat).forM fun n => setSTK (i.arg0.toNat + n) .null)
      (if 0 < i.arg1.toInt then
        .goes 0 fun n =>
          if i.arg0.toNat ≤ n ∧ n < i.arg0.toNat + i.arg1.toInt.toNat then .null
          else registers vm n
      else .stuck) := by
  split
  · simpa only [Ends, proceed_zero] using loadNulls_apply vm i.arg0.toNat i.arg1.toInt.toNat
  · trivial

/-- JCMP jumps over as many instructions as the comparison that fails says. -/
theorem ends_jcmp (hruns : VM.Runs vm c) :
    Ends vm (do
      let temp_reg ← CMP_OP rt i.arg3.toNat (← STK i.arg2.toNat) (← STK i.arg0.toNat)
      when (isFalse rt.fl temp_reg) (jump i.arg1.toInt))
      (match comparison rt.fl rt.strcmp i.arg3.toNat (registers vm i.arg2.toNat)
          (registers vm i.arg0.toNat) with
        | .value o => if isFalse rt.fl o then skip i (registers vm) else .goes 0 (registers vm)
        | .raises msg => .raises msg
        | .outside => .stuck) := by
  have hcomparison := comesTo_comparison vm i.arg3.toNat (registers vm i.arg2.toNat)
    (registers vm i.arg0.toNat)
  rw [ends_STK_bind, ends_STK_bind]
  cases ho : comparison rt.fl rt.strcmp i.arg3.toNat (registers vm i.arg2.toNat)
      (registers vm i.arg0.toNat) with
  | value o =>
      rw [ho, comesTo_value] at hcomparison
      have hjump := ends_jump_when (i := i) hruns (p := isFalse rt.fl o)
      unfold Ends at hjump ⊢
      rw [bind_apply, hcomparison]
      exact hjump
  | raises msg =>
      rw [ho, comesTo_raises] at hcomparison
      simp only [ends_raises, bind_apply, hcomparison]
  | outside => trivial

/-- What the machine does on an instruction that only computes. -/
theorem ends_effect (hruns : VM.Runs vm c) :
    Ends vm (execData rt i) (effect rt.fl rt.strcmp c.function.literals i (registers vm)) := by
  by_cases hop : i.op ∈ [Opcode.LINE, .DLOAD, .DMOVE, .LOADNULLS, .AND, .OR, .JMP, .JZ, .JCMP]
  · simp only [List.mem_cons, List.not_mem_nil, or_false] at hop
    rcases hop with hop | hop | hop | hop | hop | hop | hop | hop | hop <;>
      simp only [effect, execData, hop]
    · simp only [Ends, proceed_zero, withRegisters_registers, pure_apply]
    · exact ends_dload hruns
    · exact ends_dmove
    · exact ends_loadnulls
    · exact ends_decides hruns true
    · exact ends_decides hruns false
    · exact ends_jump hruns
    · exact ends_jump_when hruns
    · exact ends_jcmp hruns
  · rw [effect_of_target fun o ho heq => hop (heq ▸ ho)]
    exact ends_target hruns.currentClosure

/-- Whatever leaves the frame has no effect on registers alone. -/
theorem effect_control {fl : FloatOps} {strcmp : List UInt8 → List UInt8 → Int}
    {literals : List Object} {r : Registers}
    (h : effect fl strcmp literals i r ≠ .stuck) :
    i.op ∉ [.CALL, .TAILCALL, .RETURN, .YIELD, .RESUME, .FOREACH] := by
  intro hop
  simp only [List.mem_cons, List.not_mem_nil, or_false] at hop
  rcases hop with hop | hop | hop | hop | hop | hop <;>
    simp [effect, target, hop, Result.store] at h

theorem exec_of_data (h : i.op ∉ [.CALL, .TAILCALL, .RETURN, .YIELD, .RESUME, .FOREACH]) :
    exec rt i = (do execData rt i; return .next) := by
  unfold exec
  split <;> simp_all

/-- `exec` on an instruction that only computes. -/
theorem exec_of_effect (hruns : VM.Runs vm c)
    (h : effect rt.fl rt.strcmp c.function.literals i (registers vm) ≠ .stuck) :
    match effect rt.fl rt.strcmp c.function.literals i (registers vm) with
    | .goes k r => exec rt i vm = .ok .next (proceed vm k r)
    | .raises msg => exec rt i vm = .error (.raise (.string (sc msg))) vm
    | .stuck => False := by
  have hends := ends_effect (i := i) hruns
  rw [exec_of_data (effect_control h)]
  cases heffect : effect rt.fl rt.strcmp c.function.literals i (registers vm) with
  | goes k r =>
      rw [heffect, ends_goes] at hends
      simp only [bind_apply, hends, pure_apply]
  | raises msg =>
      rw [heffect, ends_raises] at hends
      simp only [bind_apply, hends]
  | stuck => exact h heffect

/-! ### A piece of code -/

/-- The running frame with its `ip` at `ip`. -/
def atIp (vm : VM rt.Heap) (ip : Nat) : VM rt.Heap :=
  { vm with callstack := vm.callstack.modifyHead fun ci => { ci with ip := ip } }

/-- The code of the running function holds `code` from `ip` on. -/
def Holds (c : Closure) (ip : Nat) (code : List Instruction) : Prop :=
  ∃ tail, c.function.instructions.drop ip = code ++ tail

/-- The first instruction of the code is the one at `ip`, the others are
behind it. -/
theorem Holds.cons {ip : Nat} {i : Instruction} {code : List Instruction}
    (h : Holds c ip (i :: code)) :
    c.function.instructions[ip]? = some i ∧ Holds c (ip + 1) code := by
  obtain ⟨tail, htail⟩ := h
  constructor
  · rw [← List.head?_drop, htail]
    rfl
  · exact ⟨tail, by rw [← List.drop_drop, htail]; rfl⟩

theorem runs_atIp (h : VM.Runs vm c) (ip : Nat) (r : Registers) :
    VM.Runs (atIp (withRegisters vm r) ip) c := by
  obtain ⟨ci, callstack, p, hstack, hclosure, hp⟩ := h
  exact ⟨{ ci with ip := ip }, callstack, p, by simp [atIp, withRegisters, hstack], hclosure, hp⟩

/-- The machine while it runs a piece of code of the running function. -/
def during (vm : VM rt.Heap) (ip : Nat) (r : Registers) : VM rt.Heap := atIp (withRegisters vm r) ip

/-- The instruction at `ip` is fetched, and the pointer goes to the next one.
-/
theorem fetch_during (hruns : VM.Runs vm c) {ip : Nat} (r : Registers)
    (hi : c.function.instructions[ip]? = some i) :
    fetch (during vm ip r) = .ok i (during vm (ip + 1) r) := by
  obtain ⟨ci, callstack, p, hstack, hclosure, hp⟩ := hruns
  have hduring : (during vm ip r).callstack = { ci with ip := ip } :: callstack := by
    simp [during, atIp, withRegisters, hstack]
  rw [fetch_apply hduring hclosure hp hi]
  simp [during, atIp, withRegisters, hstack]

theorem proceed_during (ip k : Nat) (r r' : Registers) :
    proceed (during vm ip r) k r' = during vm (ip + k) r' := by
  cases hstack : vm.callstack <;>
    · simp [proceed, during, atIp, withRegisters, hstack]
      funext m
      split <;> rfl

theorem registers_during (ip : Nat) (r : Registers) : registers (during vm ip r) = r := by
  funext n
  simp [registers, during, atIp, withRegisters]

/-- One step of the machine on an instruction that only computes. -/
theorem step_of_effect (hruns : VM.Runs vm c) {ip : Nat} {r : Registers}
    (hi : c.function.instructions[ip]? = some i) :
    match effect rt.fl rt.strcmp c.function.literals i r with
    | .goes k r' => step rt (during vm ip r) = .next (during vm (ip + 1 + k) r')
    | .raises msg => step rt (during vm ip r) =
        exceptionTrap rt (.string (sc msg)) (during vm (ip + 1) r)
    | .stuck => True := by
  have hfetch := fetch_during hruns r hi
  have hexec := exec_of_effect (i := i) (runs_atIp hruns (ip + 1) r)
  rw [← during, registers_during] at hexec
  cases heffect : effect rt.fl rt.strcmp c.function.literals i r with
  | goes k r' =>
      simp only [heffect, ne_eq, reduceCtorEq, not_false_eq_true, true_imp_iff,
        proceed_during] at hexec
      exact step_exec hfetch hexec
  | raises msg =>
      simp only [heffect, ne_eq, reduceCtorEq, not_false_eq_true, true_imp_iff] at hexec
      dsimp only
      unfold step
      rw [bind_apply, hfetch]
      dsimp only
      rw [hexec]
  | stuck => trivial

/-- A step of the machine that goes on. -/
def Steps (rt : Runtime) : VM rt.Heap → VM rt.Heap → Prop :=
  Relation.ReflTransGen fun vm vm' => step rt vm = .next vm'

/-- A piece of the code of the running function that goes to its end, or to behind it. -/
theorem steps_of_goes (hruns : VM.Runs vm c) {code : List Instruction} {ip j k : Nat}
    {r r' : Registers} (hcode : Holds c ip code)
    (h : enter (effect rt.fl rt.strcmp c.function.literals) j code r = .goes k r') :
    Steps rt (during vm (ip + j) r) (during vm (ip + code.length + k) r') := by
  induction code generalizing ip j r with
  | nil =>
      simp only [enter_nil, Exit.goes.injEq] at h
      obtain ⟨rfl, rfl⟩ := h
      exact .refl
  | cons i code ih =>
      obtain ⟨hi, hcode⟩ := hcode.cons
      have hlength : ip + (i :: code).length + k = ip + 1 + code.length + k := by
        simp only [List.length_cons]
        omega
      rw [hlength]
      cases j with
      | succ j =>
          have hsteps := ih hcode h
          rwa [Nat.add_right_comm ip 1 j] at hsteps
      | zero =>
          rw [enter_zero_cons] at h
          have hstep := step_of_effect hruns (r := r) hi
          cases heffect : effect rt.fl rt.strcmp c.function.literals i r with
          | goes m r₁ =>
              simp only [heffect, Exit.bind_goes] at h hstep
              exact .head hstep (ih hcode h)
          | raises msg => simp [heffect] at h
          | stuck => simp [heffect, Exit.bind] at h

/-- A piece of the code of the running function that raises an error. -/
theorem steps_of_raises (hruns : VM.Runs vm c) {code : List Instruction} {ip j : Nat}
    {r : Registers} {msg : String} (hcode : Holds c ip code)
    (h : enter (effect rt.fl rt.strcmp c.function.literals) j code r = .raises msg) :
    ∃ ip' r', Steps rt (during vm (ip + j) r) (during vm ip' r') ∧
      step rt (during vm ip' r') =
        exceptionTrap rt (.string (sc msg)) (during vm (ip' + 1) r') := by
  induction code generalizing ip j r with
  | nil => simp at h
  | cons i code ih =>
      obtain ⟨hi, hcode⟩ := hcode.cons
      cases j with
      | succ j =>
          have hsteps := ih hcode h
          rwa [Nat.add_right_comm ip 1 j] at hsteps
      | zero =>
          rw [enter_zero_cons] at h
          have hstep := step_of_effect hruns (r := r) hi
          cases heffect : effect rt.fl rt.strcmp c.function.literals i r with
          | goes m r₁ =>
              simp only [heffect, Exit.bind_goes] at h hstep
              obtain ⟨ip', r', hsteps, hraise⟩ := ih hcode h
              exact ⟨ip', r', .head hstep hsteps, hraise⟩
          | raises msg' =>
              simp only [heffect, Exit.bind_raises, Exit.raises.injEq] at h hstep
              subst h
              exact ⟨ip, r, .refl, hstep⟩
          | stuck => simp [heffect, Exit.bind] at h

end

end GameScript.Calc
