import GameScript.VM.Arithmetic
import GameScript.Compiler.Expression

/-!
The arithmetic of integers, which is there twice: in the instructions and in
`ARITH_OP`. A binary operator and the compound assignment of a local variable are
compiled to the instruction, the compound assignment of a member goes through
`DerefInc` and `ARITH_OP`.

The two differ in their guards. `ARITH_OP` takes the least 32-bit integer for the
least integer, the instruction for `/` looks for no overflow at all, and `_OP_MOD`
drops the error of `ARITH_OP`.
-/

namespace GameScript

namespace VM

open Effect Compiler

variable {Heap : Type}

/-! ### Three ways to the same operator -/

/-- The token of the compound assignment. -/
def ArithOp.assign : ArithOp → Token
  | .add => .TK_PLUSEQ
  | .sub => .TK_MINUSEQ
  | .mul => .TK_MULEQ
  | .div => .TK_DIVEQ
  | .mod => .TK_MODEQ

/-- `a op b` into the register `t`, as `BIN_EXP` has it. -/
def binaryOp (op : ArithOp) (t a b : Nat) : Instruction :=
  .make (ChooseArithOpByToken (.chr op.char)) t b a 0

/-- The local `a` assigned `a op b`, as `EmitCompoundArith` has it. -/
def localAssign (op : ArithOp) (a b : Nat) : Instruction :=
  .make (ChooseArithOpByToken op.assign) a b a 0

/-- The member `key` of `src` assigned with the operand `val`, as `EmitCompoundArith` has it. -/
def memberAssign (op : ArithOp) (t src key val : Nat) : Instruction :=
  .make .COMPARITH t ((src <<< 16 ||| val : Nat) : Int) key (ChooseCompArithCharByToken op.assign)

/-- The instruction leaves the integer in the register `t`; or, where there is none, raises. -/
def Computed (result : EStateM.Result Stop (VM Heap) Control) (t : Nat) :
    Option GSInteger → Prop
  | some n => ∃ vm, result = .ok .next vm ∧ vm.stack (vm.stackbase + t) = .integer n
  | none => ∃ err vm, result = .error (.raise err) vm

/-- The operator gives `r` through its instruction. -/
def ByInstruction (op : ArithOp) (i1 i2 : GSInteger) (r : Option GSInteger) : Prop :=
  ∀ (rt : Runtime) (vm : VM rt.Heap) (t a b : Nat), t < 256 → a < 256 → b < 256 →
    vm.stack (vm.stackbase + a) = .integer i1 → vm.stack (vm.stackbase + b) = .integer i2 →
    Computed (exec rt (binaryOp op t a b) vm) t r

/-- The compound assignment of a local gives `r`. -/
def ByLocal (op : ArithOp) (i1 i2 : GSInteger) (r : Option GSInteger) : Prop :=
  ∀ (rt : Runtime) (vm : VM rt.Heap) (a b : Nat), a < 256 → b < 256 →
    vm.stack (vm.stackbase + a) = .integer i1 → vm.stack (vm.stackbase + b) = .integer i2 →
    Computed (exec rt (localAssign op a b) vm) a r

/-- The compound assignment of a member that holds `i1` sets it to `r`. -/
def ByMember (op : ArithOp) (i1 i2 : GSInteger) (r : Option GSInteger) : Prop :=
  ∀ (rt : Runtime) (vm vm₁ : VM rt.Heap) (t src key val : Nat),
    t < 256 → src < 256 → key < 256 → val < 256 →
    let reg (n : Nat) := vm.stack (vm.stackbase + n)
    reg val = .integer i2 → Get rt (reg src) (reg key) src vm = .ok (.integer i1) vm₁ →
    match r with
    | some n => exec rt (memberAssign op t src key val) vm = (do
        setSTK t (.integer n)
        Set rt (reg src) (reg key) (.integer n) src
        return Control.next) vm₁
    | none => ∃ err vm', exec rt (memberAssign op t src key val) vm = .error (.raise err) vm'

/-- On all three ways the operator gives the same integer, or raises. -/
def WaysAgree (op : ArithOp) (i1 i2 : GSInteger) : Prop :=
  ∃ r, ByInstruction op i1 i2 r ∧ ByLocal op i1 i2 r ∧ ByMember op i1 i2 r

/-- The operands on which no guard goes wrong. -/
def WellGuarded (op : ArithOp) (i1 i2 : GSInteger) : Prop :=
  match op with
  | .div => ¬(i2 = -1 ∧ (i1.toInt = INT_MIN ∨ i1 = Int64.minValue))
  | .mod => i2 ≠ 0 ∧ ¬(i2 = -1 ∧ i1 = Int64.minValue)
  | _ => True

/-! ### The integer an operator gives -/

/-- What the operator gives, where it is well guarded. -/
def ArithOp.integer (op : ArithOp) (i1 i2 : GSInteger) : Option GSInteger :=
  match op with
  | .add => some (i1 + i2)
  | .sub => some (i1 - i2)
  | .mul => some (i1 * i2)
  | .div => if i2 = 0 then none else some (i1 / i2)
  | .mod => some (i1 % i2)

/-- A computation that is nothing but an integer or an error. -/
def Gives (m : VMM Heap Object) : Option GSInteger → Prop
  | some n => m = pure (.integer n)
  | none => ∃ msg, m = raiseError msg

variable {rt : Runtime}

/-- Off the two guarded cases a division is the quotient. -/
theorem divide_of_defined {i1 i2 : GSInteger} (hzero : i2 ≠ 0)
    (hoverflow : ¬(i1 = Int64.minValue ∧ i2 = -1)) :
    divide rt i1 i2 = pure (.integer (i1 / i2)) := by
  unfold divide
  rw [if_neg]
  rintro (h | h)
  · exact hzero h
  · exact hoverflow h

/-- Off the two guarded cases a remainder is the remainder. -/
theorem remainder_of_defined {i1 i2 : GSInteger} (hzero : i2 ≠ 0)
    (hoverflow : ¬(i1 = Int64.minValue ∧ i2 = -1)) :
    remainder rt i1 i2 = pure (.integer (i1 % i2)) := by
  unfold remainder
  rw [if_neg]
  rintro (h | h)
  · exact hzero h
  · exact hoverflow h

/-- What `ARITH_OP` answers for the least 32-bit integer modulo `-1` is right. -/
theorem mod_neg_one {i1 : GSInteger} (h : i1.toInt = INT_MIN) : i1 % -1 = 0 := by
  have hi1 : i1 = -2147483648 := Int64.toInt_inj.mp h
  rw [hi1]
  decide

/-- Where no guard goes wrong, arithmetic gives the integer of the operator,
or its error. -/
theorem arithInteger_gives {op : ArithOp} {i1 i2 : GSInteger} (h : WellGuarded op i1 i2) :
    Gives (arithInteger rt op i1 i2) (op.integer i1 i2) := by
  cases op with
  | add => rfl
  | sub => rfl
  | mul => rfl
  | div =>
    unfold arithInteger ArithOp.integer
    by_cases hzero : i2 = 0
    · simp only [if_pos hzero]
      exact ⟨_, rfl⟩
    · have hleast : ¬(i2 = -1 ∧ i1.toInt = INT_MIN) := fun ⟨h2, h1⟩ => h ⟨h2, .inl h1⟩
      simp only [if_neg hzero, if_neg hleast]
      exact divide_of_defined hzero fun ⟨h1, h2⟩ => h ⟨h2, .inr h1⟩
  | mod =>
    obtain ⟨hzero, hoverflow⟩ := h
    unfold arithInteger ArithOp.integer
    simp only [if_neg hzero]
    by_cases hleast : i2 = -1 ∧ i1.toInt = INT_MIN
    · rw [if_pos hleast, hleast.1, mod_neg_one hleast.2]
      rfl
    · rw [if_neg hleast]
      exact remainder_of_defined hzero fun ⟨h1, h2⟩ => hoverflow ⟨h2, h1⟩

/-- What the instructions compute of two integers. -/
theorem arith_gives {op : ArithOp} {i1 i2 : GSInteger} (h : WellGuarded op i1 i2) :
    Gives (arith rt op (.integer i1) (.integer i2)) (op.integer i1 i2) := by
  cases op with
  | div =>
    unfold arith ArithOp.integer
    by_cases hzero : i2 = 0
    · simp only [if_pos hzero]
      exact ⟨_, rfl⟩
    · simp only [if_neg hzero]
      exact divide_of_defined hzero fun ⟨h1, h2⟩ => h ⟨h2, .inr h1⟩
  | add => exact arithInteger_gives h
  | sub => exact arithInteger_gives h
  | mul => exact arithInteger_gives h
  | mod => exact arithInteger_gives h

/-! ### Operands of instructions -/

theorem int32_toNat {n : Nat} (h : n < 2 ^ 31) : (int32 (n : Int)).toUInt32.toNat = n := by
  change (BitVec.ofInt 32 (n : Int)).toNat = n
  rw [BitVec.toNat_ofInt]
  omega

/-- The two operands that share an argument of `COMPARITH`. -/
theorem packed_lt {src val : Nat} (hsrc : src < 256) (hval : val < 256) :
    src <<< 16 ||| val < 2 ^ 31 := by
  apply Nat.or_lt_two_pow
  · rw [Nat.shiftLeft_eq]
    omega
  · omega

theorem packed_eq {src val : Nat} (hval : val < 256) : src <<< 16 ||| val = src * 65536 + val := by
  rw [← Nat.shiftLeft_add_eq_or_of_lt (by omega : val < 2 ^ 16), Nat.shiftLeft_eq]

theorem packed_src {src val : Nat} (hval : val < 256) : (src <<< 16 ||| val) / 65536 = src := by
  rw [packed_eq hval]
  omega

theorem packed_val {src val : Nat} (hval : val < 256) : (src <<< 16 ||| val) % 65536 = val := by
  rw [packed_eq hval]
  omega

/-! ### The instructions on integers -/

/-- The operands of an instruction. -/
structure Operands (i : Instruction) (i1 i2 : GSInteger) (vm : VM Heap) : Prop where
  left : vm.stack (vm.stackbase + i.arg2.toNat) = .integer i1
  arg1 : 0 ≤ i.arg1.toInt
  right : vm.stack (vm.stackbase + i.arg1.toInt.toNat) = .integer i2

/-- Reads the operands of an instruction. -/
theorem Operands.read_apply {i : Instruction} {i1 i2 : GSInteger} {vm : VM Heap} {α : Type}
    (h : Operands i i1 i2 vm) (f : Object → Object → VMM Heap α) :
    (do f (← STK i.arg2.toNat) (← STK1 i)) vm = f (.integer i1) (.integer i2) vm := by
  rw [bind_apply, STK_apply]
  dsimp only
  rw [bind_apply, STK1_apply h.arg1, h.left, h.right]

theorem operands_make {op : Opcode} {t a b n : Nat} {i1 i2 : GSInteger} {vm : VM Heap}
    (ha : a < 256) (hb : b < 256) (hleft : vm.stack (vm.stackbase + a) = .integer i1)
    (hright : vm.stack (vm.stackbase + b) = .integer i2) :
    Operands (.make op t b a n) i1 i2 vm := by
  have harg1 := int32_toInt (Nat.lt_trans hb (by decide : 256 < 2 ^ 31))
  constructor
  · rw [← hleft]
    simp only [Instruction.make, byte_toNat ha]
  · simp only [Instruction.make, harg1]
    exact Int.natCast_nonneg b
  · rw [← hright]
    simp only [Instruction.make, harg1, Int.toNat_natCast]

/-- An arithmetic instruction does with its operands what `arith` does. -/
theorem exec_arith {op : ArithOp} {i : Instruction} {vm : VM rt.Heap} {i1 i2 : GSInteger}
    (hop : i.op = ChooseArithOpByToken (.chr op.char)) (hmod : op ≠ .mod)
    (h : Operands i i1 i2 vm) :
    exec rt i vm =
      (do
        setTarget i (← arith rt op (.integer i1) (.integer i2))
        return Control.next) vm := by
  have hdata : execData rt i = arithOp rt op i := by
    unfold execData
    cases op with
    | add =>
      rw [hop]
      rfl
    | sub =>
      rw [hop]
      rfl
    | mul =>
      rw [hop]
      rfl
    | div =>
      rw [hop]
      rfl
    | mod => exact absurd rfl hmod
  have hcomputes : Computes i.op := by
    rw [hop]
    cases op <;> trivial
  have hread := h.read_apply fun o1 o2 => do
    setTarget i (← arith rt op o1 o2)
    return Control.next
  rw [exec_of_computes hcomputes, hdata, ← hread]
  simp only [arithOp, bind_assoc]

/-- `%` does what `ARITH_OP` does, less its error. -/
theorem exec_mod {i : Instruction} {vm : VM rt.Heap} {i1 i2 : GSInteger} (hop : i.op = .MOD)
    (h : Operands i i1 i2 vm) :
    exec rt i vm =
      match ARITH_OP rt .mod (.integer i1) (.integer i2) vm with
      | .ok v vm' => (do
          setTarget i v
          return Control.next) vm'
      | .error (.raise _) vm' => .ok .next vm'
      | .error .undefined vm' => .error .undefined vm' := by
  have hcomputes : Computes i.op := by
    rw [hop]
    trivial
  rw [exec_of_computes hcomputes, bind_apply, execData_mod hop, operation_mod hop, h.read_apply]
  cases ARITH_OP rt .mod (.integer i1) (.integer i2) vm with
  | ok v vm' => rfl
  | error stop vm' => cases stop <;> rfl

theorem choose_assign (op : ArithOp) :
    ChooseArithOpByToken op.assign = ChooseArithOpByToken (.chr op.char) := by
  cases op <;> rfl

/-- An arithmetic instruction with well guarded operands gives what the operator gives. -/
theorem computed_of_wellGuarded {op : ArithOp} {i : Instruction} {vm : VM rt.Heap}
    {i1 i2 : GSInteger} (hop : i.op = ChooseArithOpByToken (.chr op.char))
    (h : WellGuarded op i1 i2) (hoperands : Operands i i1 i2 vm) :
    Computed (exec rt i vm) i.arg0.toNat (op.integer i1 i2) := by
  by_cases hmod : op = .mod
  · subst hmod
    have hgives : ARITH_OP rt .mod (.integer i1) (.integer i2) = pure (.integer (i1 % i2)) :=
      arithInteger_gives h
    rw [exec_mod hop hoperands, hgives]
    exact ⟨_, rfl, if_pos rfl⟩
  · have hgives : Gives (arith rt op (.integer i1) (.integer i2)) (op.integer i1 i2) :=
      arith_gives h
    rw [exec_arith hop hmod hoperands, bind_apply]
    cases hr : op.integer i1 i2 with
    | some n =>
      rw [hr] at hgives
      rw [show arith rt op (.integer i1) (.integer i2) = pure (.integer n) from hgives]
      exact ⟨_, rfl, if_pos rfl⟩
    | none =>
      rw [hr] at hgives
      obtain ⟨msg, hmsg⟩ := hgives
      rw [hmsg]
      exact ⟨_, _, rfl⟩

theorem byInstruction_integer {op : ArithOp} {i1 i2 : GSInteger} (h : WellGuarded op i1 i2) :
    ByInstruction op i1 i2 (op.integer i1 i2) := by
  intro rt vm t a b ht ha hb hleft hright
  have hcomputed : Computed (exec rt (binaryOp op t a b) vm) _ _ :=
    computed_of_wellGuarded rfl h (operands_make ha hb hleft hright)
  rwa [show (binaryOp op t a b).arg0.toNat = t from byte_toNat ht] at hcomputed

theorem byLocal_integer {op : ArithOp} {i1 i2 : GSInteger} (h : WellGuarded op i1 i2) :
    ByLocal op i1 i2 (op.integer i1 i2) := by
  intro rt vm a b ha hb hleft hright
  have hcomputed : Computed (exec rt (localAssign op a b) vm) _ _ :=
    computed_of_wellGuarded (choose_assign op) h (operands_make ha hb hleft hright)
  rwa [show (localAssign op a b).arg0.toNat = a from byte_toNat ha] at hcomputed

theorem ofChar_assign (op : ArithOp) :
    ArithOp.ofChar (Char.ofNat (byte (ChooseCompArithCharByToken op.assign)).toNat) = some op := by
  cases op <;> rfl

/-- `COMPARITH` is `DerefInc` on its registers. -/
theorem execData_memberAssign {op : ArithOp} {t src key val : Nat} (ht : t < 256)
    (hsrc : src < 256) (hkey : key < 256) (hval : val < 256) (vm : VM rt.Heap) :
    execData rt (memberAssign op t src key val) vm =
      DerefInc rt op t (vm.stack (vm.stackbase + src)) (vm.stack (vm.stackbase + key))
        (vm.stack (vm.stackbase + val)) false src vm := by
  have hpacked := int32_toNat (packed_lt hsrc hval)
  rw [execData_derefs (.inl rfl)]
  change compoundAssign rt (memberAssign op t src key val) vm = _
  unfold compoundAssign
  simp only [memberAssign, Instruction.make, byte_toNat ht, byte_toNat hkey, hpacked,
    packed_src hval, packed_val hval, ofChar_assign]
  rfl

theorem setSTK_bind_apply {α : Type} (a : Nat) (v : Object) (f : Unit → VMM Heap α)
    (vm : VM Heap) : (setSTK a v >>= f) vm = f () (vm.setSlot (vm.stackbase + a) v) := rfl

/-- `DerefInc` sets the member to the result of `ARITH_OP`. -/
theorem derefInc_value {op : ArithOp} {target selfidx : Nat} {self key incr tmp sum : Object}
    {vm vm₁ : VM rt.Heap} (hget : Get rt self key selfidx vm = .ok tmp vm₁)
    (hvalue : ARITH_OP rt op tmp incr = pure sum) :
    DerefInc rt op target self key incr false selfidx vm =
      (do
        setSTK target sum
        Set rt self key sum selfidx) vm₁ := by
  have hread : (vm₁.setSlot (vm₁.stackbase + target) sum).stack
      ((vm₁.setSlot (vm₁.stackbase + target) sum).stackbase + target) = sum := if_pos rfl
  unfold DerefInc
  rw [bind_apply, hget]
  dsimp only
  rw [hvalue, pure_bind, setSTK_bind_apply, setSTK_bind_apply, bind_apply, STK_apply, hread]
  change (Set rt self key sum selfidx >>= pure) _ = _
  rw [bind_pure]

/-- An error of `ARITH_OP` is one of `DerefInc`. -/
theorem derefInc_raises {op : ArithOp} {target selfidx : Nat} {self key incr tmp : Object}
    {msg : String} {vm vm₁ : VM rt.Heap} (hget : Get rt self key selfidx vm = .ok tmp vm₁)
    (hvalue : ARITH_OP rt op tmp incr = raiseError msg) :
    DerefInc rt op target self key incr false selfidx vm =
      .error (.raise (.string (sc msg))) vm₁ := by
  unfold DerefInc
  rw [bind_apply, hget]
  dsimp only
  rw [hvalue]
  rfl

/-- A compound assignment of a member is an increment of its slot by the
operand. -/
theorem exec_memberAssign {op : ArithOp} {t src key val : Nat} (ht : t < 256)
    (hsrc : src < 256) (hkey : key < 256) (hval : val < 256) (vm : VM rt.Heap) :
    exec rt (memberAssign op t src key val) vm =
      (do
        DerefInc rt op t (vm.stack (vm.stackbase + src)) (vm.stack (vm.stackbase + key))
          (vm.stack (vm.stackbase + val)) false src
        return Control.next) vm := by
  rw [exec_of_computes (i := memberAssign op t src key val) trivial, bind_apply,
    execData_memberAssign ht hsrc hkey hval]
  rfl

/-- Where no guard goes wrong, the assignment of a member sets it to the
operator's integer. -/
theorem byMember_integer {op : ArithOp} {i1 i2 : GSInteger} (h : WellGuarded op i1 i2) :
    ByMember op i1 i2 (op.integer i1 i2) := by
  intro rt vm vm₁ t src key val ht hsrc hkey hval reg hincr hget
  have hgives : Gives (ARITH_OP rt op (.integer i1) (.integer i2)) (op.integer i1 i2) :=
    arithInteger_gives h
  have hexec : exec rt (memberAssign op t src key val) vm = _ :=
    exec_memberAssign ht hsrc hkey hval vm
  rw [bind_apply, show vm.stack (vm.stackbase + val) = .integer i2 from hincr] at hexec
  cases hr : op.integer i1 i2 with
  | some n =>
    rw [hr] at hgives
    rw [derefInc_value hget hgives] at hexec
    exact hexec
  | none =>
    rw [hr] at hgives
    obtain ⟨msg, hmsg⟩ := hgives
    rw [derefInc_raises hget hmsg] at hexec
    exact ⟨_, _, hexec⟩

/-! ### Where the ways differ -/

/-- Answers any question with one integer. -/
def answering (n : GSInteger) : Runtime where
  Heap := Unit
  fl := FloatOps.unused
  strcmp _ _ := 0
  serve _ _ _ generators _ :=
    { result := .ok (.values [.integer n]), heap := (), generators := generators }

/-- A frame with the two operands in the registers 1 and 2. -/
def holding (n i1 i2 : GSInteger) : VM (answering n).Heap where
  stack r := if r = 1 then .integer i1 else if r = 2 then .integer i2 else .null
  stacksize := 64
  stackbase := 0
  top := 8
  callstack := [{ prevstkbase := 0, prevtop := 0, root := true }]
  etraps := []
  traps := 0
  openouters := []
  outers := []
  closures := []
  generators := []
  nmetamethodscall := 0
  heap := ()

theorem operands_holding (op : ArithOp) (n i1 i2 : GSInteger) :
    Operands (binaryOp op 3 1 2) i1 i2 (holding n i1 i2) :=
  operands_make (by decide) (by decide) rfl rfl

/-- The instruction divides the least 32-bit integer by `-1`, `ARITH_OP` does not. -/
theorem not_waysAgree_least : ¬ WaysAgree .div (-2147483648) (-1) := by
  rintro ⟨r, hinstruction, -, hmember⟩
  have hcomputed := hinstruction (answering 0) (holding 0 (-2147483648) (-1)) 3 1 2 (by decide)
    (by decide) (by decide) rfl rfl
  have hassigned := hmember (answering (-2147483648)) (holding _ (-2147483648) (-1)) _ 4 3 3 2
    (by decide) (by decide) (by decide) (by decide) rfl rfl
  cases r with
  | none =>
    obtain ⟨err, vm, herr⟩ := hcomputed
    cases herr
  | some n => cases hassigned

/-- An instruction that C leaves undefined computes nothing. -/
theorem not_computed_undefined {vm : VM Heap} {t : Nat} {r : Option GSInteger} :
    ¬ Computed (.error .undefined vm) t r := by
  cases r with
  | none =>
    rintro ⟨err, vm', h⟩
    cases h
  | some n =>
    rintro ⟨vm', h, -⟩
    cases h

/-- The least integer has no quotient by `-1`. -/
theorem not_waysAgree_div_minValue : ¬ WaysAgree .div Int64.minValue (-1) := by
  rintro ⟨r, hinstruction, -⟩
  exact not_computed_undefined (hinstruction (answering 0) (holding 0 Int64.minValue (-1)) 3 1 2
    (by decide) (by decide) (by decide) rfl rfl)

theorem not_waysAgree_mod_minValue : ¬ WaysAgree .mod Int64.minValue (-1) := by
  rintro ⟨r, hinstruction, -⟩
  exact not_computed_undefined (hinstruction (answering 0) (holding 0 Int64.minValue (-1)) 3 1 2
    (by decide) (by decide) (by decide) rfl rfl)

/-- `_OP_MOD` leaves its target as it was. -/
theorem not_waysAgree_mod_zero (i1 : GSInteger) : ¬ WaysAgree .mod i1 0 := by
  rintro ⟨r, hinstruction, -⟩
  have hcomputed := hinstruction (answering 0) (holding 0 i1 0) 3 1 2 (by decide) (by decide)
    (by decide) rfl rfl
  have hexec : exec (answering 0) (binaryOp .mod 3 1 2) (holding 0 i1 0) =
      .ok .next (holding 0 i1 0) := by
    rw [exec_mod rfl (operands_holding .mod 0 i1 0)]
    rfl
  rw [hexec] at hcomputed
  cases r with
  | none =>
    obtain ⟨err, vm, herr⟩ := hcomputed
    cases herr
  | some n =>
    obtain ⟨vm, hvm, hn⟩ := hcomputed
    cases hvm
    cases hn

/-- The three ways disagree wherever a guard goes wrong. -/
theorem wellGuarded_of_waysAgree {op : ArithOp} {i1 i2 : GSInteger} (h : WaysAgree op i1 i2) :
    WellGuarded op i1 i2 := by
  cases op with
  | add | sub | mul => trivial
  | div =>
    rintro ⟨rfl, hleast | rfl⟩
    · rw [show i1 = -2147483648 from Int64.toInt_inj.mp hleast] at h
      exact not_waysAgree_least h
    · exact not_waysAgree_div_minValue h
  | mod =>
    constructor
    · rintro rfl
      exact not_waysAgree_mod_zero i1 h
    · rintro ⟨rfl, rfl⟩
      exact not_waysAgree_mod_minValue h

/-- The three ways to an operator agree just where no guard goes wrong. -/
theorem waysAgree_iff (op : ArithOp) (i1 i2 : GSInteger) :
    WaysAgree op i1 i2 ↔ WellGuarded op i1 i2 := by
  constructor
  · exact wellGuarded_of_waysAgree
  · intro h
    exact ⟨op.integer i1 i2, byInstruction_integer h, byLocal_integer h, byMember_integer h⟩

/-- `-2147483648 / -1` is an integer for the instruction, and an overflow for `ARITH_OP`. -/
theorem not_waysAgree_everywhere : ¬ ∀ op i1 i2, WaysAgree op i1 i2 :=
  fun h => not_waysAgree_least (h .div (-2147483648) (-1))

/-! ### Undefined operations -/

/-- The operators whose operation on integers C does not define everywhere. -/
inductive PartialOp where
  | div | mod | shiftl | shiftr | ushiftr
deriving DecidableEq, Repr

/-- The instruction for `a op b` into the register `t`, as `BIN_EXP` has it. -/
def PartialOp.instruction (op : PartialOp) (t a b : Nat) : Instruction :=
  match op with
  | .div => binaryOp .div t a b
  | .mod => binaryOp .mod t a b
  | .shiftl => .make .BITW t b a BitWiseOP.BW_SHIFTL.code
  | .shiftr => .make .BITW t b a BitWiseOP.BW_SHIFTR.code
  | .ushiftr => .make .BITW t b a BitWiseOP.BW_USHIFTR.code

/-- The function for the operator: `ARITH_OP` or `BW_OP`. -/
def PartialOp.function (rt : Runtime) (op : PartialOp) (o1 o2 : Object) : VMM rt.Heap Object :=
  match op with
  | .div => ARITH_OP rt .div o1 o2
  | .mod => ARITH_OP rt .mod o1 o2
  | .shiftl => BW_OP rt 4 o1 o2
  | .shiftr => BW_OP rt 5 o1 o2
  | .ushiftr => BW_OP rt 6 o1 o2

/-- A result that is not undefined: a value, or an error that is raised. -/
def Settles {α : Type} : EStateM.Result Stop (VM Heap) α → Prop
  | .error .undefined _ => False
  | _ => True

/-- No way to the operator evaluates an undefined operation on these integers. -/
structure PartialOp.Defined (op : PartialOp) (i1 i2 : GSInteger) : Prop where
  instruction : ∀ (rt : Runtime) (vm : VM rt.Heap) (t a b : Nat), t < 256 → a < 256 → b < 256 →
    vm.stack (vm.stackbase + a) = .integer i1 → vm.stack (vm.stackbase + b) = .integer i2 →
    Settles (exec rt (op.instruction t a b) vm)
  function : ∀ (rt : Runtime) (vm : VM rt.Heap),
    Settles (op.function rt (.integer i1) (.integer i2) vm)

/-- The integers on which no guard is missed. -/
def PartialOp.Safe (op : PartialOp) (i1 i2 : GSInteger) : Prop :=
  match op with
  | .div | .mod => ¬(i1 = Int64.minValue ∧ i2 = -1)
  | .shiftl | .shiftr | .ushiftr => 0 ≤ i2 ∧ i2 < 64

/-- A computation that settles, followed by a result for a register. -/
theorem settles_setTarget {m : VMM Heap Object} {i : Instruction} {vm : VM Heap}
    (h : Settles (m vm)) :
    Settles ((do
      setTarget i (← m)
      return Control.next) vm) := by
  rw [bind_apply]
  cases hm : m vm with
  | ok v vm' => trivial
  | error stop vm' =>
    rw [hm] at h
    cases stop with
    | raise err => trivial
    | undefined => exact h

theorem settles_divide {i1 i2 : GSInteger} (hzero : i2 ≠ 0)
    (h : ¬(i1 = Int64.minValue ∧ i2 = -1)) (vm : VM rt.Heap) :
    Settles (divide rt i1 i2 vm) := by
  rw [divide_of_defined hzero h]
  trivial

/-- A division is defined but for the smallest integer by -1. -/
theorem settles_arithInteger_div {i1 i2 : GSInteger} (h : ¬(i1 = Int64.minValue ∧ i2 = -1))
    (vm : VM rt.Heap) : Settles (arithInteger rt .div i1 i2 vm) := by
  unfold arithInteger
  by_cases hzero : i2 = 0
  · simp only [if_pos hzero]
    trivial
  · simp only [if_neg hzero]
    split
    · trivial
    · exact settles_divide hzero h vm

/-- A remainder is defined but for the smallest integer by -1: zero is
refused. -/
theorem settles_arithInteger_mod {i1 i2 : GSInteger} (h : ¬(i1 = Int64.minValue ∧ i2 = -1))
    (vm : VM rt.Heap) : Settles (arithInteger rt .mod i1 i2 vm) := by
  unfold arithInteger
  by_cases hzero : i2 = 0
  · simp only [if_pos hzero]
    trivial
  · simp only [if_neg hzero]
    split
    · trivial
    · rw [remainder_of_defined hzero h]
      trivial

theorem settles_arith_div {i1 i2 : GSInteger} (h : ¬(i1 = Int64.minValue ∧ i2 = -1))
    (vm : VM rt.Heap) : Settles (arith rt .div (.integer i1) (.integer i2) vm) := by
  unfold arith
  by_cases hzero : i2 = 0
  · simp only [if_pos hzero]
    trivial
  · simp only [if_neg hzero]
    exact settles_divide hzero h vm

/-- A shift is defined exactly for counts from 0 to 63. -/
theorem settles_shift {i2 res : GSInteger} (vm : VM rt.Heap) :
    Settles (shift rt i2 res vm) ↔ 0 ≤ i2 ∧ i2 < 64 := by
  unfold shift
  by_cases h : 0 ≤ i2 ∧ i2 < 64
  · rw [if_pos h]
    exact ⟨fun _ => h, fun _ => trivial⟩
  · rw [if_neg h]
    exact ⟨False.elim, fun h' => h h'⟩

/-- On safe operands the operator's function is defined. -/
theorem settles_function {op : PartialOp} {i1 i2 : GSInteger} (h : op.Safe i1 i2)
    (vm : VM rt.Heap) : Settles (op.function rt (.integer i1) (.integer i2) vm) := by
  cases op with
  | div => exact settles_arithInteger_div h vm
  | mod => exact settles_arithInteger_mod h vm
  | shiftl => exact (settles_shift vm).mpr h
  | shiftr => exact (settles_shift vm).mpr h
  | ushiftr => exact (settles_shift vm).mpr h

/-- `_OP_BITW` does with its operands what `BW_OP` does. -/
theorem exec_bitw {i : Instruction} {vm : VM rt.Heap} {i1 i2 : GSInteger} (hop : i.op = .BITW)
    (h : Operands i i1 i2 vm) :
    exec rt i vm =
      (do
        setTarget i (← BW_OP rt i.arg3.toNat (.integer i1) (.integer i2))
        return Control.next) vm := by
  have hcomputes : Computes i.op := by
    rw [hop]
    trivial
  have hdata : execData rt i =
      (do setTarget i (← BW_OP rt i.arg3.toNat (← STK i.arg2.toNat) (← STK1 i))) := by
    unfold execData
    rw [hop]
  have hread := h.read_apply fun o1 o2 => do
    setTarget i (← BW_OP rt i.arg3.toNat o1 o2)
    return Control.next
  rw [exec_of_computes hcomputes, hdata, ← hread]
  simp only [bind_assoc]

/-- The instruction MOD is defined where its arithmetic is. -/
theorem settles_exec_mod {i : Instruction} {vm : VM rt.Heap} {i1 i2 : GSInteger}
    (hop : i.op = .MOD) (hoperands : Operands i i1 i2 vm)
    (h : Settles (ARITH_OP rt .mod (.integer i1) (.integer i2) vm)) :
    Settles (exec rt i vm) := by
  rw [exec_mod hop hoperands]
  cases hvalue : ARITH_OP rt .mod (.integer i1) (.integer i2) vm with
  | ok v vm' => trivial
  | error stop vm' =>
    rw [hvalue] at h
    cases stop with
    | raise err => trivial
    | undefined => exact h

/-- On safe operands no way to the operator is undefined. -/
theorem defined_of_safe {op : PartialOp} {i1 i2 : GSInteger} (h : op.Safe i1 i2) :
    op.Defined i1 i2 := by
  refine ⟨?_, fun rt vm => settles_function h vm⟩
  intro rt vm t a b _ ha hb hleft hright
  cases op with
  | div =>
    have hop : (PartialOp.div.instruction t a b).op =
        ChooseArithOpByToken (.chr ArithOp.div.char) := rfl
    rw [show exec rt (PartialOp.div.instruction t a b) vm = _ from
      exec_arith hop (by decide) (operands_make ha hb hleft hright)]
    exact settles_setTarget (settles_arith_div h vm)
  | mod =>
    exact settles_exec_mod rfl (operands_make ha hb hleft hright) (settles_arithInteger_mod h vm)
  | shiftl =>
    rw [show exec rt (PartialOp.shiftl.instruction t a b) vm = _ from
      exec_bitw rfl (operands_make ha hb hleft hright)]
    exact settles_setTarget ((settles_shift vm).mpr h)
  | shiftr =>
    rw [show exec rt (PartialOp.shiftr.instruction t a b) vm = _ from
      exec_bitw rfl (operands_make ha hb hleft hright)]
    exact settles_setTarget ((settles_shift vm).mpr h)
  | ushiftr =>
    rw [show exec rt (PartialOp.ushiftr.instruction t a b) vm = _ from
      exec_bitw rfl (operands_make ha hb hleft hright)]
    exact settles_setTarget ((settles_shift vm).mpr h)

/-- No guard of `ARITH_OP` catches the least integer. -/
theorem not_defined_minValue {op : PartialOp} (h : op = .div ∨ op = .mod) :
    ¬ op.Defined Int64.minValue (-1) := by
  intro hdefined
  have hsettles := hdefined.function (answering 0) (holding 0 0 0)
  rcases h with rfl | rfl <;> exact hsettles

/-- Off the safe operands some way to the operator is undefined. -/
theorem safe_of_defined {op : PartialOp} {i1 i2 : GSInteger} (h : op.Defined i1 i2) :
    op.Safe i1 i2 := by
  have hsettles := h.function (answering 0) (holding 0 0 0)
  cases op with
  | div =>
    rintro ⟨rfl, rfl⟩
    exact not_defined_minValue (.inl rfl) h
  | mod =>
    rintro ⟨rfl, rfl⟩
    exact not_defined_minValue (.inr rfl) h
  | shiftl => exact (settles_shift _).mp hsettles
  | shiftr => exact (settles_shift _).mp hsettles
  | ushiftr => exact (settles_shift _).mp hsettles

/-- Integer operators evaluate no undefined operation just on the integers that are safe. -/
theorem defined_iff (op : PartialOp) (i1 i2 : GSInteger) : op.Defined i1 i2 ↔ op.Safe i1 i2 :=
  ⟨safe_of_defined, defined_of_safe⟩

/-- The least integer divided by `-1`, and a shift by the width. -/
theorem not_defined_everywhere : ¬ (∀ i1 i2, PartialOp.div.Defined i1 i2) ∧
    ¬ ∀ i1 i2, PartialOp.shiftl.Defined i1 i2 := by
  constructor
  · intro h
    exact not_defined_minValue (.inl rfl) (h Int64.minValue (-1))
  · intro h
    have hsafe := safe_of_defined (h 1 64)
    exact absurd hsafe.2 (by decide)

end VM

end GameScript
