import GameScript.Compiler.FormulaCode

/-!
The code of `&&`, `||` and `?` between pieces: a jump is emitted with no operand yet, the pieces
behind it are emitted, and then the operand is set to their length. `Formula.emit_computes` is the
result: the code of a formula leaves its value in its target.
-/

namespace GameScript

open Calc Forward

namespace FuncState

variable {fs fs' fs₁ : FuncState} {pre s s' : List Instruction} {i j : Instruction}

/-! ### Operands of jumps -/

theorem modify_append {α : Type} (front back : List α) (a : α) (f : α → α) :
    (front ++ a :: back).modify front.length f = front ++ f a :: back := by
  induction front with
  | nil => rfl
  | cons b front ih => simp [ih]

theorem setInstructionParam_toList {front back : List Instruction} {pos : Int}
    (hcode : fs.instructions.toList = front ++ j :: back) (hpos : pos = front.length) (val : Int) :
    (fs.setInstructionParam pos.toNat 1 val).instructions.toList =
      front ++ { j with arg1 := int32 val } :: back := by
  simp only [setInstructionParam, Array.toList_modify, hcode, hpos, Int.toNat_natCast]
  exact modify_append front back j _

theorem getCurrentPos_of_toList {front : List Instruction}
    (hcode : fs.instructions.toList = front ++ [j]) : fs.getCurrentPos = front.length := by
  have hsize : fs.instructions.size = front.length + 1 := by
    rw [← Array.length_toList, hcode]
    simp
  simp [getCurrentPos, hsize]

/-- A jump that is aimed here skips the code behind it. -/
theorem jumpHere_toList {front back : List Instruction} {pos : Int}
    (hcode : fs.instructions.toList = front ++ j :: back) (hpos : pos = front.length) :
    (fs.jumpHere pos).instructions.toList =
      front ++ { j with arg1 := int32 (back.length : Int) } :: back := by
  have hsize : fs.instructions.size = front.length + (back.length + 1) := by
    rw [← Array.length_toList, hcode]
    simp
  have hdistance : fs.getCurrentPos - pos = back.length := by
    simp only [getCurrentPos, hsize, hpos]
    omega
  rw [jumpHere, hdistance, setInstructionParam_toList hcode hpos]

section

variable {fl : FloatOps} {strcmp : List UInt8 → List UInt8 → Int} {L : List Object} {t : Nat}

theorem index1_jump {n : Nat} (hn : n < 2 ^ 31) (i : Instruction) :
    index1 { i with arg1 := int32 (n : Int) } = .value n := by
  simp [index1, int32_toInt hn]

theorem skip_jump {n : Nat} (hn : n < 2 ^ 31) (i : Instruction) (r : Registers) :
    skip { i with arg1 := int32 (n : Int) } r = .goes n r := by
  simp [skip, index1_jump hn]

/-! ### Moves into the target -/

variable (fl strcmp L) in
theorem effect_move {trg src : Nat} (htrg : trg < 256) (hsrc : src < 256) (r : Registers) :
    effect fl strcmp L (.make .MOVE trg src 0 0) r = .goes 0 (Function.update r trg (r src)) := by
  have hoperand : operand1 (.make .MOVE trg src 0 0) r = .value (r src) := by
    simp [operand1, index1_make, Nat.lt_of_lt_of_le hsrc]
  rw [effect_MOVE (make_op _ _ _ _ _), hoperand, make_arg0 htrg]
  rfl

variable (fs fl strcmp L) in
/-- A move behind an instruction that it is not merged with. -/
theorem moveTo_exact {trg src : Nat} (htrg : trg < 256) (hsrc : src < 256)
    (hkeep : ∀ pi, fs.instructions.back? = some pi → fs.optimization = true →
      pi.op.mergeable = false) :
    ∃ m, (fs.moveTo trg src).instructions.toList = fs.instructions.toList ++ m ∧
      ((fs.moveTo trg src).optimization = true ∨ (fs.moveTo trg src).optimization = fs.optimization) ∧
      ∀ opt r, Settles (effect fl strcmp L) opt m r (Function.update r trg (r src)) := by
  unfold moveTo
  by_cases hsame : trg = src
  · subst hsame
    refine ⟨[], by simp, .inr (by simp), fun opt r => ?_⟩
    rw [Function.update_eq_self]
    exact .refl _ opt r
  · rw [if_pos hsame]
    obtain ⟨hcode, hopt⟩ := @addInstruction_keep fs (.make .MOVE trg src 0 0) (by
      intro pi hback ho
      have hpi := hkeep pi hback ho
      simp only [peephole, make_op]
      rw [if_neg, if_neg]
      · rintro hmove
        simp [hmove, Opcode.mergeable] at hpi
      · rintro ⟨htakes, -⟩
        simp [Opcode.mergeable_of_takesOver htakes] at hpi)
    refine ⟨[.make .MOVE trg src 0 0], by simp [hcode], .inl hopt, fun opt r => ?_⟩
    have heffect := effect_move fl strcmp L htrg hsrc r
    cases opt
    · exact settles_false.mpr (by simp [heffect])
    · exact (settles_concat (a := [])).mpr ⟨r, by simp, heffect⟩

/-! ### Short circuits -/

variable (fl strcmp L) in
/-- AND and OR do what the calculation's short circuit does. -/
theorem effect_decides {op : Opcode} {falsy : Bool}
    (hop : op = .AND ∧ falsy = true ∨ op = .OR ∧ falsy = false) {trg src n : Nat} (htrg : trg < 256)
    (hsrc : src < 256) (hn : n < 2 ^ 31) (r : Registers) :
    effect fl strcmp L { Instruction.make op trg 0 src 0 with arg1 := int32 (n : Int) } r =
      if VM.isFalse fl (r src) = falsy then .goes n (Function.update r trg (r src))
      else .goes 0 r := by
  have harg0 : (Instruction.make op trg 0 src 0).arg0.toNat = trg := make_arg0 htrg
  have harg2 : (Instruction.make op trg 0 src 0).arg2.toNat = src := make_arg2 hsrc
  have hdecides : effect fl strcmp L
      { Instruction.make op trg 0 src 0 with arg1 := int32 (n : Int) } r =
        decides fl falsy { Instruction.make op trg 0 src 0 with arg1 := int32 (n : Int) } r := by
    rcases hop with ⟨rfl, rfl⟩ | ⟨rfl, rfl⟩ <;> rfl
  rw [hdecides, decides, skip_jump hn]
  dsimp only
  rw [harg0, harg2]

/-- The code of a short circuit, which is that of the first operand, the jump, and the rest `b`. -/
theorem meets_shortCircuit {eff : Instruction → Registers → Exit Registers String} {base tl : Nat}
    {opt falsy : Bool} {b : List Instruction} {r r' : Registers} {o o' : Result Object}
    (h : Meets eff opt s r (o.bind fun v => .value (Leaves base tl v r')))
    (hj : ∀ r₁, eff j r₁ = if VM.isFalse fl (r₁ tl) = falsy then
      .goes b.length (Function.update r₁ base (r₁ tl)) else .goes 0 r₁)
    (hb : ∀ r₁ : Registers, (∀ n, n < base → r₁ n = r' n) →
      Meets eff false b r₁ (o'.bind fun v => .value (Leaves base base v r'))) :
    Meets eff false (s ++ j :: b) r
      ((o.bind fun v => if VM.isFalse fl v = falsy then .value v else o').bind fun v =>
        .value (Leaves base base v r')) := by
  rw [Result.bind_assoc]
  refine h.bind (fun _ => enter_append_of_raises) fun v r₁ _ hr₁ hleaves => ?_
  obtain ⟨rfl, hlow⟩ := hleaves
  have hjump := hj r₁
  by_cases hfalse : VM.isFalse fl (r₁ tl) = falsy
  · rw [if_pos hfalse] at hjump ⊢
    refine ⟨Function.update r₁ base (r₁ tl), ?_, by simp, fun n hn => ?_⟩
    · rw [settles_false, enter_append_of_goes hr₁.goes, enter_zero_cons, hjump, Exit.bind_goes]
      exact enter_length _ _ 0 _
    · simp [Nat.ne_of_lt hn, hlow n hn]
  · rw [if_neg hfalse] at hjump ⊢
    refine (hb r₁ hlow).of_enter ?_
    rw [enter_append_of_goes hr₁.goes, enter_zero_cons, hjump, Exit.bind_goes]

/-- The jump of a short circuit, behind the first operand. -/
theorem jumpOver_toList {op : Opcode} {tl : Nat} (hop : op.plain = true) (haims : Aims fs fs₁ tl)
    (hs : Piece fs₁ pre s) :
    (fs₁.jumpOver op).instructions.toList = pre ++ s ++ [.make op fs.vlocals.size 0 tl 0] := by
  have hjump : fs₁.jumpOver op =
      fs₁.dropTarget.pushTarget.addInstruction (.make op fs.vlocals.size 0 tl 0) := by
    simp [FuncState.jumpOver, haims.target, haims.dropTarget]
  have hcode₁ : fs₁.dropTarget.pushTarget.instructions = fs₁.instructions := by
    rw [haims.dropTarget]
    rfl
  obtain ⟨hcode, -⟩ := addInstruction_plain fs₁.dropTarget.pushTarget
    (i := .make op fs.vlocals.size 0 tl 0) (by exact hop)
  rw [hjump, hcode, hcode₁, Array.toList_push, hs.instructions]

variable (fl strcmp L) in
/-- A value that is moved into a target, behind code that jumps may lead to the end of. -/
theorem popInto_snoozed {trg src : Nat} (haims : Aims fs fs₁ src) (htrg : trg < 256)
    (hsrc : src < 256) :
    ∃ m, (fs₁.snoozeOpt.popInto trg).snoozeOpt.instructions.toList =
        fs₁.instructions.toList ++ m ∧
      ∀ r, Settles (effect fl strcmp L) false m r (Function.update r trg (r src)) := by
  have hrest : Aims fs fs₁.snoozeOpt src := haims.congr rfl rfl rfl rfl
  have hcode : fs₁.snoozeOpt.dropTarget.instructions = fs₁.instructions := by
    rw [hrest.dropTarget]
    rfl
  have hsnoozed : fs₁.snoozeOpt.dropTarget.optimization = false := by
    rw [hrest.dropTarget]
    rfl
  obtain ⟨m, hm, -, hsettles⟩ := moveTo_exact fs₁.snoozeOpt.dropTarget fl strcmp L htrg hsrc
    fun _ _ ho => by simp [hsnoozed] at ho
  have hpop : fs₁.snoozeOpt.popInto trg = fs₁.snoozeOpt.dropTarget.moveTo trg src := by
    rw [FuncState.popInto, hrest.target]
  refine ⟨m, ?_, hsettles false⟩
  rw [hpop, ← hcode, ← hm]
  rfl

/-- The code of a short circuit computes the operator, if the codes of its
operands do. -/
theorem computes_shortCircuit {base tl tr : Nat} {f g : Registers → Result Object} {op : Opcode}
    {falsy : Bool} (hop : op = .AND ∧ falsy = true ∨ op = .OR ∧ falsy = false)
    {second : FuncState → FuncState} (h₁ : Computes (effect fl strcmp L) base tl f fs fs₁)
    (haims₁ : Aims fs fs₁ tl) (hbase : fs.vlocals.size = base)
    (h₂ : Computes (effect fl strcmp L) (base + 1) tr g
      ((fs₁.jumpOver op).moveTo base tl) (second ((fs₁.jumpOver op).moveTo base tl)))
    (haims₂ : Aims ((fs₁.jumpOver op).moveTo base tl)
      (second ((fs₁.jumpOver op).moveTo base tl)) tr)
    (hsize : base < 256) (htl : tl < 256) (htr : tr < 256)
    (hlength : (fs₁.emitShortCircuit op second).instructions.size < 2 ^ 31)
    (hg : ∀ r r₁ : Registers, (∀ n, n < base → r₁ n = r n) → g r₁ = g r) :
    Computes (effect fl strcmp L) base base
      (fun r => (f r).bind fun v => if VM.isFalse fl v = falsy then .value v else g r) fs
      (fs₁.emitShortCircuit op second) := by
  intro pre s hs
  obtain ⟨s₁, hs₁, hraises₁, hmeets₁⟩ := h₁ pre s hs
  have hplain : op.plain = true := by rcases hop with ⟨rfl, -⟩ | ⟨rfl, -⟩ <;> rfl
  have hmergeable : op.mergeable = false := by rcases hop with ⟨rfl, -⟩ | ⟨rfl, -⟩ <;> rfl
  -- The jump, and the first operand where it is a variable.
  have hlist : (fs₁.jumpOver op).instructions.toList = pre ++ s₁ ++ [.make op base 0 tl 0] := by
    rw [jumpOver_toList hplain haims₁ hs₁, hbase]
  obtain ⟨m, hm, -, hmsettles⟩ := moveTo_exact (fs₁.jumpOver op) fl strcmp L
    hsize htl (by
      intro pi hback _
      have hpi : Instruction.make op base 0 tl 0 = pi := by
        simpa [← Array.getLast?_toList, hlist] using hback
      rw [← hpi]
      exact hmergeable)
  -- The second operand, and its way into the target.
  obtain ⟨s₂, hs₂, -, hmeets₂⟩ := h₂ _ m (.behind (by rw [hm, hlist]) hmergeable)
  obtain ⟨m₂, hm₂, hm₂settles⟩ := popInto_snoozed fl strcmp L haims₂ hsize htr
  rw [hs₂.instructions] at hm₂
  -- The operand of the jump.
  have hpos : (fs₁.jumpOver op).getCurrentPos = ((pre ++ s₁).length : Int) :=
    getCurrentPos_of_toList hlist
  have hfinal : (fs₁.emitShortCircuit op second).instructions.toList = pre ++ (s₁ ++
      ({ Instruction.make op base 0 tl 0 with arg1 := int32 ((s₂ ++ m₂).length : Int) } ::
        (s₂ ++ m₂))) := by
    have hjumped : (fs₁.jumpOver op).target = base := by
      have hover := (haims₁.jumpOver op).target
      rw [hover, hbase]
    have hall : ((second ((fs₁.jumpOver op).moveTo base tl)).snoozeOpt.popInto
        base).snoozeOpt.instructions.toList =
          (pre ++ s₁) ++ (Instruction.make op base 0 tl 0) :: (s₂ ++ m₂) := by
      simpa using hm₂
    have hhere := jumpHere_toList hall hpos
    rw [List.append_assoc] at hhere
    simpa only [FuncState.emitShortCircuit, hjumped, haims₁.target] using hhere
  have hn : (s₂ ++ m₂).length < 2 ^ 31 := by
    have hsize := congrArg List.length hfinal
    simp only [List.length_append, List.length_cons, Array.length_toList] at hsize ⊢
    omega
  refine ⟨_, .of_ne_nil hfinal (by simp), fun r msg hr => enter_append_of_raises (hraises₁ r msg hr),
    fun r r' hr => meets_shortCircuit (hmeets₁ r r' hr) (effect_decides fl strcmp L hop hsize htl hn)
      fun r₁ hlow => ?_⟩
  have hsecond := hmeets₂ r₁ _ (hmsettles _ r₁)
  have hg' : g (Function.update r₁ base (r₁ tl)) = g r' :=
    hg r' _ fun n hn => by simp [Nat.ne_of_lt hn, hlow n hn]
  dsimp only at hsecond
  rw [hg'] at hsecond
  refine hsecond.bind (fun _ => enter_append_of_raises) fun w r₂ _ hr₂ hleaves => ?_
  obtain ⟨hw, hlow₂⟩ := hleaves
  refine ⟨Function.update r₂ base (r₂ tr), ?_, by simp [hw], fun n hn => ?_⟩
  · rw [settles_false, enter_append_of_goes hr₂.goes]
    exact (hm₂settles r₂).goes
  · have hne := Nat.ne_of_lt hn
    simp [hne, hlow₂ n (by omega), hlow n hn]

/-! ### Conditionals -/

/-- The jump of a conditional, behind the code `init`: it tests what the code before it, which ended
in `r'`, has left in `tc`. A comparison becomes part of it. -/
structure Tests (eff : Instruction → Registers → Exit Registers String) (fl : FloatOps)
    (base tc : Nat) (opt : Bool) (s init : List Instruction) (j : Instruction) : Prop where
  sealed : j.op.mergeable = false
  raises : ∀ k r msg, enter eff 0 s r = .raises msg →
    enter eff 0 (init ++ [{ j with arg1 := k }]) r = .raises msg
  jumps : ∀ r r', Settles eff opt s r r' → ∃ r₀, enter eff 0 init r = .goes 0 r₀ ∧
    (∀ n, n < base → r₀ n = r' n) ∧ ∀ k : Nat, k < 2 ^ 31 →
      eff { j with arg1 := int32 (k : Int) } r₀ =
        if VM.isFalse fl (r' tc) then .goes k r₀ else .goes 0 r₀

/-- Where the last instruction is a comparison, it writes the temporary that is tested. -/
def Tested (fs : FuncState) (base tc : Nat) : Prop :=
  fs.optimization = true → ∀ pi, fs.instructions.back? = some pi → pi.op = .CMP →
    tc = base ∧ pi.arg0.toNat = base

theorem effect_CMP {pi : Instruction} (hpi : pi.op = .CMP) (r : Registers) :
    effect fl strcmp L pi r = ((operand1 pi r).bind fun o =>
      comparison fl strcmp pi.arg3.toNat (r pi.arg2.toNat) o).store pi.arg0.toNat r := by
  simp [effect, Calc.target, hpi]

/-- The end of a jump that tests `v`. -/
def jumpUnless (fl : FloatOps) (v : Result Object) (i : Instruction) (r : Registers) :
    Exit Registers String :=
  match v with
  | .value o => if VM.isFalse fl o then skip i r else .goes 0 r
  | .raises msg => .raises msg
  | .outside => .stuck

/-- A comparison that has become part of the jump. -/
theorem effect_JCMP {pi : Instruction} (hlt : pi.arg1.toInt < 0xFF) (k : GSInt32) (r : Registers)
    {v : Result Object} (hv : ((operand1 pi r).bind fun o =>
      comparison fl strcmp pi.arg3.toNat (r pi.arg2.toNat) o) = v) (hne : v ≠ .outside) :
    effect fl strcmp L { pi with op := .JCMP, arg0 := byte pi.arg1.toInt, arg1 := k } r =
      jumpUnless fl v { pi with op := .JCMP, arg0 := byte pi.arg1.toInt, arg1 := k } r := by
  by_cases hpos : 0 ≤ pi.arg1.toInt
  · have hindex : index1 pi = .value pi.arg1.toInt.toNat := by simp [index1, hpos]
    have hbyte : (byte pi.arg1.toInt).toNat = pi.arg1.toInt.toNat := by
      have hnat : pi.arg1.toInt = (pi.arg1.toInt.toNat : Int) := by omega
      rw [hnat, byte_toNat (by omega)]
      omega
    simp only [operand1, hindex, Result.bind_value] at hv
    simp only [effect, hbyte, hv]
    cases v <;> rfl
  · have hindex : index1 pi = .outside := by simp [index1, hpos]
    simp [operand1, hindex] at hv
    exact absurd hv.symm hne

variable (fl strcmp L) in
/-- The test of a conditional ends in one jump over the first branch, JZ or a
merged JCMP. -/
theorem testTarget_tests {base tc : Nat} (haims : Aims fs fs₁ tc) (htc : tc < 256)
    (htested : fs₁.Tested base tc) (hs : Piece fs₁ pre s) :
    ∃ init j, fs₁.testTarget.instructions.toList = pre ++ (init ++ [j]) ∧
      Tests (effect fl strcmp L) fl base tc fs₁.optimization s init j := by
  have hcode : fs₁.dropTarget.instructions = fs₁.instructions := by rw [haims.dropTarget]
  have hopt : fs₁.dropTarget.optimization = fs₁.optimization := by rw [haims.dropTarget]
  have hpeephole (pi : Instruction) : fs₁.dropTarget.peephole pi (.make .JZ tc 0 0 0) =
      if pi.op = .CMP ∧ pi.arg1.toInt < 0xFF then
        { prev := some { pi with op := .JCMP, arg0 := byte pi.arg1.toInt
                                 arg1 := (Instruction.make .JZ tc 0 0 0).arg1 }, next := none }
      else { prev := some pi, next := some (.make .JZ tc 0 0 0) } := rfl
  have hpiece := (hs.congr hcode fun ho => hopt ▸ ho).addInstruction (.make .JZ tc 0 0 0) (by
    intro pi
    rw [hpeephole]
    by_cases hmerge : pi.op = .CMP ∧ pi.arg1.toInt < 0xFF
    · rw [if_pos hmerge]
      exact .inr ⟨by simp [hmerge.1, Opcode.mergeable], _, rfl, rfl⟩
    · exact .inl (if_neg hmerge))
  have htest : fs₁.testTarget = fs₁.dropTarget.addInstruction (.make .JZ tc 0 0 0) := by
    rw [FuncState.testTarget, haims.target]
  rw [← htest] at hpiece
  have harg0 : (Instruction.make .JZ tc 0 0 0).arg0.toNat = tc := make_arg0 htc
  rcases hpiece with ⟨hkeep, -⟩ | ⟨init, pi, pi', rfl, ho, hprev, hnext, hmerged⟩
  · refine ⟨s, .make .JZ tc 0 0 0, hkeep.instructions, rfl, fun k r msg hr =>
      enter_append_of_raises hr, fun r r' hr => ⟨r', hr.goes, fun _ _ => rfl, fun k hk => ?_⟩⟩
    change (if VM.isFalse fl (r' (Instruction.make .JZ tc 0 0 0).arg0.toNat) then
      skip { Instruction.make .JZ tc 0 0 0 with arg1 := int32 (k : Int) } r' else .goes 0 r') = _
    rw [harg0, skip_jump hk]
  · rw [hpeephole] at hprev hnext
    split at hprev
    · rename_i hmerge
      obtain ⟨hcmp, hlt⟩ := hmerge
      simp only [Option.some.injEq] at hprev
      subst hprev
      refine ⟨init, _, hmerged.instructions, rfl, fun k r msg hr => ?_, fun r r' hr => ?_⟩
      · refine raises_replace (fun r hraises => ?_) hr
        rw [effect_CMP hcmp] at hraises
        cases hv : (operand1 pi r).bind fun o =>
            comparison fl strcmp pi.arg3.toNat (r pi.arg2.toNat) o with
        | value o => simp [hv, Result.store] at hraises
        | raises msg' =>
            rw [effect_JCMP hlt k r hv (by simp)]
            simpa [hv, Result.store, jumpUnless] using hraises
        | outside => simp [hv, Result.store] at hraises
      · rw [← hopt, ho] at hr
        obtain ⟨r₀, hinit, hpi⟩ := settles_concat.mp hr
        rw [effect_CMP hcmp] at hpi
        obtain ⟨o, hv, rfl⟩ := store_goes hpi
        have hback : fs₁.instructions.back? = some pi := by
          rw [← Array.getLast?_toList, hs.instructions]
          simp
        obtain ⟨rfl, harg0'⟩ := htested (hopt ▸ ho) pi hback hcmp
        refine ⟨r₀, hinit, fun n hn => by simp [harg0', Nat.ne_of_lt hn], fun k hk => ?_⟩
        have hjcmp := effect_JCMP (L := L) hlt (int32 (k : Int)) r₀ hv (by simp)
        rw [jumpUnless, skip_jump hk { pi with op := .JCMP, arg0 := byte pi.arg1.toInt }] at hjcmp
        simpa [harg0'] using hjcmp
    · rename_i hmerge
      simp [hmerge] at hnext

/-- A branch of a conditional, whose code stands behind a jump. -/
theorem branch_computes {base t : Nat} {g : Registers → Result Object}
    {second : FuncState → FuncState} (hpiece : Piece fs pre [])
    (h : Computes (effect fl strcmp L) (base + 1) t g fs (second fs)) (haims : Aims fs (second fs) t)
    (htemp : base + 1 ≤ t ∨ (second fs).instructions = fs.instructions ∧
      (second fs).optimization = fs.optimization)
    (hsize : base < 256) (ht : t < 256)
    (hg : ∀ r r₁ : Registers, (∀ n, n < base → r₁ n = r n) → g r₁ = g r) :
    ∃ b, ((second fs).popInto base).instructions.toList = pre ++ b ∧
      ∀ r₀ r : Registers, (∀ n, n < base → r₀ n = r n) →
        Meets (effect fl strcmp L) false b r₀ ((g r).bind fun v => .value (Leaves base base v r)) := by
  have hcode : (second fs).dropTarget.instructions = (second fs).instructions := by
    rw [haims.dropTarget]
  have hopt : (second fs).dropTarget.optimization = (second fs).optimization := by
    rw [haims.dropTarget]
  obtain ⟨s, hs, -, hmeets⟩ := h pre [] hpiece
  have hsdrop : Piece (second fs).dropTarget pre s := hs.congr hcode fun ho => hopt ▸ ho
  rw [FuncState.popInto, haims.target]
  -- A temporary may be taken over; a variable is never the target of the instruction before.
  rcases htemp with htemp | ⟨hsame, -⟩
  · obtain ⟨b, hb, hraises, hmoved⟩ := does_move fl strcmp L
      (second fs).dropTarget hsize ht pre s hsdrop
    have hne : base ≠ t := by omega
    rw [FuncState.moveTo, if_pos hne]
    refine ⟨b, hb.instructions, fun r₀ r hlow => ?_⟩
    rw [← hg r r₀ hlow]
    refine (hmeets r₀ r₀ (.refl _ _ r₀)).bind (hraises r₀) fun v r₁ _ hr₁ hleaves => ?_
    obtain ⟨hv, hlow₁⟩ := hleaves
    rw [← hopt] at hr₁
    obtain ⟨r₂, hr₂, hbase, hother⟩ := hmoved r₀ r₁ hr₁
    refine ⟨r₂, settles_false.mpr hr₂.goes, by rw [hbase, hv], fun n hn => ?_⟩
    rw [hother n (by omega) (by omega), hlow₁ n (by omega), hlow n hn]
  · have hnil : s = [] := by
      have hlist := hs.instructions
      rw [hsame, hpiece.instructions] at hlist
      exact (List.append_cancel_left hlist).symm
    subst hnil
    obtain ⟨m, hm, -, hmsettles⟩ := moveTo_exact
      (second fs).dropTarget fl strcmp L hsize ht (by
        intro pi hback ho
        refine hsdrop.sealed rfl ho pi ?_
        rw [← hback, ← Array.getLast?_toList, hsdrop.instructions, List.append_nil])
    rw [hsdrop.instructions, List.append_nil] at hm
    refine ⟨m, hm, fun r₀ r hlow => ?_⟩
    rw [← hg r r₀ hlow]
    refine (hmeets r₀ r₀ (.refl _ _ r₀)).bind (fun msg hr => by simp at hr)
      fun v r₁ _ hr₁ hleaves => ?_
    obtain ⟨hv, -⟩ := hleaves
    have hsame' : r₀ = r₁ := by simpa using hr₁.goes
    subst hsame'
    exact ⟨_, hmsettles false r₀, by simp [hv], fun n hn => by simp [Nat.ne_of_lt hn, hlow n hn]⟩

/-! The pieces of a conditional: the test, a jump over the first branch, the branch, a jump over the
second one, and that. -/

section

variable {eff : Instruction → Registers → Exit Registers String} {base tc : Nat} {opt : Bool}
  {init b₁ b₂ : List Instruction} {jmp : Instruction} {r r' : Registers}

theorem Tests.raises_append (h : Tests eff fl base tc opt s init j) (k : GSInt32) {msg : String}
    (hr : enter eff 0 s r = .raises msg) (b : List Instruction) :
    enter eff 0 (init ++ { j with arg1 := k } :: b) r = .raises msg := by
  rw [List.append_cons]
  exact enter_append_of_raises (h.raises k r msg hr)

/-- A test with a branch on either side meets the conditional. -/
theorem Tests.meets {o o₁ o₂ : Result Object} (h : Tests eff fl base tc opt s init j)
    (hs : Meets eff opt s r (o.bind fun v => .value (Leaves base tc v r')))
    (hb₁ : ∀ r₀ : Registers, (∀ n, n < base → r₀ n = r' n) →
      Meets eff false b₁ r₀ (o₁.bind fun v => .value (Leaves base base v r')))
    (hb₂ : ∀ r₀ : Registers, (∀ n, n < base → r₀ n = r' n) →
      Meets eff false b₂ r₀ (o₂.bind fun v => .value (Leaves base base v r')))
    (hjmp : ∀ r₀, eff jmp r₀ = .goes b₂.length r₀) (hlength : b₁.length + 1 < 2 ^ 31) :
    Meets eff false
      (init ++ { j with arg1 := int32 ((b₁.length + 1 : Nat) : Int) } :: (b₁ ++ jmp :: b₂)) r
      ((o.bind fun v => if VM.isFalse fl v then o₂ else o₁).bind fun v =>
        .value (Leaves base base v r')) := by
  rw [Result.bind_assoc]
  refine hs.bind (fun msg hr => h.raises_append _ hr _) fun v r₁ _ hr₁ hleaves => ?_
  obtain ⟨rfl, hlow⟩ := hleaves
  obtain ⟨r₀, hinit, hlow₀, htest⟩ := h.jumps r r₁ hr₁
  have hj := htest (b₁.length + 1) hlength
  have hsame (n : Nat) (hn : n < base) : r₀ n = r' n := by rw [hlow₀ n hn, hlow n hn]
  by_cases hfalse : VM.isFalse fl (r₁ tc) = true
  · rw [if_pos hfalse] at hj ⊢
    refine (hb₂ r₀ hsame).of_enter ?_
    rw [enter_append_of_goes hinit, enter_zero_cons, hj, Exit.bind_goes, enter_append,
      enter_length, Exit.bind_goes, enter_succ_cons]
  · rw [if_neg hfalse] at hj ⊢
    have henter : enter eff 0 (init ++ { j with arg1 := int32 ((b₁.length + 1 : Nat) : Int) } ::
        (b₁ ++ jmp :: b₂)) r = enter eff 0 (b₁ ++ jmp :: b₂) r₀ := by
      rw [enter_append_of_goes hinit, enter_zero_cons, hj, Exit.bind_goes]
    refine (hb₁ r₀ hsame).bind (fun msg hr => ?_) fun w r₂ _ hr₂ hleaves => ?_
    · exact henter.trans (enter_append_of_raises hr)
    · refine ⟨r₂, settles_false.mpr ?_, hleaves⟩
      rw [henter, enter_append_of_goes hr₂.goes, enter_zero_cons, hjmp, Exit.bind_goes]
      exact enter_length _ _ 0 _

end

/-- The code of a conditional computes it, if its test and branches are
computed. -/
theorem computes_cond {base tc t₁ t₂ : Nat} {f g₁ g₂ : Registers → Result Object}
    {first second : FuncState → FuncState} (h₀ : Computes (effect fl strcmp L) base tc f fs fs₁)
    (haims : Aims fs fs₁ tc) (hbase : fs.vlocals.size = base) (htested : fs₁.Tested base tc)
    (h₁ : Computes (effect fl strcmp L) (base + 1) t₁ g₁ fs₁.testTarget.pushTarget
      (first fs₁.testTarget.pushTarget))
    (haims₁ : Aims fs₁.testTarget.pushTarget (first fs₁.testTarget.pushTarget) t₁)
    (htemp₁ : base + 1 ≤ t₁ ∨ (first fs₁.testTarget.pushTarget).instructions =
      fs₁.testTarget.pushTarget.instructions ∧ (first fs₁.testTarget.pushTarget).optimization =
        fs₁.testTarget.pushTarget.optimization)
    (h₂ : Computes (effect fl strcmp L) (base + 1) t₂ g₂ (fs₁.testTarget.emitFirst first)
      (second (fs₁.testTarget.emitFirst first)))
    (haims₂ : Aims (fs₁.testTarget.emitFirst first) (second (fs₁.testTarget.emitFirst first)) t₂)
    (htemp₂ : base + 1 ≤ t₂ ∨ (second (fs₁.testTarget.emitFirst first)).instructions =
      (fs₁.testTarget.emitFirst first).instructions ∧
        (second (fs₁.testTarget.emitFirst first)).optimization =
          (fs₁.testTarget.emitFirst first).optimization)
    (hsize : base < 256) (htc : tc < 256) (ht₁ : t₁ < 256) (ht₂ : t₂ < 256)
    (hlength : (fs₁.emitCond first second).instructions.size < 2 ^ 31)
    (hg₁ : ∀ r r₁ : Registers, (∀ n, n < base → r₁ n = r n) → g₁ r₁ = g₁ r)
    (hg₂ : ∀ r r₁ : Registers, (∀ n, n < base → r₁ n = r n) → g₂ r₁ = g₂ r) :
    Computes (effect fl strcmp L) base base
      (fun r => (f r).bind fun v => if VM.isFalse fl v then g₂ r else g₁ r) fs
      (fs₁.emitCond first second) := by
  intro pre s hs
  obtain ⟨s₁, hs₁, hraises₁, hmeets₁⟩ := h₀ pre s hs
  obtain ⟨init, j, hlist, htests⟩ := testTarget_tests fl strcmp L haims htc
    htested hs₁
  have htarget : fs₁.testTarget.vlocals.size = base := by rw [haims.testTarget.1, hbase]
  rw [← List.append_assoc] at hlist
  -- The first branch, behind the jump, and the jump behind it.
  have hpiece₁ : Piece fs₁.testTarget.pushTarget (pre ++ init ++ [j]) [] :=
    .behind (by rw [List.append_nil]; exact hlist) htests.sealed
  obtain ⟨b₁, hb₁, hbranch₁⟩ := branch_computes hpiece₁ h₁ haims₁ htemp₁ hsize ht₁ hg₁
  obtain ⟨hcode, -⟩ := addInstruction_plain ((first fs₁.testTarget.pushTarget).popInto base)
    (i := .make .JMP 0 0 0 0) (by rfl)
  have hone : (fs₁.testTarget.emitFirst first).instructions.toList =
      pre ++ init ++ [j] ++ b₁ ++ [.make .JMP 0 0 0 0] := by
    rw [FuncState.emitFirst, htarget, hcode, Array.toList_push, hb₁]
  -- The second branch, behind that jump.
  have hpiece₂ : Piece (fs₁.testTarget.emitFirst first)
      (pre ++ init ++ [j] ++ b₁ ++ [.make .JMP 0 0 0 0]) [] :=
    .behind (by rw [List.append_nil, hone]) rfl
  obtain ⟨b₂, hb₂, hbranch₂⟩ := branch_computes hpiece₂ h₂ haims₂ htemp₂ hsize ht₂ hg₂
  -- The operands of the two jumps.
  have hpos₂ : (fs₁.testTarget.emitFirst first).getCurrentPos =
      ((pre ++ init ++ [j] ++ b₁).length : Int) := getCurrentPos_of_toList hone
  have hpos₁ : fs₁.testTarget.getCurrentPos = ((pre ++ init).length : Int) :=
    getCurrentPos_of_toList hlist
  have htwo : ((second (fs₁.testTarget.emitFirst first)).popInto base).instructions.toList =
      (pre ++ init ++ [j] ++ b₁) ++ .make .JMP 0 0 0 0 :: b₂ := by simp [hb₂]
  have hjumped := jumpHere_toList htwo hpos₂
  have hdistance : (fs₁.testTarget.emitFirst first).getCurrentPos - fs₁.testTarget.getCurrentPos =
      ((b₁.length + 1 : Nat) : Int) := by
    rw [hpos₁, hpos₂]
    simp only [List.length_append, List.length_singleton]
    omega
  have hfinal : (fs₁.emitCond first second).instructions.toList = pre ++ (init ++
      { j with arg1 := int32 ((b₁.length + 1 : Nat) : Int) } :: (b₁ ++
        { Instruction.make .JMP 0 0 0 0 with arg1 := int32 (b₂.length : Int) } :: b₂)) := by
    have hset := setInstructionParam_toList (j := j)
      (by simpa [List.append_assoc] using hjumped) hpos₁
      ((fs₁.testTarget.emitFirst first).getCurrentPos - fs₁.testTarget.getCurrentPos)
    rw [hdistance] at hset
    simpa only [FuncState.emitCond, snoozeOpt, htarget, hdistance, List.append_assoc, make_op]
      using hset
  have hlengths : b₁.length + 1 < 2 ^ 31 ∧ b₂.length < 2 ^ 31 := by
    have hsize := congrArg List.length hfinal
    simp only [List.length_append, List.length_cons, Array.length_toList] at hsize
    omega
  exact ⟨_, .of_ne_nil hfinal (by simp),
    fun r msg hr => htests.raises_append _ (hraises₁ r msg hr) _,
    fun r r' hr => htests.meets (hmeets₁ r r' hr) (fun r₀ => hbranch₁ r₀ r')
      (fun r₀ => hbranch₂ r₀ r') (skip_jump hlengths.2 _) hlengths.1⟩

end

/-! ### The last instruction -/

/-- A jump that tests a register takes a comparison before it over, whatever that is of. -/
def afterCmp (fs : FuncState) : Bool := fs.optimization && fs.instructions.back?.any (·.op = .CMP)

theorem tested_of_afterCmp {base tc : Nat} (h : fs.afterCmp = false) : fs.Tested base tc := by
  intro hopt pi hback hop
  simp [afterCmp, hopt, hback, hop] at h

theorem tested_cmp (fs : FuncState) {i : Instruction} {base : Nat} (hi : i.op = .CMP)
    (harg0 : i.arg0.toNat = base) : (fs.addInstruction i).Tested base base := by
  intro _ k hk _
  have hplain : i.op.plain = true := by rw [hi]; rfl
  have hlast : k = i := by simpa [(addInstruction_plain fs hplain).1] using hk.symm
  exact ⟨rfl, hlast ▸ harg0⟩

theorem afterCmp_plain (fs : FuncState) {i : Instruction} (hi : i.op.plain = true)
    (hcmp : i.op ≠ .CMP) : (fs.addInstruction i).afterCmp = false := by
  simp [afterCmp, (addInstruction_plain fs hi).1, hcmp]

/-- What the optimiser makes of the instruction before is no comparison either. -/
theorem afterCmp_merged (fs : FuncState) {i : Instruction} (hi : i.op ≠ .CMP)
    (hmerge : ∀ pi, fs.peephole pi i = { prev := some pi, next := some i } ∨
      ∃ pi', (fs.peephole pi i).prev = some pi' ∧ (fs.peephole pi i).next = none ∧ pi'.op ≠ .CMP) :
    (fs.addInstruction i).afterCmp = false := by
  unfold FuncState.addInstruction
  cases hback : fs.instructions.back? with
  | none => simp [afterCmp, hi]
  | some pi =>
      dsimp only
      split
      · rcases hmerge pi with hkeep | ⟨pi', hprev, hnext, hpi'⟩
        · simp [afterCmp, hkeep, hi]
        · simp [afterCmp, hnext, hprev, hpi']
      · simp [afterCmp, hi]

theorem afterCmp_load (fs : FuncState) (a0 a1 a2 a3 : Int) :
    (fs.addInstruction (.make .LOAD a0 a1 a2 a3)).afterCmp = false := by
  apply afterCmp_merged fs (by simp)
  intro pi
  simp only [peephole, make_op]
  split <;> simp

/-- A LOADNULLS leaves no comparison at the end. -/
theorem afterCmp_loadnulls (fs : FuncState) (a0 a1 a2 a3 : Int) :
    (fs.addInstruction (.make .LOADNULLS a0 a1 a2 a3)).afterCmp = false := by
  apply afterCmp_merged fs (by simp)
  intro pi
  simp only [peephole, make_op]
  split
  · rename_i hmerge
    exact .inr ⟨_, rfl, rfl, by simp [hmerge.1]⟩
  · exact .inl rfl

/-- EQ and NE leave no comparison at the end. -/
theorem afterCmp_equality (fs : FuncState) {i : Instruction} (hi : i.op = .EQ ∨ i.op = .NE) :
    (fs.addInstruction i).afterCmp = false := by
  have hne : i.op ≠ .CMP := by rcases hi with hi | hi <;> simp [hi]
  apply afterCmp_merged fs hne
  intro pi
  rw [peephole_equality fs pi hi]
  split
  · exact .inr ⟨_, rfl, rfl, hne⟩
  · exact .inl rfl

/-- A MOVE leaves no comparison at the end where there was none. -/
theorem afterCmp_moveTo (trg src : Nat) (h : fs.afterCmp = false) :
    (fs.moveTo trg src).afterCmp = false := by
  unfold moveTo
  split
  · apply afterCmp_merged fs (by simp)
    intro pi
    simp only [peephole, make_op]
    split
    · rename_i hmerge
      refine .inr ⟨_, rfl, rfl, fun hop => ?_⟩
      have hpi : pi.op = .CMP := hop
      simp [hpi, Opcode.takesOver] at hmerge
    · split
      · exact .inr ⟨_, rfl, rfl, by simp⟩
      · exact .inl rfl
  · exact h

theorem afterCmp_testTarget : fs.testTarget.afterCmp = false := by
  apply afterCmp_merged fs.dropTarget (by simp)
  intro pi
  simp only [peephole, make_op]
  split
  · exact .inr ⟨_, rfl, rfl, by simp⟩
  · exact .inl rfl

variable (fs) in
theorem afterCmp_emitFirst (first : FuncState → FuncState) :
    (fs.emitFirst first).afterCmp = false := afterCmp_plain _ (by rfl) (by simp)

end FuncState

namespace Formula

/-- Whether the code of the formula ends in a comparison, where `before` says so of what stands
before it. -/
def endsInCmp (before : Bool) : Formula → Bool
  | .var _ => before
  | .binary (.cmp _) _ _ => true
  | _ => false

/-- No condition is a bare variable right behind a comparison: the jump would test that. -/
def WellTested : Formula → Bool → Prop
  | .unary _ a, before => a.WellTested before
  | .binary _ a b, before => a.WellTested before ∧ b.WellTested (a.endsInCmp before)
  | .and a b, before | .or a b, before => a.WellTested before ∧ b.WellTested false
  | .cond c a b, before => (c.width = 1 ∨ before = false) ∧ c.WellTested before ∧
      a.WellTested false ∧ b.WellTested false
  | _, _ => True

theorem endsInCmp_mono {e : Formula} {before before' : Bool} (h : before = true → before' = true)
    (he : e.endsInCmp before = true) : e.endsInCmp before' = true := by
  unfold endsInCmp at *
  split at he
  · exact h he
  · rfl
  · simp at he

/-- What is tested well behind a comparison is so behind anything else. -/
theorem WellTested.mono {e : Formula} {before before' : Bool} (h : e.WellTested before')
    (hle : before = true → before' = true) : e.WellTested before := by
  induction e generalizing before before' with
  | unary op a ih => exact ih h hle
  | binary op a b iha ihb => exact ⟨iha h.1 hle, ihb h.2 (endsInCmp_mono hle)⟩
  | and a b iha ihb | or a b iha ihb => exact ⟨iha h.1 hle, h.2⟩
  | cond c a b ihc iha ihb =>
      refine ⟨h.1.imp_right fun hfalse => ?_, ihc h.2.1 hle, h.2.2⟩
      subst hfalse
      simpa using hle
  | _ => trivial

/-- The code of a formula ends in a comparison only where the formula does. -/
theorem emit_afterCmp {e : Formula} {fs : FuncState} (h : (e.emit fs).afterCmp = true) :
    e.endsInCmp fs.afterCmp = true := by
  have hno {gs : FuncState} (hgs : gs.afterCmp = false) (hemit : e.emit fs = gs) : False := by
    rw [hemit, hgs] at h
    cases h
  cases e with
  | int n =>
      exfalso
      by_cases hn : n.toInt ≤ INT_MAX ∧ INT_MIN < n.toInt
      · exact hno (FuncState.afterCmp_plain _ (by rfl) (by simp)) (if_pos hn)
      · exact hno (FuncState.afterCmp_load _ _ _ _ _) (if_neg hn)
  | float f => exact (hno (FuncState.afterCmp_plain _ (by rfl) (by simp)) rfl).elim
  | str s => exact (hno (FuncState.afterCmp_load _ _ _ _ _) rfl).elim
  | bool b => exact (hno (FuncState.afterCmp_plain _ (by rfl) (by simp)) rfl).elim
  | null => exact (hno (FuncState.afterCmp_loadnulls _ _ _ _ _) rfl).elim
  | var name =>
      have hsame : ((var name).emit fs).afterCmp = fs.afterCmp := by
        cases hname : fs.getLocalVariable (.string name) <;> simp [emit, hname, FuncState.afterCmp]
      rwa [hsame] at h
  | unary op a =>
      exact (hno (FuncState.afterCmp_plain _ (by cases op <;> rfl)
        (by cases op <;> simp [UnaryOperator.code])) rfl).elim
  | binary op a b =>
      by_cases hequality : op.code.1 = .EQ ∨ op.code.1 = .NE
      · exact (hno (FuncState.afterCmp_equality _ hequality) rfl).elim
      · rcases op with op | op | _ | _ | op
        · exact (hno (FuncState.afterCmp_plain _ (by cases op <;> rfl)
            (by cases op <;> simp [Operator.code])) rfl).elim
        · exact (hno (FuncState.afterCmp_plain _ (by rfl) (by simp [Operator.code])) rfl).elim
        · simp [Operator.code] at hequality
        · simp [Operator.code] at hequality
        · rfl
  | and a b | or a b | cond c a b => exact (hno (by rfl) rfl).elim

/-- The jump of a conditional tests the condition. -/
theorem emit_tested {e : Formula} {fs : FuncState} (hbare : e.width = 1 ∨ fs.afterCmp = false)
    (hfits : e.Fits fs) : (e.emit fs).Tested fs.vlocals.size (e.result fs) := by
  by_cases hafter : (e.emit fs).afterCmp = true
  · have hends := emit_afterCmp hafter
    unfold endsInCmp at hends
    split at hends
    · rw [hends] at hbare
      simp [width] at hbare
    · rename_i op a b
      obtain ⟨hfitsa, hfitsb⟩ := hfits.binary
      have hregisters := hfits.registers
      simp only [height] at hregisters
      have haims := aims_emit hfitsa.resolves
      have haimsb := aims_emit hfitsb.resolves
      have haims' : FuncState.Aims fs (b.emit (a.emit fs)).dropTarget _ := haims.congr rfl rfl
        (by simp [haimsb.dropTarget]) (by simp [haimsb.dropTarget])
      have htarget : (b.emit (a.emit fs)).dropTarget.dropTarget.vlocals.size = fs.vlocals.size := by
        simp [haims'.dropTarget]
      change ((b.emit (a.emit fs)).emitBinary .CMP op.code).Tested _ _
      unfold FuncState.emitBinary
      dsimp only
      rw [htarget]
      exact FuncState.tested_cmp _ rfl (FuncState.make_arg0 (by omega))
    · simp at hends
  · exact FuncState.tested_of_afterCmp (by simpa using hafter)

end Formula

/-! ### The code of a formula -/

/-- The values of the variables, in the registers of the function. -/
def FuncState.env (fs : FuncState) (r : Registers) (s : List UInt8) : Object :=
  r ((fs.getLocalVariable (.string s)).getD 0)

namespace Formula

variable {fl : FloatOps} {strcmp : List UInt8 → List UInt8 → Int} {L : List Object}

/-- A formula depends on its own variables only. -/
theorem eval_congr {e : Formula} {env env' : List UInt8 → Object}
    (h : ∀ s ∈ e.vars, env s = env' s) : e.eval fl strcmp env = e.eval fl strcmp env' := by
  induction e with
  | var name => simp [eval, h name (by simp [vars])]
  | unary op a ih => simp only [eval, ih h]
  | binary op a b iha ihb | and a b iha ihb | or a b iha ihb =>
      simp only [vars, List.forall_mem_append] at h
      simp only [eval, iha h.1, ihb h.2]
  | cond c a b ihc iha ihb =>
      simp only [vars, List.forall_mem_append] at h
      simp only [eval, ihc h.1.1, iha h.1.2, ihb h.2]
  | _ => rfl

theorem lookup_lt {fs : FuncState} {s : List UInt8} {pos : Nat}
    (h : fs.getLocalVariable (.string s) = some pos) : pos < fs.vlocals.size := by
  have hmem := List.mem_of_find?_eq_some h
  simpa using hmem

/-- The value depends on the registers of the variables. -/
theorem eval_registers {e : Formula} {fs : FuncState} (h : e.Resolves fs) {r r₁ : Registers}
    (hlow : ∀ n, n < fs.vlocals.size → r₁ n = r n) :
    e.eval fl strcmp (fs.env r₁) = e.eval fl strcmp (fs.env r) := by
  apply eval_congr
  intro s hs
  obtain ⟨pos, hpos⟩ := Option.isSome_iff_exists.mp (h s hs)
  simp [FuncState.env, hpos, hlow pos (lookup_lt hpos)]

theorem env_congr {fs gs : FuncState}
    (h : ∀ s, gs.getLocalVariable (.string s) = fs.getLocalVariable (.string s)) (r : Registers) :
    gs.env r = fs.env r := by
  funext s
  simp [FuncState.env, h s]

theorem result_lt {e : Formula} {fs : FuncState} (h : e.Fits fs) : e.result fs < 256 := by
  have hregisters := h.registers
  have hwidth := e.width_le_height
  cases e with
  | var name =>
      obtain ⟨pos, hpos⟩ := h.local
      have hlt := lookup_lt hpos
      simp only [result, hpos, Option.getD_some]
      omega
  | _ =>
      simp only [width] at hwidth
      simp only [result]
      omega

/-- The result of a formula is a register of its own, or the formula is a variable. -/
theorem emit_target {e : Formula} {fs : FuncState} (h : e.Resolves fs) :
    fs.vlocals.size ≤ e.result fs ∨
      (e.emit fs).instructions = fs.instructions ∧ (e.emit fs).optimization = fs.optimization := by
  cases e with
  | var name =>
      obtain ⟨pos, hpos⟩ := Option.isSome_iff_exists.mp (h name (by simp [vars]))
      exact .inr (by simp [emit, hpos])
  | _ => exact .inl le_rfl

/-- The code of `and` and of `or`, from that of the operands. -/
theorem shortCircuit_computes {a b : Formula} {fs : FuncState} {op : Opcode} {falsy : Bool}
    (hop : op = .AND ∧ falsy = true ∨ op = .OR ∧ falsy = false) (ha : a.Fits fs)
    (hb : b.Resolves fs) (hregisters : fs.vlocals.size + (1 + b.height) ≤ 256)
    (hliterals : fs.literals.size + (a.constants + b.constants) ≤ MAX_LITERALS)
    (hlength : fs.instructions.size + (a.length + b.length + 3) < 2 ^ 31)
    (hL : ((a.emit fs).emitShortCircuit op b.emit).literals.toList <+: L)
    (iha : (a.emit fs).literals.toList <+: L → FuncState.Computes (effect fl strcmp L)
      fs.vlocals.size (a.result fs) (fun r => a.eval fl strcmp (fs.env r)) fs (a.emit fs))
    (ihb : ∀ {gs : FuncState}, gs.afterCmp = false → b.Fits gs →
      gs.instructions.size + b.length < 2 ^ 31 → (b.emit gs).literals.toList <+: L →
      FuncState.Computes (effect fl strcmp L)
        gs.vlocals.size (b.result gs) (fun r => b.eval fl strcmp (gs.env r)) gs (b.emit gs)) :
    FuncState.Computes (effect fl strcmp L) fs.vlocals.size fs.vlocals.size
      (fun r => (a.eval fl strcmp (fs.env r)).bind fun v =>
        if VM.isFalse fl v = falsy then .value v else b.eval fl strcmp (fs.env r)) fs
      ((a.emit fs).emitShortCircuit op b.emit) := by
  have haims := aims_emit ha.resolves
  have hjump := haims.jumpOver op
  have hfits := Fits.second op ha.resolves hb hregisters hliterals
  have hgrows := ((a.grows_emit fs).trans (FuncState.grows_jumpOver _ op)).trans
    (FuncState.grows_moveTo _ ((a.emit fs).jumpOver op).target (a.emit fs).target)
  have hcode := hgrows.length
  have hall := ((a.grows_emit fs).trans
    (FuncState.grows_emitShortCircuit _ op b.grows_emit)).length
  rw [hjump.target, haims.target] at hfits hcode
  have hvlocals : (((a.emit fs).jumpOver op).moveTo fs.vlocals.size (a.result fs)).vlocals.size =
      fs.vlocals.size + 1 := by
    rcases hjump.vlocals with ⟨-, hvlocals⟩ | ⟨hlocal, -⟩
    · simp [hvlocals]
    · simp [FuncState.isLocal] at hlocal
  have henv (r : Registers) :
      (((a.emit fs).jumpOver op).moveTo fs.vlocals.size (a.result fs)).env r = fs.env r :=
    env_congr (fun s => by
      rw [FuncState.getLocalVariable_congr (FuncState.moveTo_vlocals _ _ _),
        hjump.getLocalVariable]) r
  have hsecond : (b.emit (((a.emit fs).jumpOver op).moveTo fs.vlocals.size
      (a.result fs))).literals.toList <+: ((a.emit fs).emitShortCircuit op b.emit).literals.toList := by
    have hrest := (FuncState.grows_popInto (b.emit (((a.emit fs).jumpOver op).moveTo fs.vlocals.size
      (a.result fs))).snoozeOpt fs.vlocals.size).literals
    simpa [FuncState.emitShortCircuit, hjump.target, haims.target, FuncState.jumpHere,
      FuncState.setInstructionParam, FuncState.snoozeOpt] using hrest
  have hfirst : (a.emit fs).literals.toList <+: L :=
    ((FuncState.grows_emitShortCircuit _ op b.grows_emit).literals).trans hL
  have hafter : (((a.emit fs).jumpOver op).moveTo fs.vlocals.size (a.result fs)).afterCmp = false := by
    apply FuncState.afterCmp_moveTo
    apply FuncState.afterCmp_plain
    · rcases hop with ⟨rfl, -⟩ | ⟨rfl, -⟩ <;> rfl
    · rcases hop with ⟨rfl, -⟩ | ⟨rfl, -⟩ <;> simp
  have hb' := ihb hafter hfits (by omega) (hsecond.trans hL)
  simp only [hvlocals, henv] at hb'
  exact FuncState.computes_shortCircuit hop (iha hfirst) haims rfl hb' (aims_emit hfits.resolves)
    (by omega) (result_lt ha) (result_lt hfits) (by omega) fun r r₁ hlow => eval_registers hb hlow

/-- The code of a conditional, from that of its three parts. -/
theorem cond_computes {c a b : Formula} {fs : FuncState} (hfits : (cond c a b).Fits fs)
    (hwidth : c.width = 1 ∨ fs.afterCmp = false) (haw : a.WellTested false)
    (hbw : b.WellTested false)
    (hlength : fs.instructions.size + (c.length + a.length + b.length + 4) < 2 ^ 31)
    (hL : (((c.emit fs).emitCond a.emit b.emit)).literals.toList <+: L)
    (ihc : c.Fits fs → fs.instructions.size + c.length < 2 ^ 31 →
      (c.emit fs).literals.toList <+: L → FuncState.Computes (effect fl strcmp L)
        fs.vlocals.size (c.result fs) (fun r => c.eval fl strcmp (fs.env r)) fs (c.emit fs))
    (iha : ∀ {gs : FuncState}, a.WellTested gs.afterCmp → a.Fits gs →
      gs.instructions.size + a.length < 2 ^ 31 → (a.emit gs).literals.toList <+: L →
      FuncState.Computes (effect fl strcmp L)
        gs.vlocals.size (a.result gs) (fun r => a.eval fl strcmp (gs.env r)) gs (a.emit gs))
    (ihb : ∀ {gs : FuncState}, b.WellTested gs.afterCmp → b.Fits gs →
      gs.instructions.size + b.length < 2 ^ 31 → (b.emit gs).literals.toList <+: L →
      FuncState.Computes (effect fl strcmp L)
        gs.vlocals.size (b.result gs) (fun r => b.eval fl strcmp (gs.env r)) gs (b.emit gs)) :
    FuncState.Computes (effect fl strcmp L) fs.vlocals.size fs.vlocals.size
      (fun r => (c.eval fl strcmp (fs.env r)).bind fun v =>
        if VM.isFalse fl v then b.eval fl strcmp (fs.env r) else a.eval fl strcmp (fs.env r)) fs
      ((c.emit fs).emitCond a.emit b.emit) := by
  obtain ⟨hfitsc, hfitsa, hfitsb⟩ := hfits.cond
  have hregisters := hfits.registers
  simp only [height] at hregisters
  have hresolves := hfits.resolves
  simp only [Resolves, vars, List.forall_mem_append] at hresolves
  obtain ⟨⟨hc, ha⟩, hb⟩ := hresolves
  have haims := aims_emit hc
  have hvlocals := haims.testTarget.1
  have hlookup (s : List UInt8) := FuncState.getLocalVariable_congr hvlocals (.string s)
  have hpush := FuncState.aims_pushTarget (c.emit fs).testTarget
  have hfirst : FuncState.Aims _ ((c.emit fs).testTarget.emitFirst a.emit) _ :=
    FuncState.aims_emitFirst _ fun gs hgs => ⟨_, aims_emit (Resolves.congr ha fun s => (hgs s).trans (hlookup s))⟩
  -- The states in which the branches are compiled.
  have hsize₁ : (c.emit fs).testTarget.pushTarget.vlocals.size = fs.vlocals.size + 1 := by
    simp [FuncState.pushTarget, hvlocals]
  have hsize₂ : ((c.emit fs).testTarget.emitFirst a.emit).vlocals.size =
      fs.vlocals.size + 1 := by
    rcases hfirst.vlocals with ⟨-, hsize⟩ | ⟨hlocal, -⟩
    · simp [hsize, hvlocals]
    · simp [FuncState.isLocal] at hlocal
  have henv₁ := env_congr fun s => (hpush.getLocalVariable s).trans (hlookup s)
  have henv₂ := env_congr fun s => (hfirst.getLocalVariable s).trans (hlookup s)
  have hgrowsc := (c.grows_emit fs).trans (FuncState.grows_testTarget _)
  have hgrowsa := hgrowsc.trans
    (FuncState.grows_emitFirst (c.emit fs).testTarget a.grows_emit)
  have hcode₁ := (hgrowsc.trans (FuncState.grows_pushTarget _)).length
  have hcode₂ := hgrowsa.length
  have hall := ((c.grows_emit fs).trans
    (FuncState.grows_emitCond _ a.grows_emit b.grows_emit)).length
  -- All literals stay.
  have hL₂ : (b.emit ((c.emit fs).testTarget.emitFirst a.emit)).literals.toList <+: L :=
    (FuncState.grows_popInto _ (c.emit fs).testTarget.vlocals.size).literals.trans hL
  have hL₀ : ((c.emit fs).testTarget.emitFirst a.emit).literals.toList <+: L :=
    (b.grows_emit _).literals.trans hL₂
  have hL₁ : (a.emit (c.emit fs).testTarget.pushTarget).literals.toList <+: L := by
    have hrest := ((FuncState.grows_popInto (a.emit (c.emit fs).testTarget.pushTarget)
      (c.emit fs).testTarget.vlocals.size).trans
        (FuncState.grows_addInstruction _ (.make .JMP 0 0 0 0))).literals
    exact hrest.trans hL₀
  have hLc : (c.emit fs).literals.toList <+: L :=
    (FuncState.grows_emitCond _ a.grows_emit b.grows_emit).literals.trans hL
  have hafter₁ : (c.emit fs).testTarget.pushTarget.afterCmp = false := FuncState.afterCmp_testTarget
  have hafter₂ := FuncState.afterCmp_emitFirst (c.emit fs).testTarget a.emit
  have hone := iha (hafter₁ ▸ haw) hfitsa (by omega) hL₁
  have htwo := ihb (hafter₂ ▸ hbw) hfitsb (by omega) hL₂
  simp only [hsize₁, henv₁] at hone
  simp only [hsize₂, henv₂] at htwo
  exact FuncState.computes_cond (ihc hfitsc (by omega) hLc) haims rfl
    (emit_tested hwidth hfitsc) hone (aims_emit hfitsa.resolves)
    (hsize₁ ▸ emit_target hfitsa.resolves) htwo (aims_emit hfitsb.resolves)
    (hsize₂ ▸ emit_target hfitsb.resolves) (by omega) (result_lt hfitsc) (result_lt hfitsa)
    (result_lt hfitsb) (by omega)
    (fun r r₁ hlow => eval_registers ha hlow) fun r r₁ hlow => eval_registers hb hlow

variable (fl strcmp L) in
/-- The code of a formula leaves its value in its target, or raises its error. -/
theorem emit_computes {e : Formula} {fs : FuncState} (htested : e.WellTested fs.afterCmp)
    (hfits : e.Fits fs)
    (hlength : fs.instructions.size + e.length < 2 ^ 31)
    (hL : (e.emit fs).literals.toList <+: L) :
    FuncState.Computes (effect fl strcmp L) fs.vlocals.size (e.result fs)
      (fun r => e.eval fl strcmp (fs.env r)) fs (e.emit fs) := by
  induction e generalizing fs with
  | int n =>
      have hliterals := hfits.literals
      simp only [constants] at hliterals
      exact FuncState.computes_int (hfits.room_of_literal rfl) (by omega) hL
  | float f => exact FuncState.computes_float (hfits.room_of_literal rfl)
  | str s =>
      have hliterals := hfits.literals
      simp only [constants] at hliterals
      exact FuncState.computes_constant (hfits.room_of_literal rfl) (by omega) hL
  | bool b => exact FuncState.computes_bool (hfits.room_of_literal rfl)
  | null => exact FuncState.computes_null (hfits.room_of_literal rfl)
  | var name =>
      obtain ⟨pos, hpos⟩ := hfits.local
      intro pre s hs
      have hemit : (var name).emit fs = { fs with targetstack := pos :: fs.targetstack } := by
        simp [emit, hpos]
      rw [hemit]
      refine ⟨s, hs.congr rfl id, fun _ _ hr => hr, fun r r' hr => ⟨r', hr, ?_, fun _ _ => rfl⟩⟩
      simp [result, FuncState.env, hpos]
  | unary op a ih =>
      have hfitsa := hfits.unary
      simp only [length] at hlength
      have hL' := (FuncState.grows_emitUnary (a.emit fs) op.code).literals.trans hL
      have hregisters := hfits.registers
      simp only [height] at hregisters
      exact FuncState.computes_unary op (ih htested hfitsa (by omega) hL')
        (aims_emit hfitsa.resolves) rfl (by omega) (result_lt hfitsa)
  | binary op a b iha ihb =>
      obtain ⟨hfitsa, hfitsb⟩ := hfits.binary
      simp only [length] at hlength
      have hLb := (FuncState.grows_emitBinary (b.emit (a.emit fs)) op.code.1
        op.code.2).literals.trans hL
      have hLa := (b.grows_emit (a.emit fs)).literals.trans hLb
      have hgrows := (a.grows_emit fs).length
      have hregisters := hfits.registers
      simp only [height] at hregisters
      have haims := aims_emit hfitsa.resolves
      have hb := ihb (htested.2.mono emit_afterCmp) hfitsb (by omega) hLb
      simp only [env_congr haims.getLocalVariable] at hb
      have htl₁ : a.result fs < (a.emit fs).vlocals.size := by
        rcases haims.vlocals with ⟨hresult, hvlocals⟩ | ⟨hlocal, hvlocals⟩
        · simp [hresult, hvlocals]
        · rw [hvlocals]
          by_contra hge
          simp [FuncState.isLocal, Array.getElem?_eq_none (Nat.le_of_not_lt hge)] at hlocal
      exact FuncState.computes_binary op (iha htested.1 hfitsa (by omega) hLa) haims hb
        (aims_emit hfitsb.resolves) rfl (by omega) (result_lt hfitsa) (result_lt hfitsb) htl₁
        fun r r₁ hlow => eval_registers (Resolves.congr hfitsb.resolves fun s =>
          (haims.getLocalVariable s).symm) hlow
  | and a b iha ihb =>
      obtain ⟨hfitsa, hb, hregisters, hliterals⟩ := hfits.and
      simp only [length] at hlength
      exact shortCircuit_computes (.inl ⟨rfl, rfl⟩) hfitsa hb hregisters hliterals hlength hL
        (iha htested.1 hfitsa (by omega)) fun hafter => ihb (hafter ▸ htested.2)
  | or a b iha ihb =>
      obtain ⟨hfitsa, hb, hregisters, hliterals⟩ := hfits.or
      simp only [length] at hlength
      have hcode := shortCircuit_computes (.inr ⟨rfl, rfl⟩) hfitsa hb hregisters hliterals hlength hL
        (iha htested.1 hfitsa (by omega)) fun hafter => ihb (hafter ▸ htested.2)
      have hswap (r : Registers) : (or a b).eval fl strcmp (fs.env r) =
          (a.eval fl strcmp (fs.env r)).bind fun v =>
            if VM.isFalse fl v = false then .value v else b.eval fl strcmp (fs.env r) := by
        simp only [eval]
        congr 1
        funext v
        cases VM.isFalse fl v <;> rfl
      simp only [hswap]
      exact hcode
  | cond c a b ihc iha ihb =>
      obtain ⟨hwidth, hcw, haw, hbw⟩ := htested
      simp only [length] at hlength
      exact cond_computes hfits hwidth haw hbw hlength hL (ihc hcw) iha ihb

end Formula

end GameScript
