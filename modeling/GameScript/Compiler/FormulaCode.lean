import GameScript.Compiler.Formula

/-!
The code of a formula computes its value. The code is looked at in pieces: what stands before a
piece is left alone, and a piece means the same wherever it stands. The optimiser changes the last
instruction of a piece; where it takes the result of a temporary over, the temporary keeps its old
value, which nothing reads.

`Does fs fs' post` says what the code between two states of the function does to the registers, and
`Formula.emit_does` that the code of a formula leaves its value in its target.
-/

namespace GameScript

open Calc Forward

/-- The instructions that the optimiser may merge the next one of a formula into. -/
def Opcode.mergeable : Opcode → Bool
  | .CMP | .MOVE | .LOADNULLS => true
  | op => FuncState.Opcode.takesOver op

theorem Opcode.mergeable_of_takesOver {op : Opcode} (h : FuncState.Opcode.takesOver op = true) :
    op.mergeable = true := by
  unfold Opcode.mergeable
  split
  · rfl
  · rfl
  · rfl
  · exact h

namespace FuncState

/-! ### Pieces of code -/

/-- The code ends in the piece `s`, and nothing will be merged into what stands before it. -/
structure Piece (fs : FuncState) (pre s : List Instruction) : Prop where
  instructions : fs.instructions.toList = pre ++ s
  sealed : s = [] → fs.optimization = true →
    ∀ i, pre.getLast? = some i → i.op.mergeable = false

variable {fs fs' fs₁ : FuncState} {pre s s' : List Instruction} {i pi : Instruction}

theorem Piece.congr (h : Piece fs pre s) (hcode : fs'.instructions = fs.instructions)
    (hopt : fs'.optimization = true → fs.optimization = true) : Piece fs' pre s :=
  ⟨by rw [hcode, h.instructions], fun hs ho => h.sealed hs (hopt ho)⟩

theorem Piece.of_ne_nil (h : fs.instructions.toList = pre ++ s) (hs : s ≠ []) : Piece fs pre s :=
  ⟨h, fun hnil => absurd hnil hs⟩

theorem Piece.append_singleton (h : Piece fs pre s) (hcode : fs'.instructions = fs.instructions.push i) :
    Piece fs' pre (s ++ [i]) :=
  .of_ne_nil (by simp [hcode, h.instructions]) (by simp)

/-- The instruction before the next one belongs to the piece, where it may be changed. -/
theorem Piece.last (h : Piece fs pre s) (hback : fs.instructions.back? = some pi)
    (hopt : fs.optimization = true) (hpi : pi.op.mergeable = true) :
    ∃ init, s = init ++ [pi] := by
  have hlast : (pre ++ s).getLast? = some pi := by
    rw [← h.instructions, Array.getLast?_toList, hback]
  cases s with
  | nil =>
      rw [List.append_nil] at hlast
      simp [h.sealed rfl hopt pi hlast] at hpi
  | cons j s =>
      rw [List.getLast?_append_of_ne_nil _ (by simp)] at hlast
      exact ⟨_, (List.dropLast_append_getLast? pi hlast).symm⟩

/-- Behind an instruction that is not merged with the next one. -/
theorem Piece.behind {front : List Instruction}
    (h : fs.instructions.toList = front ++ [i] ++ s) (hi : i.op.mergeable = false) :
    Piece fs (front ++ [i]) s := by
  refine ⟨h, fun _ _ k hk => ?_⟩
  have hk' : i = k := by simpa using hk
  rw [← hk']
  exact hi

/-- One more instruction is emitted as it is, or merged with the last one of the piece. -/
theorem Piece.addInstruction (h : Piece fs pre s) (i : Instruction)
    (hmerge : ∀ pi, fs.peephole pi i = { prev := some pi, next := some i } ∨
      pi.op.mergeable = true ∧ ∃ pi', (fs.peephole pi i).prev = some pi' ∧
        (fs.peephole pi i).next = none) :
    (Piece (fs.addInstruction i) pre (s ++ [i]) ∧ (fs.addInstruction i).optimization = true) ∨
      ∃ init pi pi', s = init ++ [pi] ∧ fs.optimization = true ∧
        (fs.peephole pi i).prev = some pi' ∧ (fs.peephole pi i).next = none ∧
        Piece (fs.addInstruction i) pre (init ++ [pi']) := by
  by_cases hkeep : ∀ pi, fs.instructions.back? = some pi → fs.optimization = true →
      fs.peephole pi i = { prev := some pi, next := some i }
  · obtain ⟨hcode, hopt⟩ := addInstruction_keep hkeep
    exact .inl ⟨h.append_singleton hcode, hopt⟩
  · simp only [not_forall] at hkeep
    obtain ⟨pi, hback, hopt, hne⟩ := hkeep
    obtain ⟨hpi, pi', hprev, hnext⟩ := (hmerge pi).resolve_left hne
    obtain ⟨init, rfl⟩ := h.last hback hopt hpi
    refine .inr ⟨init, pi, pi', rfl, hopt, hprev, hnext, .of_ne_nil ?_ (by simp)⟩
    obtain ⟨is, his⟩ := Array.back?_eq_some_iff.mp hback
    have hinstructions := h.instructions
    rw [his, Array.toList_push, ← List.append_assoc] at hinstructions
    have hinit := (List.append_inj' hinstructions rfl).1
    unfold FuncState.addInstruction
    rw [hback]
    simp [hopt, hprev, hnext, his, hinit]

/-! ### What code does -/

section

variable (eff : Instruction → Registers → Exit Registers String)

/-- The piece `s` run from `r` ends as `post` says. -/
def Meets (opt : Bool) (s : List Instruction) (r : Registers) : Result (Registers → Prop) → Prop
  | .value post => ∃ r', Settles eff opt s r r' ∧ post r'
  | .raises msg => enter eff 0 s r = .raises msg
  | .outside => True

/-- The code emitted between `fs` and `fs'`: errors before it stay, and where a piece ends in `r`,
the piece with the new code ends as `post r` says. -/
def Does (fs fs' : FuncState) (post : Registers → Result (Registers → Prop)) : Prop :=
  ∀ pre s, Piece fs pre s → ∃ s', Piece fs' pre s' ∧
    (∀ r msg, enter eff 0 s r = .raises msg → enter eff 0 s' r = .raises msg) ∧
    ∀ r r', Settles eff fs.optimization s r r' → Meets eff fs'.optimization s' r (post r')

/-- The value `v` in the register `t`, the registers below `base` being those of `r`. -/
def Leaves (base t : Nat) (v : Object) (r r' : Registers) : Prop :=
  r' t = v ∧ ∀ n, n < base → r' n = r n

/-- The code leaves the value of `f` in `t`. -/
def Computes (base t : Nat) (f : Registers → Result Object) (fs fs' : FuncState) : Prop :=
  Does eff fs fs' fun r => (f r).bind fun v => .value (Leaves base t v r)

end

section

variable {eff : Instruction → Registers → Exit Registers String}

/-- Whatever meets `p` meets `q`. -/
def Entails (eff : Instruction → Registers → Exit Registers String)
    (p q : Result (Registers → Prop)) : Prop :=
  ∀ opt s r, Meets eff opt s r p → Meets eff opt s r q

theorem entails_value {p q : Registers → Prop} (h : ∀ r, p r → q r) :
    Entails eff (.value p) (.value q) := by
  rintro opt s r ⟨r', hr', hp⟩
  exact ⟨r', hr', h r' hp⟩

/-- What comes after a value that a piece ends with. -/
theorem Meets.bind {o : Result Object} {post : Object → Registers → Prop}
    {g : Object → Result (Registers → Prop)} {opt opt' : Bool} {r r₀ : Registers}
    (h : Meets eff opt s r (o.bind fun v => .value (post v)))
    (hraises : ∀ msg, enter eff 0 s r = .raises msg → enter eff 0 s' r₀ = .raises msg)
    (hvalue : ∀ v r₁, o = .value v → Settles eff opt s r r₁ → post v r₁ →
      Meets eff opt' s' r₀ (g v)) :
    Meets eff opt' s' r₀ (o.bind g) := by
  cases o with
  | value v =>
      obtain ⟨r₁, hr₁, hpost⟩ := h
      exact hvalue v r₁ rfl hr₁ hpost
  | raises msg => exact hraises msg h
  | outside => trivial

/-- A run that goes on with that of another piece. -/
theorem Meets.of_enter {p : Result (Registers → Prop)} {r r₀ : Registers}
    (h : Meets eff false s r₀ p) (henter : enter eff 0 s' r = enter eff 0 s r₀) :
    Meets eff false s' r p := by
  cases p with
  | value post =>
      obtain ⟨r', hr', hpost⟩ := h
      exact ⟨r', settles_false.mpr (henter.trans hr'.goes), hpost⟩
  | raises msg => exact henter.trans h
  | outside => trivial

/-- One value after another. -/
theorem Computes.bind {base t base' t' : Nat} {f : Registers → Result Object}
    {g : Registers → Object → Result Object} {post : Registers → Result (Registers → Prop)}
    (h : Computes eff base t f fs fs₁) (h' : Does eff fs₁ fs' post)
    (hpost : ∀ r v r₁, f r = .value v → Leaves base t v r r₁ →
      Entails eff (post r₁) ((g r v).bind fun w => .value (Leaves base' t' w r))) :
    Computes eff base' t' (fun r => (f r).bind (g r)) fs fs' := by
  intro pre s hs
  obtain ⟨s₁, hs₁, hraises₁, hmeets₁⟩ := h pre s hs
  obtain ⟨s₂, hs₂, hraises₂, hmeets₂⟩ := h' pre s₁ hs₁
  refine ⟨s₂, hs₂, fun r msg hr => hraises₂ r msg (hraises₁ r msg hr), fun r r' hr => ?_⟩
  dsimp only
  rw [Result.bind_assoc]
  exact (hmeets₁ r r' hr).bind (hraises₂ r) fun v r₁ hv hr₁ hleaves =>
    hpost r' v r₁ hv hleaves _ _ _ (hmeets₂ r r₁ hr₁)

/-! ### One instruction -/

/-- What an instruction does to the registers, as a postcondition. -/
def exactly (o : Exit Registers String) : Result (Registers → Prop) :=
  match o with
  | .goes 0 r => .value (· = r)
  | .raises msg => .raises msg
  | _ => .outside

/-- An instruction that is emitted as it is. -/
theorem meets_concat {opt : Bool} {r r' : Registers} (h : Settles eff opt s r r') :
    Meets eff true (s ++ [i]) r (exactly (eff i r')) := by
  cases hi : eff i r' with
  | goes k r'' =>
      cases k with
      | zero => exact ⟨r'', h.concat hi, rfl⟩
      | succ k => trivial
  | raises msg =>
      change enter eff 0 (s ++ [i]) r = .raises msg
      rw [enter_concat h.goes, hi]
  | stuck => trivial

theorem does_addInstruction_keep (i : Instruction)
    (h : ∀ pi, fs.peephole pi i = { prev := some pi, next := some i }) :
    Does eff fs (fs.addInstruction i) fun r => exactly (eff i r) := by
  intro pre s hs
  obtain ⟨hcode, hopt⟩ := addInstruction_keep fun pi _ _ => h pi
  refine ⟨s ++ [i], hs.append_singleton hcode, fun r msg hr => enter_append_of_raises hr,
    fun r r' hr => ?_⟩
  rw [hopt]
  exact meets_concat hr

theorem peephole_plain (fs : FuncState) (pi : Instruction) (hi : i.op.plain = true) :
    fs.peephole pi i = { prev := some pi, next := some i } := by
  unfold peephole
  split <;> simp_all [Opcode.plain]

/-- An instruction that may be merged with the one before it. `pi'` raises the errors of `pi`, and
does what the two do. -/
theorem does_addInstruction_merge {post : Registers → Result (Registers → Prop)}
    (hmerge : ∀ pi, fs.peephole pi i = { prev := some pi, next := some i } ∨
      pi.op.mergeable = true ∧ ∃ pi', (fs.peephole pi i).prev = some pi' ∧
        (fs.peephole pi i).next = none ∧ (∀ r msg, eff pi r = .raises msg → eff pi' r = .raises msg) ∧
        ∀ r₀ r₁, eff pi r₀ = .goes 0 r₁ → ∃ r₂ p, eff pi' r₀ = .goes 0 r₂ ∧
          post r₁ = .value p ∧ p r₂)
    (hpost : ∀ r, Entails eff (exactly (eff i r)) (post r)) :
    Does eff fs (fs.addInstruction i) post := by
  intro pre s hs
  rcases hs.addInstruction i fun pi => (hmerge pi).imp_right
      fun ⟨hpi, pi', hprev, hnext, _⟩ => ⟨hpi, pi', hprev, hnext⟩ with ⟨hpiece, hopt⟩ |
      ⟨init, pi, pi', rfl, hopt, hprev, hnext, hpiece⟩
  · refine ⟨s ++ [i], hpiece, fun r msg hr => enter_append_of_raises hr, fun r r' hr => ?_⟩
    rw [hopt]
    exact hpost r' _ _ _ (meets_concat hr)
  · rcases hmerge pi with hkeep | ⟨-, qi, hqi, -, hraises, heffect⟩
    · simp [hkeep] at hnext
    · rw [hprev, Option.some.injEq] at hqi
      subst hqi
      refine ⟨init ++ [pi'], hpiece, fun r msg hr => raises_replace (hraises · msg) hr,
        fun r r' hr => ?_⟩
      rw [hopt] at hr
      obtain ⟨r₀, hinit, hpi⟩ := settles_concat.mp hr
      obtain ⟨r₂, p, hpi', hp, hr₂⟩ := heffect r₀ r' hpi
      rw [hp]
      refine ⟨r₂, ?_, hr₂⟩
      cases (fs.addInstruction i).optimization with
      | true => exact settles_concat.mpr ⟨r₀, hinit, hpi'⟩
      | false => exact settles_false.mpr (by rw [enter_concat hinit, hpi'])

end

/-! ### The instructions of formulas -/

section

variable {fl : FloatOps} {strcmp : List UInt8 → List UInt8 → Int} {L : List Object}
  {r : Registers} {t : Nat}

@[simp] theorem index1_make (op : Opcode) (a0 a2 a3 : Int) {n : Nat} (hn : n < 2 ^ 31) :
    index1 (.make op a0 n a2 a3) = .value n := by
  simp [index1, Instruction.make, int32_toInt hn]

@[simp] theorem make_op (op : Opcode) (a0 a1 a2 a3 : Int) :
    (Instruction.make op a0 a1 a2 a3).op = op := rfl

theorem make_arg0 {op : Opcode} {a1 a2 a3 : Int} (ht : t < 256) :
    (Instruction.make op t a1 a2 a3).arg0.toNat = t := byte_toNat ht

theorem make_arg2 {op : Opcode} {a0 a1 a3 : Int} (ht : t < 256) :
    (Instruction.make op a0 a1 t a3).arg2.toNat = t := byte_toNat ht

theorem make_arg3 {op : Opcode} {a0 a1 a2 : Int} (ht : t < 256) :
    (Instruction.make op a0 a1 a2 t).arg3.toNat = t := byte_toNat ht

theorem effect_LOAD {i : Instruction} (hi : i.op = .LOAD) (r : Registers) :
    effect fl strcmp L i r = ((index1 i).bind (literal L)).store i.arg0.toNat r := by
  simp [effect, Calc.target, hi]

/-- What is stored is a value in its register. -/
theorem store_goes {v : Result Object} {n : Nat} {r r' : Registers}
    (h : v.store n r = .goes 0 r') : ∃ o, v = .value o ∧ r' = Function.update r n o := by
  cases v with
  | value o =>
      simp only [Result.store, Exit.goes.injEq, true_and] at h
      exact ⟨o, rfl, h.symm⟩
  | raises msg => simp [Result.store] at h
  | outside => simp [Result.store] at h

theorem literal_ne_raises (i : Instruction) (msg : String) :
    (index1 i).bind (literal L) ≠ .raises msg := by
  unfold index1 literal
  split
  · rw [Result.bind_value]
    split <;> simp
  · simp

/-- A load of the literal `n`. -/
theorem does_load (fs : FuncState) (ht : t < 256) {n : Nat} (hn : n < 2 ^ 31) {o : Object}
    (ho : L[n]? = some o) :
    Does (effect fl strcmp L) fs (fs.addInstruction (.make .LOAD t n 0 0)) fun r =>
      .value (· = Function.update r t o) := by
  have hindex : index1 (.make .LOAD t n 0 0) = .value n := index1_make _ _ _ _ hn
  have harg1 : (Instruction.make .LOAD t n 0 0).arg1.toInt = n := int32_toInt hn
  apply does_addInstruction_merge
  · intro pi
    simp only [peephole, make_op, harg1]
    by_cases hmerge : pi.op = .LOAD ∧ (n : Int) < 256
    · rw [if_pos hmerge]
      refine .inr ⟨by simp [hmerge.1, Opcode.mergeable, Opcode.takesOver], _, rfl, rfl, ?_, ?_⟩
      · intro r msg hraises
        rw [effect_LOAD hmerge.1] at hraises
        cases hv : (index1 pi).bind (literal L) with
        | value o => simp [hv, Result.store] at hraises
        | raises msg => exact absurd hv (literal_ne_raises pi msg)
        | outside => simp [hv, Result.store] at hraises
      · intro r₀ r₁ hgoes
        rw [effect_LOAD hmerge.1] at hgoes
        obtain ⟨o₁, ho₁, rfl⟩ := store_goes hgoes
        have harg3 : (byte (n : Int)).toNat = n := byte_toNat (by omega)
        have hindex' (b c : UInt8) :
            index1 { pi with op := .DLOAD, arg2 := b, arg3 := c } = index1 pi := rfl
        refine ⟨_, _, ?_, rfl, rfl⟩
        simp [effect, hindex', ho₁, harg3, literal, ho, make_arg0 ht]
    · exact .inl (if_neg hmerge)
  · intro r
    simp only [effect_LOAD (make_op _ _ _ _ _), hindex, Result.bind_value, literal, ho, Result.store,
      make_arg0 ht]
    exact fun _ _ _ h => h

theorem effect_LOADNULLS {i : Instruction} (hi : i.op = .LOADNULLS) (r : Registers) :
    effect fl strcmp L i r = if 0 < i.arg1.toInt then .goes 0 fun n =>
      if i.arg0.toNat ≤ n ∧ n < i.arg0.toNat + i.arg1.toInt.toNat then .null else r n
    else .stuck := by
  simp [effect, hi]

/-- LOADNULLS for one register sets it to null. -/
theorem does_loadnulls (fs : FuncState) (ht : t < 256) :
    Does (effect fl strcmp L) fs (fs.addInstruction (.make .LOADNULLS t 1 0 0)) fun r =>
      .value (· = Function.update r t .null) := by
  have harg0 : (Instruction.make .LOADNULLS t 1 0 0).arg0.toNat = t := make_arg0 ht
  have harg1 : (Instruction.make .LOADNULLS t 1 0 0).arg1.toInt = 1 := int32_toInt (n := 1) (by decide)
  apply does_addInstruction_merge
  · intro pi
    simp only [peephole, make_op, harg0]
    by_cases hmerge : pi.op = .LOADNULLS ∧ (pi.arg0.toNat : Int) + pi.arg1.toInt = t
    · rw [if_pos hmerge]
      have hsum : (pi.arg1 + 1).toInt = pi.arg1.toInt + 1 := by
        have hlow := pi.arg1.le_toInt
        have harg1 : (1 : GSInt32).toInt = 1 := by decide
        rw [Int32.toInt_add, harg1, Int.bmod_eq_of_le] <;> omega
      refine .inr ⟨by simp [hmerge.1, Opcode.mergeable], _, rfl, rfl, ?_, ?_⟩
      · intro r msg hraises
        rw [effect_LOADNULLS hmerge.1] at hraises
        split at hraises <;> simp at hraises
      · intro r₀ r₁ hgoes
        rw [effect_LOADNULLS hmerge.1] at hgoes
        split at hgoes
        · rename_i hpos
          simp only [Exit.goes.injEq, true_and] at hgoes
          refine ⟨_, _, ?_, rfl, rfl⟩
          rw [effect_LOADNULLS (i := { pi with arg1 := pi.arg1 + 1 }) hmerge.1, ← hgoes]
          dsimp only
          rw [hsum, if_pos (by omega)]
          congr 1
          funext n
          grind [Function.update_apply]
        · simp at hgoes
    · exact .inl (if_neg hmerge)
  · intro r
    rw [effect_LOADNULLS (make_op _ _ _ _ _), harg0, harg1, if_pos (by decide)]
    apply entails_value
    rintro r' rfl
    funext n
    grind [Function.update_apply]

variable (fl strcmp L) in
/-- The result of an instruction that the optimiser moves. -/
theorem effect_takesOver {pi : Instruction} (h : Opcode.takesOver pi.op = true) (a : UInt8)
    (r : Registers) : effect fl strcmp L { pi with arg0 := a } r =
      (Calc.target fl strcmp L pi r).store a.toNat r := by
  obtain ⟨op, a0, a1, a2, a3⟩ := pi
  cases op <;> first | rfl | simp [Opcode.takesOver] at h

theorem effect_MOVE {i : Instruction} (hi : i.op = .MOVE) (r : Registers) :
    effect fl strcmp L i r = (operand1 i r).store i.arg0.toNat r := by
  simp [effect, Calc.target, hi]

variable (fl strcmp L) in
/-- The result of a temporary may be taken over. The temporary has another value then. -/
theorem does_move (fs : FuncState) {trg src : Nat} (htrg : trg < 256) (hsrc : src < 256) :
    Does (effect fl strcmp L) fs (fs.addInstruction (.make .MOVE trg src 0 0)) fun r =>
      .value fun r' => r' trg = r src ∧ ∀ n, n ≠ trg → n ≠ src → r' n = r n := by
  have harg0 : (Instruction.make .MOVE trg src 0 0).arg0.toNat = trg := make_arg0 htrg
  have harg1 : (Instruction.make .MOVE trg src 0 0).arg1.toInt = src := int32_toInt (by omega)
  have hoperand (r : Registers) : operand1 (.make .MOVE trg src 0 0) r = .value (r src) := by
    simp [operand1, index1_make, Nat.lt_of_lt_of_le hsrc]
  apply does_addInstruction_merge
  · intro pi
    simp only [peephole, make_op, harg1]
    by_cases htakes : Opcode.takesOver pi.op = true ∧ (pi.arg0.toNat : Int) = src
    · rw [if_pos htakes]
      refine .inr ⟨Opcode.mergeable_of_takesOver htakes.1, _, rfl, rfl, ?_, ?_⟩
      · intro r msg hraises
        have hpi := effect_takesOver fl strcmp L htakes.1 pi.arg0 r
        rw [effect_takesOver fl strcmp L htakes.1]
        rw [hpi] at hraises
        cases hv : Calc.target fl strcmp L pi r <;> simp_all [Result.store]
      · intro r₀ r₁ hgoes
        have hpi := effect_takesOver fl strcmp L htakes.1 pi.arg0 r₀
        rw [hpi] at hgoes
        obtain ⟨v, hv, rfl⟩ := store_goes hgoes
        refine ⟨_, _, by rw [effect_takesOver fl strcmp L htakes.1, hv, harg0]; rfl, rfl, ?_, ?_⟩
        · have hsame : src = pi.arg0.toNat := by omega
          simp [hsame]
        · intro n hn hn'
          have hne : n ≠ pi.arg0.toNat := by omega
          simp [hn, hne]
    · rw [if_neg htakes]
      by_cases hmove : pi.op = .MOVE
      · rw [if_pos hmove]
        refine .inr ⟨by simp [hmove, Opcode.mergeable], _, rfl, rfl, ?_, ?_⟩
        · intro r msg hraises
          rw [effect_MOVE hmove] at hraises
          cases ho : operand1 pi r with
          | value o => simp [ho, Result.store] at hraises
          | raises msg' => exact absurd ho (operand1_ne_raises pi r msg')
          | outside => simp [ho, Result.store] at hraises
        · intro r₀ r₁ hgoes
          rw [effect_MOVE hmove] at hgoes
          obtain ⟨o, ho, rfl⟩ := store_goes hgoes
          have hbyte : (byte (src : Int)).toNat = src := byte_toNat hsrc
          have hoperand' (b c : UInt8) :
              operand1 { pi with op := .DMOVE, arg2 := b, arg3 := c } r₀ = operand1 pi r₀ := rfl
          refine ⟨_, _, by simp only [effect, hoperand', ho]; rfl, rfl, ?_, ?_⟩
          · simp [harg0, hbyte]
          · intro n hn _
            simp [harg0, hn]
      · exact .inl (if_neg hmove)
  · intro r
    rw [effect_MOVE (make_op _ _ _ _ _), hoperand, harg0]
    apply entails_value
    rintro r' rfl
    exact ⟨by simp, fun n hn _ => by simp [hn]⟩

@[simp] theorem bitwiseOf_code (op : BitWiseOP) : bitwiseOf op.code = some op := by
  cases op <;> rfl

@[simp] theorem cmpOf_code (op : CmpOP) : cmpOf op.code = some op := by cases op <;> rfl

theorem operator_code_lt (op : Operator) : ∃ n : Nat, n < 256 ∧ op.code.2 = n := by
  rcases op with op | op | _ | _ | op
  · cases op <;> exact ⟨0, by decide, rfl⟩
  · exact ⟨op.code, by cases op <;> decide, rfl⟩
  · exact ⟨0, by decide, rfl⟩
  · exact ⟨0, by decide, rfl⟩
  · exact ⟨op.code, by cases op <;> decide, rfl⟩

/-- The instruction of an operator. -/
theorem effect_operator (op : Operator) {tl tr : Nat} (ht : t < 256) (htl : tl < 256)
    (htr : tr < 256) (r : Registers) :
    effect fl strcmp L (.make op.code.1 t tr tl op.code.2) r =
      (op.apply fl strcmp (r tl) (r tr)).store t r := by
  obtain ⟨n, hn, hcode⟩ := operator_code_lt op
  have hindex : index1 (.make op.code.1 t tr tl op.code.2) = .value tr := by
    rw [index1_make]
    omega
  have harg2 : (Instruction.make op.code.1 t tr tl op.code.2).arg2.toNat = tl := make_arg2 htl
  have harg3 : (Instruction.make op.code.1 t tr tl op.code.2).arg3.toNat = n := by
    rw [hcode, make_arg3 hn]
  have hoperand : operand1 (.make op.code.1 t tr tl op.code.2) r = .value (r tr) := by
    simp [operand1, hindex]
  have hcond : n = 0 → condLiteral L (.make op.code.1 t tr tl op.code.2) r = .value (r tr) := by
    intro hzero
    have harg3' : (Instruction.make op.code.1 t tr tl op.code.2).arg3 = 0 := by
      rw [← UInt8.toNat_inj, harg3, hzero]
      rfl
    simp [condLiteral, harg3', hoperand]
  have heffect : effect fl strcmp L (.make op.code.1 t tr tl op.code.2) r =
      (Calc.target fl strcmp L (.make op.code.1 t tr tl op.code.2) r).store t r := by
    rw [effect_of_target, make_arg0 ht]
    rcases op with op | op | _ | _ | op
    · cases op <;> simp [Operator.code]
    all_goals simp [Operator.code]
  have hop : (Instruction.make op.code.1 t tr tl op.code.2).op = op.code.1 := rfl
  rw [heffect]
  congr 1
  revert hop harg2 harg3 hoperand hcond
  generalize Instruction.make op.code.1 t tr tl op.code.2 = i
  intro harg2 harg3 hoperand hcond hop
  rcases op with op | op | _ | _ | op
  · cases op <;> simp only [Operator.code] at hop <;>
      simp [Calc.target, hop, harg2, hoperand, Operator.apply]
  · have hn : op.code = n := Int.ofNat_inj.mp hcode
    simp only [Operator.code] at hop
    simp [Calc.target, hop, harg2, harg3, hoperand, Operator.apply, bits, ← hn]
  · have hn : n = 0 := Int.ofNat_inj.mp hcode.symm
    simp only [Operator.code] at hop
    simp [Calc.target, hop, harg2, hcond hn, Operator.apply]
  · have hn : n = 0 := Int.ofNat_inj.mp hcode.symm
    simp only [Operator.code] at hop
    simp [Calc.target, hop, harg2, hcond hn, Operator.apply]
  · have hn : op.code = n := Int.ofNat_inj.mp hcode
    simp only [Operator.code] at hop
    simp [Calc.target, hop, harg2, harg3, hoperand, Operator.apply, comparison, ← hn]

/-- The instruction of an operator in front of its operand. -/
theorem effect_unary (op : UnaryOperator) {src : Nat} (ht : t < 256) (hsrc : src < 256)
    (r : Registers) :
    effect fl strcmp L (.make op.code t src 0 0) r = (op.apply fl (r src)).store t r := by
  have hoperand (op : Opcode) : operand1 (.make op t src 0 0) r = .value (r src) := by
    simp [operand1, index1_make, Nat.lt_of_lt_of_le hsrc]
  cases op <;> simp [effect, Calc.target, UnaryOperator.code, UnaryOperator.apply, hoperand,
    make_arg0 ht]

/-- What an operator leaves; a temporary on the right may lose its value. -/
def operates (fs : FuncState) (v : Result Object) (t tr : Nat) (r : Registers) :
    Result (Registers → Prop) :=
  v.bind fun v => .value fun r' => r' t = v ∧
    ∀ n, n ≠ t → (n = tr → fs.isLocal tr = true) → r' n = r n

/-- An instruction that stores in its target does what an operation with that
target has to do. -/
theorem exactly_operates {eff : Instruction → Registers → Exit Registers String}
    {v : Result Object} {tr : Nat} :
    Entails eff (exactly (v.store t r)) (operates fs v t tr r) := by
  cases v with
  | value v =>
      apply entails_value
      rintro r' rfl
      exact ⟨by simp, fun n hn _ => by simp [hn]⟩
  | raises msg => exact fun _ _ _ h => h
  | outside => exact fun _ _ _ _ => trivial

/-- EQ and NE merge with the LOAD of a temporary operand only. -/
theorem peephole_equality (fs : FuncState) (pi : Instruction) {i : Instruction}
    (hi : i.op = .EQ ∨ i.op = .NE) : fs.peephole pi i =
      if pi.op = .LOAD ∧ (pi.arg0.toNat : Int) = i.arg1.toInt ∧ !fs.isLocal pi.arg0.toNat then
        { prev := some { pi with
            op := i.op, arg0 := i.arg0, arg2 := i.arg2, arg3 := byte MAX_FUNC_STACKSIZE }
          next := none }
      else { prev := some pi, next := some i } := by
  unfold peephole
  rcases hi with hi | hi <;> simp only [hi]

/-- A comparison with a literal that has just been loaded. -/
theorem does_equality (fs : FuncState) {op : Operator} (hop : op = .eq ∨ op = .ne) {tl tr : Nat}
    (ht : t < 256) (htl : tl < 256) (htr : tr < 256)
    (hne : tl = tr → fs.isLocal tr = true) :
    Does (effect fl strcmp L) fs (fs.addInstruction (.make op.code.1 t tr tl op.code.2)) fun r =>
      operates fs (op.apply fl strcmp (r tl) (r tr)) t tr r := by
  have hopcode : op.code.1 = .EQ ∨ op.code.1 = .NE := by rcases hop with rfl | rfl <;> simp [Operator.code]
  have harg0 : (Instruction.make op.code.1 t tr tl op.code.2).arg0.toNat = t := make_arg0 ht
  have harg1 : (Instruction.make op.code.1 t tr tl op.code.2).arg1.toInt = tr :=
    int32_toInt (by omega)
  have harg2 : (Instruction.make op.code.1 t tr tl op.code.2).arg2.toNat = tl := make_arg2 htl
  apply does_addInstruction_merge
  · intro pi
    rw [peephole_equality fs pi hopcode, harg1]
    by_cases hmerge : pi.op = .LOAD ∧ (pi.arg0.toNat : Int) = tr ∧ !fs.isLocal pi.arg0.toNat
    · rw [if_pos hmerge]
      obtain ⟨hload, hsame, hlocal⟩ := hmerge
      have hsame : pi.arg0.toNat = tr := by omega
      have hlocal : fs.isLocal tr = false := by simpa [hsame] using hlocal
      refine .inr ⟨by simp [hload, Opcode.mergeable, Opcode.takesOver], _, rfl, rfl, ?_, ?_⟩
      · intro r msg hraises
        rw [effect_LOAD hload] at hraises
        cases hv : (index1 pi).bind (literal L) with
        | value o => simp [hv, Result.store] at hraises
        | raises msg => exact absurd hv (literal_ne_raises pi msg)
        | outside => simp [hv, Result.store] at hraises
      · intro r₀ r₁ hgoes
        rw [effect_LOAD hload] at hgoes
        obtain ⟨o, ho, rfl⟩ := store_goes hgoes
        have hleft : Function.update r₀ pi.arg0.toNat o tl = r₀ tl := by
          have hdiff : tl ≠ pi.arg0.toNat := fun heq => by simp [hne (heq.trans hsame)] at hlocal
          simp [hdiff]
        have hright : Function.update r₀ pi.arg0.toNat o tr = o := by simp [hsame]
        have hindex (op : Opcode) (b c : UInt8) : index1 { pi with
          op := op, arg0 := b, arg2 := c, arg3 := byte MAX_FUNC_STACKSIZE } = index1 pi := rfl
        have hbyte : byte MAX_FUNC_STACKSIZE ≠ 0 := by decide
        have heffect : effect fl strcmp L { pi with
              op := op.code.1
              arg0 := (Instruction.make op.code.1 t tr tl op.code.2).arg0
              arg2 := (Instruction.make op.code.1 t tr tl op.code.2).arg2
              arg3 := byte MAX_FUNC_STACKSIZE } r₀ = (op.apply fl strcmp (r₀ tl) o).store t r₀ := by
          rw [effect_of_target (by rcases hop with rfl | rfl <;> simp [Operator.code])]
          rcases hop with rfl | rfl <;>
            simp only [Calc.target, condLiteral, Operator.code, hbyte, hindex, ho, ne_eq,
              not_false_eq_true, if_true, Result.bind_value, Operator.apply] <;>
            simp only [Operator.code] at harg0 harg2 <;> rw [harg0, harg2]
        simp only [make_op]
        rw [heffect, hleft, hright]
        obtain ⟨w, hw⟩ : ∃ w, op.apply fl strcmp (r₀ tl) o = .value w := by
          rcases hop with rfl | rfl <;> exact ⟨_, rfl⟩
        rw [hw]
        refine ⟨_, _, rfl, rfl, by simp, ?_⟩
        intro n hn hlocal'
        have hdiff : n ≠ pi.arg0.toNat := fun heq => by simp [hlocal' (heq.trans hsame)] at hlocal
        simp [hn, hdiff]
    · exact .inl (if_neg hmerge)
  · intro r
    rw [effect_operator op ht htl htr]
    exact exactly_operates

end

section

variable {eff : Instruction → Registers → Exit Registers String}

theorem Does.mono {post post' : Registers → Result (Registers → Prop)} (h : Does eff fs fs' post)
    (hpost : ∀ r, Entails eff (post r) (post' r)) : Does eff fs fs' post' := by
  intro pre s hs
  obtain ⟨s', hs', hraises, hmeets⟩ := h pre s hs
  exact ⟨s', hs', hraises, fun r r' hr => hpost r' _ _ _ (hmeets r r' hr)⟩

/-- Registers and targets do not count. -/
theorem Does.congr {post : Registers → Result (Registers → Prop)} (h : Does eff fs₁ fs' post)
    (hcode : fs₁.instructions = fs.instructions) (hopt : fs₁.optimization = fs.optimization) :
    Does eff fs fs' post := by
  intro pre s hs
  rw [← hopt]
  exact h pre s (hs.congr hcode fun ho => hopt ▸ ho)

end

section

variable {fl : FloatOps} {strcmp : List UInt8 → List UInt8 → Int} {L : List Object} {t : Nat}

/-- The instruction of an operator between two operands. -/
theorem does_operator (fs : FuncState) (op : Operator) {tl tr : Nat} (ht : t < 256)
    (htl : tl < 256) (htr : tr < 256) (hne : tl = tr → fs.isLocal tr = true) :
    Does (effect fl strcmp L) fs (fs.addInstruction (.make op.code.1 t tr tl op.code.2)) fun r =>
      operates fs (op.apply fl strcmp (r tl) (r tr)) t tr r := by
  by_cases hop : op = .eq ∨ op = .ne
  · exact does_equality fs hop ht htl htr hne
  · have hplain : op.code.1.plain = true := by
      rcases op with op | op | _ | _ | op
      · cases op <;> rfl
      · rfl
      · simp at hop
      · simp at hop
      · rfl
    apply (does_addInstruction_keep _ fun pi => fs.peephole_plain pi (by exact hplain)).mono
    intro r
    rw [effect_operator op ht htl htr]
    exact exactly_operates

/-! ### Constants -/

theorem leaves_update {base : Nat} (v : Object) (r : Registers) :
    Leaves base base v r (Function.update r base v) :=
  ⟨by simp, fun n hn => by simp [Nat.ne_of_lt hn]⟩

/-- A new target is loaded. -/
theorem Does.loads {v : Object} (h : Does (effect fl strcmp L) fs₁ fs' fun r =>
      .value (· = Function.update r fs.vlocals.size v))
    (hcode : fs₁.instructions = fs.instructions) (hopt : fs₁.optimization = fs.optimization) :
    Computes (effect fl strcmp L) fs.vlocals.size fs.vlocals.size (fun _ => .value v) fs fs' := by
  refine (h.congr hcode hopt).mono fun r => ?_
  apply entails_value
  rintro r' rfl
  exact leaves_update v r

/-- A load that the optimiser leaves alone. -/
theorem does_plain (fs : FuncState) {i : Instruction} {v : Object} (hi : i.op.plain = true)
    (heffect : ∀ r, effect fl strcmp L i r = .goes 0 (Function.update r t v)) :
    Does (effect fl strcmp L) fs (fs.addInstruction i) fun r =>
      .value (· = Function.update r t v) := by
  apply (does_addInstruction_keep i fun pi => fs.peephole_plain pi hi).mono
  intro r
  rw [heffect]
  exact fun _ _ _ h => h

/-- The index of a constant leads to the constant. -/
theorem getConstant_get (fs : FuncState) (o : Object) :
    (fs.getConstant o).2.literals.toList[(fs.getConstant o).1]? = some o := by
  unfold getConstant
  cases hfind : (if o = .null then none else fs.literals.findIdx? (· = o)) with
  | some n =>
      split at hfind
      · cases hfind
      · obtain ⟨hn, ho, -⟩ := Array.findIdx?_eq_some_iff_getElem.mp hfind
        have ho' : fs.literals[n] = o := by simpa using ho
        simp [hn, ho']
  | none => simp

/-- The load of a constant computes it. -/
theorem computes_constant {o : Object} (hsize : fs.vlocals.size < 256)
    (hliterals : fs.literals.size < MAX_LITERALS)
    (hL : (fs.emitConstant o).literals.toList <+: L) :
    Computes (effect fl strcmp L) fs.vlocals.size fs.vlocals.size (fun _ => .value o) fs
      (fs.emitConstant o) := by
  have hget := getConstant_get fs.pushTarget o
  have hprefix : (fs.pushTarget.getConstant o).2.literals.toList <+: L := by
    simpa [emitConstant] using hL
  have hn : (fs.pushTarget.getConstant o).1 < (fs.pushTarget.getConstant o).2.literals.size := by
    simpa using (List.getElem?_eq_some_iff.mp hget).1
  have hgrows := (grows_getConstant fs.pushTarget o).constants
  have hpush : fs.pushTarget.literals = fs.literals := rfl
  rw [hpush] at hgrows
  have hindex : (fs.pushTarget.getConstant o).1 < 2 ^ 31 := by
    unfold MAX_LITERALS at hliterals
    omega
  have hL' : L[(fs.pushTarget.getConstant o).1]? = some o := by
    obtain ⟨tail, rfl⟩ := hprefix
    rw [List.getElem?_append_left (List.getElem?_eq_some_iff.mp hget).1, hget]
  have hcode : (fs.pushTarget.getConstant o).2.instructions = fs.instructions := by
    unfold getConstant
    split <;> rfl
  have hopt : (fs.pushTarget.getConstant o).2.optimization = fs.optimization := by
    unfold getConstant
    split <;> rfl
  exact (does_load _ hsize hindex hL').loads hcode hopt

theorem int32_toInt64 {n : GSInteger} (h : n.toInt ≤ INT_MAX ∧ INT_MIN < n.toInt) :
    (int32 n.toInt).toInt64 = n := by
  obtain ⟨hmax, hmin⟩ := h
  unfold INT_MAX at hmax
  unfold INT_MIN at hmin
  rw [← Int64.toInt_inj, Int32.toInt_toInt64, int32, Int32.toInt_ofInt_of_le] <;> omega

/-- The load of an integer computes it, in either of its two forms. -/
theorem computes_int {n : GSInteger} (hsize : fs.vlocals.size < 256)
    (hliterals : fs.literals.size < MAX_LITERALS) (hL : (fs.emitInt n).literals.toList <+: L) :
    Computes (effect fl strcmp L) fs.vlocals.size fs.vlocals.size (fun _ => .value (.integer n)) fs
      (fs.emitInt n) := by
  unfold emitInt at hL ⊢
  split
  · rename_i hn
    refine (does_plain fs.pushTarget (by rfl) fun r => ?_).loads rfl rfl
    have harg1 : (Instruction.make .LOADINT fs.vlocals.size n.toInt 0 0).arg1.toInt64 = n :=
      int32_toInt64 hn
    simp [effect, Calc.target, Result.store, harg1, make_arg0 hsize]
  · rename_i hn
    rw [if_neg hn] at hL
    exact computes_constant hsize hliterals hL

/-- The load of a float computes it. -/
theorem computes_float {f : GSFloat} (hsize : fs.vlocals.size < 256) :
    Computes (effect fl strcmp L) fs.vlocals.size fs.vlocals.size (fun _ => .value (.float f)) fs
      (fs.emitLoad .LOADFLOAT f.toNat) := by
  refine (does_plain fs.pushTarget (by rfl) fun r => ?_).loads rfl rfl
  have harg1 : (Instruction.make .LOADFLOAT fs.vlocals.size f.toNat 0 0).arg1.toBitVec = f := by
    change (Int32.ofInt f.toNat).toBitVec = f
    simp
  simp [effect, Calc.target, Result.store, harg1, make_arg0 hsize]

/-- The load of a boolean computes it. -/
theorem computes_bool {b : Bool} (hsize : fs.vlocals.size < 256) :
    Computes (effect fl strcmp L) fs.vlocals.size fs.vlocals.size (fun _ => .value (.ofBool b)) fs
      (fs.emitLoad .LOADBOOL b.toInt) := by
  refine (does_plain fs.pushTarget (by rfl) fun r => ?_).loads rfl rfl
  have harg1 : ((Instruction.make .LOADBOOL fs.vlocals.size b.toInt 0 0).arg1 ≠ 0 : Bool) = b := by
    cases b <;> rfl
  simp only [ne_eq] at harg1
  simp [effect, Calc.target, Result.store, harg1, make_arg0 hsize]

theorem computes_null (hsize : fs.vlocals.size < 256) :
    Computes (effect fl strcmp L) fs.vlocals.size fs.vlocals.size (fun _ => .value .null) fs
      (fs.emitLoad .LOADNULLS 1) :=
  (does_loadnulls fs.pushTarget hsize).loads rfl rfl

/-! ### Operators -/

/-- The code of a unary operator computes it, if that of its operand does. -/
theorem computes_unary {base src : Nat} {f : Registers → Result Object} (op : UnaryOperator)
    (h : Computes (effect fl strcmp L) base src f fs fs₁) (haims : Aims fs fs₁ src)
    (hbase : fs.vlocals.size = base) (hsize : base < 256) (hsrc : src < 256) :
    Computes (effect fl strcmp L) base base (fun r => (f r).bind (op.apply fl)) fs
      (fs₁.emitUnary op.code) := by
  have hplain : op.code.plain = true := by cases op <;> rfl
  have htarget : fs₁.dropTarget.vlocals.size = base := by simp [haims.dropTarget, hbase]
  have hcode : fs₁.dropTarget.pushTarget.instructions = fs₁.instructions := by
    rw [haims.dropTarget]
    rfl
  have hopt : fs₁.dropTarget.pushTarget.optimization = fs₁.optimization := by
    rw [haims.dropTarget]
    rfl
  have hemit : fs₁.emitUnary op.code =
      fs₁.dropTarget.pushTarget.addInstruction (.make op.code base src 0 0) := by
    simp [FuncState.emitUnary, haims.target, htarget]
  rw [hemit]
  refine h.bind ((does_addInstruction_keep _ fun pi =>
    peephole_plain _ pi (by exact hplain)).congr hcode hopt) ?_
  rintro r v r₁ - ⟨hv, hlow⟩
  rw [effect_unary op hsize hsrc, hv]
  cases op.apply fl v with
  | value w =>
      apply entails_value
      rintro r' rfl
      exact ⟨by simp, fun n hn => by simp [Nat.ne_of_lt hn, hlow n hn]⟩
  | raises msg => exact fun _ _ _ h => h
  | outside => exact fun _ _ _ _ => trivial

/-- Two operands one after the other: the first one keeps its value while the second is computed. -/
theorem computes_binary {base tl tr : Nat} {f : Registers → Result Object}
    {g : Registers → Result Object} {fs₂ : FuncState} (op : Operator)
    (h₁ : Computes (effect fl strcmp L) base tl f fs fs₁) (haims₁ : Aims fs fs₁ tl)
    (h₂ : Computes (effect fl strcmp L) fs₁.vlocals.size tr g fs₁ fs₂) (haims₂ : Aims fs₁ fs₂ tr)
    (hbase : fs.vlocals.size = base) (hsize : base < 256) (htl : tl < 256) (htr : tr < 256)
    (htl₁ : tl < fs₁.vlocals.size)
    (hg : ∀ r r₁ : Registers, (∀ n, n < base → r₁ n = r n) → g r₁ = g r) :
    Computes (effect fl strcmp L) base base
      (fun r => (f r).bind fun v => (g r).bind (op.apply fl strcmp v)) fs
      (fs₂.emitBinary op.code.1 op.code.2) := by
  have haims₁' : Aims fs fs₂.dropTarget _ :=
    haims₁.congr rfl rfl (by simp [haims₂.dropTarget]) (by simp [haims₂.dropTarget])
  have htarget : fs₂.dropTarget.dropTarget.vlocals.size = base := by simp [haims₁'.dropTarget, hbase]
  have hcode : fs₂.dropTarget.dropTarget.pushTarget.instructions = fs₂.instructions := by
    rw [haims₁'.dropTarget, haims₂.dropTarget]
    rfl
  have hopt : fs₂.dropTarget.dropTarget.pushTarget.optimization = fs₂.optimization := by
    rw [haims₁'.dropTarget, haims₂.dropTarget]
    rfl
  have hlocals : fs₂.dropTarget.dropTarget.pushTarget.vlocals = fs.vlocals.push .temporary := by
    simp [pushTarget, haims₁'.dropTarget]
  have hlocal : fs₁.isLocal tr = true → fs₂.dropTarget.dropTarget.pushTarget.isLocal tr = true := by
    intro htr
    rcases haims₁.vlocals with ⟨-, hvlocals⟩ | ⟨-, hvlocals⟩
    · rwa [isLocal, hlocals, ← hvlocals, ← isLocal]
    · rw [isLocal, hlocals]
      rw [isLocal, hvlocals] at htr
      by_cases hlast : tr = fs.vlocals.size
      · simp [hlast] at htr
      · rwa [Array.getElem?_push, if_neg hlast]
  have hemit : fs₂.emitBinary op.code.1 op.code.2 = fs₂.dropTarget.dropTarget.pushTarget.addInstruction
      (.make op.code.1 base tr tl op.code.2) := by
    simp [FuncState.emitBinary, haims₂.target, haims₁'.target, htarget]
  rw [hemit]
  have hbase₁ : base ≤ fs₁.vlocals.size := by
    rcases haims₁.vlocals with ⟨-, hvlocals⟩ | ⟨-, hvlocals⟩ <;> simp [hvlocals, hbase]
  have htrue (h : tr < fs₁.vlocals.size) :
      fs₂.dropTarget.dropTarget.pushTarget.isLocal tr = true := by
    rcases haims₂.vlocals with ⟨rfl, -⟩ | ⟨htr, -⟩
    · exact absurd h (Nat.lt_irrefl _)
    · exact hlocal htr
  -- The second operand and the instruction, from a state that has the first one.
  have hsecond : Computes (effect fl strcmp L) base base
      (fun r => (g r).bind (op.apply fl strcmp (r tl))) fs₁ _ :=
    h₂.bind ((does_operator _ op hsize htl htr fun heq => htrue (heq ▸ htl₁)).congr hcode hopt) (by
      rintro r v r₁ - ⟨hv, hlow⟩
      rw [hv, hlow tl htl₁]
      cases op.apply fl strcmp (r tl) v with
      | value w =>
          apply entails_value
          rintro r' ⟨hr', hother⟩
          refine ⟨hr', fun n hn => ?_⟩
          rw [hother n (Nat.ne_of_lt hn) fun heq => htrue (by omega), hlow n (by omega)]
      | raises msg => exact fun _ _ _ h => h
      | outside => exact fun _ _ _ _ => trivial)
  refine h₁.bind hsecond ?_
  rintro r v r₁ - ⟨hv, hlow⟩
  dsimp only
  rw [hg r r₁ hlow, hv]
  cases (g r).bind (op.apply fl strcmp v) with
  | value w =>
      apply entails_value
      rintro r' ⟨hr', hother⟩
      exact ⟨hr', fun n hn => by rw [hother n hn, hlow n hn]⟩
  | raises msg => exact fun _ _ _ h => h
  | outside => exact fun _ _ _ _ => trivial

end

end FuncState

end GameScript
