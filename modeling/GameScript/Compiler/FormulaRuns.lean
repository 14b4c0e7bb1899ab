import GameScript.Compiler.FormulaJumps
import GameScript.Compiler.FormulaParse
import GameScript.VM.CalcRuns
import GameScript.Returns

/-!
From the tokens of a formula to the machine that runs its code. `formula_runs` is about a formula
anywhere in a function: the compiler accepts its tokens, and the code that it emits for them leaves
the value of the formula in its target, or raises its error. `lambda_returns` is about a function
that consists of a formula: the machine returns the value.
-/

namespace GameScript

open Calc Effect Forward

/-! ### Anywhere in a function -/

namespace Formula

variable {rt : Runtime} {vm : VM rt.Heap} {closure : Closure} {e : Formula} {fs : FuncState}

/-- The machine with the code of a formula at `ip`: it comes to the end of the code with the value
in the register `t` and what `fs` has in use below it as it was, or the code raises. -/
def Runs (rt : Runtime) (vm : VM rt.Heap) (e : Formula) (fs : FuncState) (ip length t : Nat)
    (r : Registers) : Prop :=
  match e.eval rt.fl rt.strcmp (fs.env r) with
  | .value v => ∃ r', Steps rt (during vm ip r) (during vm (ip + length) r') ∧ r' t = v ∧
      ∀ n, n < fs.vlocals.size → r' n = r n
  | .raises msg => ∃ ip' r', Steps rt (during vm ip r) (during vm ip' r') ∧
      VM.step rt (during vm ip' r') =
        VM.exceptionTrap rt (.string (sc msg)) (during vm (ip' + 1) r')
  | .outside => True

/-- **The emitted code of a formula runs to the formula's value.** -/
theorem runs_emit (rt : Runtime) (htested : e.WellTested false) (hfits : e.Fits fs)
    (hlength : fs.instructions.size + e.length < 2 ^ 31)
    (hsealed : ∀ i, fs.instructions.back? = some i → fs.optimization = true →
      i.op.mergeable = false) :
    ∃ code, (e.emit fs).instructions.toList = fs.instructions.toList ++ code ∧
      ∀ (vm : VM rt.Heap) (closure : Closure) (ip : Nat) (r : Registers),
        VM.Runs vm closure → Holds closure ip code →
        (e.emit fs).literals.toList <+: closure.function.literals →
        e.Runs rt vm fs ip code.length (e.result fs) r := by
  have hpiece : FuncState.Piece fs fs.instructions.toList [] :=
    ⟨by simp, fun _ ho i hi => hsealed i (by rwa [Array.getLast?_toList] at hi) ho⟩
  have hafter : fs.afterCmp = false := by
    cases hback : fs.instructions.back? with
    | none => simp [FuncState.afterCmp, hback]
    | some i =>
        have hi := hsealed i hback
        by_contra hafter
        simp only [FuncState.afterCmp, hback, Option.any_some, Bool.not_eq_false, Bool.and_eq_true,
          decide_eq_true_eq] at hafter
        have hmergeable := hi hafter.1
        rw [hafter.2] at hmergeable
        cases hmergeable
  rw [← hafter] at htested
  obtain ⟨code, hcode, -, -⟩ := emit_computes rt.fl rt.strcmp _ htested hfits
    hlength List.prefix_rfl _ _ hpiece
  refine ⟨code, hcode.instructions, fun vm closure ip r hruns hholds hliterals => ?_⟩
  obtain ⟨code', hcode', -, hmeets⟩ := emit_computes rt.fl rt.strcmp _ htested
    hfits hlength hliterals _ _ hpiece
  obtain rfl : code' = code :=
    List.append_cancel_left (hcode'.instructions.symm.trans hcode.instructions)
  have hmeet := hmeets r r (.refl _ _ r)
  unfold Runs
  dsimp only at hmeet
  cases hv : e.eval rt.fl rt.strcmp (fs.env r) with
  | value v =>
      rw [hv] at hmeet
      obtain ⟨r', hr', htarget, hlow⟩ := hmeet
      exact ⟨r', steps_of_goes hruns hholds hr'.goes, htarget, hlow⟩
  | raises msg =>
      rw [hv] at hmeet
      exact steps_of_raises hruns hholds hmeet
  | outside => trivial

end Formula

namespace Compiler

variable {c c' : Compiler} {rest : List (Except String Lexeme)} {ws : List Lexeme} {e : Formula}
  {y : Lexeme}

/-- The compiler accepts the tokens of a formula, and the machine computes its value with the code
that the compiler adds for it. -/
theorem formula_runs (rt : Runtime) (h : Derives .Expression ws e)
    (hreading : Reading rest c (ws ++ [y])) (hy : y.token.rank = 0) (htested : e.WellTested false)
    (hfits : e.Fits c.fs) (hlength : c.fs.instructions.size + e.length < 2 ^ 31)
    (hsealed : ∀ i, c.fs.instructions.back? = some i → c.fs.optimization = true →
      i.op.mergeable = false) :
    ∃ c' code, (∃ N, ∀ n, N ≤ n → run n .Expression c = .ok () c') ∧ Reading rest c' [y] ∧
      c'.fs.instructions.toList = c.fs.instructions.toList ++ code ∧
      ∀ (vm : VM rt.Heap) (closure : Closure) (ip : Nat) (r : Registers),
        VM.Runs vm closure → Holds closure ip code →
        c'.fs.literals.toList <+: closure.function.literals →
        e.Runs rt vm c.fs ip code.length c'.fs.target r := by
  obtain ⟨c', hcompiled, hrun⟩ := run_formula h hreading hy hfits
  obtain ⟨code, hcode, hruns⟩ := Formula.runs_emit rt htested hfits hlength hsealed
  have htarget : (e.emit c.fs).target = e.result c.fs := (Formula.aims_emit hfits.resolves).target
  refine ⟨c', code, hrun, hcompiled.reading, ?_⟩
  rw [hcompiled.fs_eq, htarget]
  exact ⟨hcode, hruns⟩

theorem formula_runs_greater :
    ∃ c' code, (∃ N, ∀ n, N ≤ n → run n .Expression inGreater = .ok () c') ∧
      Reading [] c' [lexemeOf .eob] ∧
      c'.fs.instructions.toList = inGreater.fs.instructions.toList ++ code ∧
      ∀ (vm : VM VM.emptyRuntime.Heap) (closure : Closure) (ip : Nat) (r : Registers),
        VM.Runs vm closure → Holds closure ip code →
        c'.fs.literals.toList <+: closure.function.literals →
        greater.Runs VM.emptyRuntime vm inGreater.fs ip code.length c'.fs.target r :=
  formula_runs VM.emptyRuntime derives_greater ⟨rfl, rfl, rfl, rfl, rfl⟩ rfl
    (by simp [greater, Formula.WellTested, Formula.width])
    ⟨by unfold Formula.Resolves; decide, by decide, by decide⟩ (by decide)
    fun i hi => by simp [inGreater, FuncState.addParameter, FuncState.pushLocalVariable,
      FuncState.init] at hi

/-! ### Parameters -/

/-- Names with commas between them. -/
inductive Names : List Lexeme → List (List UInt8) → Prop where
  | nil : Names [] []
  | last {x : Lexeme} (hx : x.token = .TK_IDENTIFIER) : Names [x] [x.svalue]
  | cons {x z : Lexeme} {ws : List Lexeme} {names : List (List UInt8)}
      (hx : x.token = .TK_IDENTIFIER) (hz : z.token = .chr ',') (h : Names ws names) :
      Names (x :: z :: ws) (x.svalue :: names)

/-- The state of a function with these parameters. -/
def parametersOf (fs : FuncState) (names : List (List UInt8)) : FuncState :=
  names.foldl (fun fs s => fs.addParameter (.string s)) fs

theorem Expect_reading {t : Token} {x z : Lexeme} {ws : List Lexeme}
    (h : Reading rest c (x :: z :: ws)) (hx : x.token = t) :
    ∃ tok lex, Expect t c = .ok (Lexer.value c.lex t) (placed tok lex c) ∧
      Reading rest (placed tok lex c) (z :: ws) := by
  obtain ⟨htoken, -, -, -, hinput⟩ := h
  exact ⟨_, _, Expect_cons (.inl (htoken.trans hx)) hinput, rfl, rfl, rfl, rfl, rfl⟩

/-- The token behind a parameter. -/
def afterParameter (p : Parameters) : CompilerM (Parameters ⊕ Parameters) := do
  if (← getToken) = .chr ',' then Lex
  else if (← getToken) ≠ .chr ')' then error "expected ')' or ','"
  return .inl p

/-- What is known of parameters without types and default values. -/
def plainParameters (fs : FuncState) (k : Nat) : Parameters :=
  { funcstate := fs, generics := [], current_param_idx := k }

/-- A parameter without a type and a default value, in a function without generic types. -/
theorem parameter_name {x z : Lexeme} (hx : x.token = .TK_IDENTIFIER)
    (hreading : Reading rest c (x :: z :: ws)) (hz : z.token = .chr ',' ∨ z.token = .chr ')') :
    ∃ tok lex, Reading rest (placed tok lex c) (z :: ws) ∧
      ∀ (call : Proc → CompilerM Unit) (fs : FuncState) (k : Nat),
        parameter call (plainParameters fs k) c =
          afterParameter (plainParameters (fs.addParameter (.string x.svalue)) (k + 1))
            (placed tok lex c) := by
  obtain ⟨tok, lex, hexpect, hnext⟩ := Expect_reading hreading hx
  refine ⟨tok, lex, hnext, fun call fs k => ?_⟩
  obtain ⟨htoken, hsvalue, -⟩ := hreading
  have hz' : (placed tok lex c).token ≠ .chr ':' ∧ (placed tok lex c).token ≠ .chr '=' := by
    rw [hnext.token]
    rcases hz with hz | hz <;> simp [hz]
  have htype : parameterType (placed tok lex c) = .ok none (placed tok lex c) := by
    unfold parameterType
    rw [getToken_bind_apply, if_neg hz'.1]
    rfl
  unfold parameter
  rw [getToken_bind_apply, if_neg (by simp [htoken, hx]), getToken_bind_apply,
    if_neg (by simp [htoken, hx]), bind_apply, hexpect]
  dsimp only
  rw [bind_apply, htype]
  dsimp only
  rw [getToken_bind_apply, if_neg hz'.2, if_neg (by simp [plainParameters])]
  rw [← hsvalue]
  rfl

/-- The names between the brackets of a function, up to the closing one. -/
theorem loop_parameters {names : List (List UInt8)} {z : Lexeme} (h : Names ws names)
    (hz : z.token = .chr ')') {us : List Lexeme} (hreading : Reading rest c (ws ++ z :: us)) :
    ∃ tok lex, Reading rest (placed tok lex c) (z :: us) ∧
      ∀ (call : Proc → CompilerM Unit) (fs : FuncState) (k n : Nat), ws.length ≤ n →
        loop (n + 1) (parameter call) (plainParameters fs k) c =
          .ok (plainParameters (parametersOf fs names) (k + names.length)) (placed tok lex c) := by
  have hlast {c : Compiler} (hreading : Reading rest c (z :: us)) (call : Proc → CompilerM Unit)
      (p : Parameters) (n : Nat) : loop (n + 1) (parameter call) p c = .ok p c := by
    have hend : parameter call p c = .ok (.inr p) c := by
      unfold parameter
      rw [getToken_bind_apply, if_pos (by rw [hreading.token, hz])]
      rfl
    unfold loop
    rw [bind_apply, hend]
    rfl
  induction h generalizing c with
  | nil => exact ⟨c.token, c.lex, hreading, fun call fs k n _ => hlast hreading call _ n⟩
  | @last x hx =>
      obtain ⟨tok, lex, hnext, hparameter⟩ := parameter_name hx hreading (.inr hz)
      refine ⟨tok, lex, hnext, fun call fs k n hn => ?_⟩
      obtain ⟨n, rfl⟩ := Nat.exists_eq_add_of_le' (show 1 ≤ n from hn)
      have hafter (p : Parameters) :
          afterParameter p (placed tok lex c) = .ok (.inl p) (placed tok lex c) := by
        unfold afterParameter
        rw [getToken_bind_apply, hnext.token, hz, if_neg (by decide), getToken_bind_apply,
          hnext.token, hz, if_neg (by decide)]
        rfl
      unfold loop
      rw [bind_apply, hparameter, hafter]
      exact hlast hnext call _ n
  | @cons x w ws names hx hw _ ih =>
      obtain ⟨tok, lex, hnext, hparameter⟩ := parameter_name hx hreading (.inl hw)
      obtain ⟨tok₁, lex₁, hlex, hnext₁⟩ := hnext.lex (by simp)
      obtain ⟨tok₂, lex₂, hnext₂, hloop⟩ := ih hnext₁
      refine ⟨tok₂, lex₂, hnext₂, fun call fs k n hn => ?_⟩
      simp only [List.length_cons] at hn
      obtain ⟨n, rfl⟩ := Nat.exists_eq_add_of_le' (show 1 ≤ n by omega)
      have hafter (p : Parameters) : afterParameter p (placed tok lex c) =
          .ok (.inl p) (placed tok₁ lex₁ (placed tok lex c)) := by
        unfold afterParameter
        rw [getToken_bind_apply, if_pos (by rw [hnext.token, hw]), bind_apply, hlex]
        rfl
      unfold loop
      rw [bind_apply, hparameter, hafter]
      have hmore := hloop call (fs.addParameter (.string x.svalue)) (k + 1) n (by omega)
      rw [Nat.add_right_comm k 1] at hmore
      exact hmore

/-- A list of names becomes the parameters of the function. -/
theorem functionParameters_names (name : Object) {names : List (List UInt8)} {x z : Lexeme} (h : Names ws names)
    (hx : x.token = .chr '(') (hz : z.token = .chr ')') {u : Lexeme} {us : List Lexeme}
    (hreading : Reading rest c (x :: (ws ++ z :: u :: us))) :
    ∃ tok lex, Reading rest (placed tok lex c) (u :: us) ∧
      ∀ (call : Proc → CompilerM Unit) (n : Nat), ws.length < n →
        functionParameters n call name c = .ok (plainParameters (parametersOf
          ((FuncState.init true name c.sourcename).addParameter (.string (sc "this"))) names)
            (1 + names.length)) (placed tok lex c) := by
  have hgenerics (n : Nat) : genericNames n c = .ok [] c := by
    unfold genericNames
    rw [getToken_bind_apply, if_neg (by rw [hreading.token, hx]; decide)]
    rfl
  obtain ⟨v, vs, hv⟩ : ∃ v vs, ws ++ z :: u :: us = v :: vs := by cases ws <;> simp
  rw [hv] at hreading
  obtain ⟨tok₁, lex₁, hopen, hnext₁⟩ := Expect_reading hreading hx
  rw [← hv] at hnext₁
  obtain ⟨tok₂, lex₂, hnext₂, hloop⟩ := loop_parameters h hz hnext₁
  obtain ⟨tok₃, lex₃, hclose, hnext₃⟩ := Expect_reading hnext₂ hz
  refine ⟨tok₃, lex₃, hnext₃, fun call n hn => ?_⟩
  obtain ⟨n, rfl⟩ := Nat.exists_eq_add_of_le' (show 1 ≤ n by omega)
  have hparameters := hloop call
    ((FuncState.init true name c.sourcename).addParameter (.string (sc "this"))) 1 n (by omega)
  rw [plainParameters] at hparameters
  unfold functionParameters
  rw [get_bind_apply, bind_apply, hgenerics]
  dsimp only
  rw [bind_apply, hopen]
  dsimp only
  rw [bind_apply, hparameters]
  dsimp only
  rw [bind_apply, hclose]
  rfl

end Compiler

/-! ### The end of a function -/

namespace FuncState

variable {fs : FuncState} {i : Instruction}

/-- The last instruction is none that a `RETURN` behind it changes. -/
def KeepsReturn (fs : FuncState) : Prop :=
  ∀ pi, fs.instructions.back? = some pi → pi.op ≠ .CALL ∧ pi.op ≠ .CLOSE

/-- What the optimiser leaves last is the new instruction, or what it makes of the one before. -/
theorem peephole_last (fs : FuncState) (pi i : Instruction) :
    (∀ j, (fs.peephole pi i).next = some j → j.op = i.op) ∧
      ((fs.peephole pi i).next = none → ∀ j, (fs.peephole pi i).prev = some j →
        j.op = pi.op ∨ j.op = i.op ∨ j.op ≠ .CALL ∧ j.op ≠ .CLOSE) := by
  unfold peephole
  split <;> (try split) <;> (try split) <;> simp_all

theorem KeepsReturn.addInstruction (h : fs.KeepsReturn) (hi : i.op ≠ .CALL ∧ i.op ≠ .CLOSE) :
    (fs.addInstruction i).KeepsReturn := by
  intro j hj
  unfold FuncState.addInstruction at hj
  cases hback : fs.instructions.back? with
  | none =>
      rw [hback] at hj
      obtain rfl : i = j := by simpa using hj
      exact hi
  | some pi =>
      rw [hback] at hj
      dsimp only at hj
      split at hj
      · obtain ⟨hnext, hprev⟩ := fs.peephole_last pi i
        cases hn : (fs.peephole pi i).next with
        | some k =>
            rw [hn] at hj
            obtain rfl : k = j := by simpa using hj
            rwa [hnext k hn]
        | none =>
            obtain hkeeps := (fs.peephole_keeps pi i).resolve_right (by simp [hn])
            obtain ⟨k, hk⟩ := Option.isSome_iff_exists.mp hkeeps
            rw [hn, hk] at hj
            obtain rfl : k = j := by simpa using hj
            rcases hprev hn k hk with hop | hop | hop
            · rw [hop]
              exact h pi hback
            · rwa [hop]
            · exact hop
      · obtain rfl : i = j := by simpa using hj
        exact hi

theorem KeepsReturn.congr {fs' : FuncState} (h : fs.KeepsReturn)
    (hcode : fs'.instructions = fs.instructions) : fs'.KeepsReturn := by
  intro pi hpi
  rw [hcode] at hpi
  exact h pi hpi

theorem KeepsReturn.add {gs : FuncState} (h : fs.KeepsReturn)
    (hcode : gs.instructions = fs.instructions) (hi : i.op ≠ .CALL ∧ i.op ≠ .CLOSE) :
    (gs.addInstruction i).KeepsReturn := (h.congr hcode).addInstruction hi

theorem KeepsReturn.pushTarget (h : fs.KeepsReturn) : fs.pushTarget.KeepsReturn := h.congr rfl

theorem KeepsReturn.emitLoad (h : fs.KeepsReturn) {op : Opcode} (hop : op ≠ .CALL ∧ op ≠ .CLOSE)
    (arg1 : Int) : (fs.emitLoad op arg1).KeepsReturn := h.add rfl hop

theorem KeepsReturn.emitConstant (h : fs.KeepsReturn) (o : Object) :
    (fs.emitConstant o).KeepsReturn := by
  have hcode : (fs.pushTarget.getConstant o).2.instructions = fs.instructions := by
    unfold FuncState.getConstant
    split <;> rfl
  exact h.add hcode (by simp)

@[simp] theorem dropTarget_instructions (fs : FuncState) :
    fs.dropTarget.instructions = fs.instructions := by
  unfold dropTarget popTarget
  cases fs.targetstack with
  | nil => rfl
  | cons npos rest => cases h : fs.vlocals[npos]? <;> simp [h]

theorem KeepsReturn.moveTo (h : fs.KeepsReturn) (trg src : Nat) : (fs.moveTo trg src).KeepsReturn := by
  unfold FuncState.moveTo
  split
  · exact h.addInstruction (by simp)
  · exact h

theorem KeepsReturn.popInto (h : fs.KeepsReturn) (trg : Nat) : (fs.popInto trg).KeepsReturn :=
  KeepsReturn.moveTo (h.congr (by simp)) _ _

theorem KeepsReturn.snoozeOpt (h : fs.KeepsReturn) : fs.snoozeOpt.KeepsReturn := h.congr rfl

theorem KeepsReturn.setInstructionParam (h : fs.KeepsReturn) (pos : Nat) (val : Int) :
    (fs.setInstructionParam pos 1 val).KeepsReturn := by
  intro pi hpi
  simp only [FuncState.setInstructionParam, Array.back?_eq_getElem?, Array.size_modify,
    Array.getElem?_modify] at hpi
  rw [← Array.back?_eq_getElem?] at hpi
  cases hback : fs.instructions.back? with
  | none => simp [hback] at hpi
  | some k =>
      have hk := h k hback
      rw [hback] at hpi
      split at hpi <;>
      · simp only [Option.map_some, Option.some.injEq] at hpi
        subst hpi
        exact hk

theorem KeepsReturn.emitShortCircuit (h : fs.KeepsReturn) {op : Opcode}
    (hop : op ≠ .CALL ∧ op ≠ .CLOSE) {second : FuncState → FuncState}
    (hsecond : ∀ gs : FuncState, gs.KeepsReturn → (second gs).KeepsReturn) :
    (fs.emitShortCircuit op second).KeepsReturn := by
  have hjump : (fs.jumpOver op).KeepsReturn := h.add (by simp [FuncState.pushTarget]) hop
  have hrest := hsecond _ (hjump.moveTo (fs.jumpOver op).target fs.target)
  have hpop := hrest.snoozeOpt.popInto (fs.jumpOver op).target
  unfold FuncState.emitShortCircuit FuncState.jumpHere
  exact hpop.snoozeOpt.setInstructionParam _ _

theorem KeepsReturn.emitCond (h : fs.KeepsReturn) {first second : FuncState → FuncState}
    (hfirst : ∀ gs : FuncState, gs.KeepsReturn → (first gs).KeepsReturn)
    (hsecond : ∀ gs : FuncState, gs.KeepsReturn → (second gs).KeepsReturn) :
    (fs.emitCond first second).KeepsReturn := by
  have htest : fs.testTarget.KeepsReturn := h.add (by simp) (by simp)
  have hone : (fs.testTarget.emitFirst first).KeepsReturn := by
    unfold FuncState.emitFirst
    exact ((hfirst _ htest.pushTarget).popInto _).addInstruction (by simp)
  have htwo := (hsecond _ hone).popInto fs.testTarget.vlocals.size
  unfold FuncState.emitCond FuncState.jumpHere
  exact ((htwo.setInstructionParam _ _).setInstructionParam _ _).snoozeOpt

end FuncState

/-- The code of a formula never ends in a call or a CLOSE. -/
theorem Formula.keepsReturn_emit (e : Formula) {fs : FuncState} (h : fs.KeepsReturn) :
    (e.emit fs).KeepsReturn := by
  induction e generalizing fs with
  | int n =>
      change (fs.emitInt n).KeepsReturn
      unfold FuncState.emitInt
      split
      · exact h.emitLoad (by simp) _
      · exact h.emitConstant _
  | float f => exact h.emitLoad (by simp) _
  | str s => exact h.emitConstant _
  | bool b => exact h.emitLoad (by simp) _
  | null => exact h.emitLoad (by simp) _
  | var name =>
      apply h.congr
      cases hname : fs.getLocalVariable (.string name) <;> simp [emit, hname]
  | unary op a ih =>
      refine (ih h).add (by simp [FuncState.pushTarget]) ?_
      cases op <;> simp [UnaryOperator.code]
  | binary op a b iha ihb =>
      refine (ihb (iha h)).add (by simp [FuncState.pushTarget]) ?_
      rcases op with op | op | _ | _ | op
      · cases op <;> simp [Operator.code]
      all_goals simp [Operator.code]
  | and a b iha ihb | or a b iha ihb =>
      exact (iha h).emitShortCircuit (by simp) fun _ hgs => ihb hgs
  | cond c a b ihc iha ihb =>
      exact (ihc h).emitCond (fun _ hgs => iha hgs) fun _ hgs => ihb hgs

namespace FuncState

variable {fs : FuncState} {line : GSInteger} {lineop : Bool}

/-- The end of a lambda: its return, the line of its last token, and the return that stands at the
end of every function. -/
def returned (fs : FuncState) (line : GSInteger) (lineop : Bool) : FuncState :=
  ((fs.dropTarget.addInstruction (.make .RETURN 1 fs.target 0 0)).addLineInfos line lineop
    true).addInstruction (.make .RETURN (-1) 0 0 0)

theorem addReturn_keep (h : fs.KeepsReturn) (a0 a1 a2 a3 : Int) :
    (fs.addInstruction (.make .RETURN a0 a1 a2 a3)).instructions =
      fs.instructions.push (.make .RETURN a0 a1 a2 a3) := by
  refine (addInstruction_keep fun pi hback _ => ?_).1
  obtain ⟨hcall, hclose⟩ := h pi hback
  simp [peephole, hcall, hclose]

variable (line lineop) in
/-- The RETURN stands right behind the code of the expression. -/
theorem returned_toList (h : fs.KeepsReturn) : ∃ tail, (fs.returned line lineop).instructions.toList =
    fs.instructions.toList ++ .make .RETURN 1 fs.target 0 0 :: tail := by
  have hdrop : fs.dropTarget.KeepsReturn := h.congr (by simp)
  have hfirst := addReturn_keep hdrop 1 fs.target 0 0
  rw [dropTarget_instructions] at hfirst
  have hkeeps : (fs.dropTarget.addInstruction (.make .RETURN 1 fs.target 0 0)).KeepsReturn :=
    hdrop.addInstruction (by simp)
  have hline : ∃ line', ((fs.dropTarget.addInstruction (.make .RETURN 1 fs.target 0 0)).addLineInfos
      line lineop true).instructions.toList =
        fs.instructions.toList ++ .make .RETURN 1 fs.target 0 0 :: line' := by
    unfold addLineInfos
    rw [if_pos (by simp)]
    cases lineop with
    | false => exact ⟨[], by simp [hfirst]⟩
    | true =>
        have hcode := (@addInstruction_keep (fs.dropTarget.addInstruction
          (.make .RETURN 1 fs.target 0 0)) (.make .LINE 0 line.toInt 0 0) (by
            intro pi hback _
            have hpi : Instruction.make .RETURN 1 fs.target 0 0 = pi := by
              simpa [hfirst] using hback
            simp [peephole, ← hpi])).1
        exact ⟨[.make .LINE 0 line.toInt 0 0], by simp [hcode, hfirst]⟩
  have hkeeps' : ((fs.dropTarget.addInstruction (.make .RETURN 1 fs.target 0 0)).addLineInfos line
      lineop true).KeepsReturn := by
    unfold addLineInfos
    rw [if_pos (by simp)]
    cases lineop with
    | false => exact hkeeps.congr rfl
    | true => exact (hkeeps.addInstruction (i := .make .LINE 0 line.toInt 0 0) (by simp)).congr rfl
  obtain ⟨line', hline⟩ := hline
  refine ⟨line' ++ [.make .RETURN (-1) 0 0 0], ?_⟩
  rw [returned, addReturn_keep hkeeps', Array.toList_push, hline]
  simp

@[simp] theorem dropTarget_literals (fs : FuncState) : fs.dropTarget.literals = fs.literals := by
  unfold dropTarget popTarget
  cases fs.targetstack with
  | nil => rfl
  | cons npos rest => cases h : fs.vlocals[npos]? <;> simp [h]

variable (fs line lineop) in
theorem returned_literals : (fs.returned line lineop).literals = fs.literals := by
  unfold returned addLineInfos
  rw [addInstruction_literals, if_pos (by simp)]
  cases lineop <;> simp

theorem popLocal_code (fs : FuncState) :
    fs.popLocal.instructions = fs.instructions ∧ fs.popLocal.literals = fs.literals := by
  unfold popLocal
  split
  · exact ⟨rfl, rfl⟩
  · split <;> exact ⟨rfl, rfl⟩

/-- The size of the stack changes neither code nor constants. -/
theorem setStackSize_code (fs : FuncState) (n : Nat) :
    (fs.setStackSize n).instructions = fs.instructions ∧
      (fs.setStackSize n).literals = fs.literals := by
  unfold setStackSize
  induction fs.vlocals.size - n with
  | zero => exact ⟨rfl, rfl⟩
  | succ m ih =>
      obtain ⟨hinstructions, hliterals⟩ := popLocal_code (Nat.repeat popLocal m fs)
      exact ⟨hinstructions.trans ih.1, hliterals.trans ih.2⟩

end FuncState

/-! ### Functions that consist of a formula -/

/-- The state in which the formula of a lambda is compiled. -/
def FuncState.lambda (sourcename name : Object) (names : List (List UInt8)) : FuncState :=
  Compiler.parametersOf ((FuncState.init true name sourcename).addParameter (.string (sc "this")))
    names

theorem FuncState.lambda_instructions (sourcename name : Object) (names : List (List UInt8)) :
    (FuncState.lambda sourcename name names).instructions = #[] := by
  have hfold (fs : FuncState) : (Compiler.parametersOf fs names).instructions = fs.instructions := by
    induction names generalizing fs with
    | nil => rfl
    | cons s names ih => exact ih _
  exact hfold _

/-- The function that a lambda is compiled to. -/
def Formula.function (e : Formula) (fs : FuncState) (line : GSInteger) (lineop : Bool) :
    FunctionProto :=
  { (((e.emit fs).returned line lineop).setStackSize 0).buildProto with rettype := some 0 }

def FuncState.pushFunction (fs : FuncState) (func : FunctionProto) : FuncState :=
  { fs with functions := fs.functions.push func }

/-- A formula is no empty text, and no function starts at its first token. -/
theorem Derives.head {p : Proc} {ws : List Lexeme} {e : Formula} (h : Derives p ws e) :
    ∃ x xs, ws = x :: xs ∧ x.token ≠ .TK_ARROW := by
  induction h with
  | int hx | float hx | str hx | true hx | false hx | null hx | var hx | this hx =>
      exact ⟨_, _, rfl, by simp [hx]⟩
  | negInt hx hy | negFloat hx hy | bwnotInt hx hy => exact ⟨_, _, rfl, by simp [hx]⟩
  | unary op hx => exact ⟨_, _, rfl, by cases op <;> simp [hx, UnaryOperator.token]⟩
  | paren hx => exact ⟨_, _, rfl, by simp [hx]⟩
  | prefixed _ ih | operand _ _ ih | logicalAnd _ ih | logicalOr _ ih | expression _ ih => exact ih
  | binary _ _ _ _ _ _ ih | and _ _ _ ih | or _ _ _ ih =>
      obtain ⟨x, xs, rfl, hx⟩ := ih
      exact ⟨x, _, rfl, hx⟩
  | cond _ _ _ _ _ ih =>
      obtain ⟨x, xs, rfl, hx⟩ := ih
      exact ⟨x, _, rfl, hx⟩

namespace Compiler

variable {c : Compiler} {rest : List (Except String Lexeme)} {ws ps : List Lexeme} {e : Formula}
  {x y z : Lexeme} {name : Object} {names : List (List UInt8)}

/-- The line that the end of a lambda is marked with. -/
def endLine (c : Compiler) : GSInteger :=
  if c.lex.prevtoken = some (.chr '\n') then c.lex.lasttokenline else c.lex.currentline

/-- The body of a lambda once its formula is compiled. -/
theorem functionBody_lambda {call : Proc → CompilerM Unit} {fs gs : FuncState} {k t : Nat}
    {c c₁ : Compiler} (hcall : call .Expression { c with fs := gs, parents := c.fs :: c.parents } =
      .ok () c₁) (haims : FuncState.Aims fs c₁.fs t) :
    functionBody call (plainParameters gs k) true c =
      .ok ((c₁.fs.returned c₁.endLine c₁.lineinfo).setStackSize 0).buildProto
        (c₁.putFs ((c₁.fs.returned c₁.endLine c₁.lineinfo).setStackSize 0)) := by
  have henter : enterFunction (plainParameters gs k).funcstate c =
      .ok () { c with fs := gs, parents := c.fs :: c.parents } := rfl
  unfold functionBody
  rw [bind_apply, henter]
  dsimp only
  rw [bind_apply, show matchGenerics (plainParameters gs k).generics = pure () from rfl, pure_apply]
  dsimp only
  rw [if_pos rfl, bind_apply, hcall]
  dsimp only
  rw [bind_apply, PopTarget_aims haims]
  dsimp only
  rw [bind_apply, AddInstruction_apply]
  dsimp only
  rw [get_bind_apply]
  have hprevtoken (gs : FuncState) : prevtokenIs '\n' (c₁.putFs gs) =
      .ok (decide (c₁.lex.prevtoken = some (.chr '\n'))) (c₁.putFs gs) := rfl
  rw [putFs_putFs, bind_apply, hprevtoken]
  simp only [decide_eq_true_eq, FuncState.returned, haims.target]
  rfl

/-- The compiler accepts a lambda whose body is a formula, and adds its function, which declares no
return type. -/
theorem run_lambda (hnames : Names ps names) (hx : x.token = .chr '(') (hz : z.token = .chr ')')
    (h : Derives .Expression ws e) (hy : y.token.rank = 0)
    (hreading : Reading rest c (x :: (ps ++ z :: (ws ++ [y]))))
    (hfits : e.Fits (.lambda c.sourcename name names)) :
    ∃ line func c', func = e.function (.lambda c.sourcename name names) line c.lineinfo ∧
      Compiled rest y (c.fs.pushFunction func)
        { c with annotations := (func, none) :: c.annotations } c' ∧
      ∃ N, ∀ n, N ≤ n → run n (.CreateFunction name 0xFF true) c = .ok () c' := by
  obtain ⟨w, ws', hw, hwtoken⟩ := h.head
  have hparams : Reading rest c (x :: (ps ++ z :: w :: (ws' ++ [y]))) := by simpa [hw] using hreading
  obtain ⟨tok, lex, hnext, hparameters⟩ := functionParameters_names name hnames hx hz hparams
  have hbody : Reading rest (placed tok lex c) (ws ++ [y]) := by simpa [hw] using hnext
  -- The body is compiled in a function of its own.
  obtain ⟨c₁, hcompiled, N, hrun⟩ := run_formula (c := { placed tok lex c with
    fs := .lambda c.sourcename name names, parents := c.fs :: c.parents }) h
      (hbody.congr rfl rfl) hy hfits
  have haims : FuncState.Aims (.lambda c.sourcename name names) c₁.fs
      (e.result (.lambda c.sourcename name names)) := by
    rw [hcompiled.fs_eq]
    exact Formula.aims_emit hfits.resolves
  have hreturn : returnType (placed tok lex c) = .ok none (placed tok lex c) := by
    unfold returnType
    rw [getToken_bind_apply, if_neg (by rw [hnext.token]; exact hwtoken)]
    rfl
  let func := e.function (.lambda c.sourcename name names) c₁.endLine c.lineinfo
  refine ⟨c₁.endLine, func, { c₁ with
    fs := c.fs.pushFunction func
    parents := c.parents
    annotations := (func, none) :: c.annotations }, rfl, ⟨hcompiled.reading.congr rfl rfl, ?_⟩,
    max N (ps.length + 1) + 1, fun n hn => ?_⟩
  · rw [hcompiled.same]
    rfl
  · obtain ⟨n, rfl⟩ := Nat.exists_eq_add_of_le' (show 1 ≤ n by omega)
    change createFunction n (run n) name 0xFF true c = _
    have hfunction := functionBody_lambda (k := 1 + names.length) (c := placed tok lex c)
      (hrun n (by omega)) haims
    unfold createFunction
    rw [bind_apply, hparameters _ n (by omega)]
    dsimp only
    rw [bind_apply, hreturn]
    dsimp only
    rw [bind_apply, show popParameters 0xFF (plainParameters _ _).defparams (placed tok lex c) =
      .ok () (placed tok lex c) from rfl]
    dsimp only
    have hproto : { ((c₁.fs.returned c₁.endLine c₁.lineinfo).setStackSize 0).buildProto with
        rettype := some (Int64.ofInt (expectedRettype none)) } = func := by
      change _ = e.function (.lambda c.sourcename name names) c₁.endLine c.lineinfo
      rw [Formula.function, ← hcompiled.fs_eq, hcompiled.same]
      rfl
    rw [bind_apply, show parametersOf ((FuncState.init true name c.sourcename).addParameter
      (.string (sc "this"))) names = .lambda c.sourcename name names from rfl, hfunction]
    dsimp only
    rw [hproto]
    unfold leaveFunction
    rw [get_bind_apply]
    have hparents : c₁.parents = c.fs :: c.parents := by
      rw [hcompiled.same]
      rfl
    have hannotations : c₁.annotations = c.annotations := by
      rw [hcompiled.same]
      rfl
    simp only [putFs, hparents]
    rw [← hannotations]
    rfl

end Compiler

/-! ### The run of such a function -/

section

variable {rt : Runtime} {vm : VM rt.Heap} {ci : CallInfo} {callstack : List CallInfo}

/-- The next step hands `v` to the caller of the frame `ci` and leaves the frame, the machine being
`vm'` otherwise: to whoever called `Execute`, or into the slot that the calling instruction names. -/
def HandsBack (rt : Runtime) (ci : CallInfo) (v : Object) (vm vm' : VM rt.Heap) : Prop :=
  (ci.root = true → VM.step rt vm = .returned v vm'.leaveFrame) ∧
    ∀ slot : Nat, ci.root = false → ci.target ≠ -1 →
      ((vm'.stackbase - ci.prevstkbase : Nat) : Int) + ci.target = slot →
        VM.step rt vm = .next (vm'.setSlot slot v).leaveFrame

/-- What a frame comes to in which a function that consists of a formula runs. -/
def Answers (rt : Runtime) (vm : VM rt.Heap) (ci : CallInfo) : Result Object → Prop
  | .value v => ∃ ip r, Steps rt vm (during vm ip r) ∧
      HandsBack rt ci v (during vm ip r) (during vm (ip + 1) r)
  | .raises msg => ∃ ip r, Steps rt vm (during vm ip r) ∧ VM.step rt (during vm ip r) =
      VM.exceptionTrap rt (.string (sc msg)) (during vm (ip + 1) r)
  | .outside => True

/-- A return hands its register to the frame below, or to the caller of
Execute. -/
theorem finish_apply {t : Nat} {i : Instruction} (hstack : vm.callstack = ci :: callstack)
    (hi : i.arg0.toNat = 1) (ht : index1 i = .value t) :
    (ci.root = true → VM.finish i vm = .ok (.returned (registers vm t)) vm.leaveFrame) ∧
      ∀ slot : Nat, ci.root = false → ci.target ≠ -1 →
        ((vm.stackbase - ci.prevstkbase : Nat) : Int) + ci.target = slot →
          VM.finish i vm = .ok .next (vm.setSlot slot (registers vm t)).leaveFrame := by
  have hindex : VM.index1 i vm = .ok t vm := by
    have hcomes := comesTo_index1 vm i
    rwa [ht] at hcomes
  have hvalue : vm.returnValue i.arg0.toNat t = registers vm t := by
    simp [VM.returnValue, hi, registers]
  unfold VM.finish
  rw [bind_apply, hindex]
  dsimp only
  unfold VM.Return
  rw [bind_apply, get_bind_apply, bind_apply, VM.getCi_apply hstack]
  dsimp only
  rw [hvalue]
  constructor
  · intro hroot
    rw [hroot]
    rfl
  · intro slot hroot htarget hslot
    rw [hroot]
    unfold VM.when
    rw [bind_apply, if_pos ⟨rfl, htarget⟩, bind_apply, VM.resultSlot_apply (by omega), hslot]
    rfl

/-- The first return of a function that consists of a formula. -/
theorem step_return (hstack : vm.callstack = ci :: callstack) (hgenerator : ci.generator = none)
    {closure : Closure} (hruns : VM.Runs vm closure) (hrettype : closure.function.rettype = some 0)
    {ip t : Nat} {r : Registers} (ht : t < 256)
    (hi : closure.function.instructions[ip]? = some (.make .RETURN 1 t 0 0)) :
    HandsBack rt ci (r t) (during vm ip r) (during vm (ip + 1) r) := by
  have hfetch := fetch_during hruns r hi
  have hduring : (during vm (ip + 1) r).callstack = { ci with ip := ip + 1 } :: callstack := by
    simp [during, atIp, withRegisters, hstack]
  have harg0 : (Instruction.make .RETURN 1 t 0 0).arg0 = 1 := rfl
  have hfinish := @finish_apply rt _ _ _ t (.make .RETURN 1 t 0 0) hduring
    (by rw [harg0]; rfl) (FuncState.index1_make _ _ _ _ (by omega))
  rw [registers_during] at hfinish
  have hkill : VM.killGenerator (during vm (ip + 1) r) = .ok () (during vm (ip + 1) r) := by
    unfold VM.killGenerator
    rw [bind_apply, VM.getCi_apply hduring]
    dsimp only
    rw [hgenerator]
    rfl
  have hcheck : VM.checkReturnType (.make .RETURN 1 t 0 0) (during vm (ip + 1) r) =
      .ok () (during vm (ip + 1) r) := by
    have hclosure : VM.currentClosure (during vm (ip + 1) r) = .ok closure (during vm (ip + 1) r) :=
      (runs_atIp hruns (ip + 1) r).currentClosure
    unfold VM.checkReturnType VM.when
    rw [if_pos (by rw [harg0]; decide), bind_apply, hclosure]
    dsimp only
    rw [hrettype]
    rfl
  have hexec : VM.exec rt (.make .RETURN 1 t 0 0) (during vm (ip + 1) r) =
      VM.finish (.make .RETURN 1 t 0 0) (during vm (ip + 1) r) := by
    change VM.returnOp _ _ = _
    unfold VM.returnOp
    rw [bind_apply, hkill]
    dsimp only
    rw [bind_apply, hcheck]
  constructor
  · intro hroot
    unfold VM.step
    rw [bind_apply, hfetch]
    dsimp only
    rw [hexec, hfinish.1 hroot]
  · intro slot hroot htarget hslot
    exact VM.step_exec hfetch (hexec.trans (hfinish.2 slot hroot htarget hslot))

/-- A function that consists of a formula returns its value, or raises its error, in whatever
frame it runs. -/
theorem lambda_returns {e : Formula} {sourcename name : Object} {names : List (List UInt8)}
    (htested : e.WellTested false) (hfits : e.Fits (.lambda sourcename name names))
    (hlength : e.length < 2 ^ 31) {line : GSInteger} {lineop : Bool} {closure : Closure}
    (hfunction : closure.function = e.function (.lambda sourcename name names) line lineop)
    (hstack : vm.callstack = ci :: callstack) (hip : ci.ip = 0) (hgenerator : ci.generator = none)
    (hruns : VM.Runs vm closure) : Answers rt vm ci (e.eval rt.fl rt.strcmp
      ((FuncState.lambda sourcename name names).env (registers vm))) := by
  obtain ⟨code, hcode, hformula⟩ := Formula.runs_emit rt htested hfits
    (by rw [FuncState.lambda_instructions]; simpa using hlength)
    (fun i hi => by simp [FuncState.lambda_instructions] at hi)
  rw [FuncState.lambda_instructions, List.nil_append] at hcode
  have hkeeps : (e.emit (.lambda sourcename name names)).KeepsReturn :=
    e.keepsReturn_emit fun pi hpi => by simp [FuncState.lambda_instructions] at hpi
  obtain ⟨tail, htail⟩ := FuncState.returned_toList line lineop hkeeps
  have hinstructions : closure.function.instructions = code ++ .make .RETURN 1
      (e.result (.lambda sourcename name names) : Nat) 0 0 :: tail := by
    rw [hfunction, ← hcode, ← (Formula.aims_emit hfits.resolves).target, ← htail]
    exact congrArg Array.toList (FuncState.setStackSize_code _ _).1
  have hliterals : (e.emit (.lambda sourcename name names)).literals.toList <+:
      closure.function.literals := by
    have hsame : closure.function.literals =
        (e.emit (.lambda sourcename name names)).literals.toList := by
      rw [hfunction, ← FuncState.returned_literals _ line lineop]
      exact congrArg Array.toList (FuncState.setStackSize_code _ _).2
    exact hsame ▸ List.prefix_rfl
  have hstart : during vm 0 (registers vm) = vm := by
    have hci : { ci with ip := 0 } = ci := by rw [← hip]
    have hmodify : (vm.callstack.modifyHead fun ci => { ci with ip := 0 }) = vm.callstack := by
      simp [hstack, hci]
    rw [during, withRegisters_registers, atIp, hmodify]
  have hrun := hformula vm closure 0 (registers vm) hruns ⟨_, hinstructions⟩ hliterals
  unfold Formula.Runs at hrun
  rw [hstart] at hrun
  cases hv : e.eval rt.fl rt.strcmp ((FuncState.lambda sourcename name names).env (registers vm)) with
  | value v =>
      rw [hv] at hrun
      obtain ⟨r, hsteps, hr, -⟩ := hrun
      refine ⟨_, r, hsteps, hr ▸ ?_⟩
      refine step_return hstack hgenerator hruns (by rw [hfunction]; rfl) (Formula.result_lt hfits) ?_
      simp [hinstructions]
  | raises msg =>
      rw [hv] at hrun
      exact hrun
  | outside => trivial

end

/-- From the tokens of a lambda to the value that the machine returns for it: the compiler accepts
them, and the function that it adds returns the value of the formula at the arguments. -/
theorem Compiler.lambda_runs {c : Compiler} {rest : List (Except String Lexeme)}
    {ps ws : List Lexeme} {x y z : Lexeme} {name : Object} {names : List (List UInt8)} {e : Formula}
    (hnames : Names ps names) (hx : x.token = .chr '(') (hz : z.token = .chr ')')
    (h : Derives .Expression ws e) (hy : y.token.rank = 0)
    (hreading : Reading rest c (x :: (ps ++ z :: (ws ++ [y])))) (htested : e.WellTested false)
    (hfits : e.Fits (.lambda c.sourcename name names)) (hlength : e.length < 2 ^ 31) :
    ∃ func c', (∃ N, ∀ n, N ≤ n → run n (.CreateFunction name 0xFF true) c = .ok () c') ∧
      Reading rest c' [y] ∧ c'.fs = c.fs.pushFunction func ∧
      ∀ (rt : Runtime) (vm : VM rt.Heap) (ci : CallInfo) (callstack : List CallInfo)
        (closure : Closure), closure.function = func → vm.callstack = ci :: callstack → ci.ip = 0 →
          ci.generator = none → VM.Runs vm closure →
          Answers rt vm ci (e.eval rt.fl rt.strcmp
            ((FuncState.lambda c.sourcename name names).env (registers vm))) := by
  obtain ⟨line, func, c', rfl, hcompiled, hrun⟩ := run_lambda hnames hx hz h hy hreading hfits
  exact ⟨_, c', hrun, hcompiled.reading, hcompiled.fs_eq, fun rt vm ci callstack closure hfunction
    hstack hip hgenerator hruns =>
      lambda_returns htested hfits hlength hfunction hstack hip hgenerator hruns⟩

/-! #### A lambda -/

/-- The compiler before `(x, y) x <= y ? y : x`. -/
def atGreater : Compiler where
  token := .chr '('
  fs := .init false .null .null
  sourcename := .null
  lex := { input := ([nameOf "x", lexemeOf (.chr ','), nameOf "y",
    lexemeOf (.chr ')')] ++ greaterTokens ++ [lexemeOf .eob]).map .ok }
  lineinfo := false

theorem Compiler.lambda_runs_greater :
    ∃ func c', (∃ N, ∀ n, N ≤ n → run n (.CreateFunction .null 0xFF true) atGreater = .ok () c') ∧
      Reading [] c' [lexemeOf .eob] ∧ c'.fs = atGreater.fs.pushFunction func ∧
      ∀ (rt : Runtime) (vm : VM rt.Heap) (ci : CallInfo) (callstack : List CallInfo)
        (closure : Closure), closure.function = func → vm.callstack = ci :: callstack → ci.ip = 0 →
          ci.generator = none → VM.Runs vm closure →
          Answers rt vm ci (greater.eval rt.fl rt.strcmp
            ((FuncState.lambda .null .null [sc "x", sc "y"]).env (registers vm))) :=
  @lambda_runs atGreater [] [nameOf "x", lexemeOf (.chr ','),
      nameOf "y"] greaterTokens (lexemeOf (.chr '(')) (lexemeOf .eob)
      (lexemeOf (.chr ')')) .null [sc "x", sc "y"] greater
    (.cons (x := nameOf "x") rfl rfl
      (.last (x := nameOf "y") rfl)) rfl rfl derives_greater rfl
    ⟨rfl, rfl, rfl, rfl, rfl⟩ (by simp [greater, Formula.WellTested, Formula.width])
    ⟨by unfold Formula.Resolves; decide, by decide, by decide⟩ (by decide)

end GameScript
