import GameScript.Compiler.Prologue

/-!
Statements behind the start of a function. A statement patches the jumps that it emits, and
those that `break` and `continue` have left open, all behind the checks. With the statements
every procedure keeps the start of the functions.
-/

namespace GameScript.Compiler

open Effect

variable {α β : Type} {P : Prologue} {late : Bool}

set_option synthInstance.maxSize 100000
set_option synthInstance.maxHeartbeats 400000

/-! ### Scopes and loops -/

instance spares_RESOLVE_OUTERS : Spares late RESOLVE_OUTERS := by
  unfold RESOLVE_OUTERS
  infer_instance

instance spares_BEGIN_SCOPE : Spares late BEGIN_SCOPE := by
  unfold BEGIN_SCOPE
  infer_instance

instance spares_END_SCOPE (oldscope : Scope) (closeframe : Bool) :
    Spares late (END_SCOPE oldscope closeframe) := by
  unfold END_SCOPE
  infer_instance

instance spares_BEGIN_BREAKBLE_BLOCK : Spares late BEGIN_BREAKBLE_BLOCK := by
  unfold BEGIN_BREAKBLE_BLOCK
  infer_instance

/-- An open jump is behind the checks, and so are the others. -/
theorem open_jump {o : List Int} {pos : Int} {rest : List Int} {k : Int}
    (h : ∀ pos ∈ o, 0 ≤ pos → k ≤ pos) (ho : o = pos :: rest) :
    (0 ≤ pos → k ≤ pos) ∧ ∀ pos ∈ rest, 0 ≤ pos → k ≤ pos := by
  rw [ho] at h
  exact List.forall_mem_cons.mp h

instance spares_ResolveBreaks (n : Nat) : Spares late (ResolveBreaks n) := by
  induction n with
  | zero => exact spares_pure ()
  | succ n ih =>
    apply spares_of_ends
    intro P c hc
    unfold ResolveBreaks
    rw [getFs_bind_apply]
    cases hbreaks : c.fs.unresolvedbreaks with
    | nil => trivial
    | cons pos rest =>
      obtain ⟨hpos, hrest⟩ := open_jump hc.starts.breaks hbreaks
      have hpast : Past P late { c with fs := { c.fs with unresolvedbreaks := rest } } :=
        ⟨{ hc.starts with breaks := hrest }, hc.around⟩
      have hresolve : SparesTo P late (fun _ => True) (do
          SetInstructionParams pos 0 ((← GetCurrentPos) - pos) 0
          ResolveBreaks n) := by
        apply spares_GetCurrentPos.bindTo
        intro endpos
        apply (sparesTo_SetInstructionParams hpos _ _ _ _).bind
        intro _ _
        exact ih.sparesTo P
      exact hresolve.ends hpast

instance spares_ResolveContinues (targetpos : Int) (n : Nat) :
    Spares late (ResolveContinues targetpos n) := by
  induction n with
  | zero => exact spares_pure ()
  | succ n ih =>
    apply spares_of_ends
    intro P c hc
    unfold ResolveContinues
    rw [getFs_bind_apply]
    cases hcontinues : c.fs.unresolvedcontinues with
    | nil => trivial
    | cons pos rest =>
      obtain ⟨hpos, hrest⟩ := open_jump hc.starts.continues hcontinues
      have hpast : Past P late { c with fs := { c.fs with unresolvedcontinues := rest } } :=
        ⟨{ hc.starts with continues := hrest }, hc.around⟩
      have hresolve : SparesTo P late (fun _ => True) (do
          SetInstructionParams pos 0 (targetpos - pos) 0
          ResolveContinues targetpos n) := by
        apply (sparesTo_SetInstructionParams hpos _ _ _ _).bind
        intro _ _
        exact ih.sparesTo P
      exact hresolve.ends hpast

instance spares_popBreaktarget : Spares late popBreaktarget := by
  unfold popBreaktarget
  infer_instance

instance spares_END_BREAKBLE_BLOCK (before : Nat × Nat) (continue_target : Int) :
    Spares late (END_BREAKBLE_BLOCK before continue_target) := by
  unfold END_BREAKBLE_BLOCK
  infer_instance

instance spares_countTraps (f : Nat → Nat) : Spares late (countTraps f) := by
  unfold countTraps
  infer_instance

instance spares_popTraps (op : Opcode) : Spares late (returnStatement.popTraps op) := by
  unfold returnStatement.popTraps
  infer_instance

/-- The jump of `break` and `continue` is behind the checks. -/
theorem sparesTo_jumpStatement (text : String) (targets : FuncState → List Nat) :
    SparesTo P late (fun pos => (P.code.length : Int) ≤ pos) (jumpStatement text targets) := by
  unfold jumpStatement
  apply spares_getFs.bindTo
  intro fs
  split
  · exact triple_throw fun _ _ => trivial
  · have hjump : SparesTo P late (fun pos => (P.code.length : Int) ≤ pos) (do
        RESOLVE_OUTERS
        AddInstruction .JMP 0 (-1234)
        GetCurrentPos) := by
      apply spares_RESOLVE_OUTERS.bindTo
      intro _
      apply sparesTo_add_bind
      intro _
      exact sparesTo_GetCurrentPos
    dsimp only
    split
    · apply Spares.bindTo inferInstance
      intro _
      exact hjump
    · exact hjump

theorem spares_openBreak {pos : Int} (hpos : (P.code.length : Int) ≤ pos) :
    SparesTo P late (fun _ => True)
      (modifyFs fun fs => { fs with unresolvedbreaks := pos :: fs.unresolvedbreaks }) :=
  triple_modify fun _ hc => ⟨⟨{ hc.starts with
    breaks := List.forall_mem_cons.mpr ⟨fun _ => hpos, hc.starts.breaks⟩ }, hc.around⟩, trivial⟩

theorem spares_openContinue {pos : Int} (hpos : (P.code.length : Int) ≤ pos) :
    SparesTo P late (fun _ => True)
      (modifyFs fun fs => { fs with unresolvedcontinues := pos :: fs.unresolvedcontinues }) :=
  triple_modify fun _ hc => ⟨⟨{ hc.starts with
    continues := List.forall_mem_cons.mpr ⟨fun _ => hpos, hc.starts.continues⟩ }, hc.around⟩, trivial⟩

instance spares_breakStatement : Spares late breakStatement := by
  constructor
  intro P
  unfold breakStatement
  apply (sparesTo_jumpStatement _ _).bind
  intro pos hpos
  apply (spares_openBreak hpos).bind
  intro _ _
  exact spares_Lex.sparesTo P

instance spares_continueStatement : Spares late continueStatement := by
  constructor
  intro P
  unfold continueStatement
  apply (sparesTo_jumpStatement _ _).bind
  intro pos hpos
  apply (spares_openContinue hpos).bind
  intro _ _
  exact spares_Lex.sparesTo P

/-- The code of the increment starts behind the checks. -/
theorem sparesTo_cutInstructions {expstart : Int} (hstart : (P.code.length : Int) ≤ expstart)
    (hlate : late = true → (P.code.length : Int) < expstart) :
    SparesTo P late (fun _ => True) (cutInstructions expstart) := by
  unfold cutInstructions
  apply spares_getFs.bindTo
  intro fs
  apply SparesTo.bind (q := fun _ => True)
  · apply triple_modify
    intro c hc
    refine ⟨⟨hc.starts.cut ?_ ?_, hc.around⟩, trivial⟩
    · omega
    · intro h
      have hlt := hlate h
      omega
  · intro _ _
    exact sparesTo_pure trivial

/-! ### Declarations -/

instance spares_ExpectScalar : Spares late ExpectScalar := by
  unfold ExpectScalar
  apply Spares.bind inferInstance
  intro c
  dsimp only
  repeat' first | infer_instance | apply Spares.bind | intro _ | split

instance spares_constStatement : Spares late constStatement := by
  unfold constStatement
  infer_instance

instance spares_enumStatement (n : Nat) : Spares late (enumStatement n) := by
  unfold enumStatement
  infer_instance

instance spares_modulePath (n : Nat) : Spares late (modulePath n) := by
  unfold modulePath
  infer_instance

instance spares_moduleStatement (n : Nat) (op : Opcode) : Spares late (moduleStatement n op) := by
  unfold moduleStatement
  infer_instance

instance spares_importStatement (n : Nat) : Spares late (importStatement n) :=
  spares_moduleStatement n .IMPORT

instance spares_namespaceStatement (n : Nat) : Spares late (namespaceStatement n) :=
  spares_moduleStatement n .NAMESPACE

instance spares_arraySuffix (what : String) : Spares late (arraySuffix what) := by
  unfold arraySuffix
  infer_instance

instance spares_localType : Spares late localType := by
  unfold localType
  infer_instance

instance spares_setLocalType (type array_size : GSInteger) :
    Spares late (setLocalType type array_size) := by
  unfold setLocalType
  infer_instance

instance spares_foreachVariable (name : Object) : Spares late (foreachVariable name) := by
  unfold foreachVariable
  infer_instance

instance spares_loadDeclarationTable (is_pub : Bool) :
    Spares late (loadDeclarationTable is_pub) := by
  unfold loadDeclarationTable
  infer_instance

instance spares_loadName (id : Object) : Spares late (loadName id) := by
  unfold loadName
  infer_instance

instance spares_popParameters (boundtarget : Int) (defparams : Nat) :
    Spares late (popParameters boundtarget defparams) := by
  unfold popParameters
  infer_instance

instance spares_genericNames (n : Nat) : Spares late (genericNames n) := by
  unfold genericNames
  infer_instance

instance spares_parameterType : Spares late parameterType := by
  unfold parameterType
  infer_instance

instance spares_returnType : Spares late returnType := by
  unfold returnType
  infer_instance

/-! ### Statements -/

section

variable (n : Nat) (call : Proc → CompilerM Unit) [hcall : CallsSpare call]

include hcall

instance spares_statements : Spares late (statements n call) := by
  unfold statements
  infer_instance

instance spares_localVariable : Spares late (localVariable call) := by
  unfold localVariable
  infer_instance

instance spares_localDeclStatement : Spares late (localDeclStatement n call) := by
  unfold localDeclStatement
  infer_instance

instance spares_block (closeframe : Bool) : Spares late (block call closeframe) := by
  unfold block
  infer_instance

instance spares_ifBlock : Spares late (ifBlock call) := by
  unfold ifBlock
  infer_instance

instance spares_condition : Spares late (condition call) := by
  unfold condition
  infer_instance

instance spares_ifStatement : Spares late (ifStatement call) := by
  constructor
  intro P
  unfold ifStatement
  iterate 3 refine Spares.bindTo inferInstance fun _ => ?_
  apply sparesTo_add_bind
  intro _
  apply sparesTo_GetCurrentPos.bind
  intro jnepos hjnepos
  iterate 3 refine Spares.bindTo inferInstance fun _ => ?_
  split
  · apply sparesTo_add_bind
    intro _
    apply sparesTo_GetCurrentPos.bind
    intro jmppos hjmppos
    iterate 3 refine Spares.bindTo inferInstance fun _ => ?_
    apply (sparesTo_SetInstructionParam hjmppos _ _).bind
    intro _ _
    exact sparesTo_SetInstructionParam hjnepos _ _
  · exact sparesTo_SetInstructionParam hjnepos _ _

instance spares_scopedStatement : Spares late (scopedStatement call) := by
  unfold scopedStatement
  infer_instance

instance spares_whileStatement : Spares late (whileStatement call) := by
  constructor
  intro P
  unfold whileStatement
  iterate 5 refine Spares.bindTo inferInstance fun _ => ?_
  apply sparesTo_add_bind
  intro _
  apply sparesTo_GetCurrentPos.bind
  intro jzpos hjzpos
  iterate 4 refine Spares.bindTo inferInstance fun _ => ?_
  apply (sparesTo_SetInstructionParam hjzpos _ _).bind
  intro _ _
  exact (spares_END_BREAKBLE_BLOCK _ _).sparesTo P

instance spares_doWhileStatement : Spares late (doWhileStatement call) := by
  unfold doWhileStatement
  infer_instance

instance spares_forStatement : Spares late (forStatement call) := by
  constructor
  intro P
  unfold forStatement
  iterate 4 refine Spares.bindTo inferInstance fun _ => ?_
  extract_lets _ condition
  have hcondition (r : Unit) : SparesTo P late (fun _ => True) (condition r) := by
    iterate 4 refine Spares.bindTo inferInstance fun _ => ?_
    extract_lets increment
    have hincrement {late : Bool} (r : Unit) {jzpos : Int}
        (hjzpos : 0 < jzpos → (P.code.length : Int) ≤ jzpos) :
        SparesTo P late (fun _ => True) (increment r jzpos) := by
      iterate 2 refine Spares.bindTo inferInstance fun _ => ?_
      refine sparesTo_pos.bind fun pos hpos => ?_
      extract_lets expstart finish
      refine spares_getToken.bindTo fun _ => ?_
      have hfinish (r : Unit) : SparesTo P late (fun _ => True) (finish r) := by
        iterate 2 refine Spares.bindTo inferInstance fun _ => ?_
        apply (sparesTo_cutInstructions hpos.1 fun h => Int.lt_add_one_of_le (hpos.2 h)).bind
        intro exp _
        iterate 6 refine Spares.bindTo inferInstance fun _ => ?_
        extract_lets done
        have hdone (r : Unit) : SparesTo P late (fun _ => True) (done r) := by
          apply Spares.bindTo inferInstance
          intro _
          exact (spares_END_SCOPE _ _).sparesTo P
        split
        · rename_i hpositive
          apply spares_GetCurrentPos.bindTo
          intro _
          exact (sparesTo_SetInstructionParam (hjzpos hpositive) _ _).bind fun r _ => hdone r
        · exact hdone ()
      split
      · iterate 2 refine Spares.bindTo inferInstance fun _ => ?_
        exact hfinish ()
      · exact hfinish ()
    split
    · iterate 2 refine Spares.bindTo inferInstance fun _ => ?_
      apply sparesTo_add_bind
      intro _
      exact sparesTo_GetCurrentPos.bind fun jzpos hjzpos => hincrement () fun _ => hjzpos
    · exact hincrement () fun h => absurd h (by decide)
  split
  · exact Spares.bindTo inferInstance hcondition
  · apply spares_getToken.bindTo
    intro _
    split
    · iterate 2 refine Spares.bindTo inferInstance fun _ => ?_
      exact hcondition ()
    · exact hcondition ()

instance spares_forEachStatement : Spares late (forEachStatement call) := by
  constructor
  intro P
  unfold forEachStatement
  iterate 3 refine Spares.bindTo inferInstance fun _ => ?_
  extract_lets _ _ iteration
  have hiteration (r : Unit) (idxname valname : Object) :
      SparesTo P late (fun _ => True) (iteration r idxname valname) := by
    iterate 9 refine Spares.bindTo inferInstance fun _ => ?_
    apply sparesTo_add_bind
    intro _
    apply sparesTo_GetCurrentPos.bind
    intro foreachpos hforeachpos
    iterate 6 refine Spares.bindTo inferInstance fun _ => ?_
    apply (sparesTo_SetInstructionParam hforeachpos _ _).bind
    intro _ _
    apply spares_GetCurrentPos.bindTo
    intro _
    have hpost : (P.code.length : Int) ≤ foreachpos + 1 := Int.le_add_one hforeachpos
    apply (sparesTo_SetInstructionParam hpost _ _).bind
    intro _ _
    iterate 2 refine Spares.bindTo inferInstance fun _ => ?_
    exact (spares_END_SCOPE _ _).sparesTo P
  apply spares_getToken.bindTo
  intro _
  split
  · iterate 2 refine Spares.bindTo inferInstance fun _ => ?_
    exact hiteration () _ _
  · exact hiteration () _ _

instance spares_caseStatements : Spares late (caseStatements call) := by
  unfold caseStatements
  infer_instance

/-- The jumps that the loop over the cases carries are behind the checks, once there are any. -/
def CaseJumps (P : Prologue) (acc : Bool × Int × Int) : Prop :=
  (acc.1 = false → (P.code.length : Int) ≤ acc.2.1) ∧
    (acc.2.1 ≠ -1 → (P.code.length : Int) ≤ acc.2.1) ∧
    (acc.2.2 ≠ -1 → (P.code.length : Int) ≤ acc.2.2)

theorem sparesTo_switchCases (expr : Nat) : SparesTo P late
    (fun pos => pos ≠ -1 → (P.code.length : Int) ≤ pos) (switchCases n call expr) := by
  unfold switchCases
  have hstart : CaseJumps P (true, -1, -1) :=
    ⟨nofun, fun h => absurd rfl h, fun h => absurd rfl h⟩
  refine sparesTo_loop ?_ n hstart
  rintro ⟨bfirst, tonextcondjmp, skip⟩ ⟨hnext, hopen, hskip⟩
  refine spares_getToken.bindTo fun _ => ?_
  split
  · exact sparesTo_pure hopen
  extract_lets _ case
  have hcase {late : Bool} (r : Unit) {skipcondjmp : Int}
      (hskip : skipcondjmp ≠ -1 → (P.code.length : Int) ≤ skipcondjmp) :
      SparesTo P late (Sum.elim (CaseJumps P) fun pos => pos ≠ -1 → (P.code.length : Int) ≤ pos)
        (case r skipcondjmp) := by
    iterate 5 refine Spares.bindTo inferInstance fun _ => ?_
    extract_lets body emitted
    have hbody (r : Unit) : SparesTo P true (Sum.elim (CaseJumps P) fun pos =>
        pos ≠ -1 → (P.code.length : Int) ≤ pos) (body r) := by
      refine sparesTo_GetCurrentPos.bind fun pos hpos => ?_
      refine Spares.bindTo inferInstance fun _ => ?_
      exact sparesTo_pure ⟨fun _ => hpos, fun _ => hpos, hskip⟩
    have hemitted (r : Unit) : SparesTo P true (Sum.elim (CaseJumps P) fun pos =>
        pos ≠ -1 → (P.code.length : Int) ≤ pos) (emitted r) := by
      dsimp only [emitted]
      split
      · rename_i hjump
        refine spares_GetCurrentPos.bindTo fun _ => ?_
        exact (sparesTo_SetInstructionParam (hskip hjump) _ _).bind fun r _ => hbody r
      · exact hbody ()
    split
    · refine spares_PushTarget.bindTo fun _ => sparesTo_add_bind fun _ => ?_
      iterate 2 refine Spares.bindTo inferInstance fun _ => ?_
      exact hemitted ()
    · exact sparesTo_add_bind fun _ => Spares.bindTo inferInstance hemitted
  split
  · rename_i hlater
    refine sparesTo_add_bind fun _ => sparesTo_GetCurrentPos.bind fun skipcondjmp hpos => ?_
    refine spares_GetCurrentPos.bindTo fun _ => ?_
    have hpatched : (P.code.length : Int) ≤ tonextcondjmp := hnext (by simpa using hlater)
    exact (sparesTo_SetInstructionParam hpatched _ _).bind fun r _ => hcase r fun _ => hpos
  · exact hcase () hskip

instance spares_switchStatement : Spares late (switchStatement n call) := by
  constructor
  intro P
  unfold switchStatement
  iterate 5 refine Spares.bindTo inferInstance fun _ => ?_
  extract_lets nbreaks done rest
  have hdone (r : Unit) : SparesTo P late (fun _ => True) (done r) := by
    iterate 4 refine Spares.bindTo inferInstance fun _ => ?_
    exact spares_popBreaktarget.sparesTo P
  have hrest (r : Unit) : SparesTo P late (fun _ => True) (rest r) := by
    refine spares_getToken.bindTo fun _ => ?_
    split
    · iterate 3 refine Spares.bindTo inferInstance fun _ => ?_
      exact hdone ()
    · exact hdone ()
  refine Spares.bindTo inferInstance fun _ => ?_
  refine (sparesTo_switchCases n call _).bind fun tonextcondjmp hpos => ?_
  split
  · rename_i hopen
    refine spares_GetCurrentPos.bindTo fun _ => ?_
    exact (sparesTo_SetInstructionParam (hpos hopen) _ _).bind fun r _ => hrest r
  · exact hrest ()

instance spares_tryCatchStatement : Spares late (tryCatchStatement call) := by
  constructor
  intro P
  unfold tryCatchStatement
  apply spares_Lex.bindTo
  intro _
  apply sparesTo_add_bind
  intro _
  apply (spares_countTraps _).bindTo
  intro _
  apply sparesTo_GetCurrentPos.bind
  intro trappos htrappos
  iterate 4 refine Spares.bindTo inferInstance fun _ => ?_
  apply sparesTo_add_bind
  intro _
  apply sparesTo_GetCurrentPos.bind
  intro jmppos hjmppos
  apply spares_GetCurrentPos.bindTo
  intro _
  apply (sparesTo_SetInstructionParam htrappos _ _).bind
  intro _ _
  iterate 6 refine Spares.bindTo inferInstance fun _ => ?_
  apply (sparesTo_SetInstructionParam htrappos _ _).bind
  intro _ _
  iterate 2 refine Spares.bindTo inferInstance fun _ => ?_
  apply (sparesTo_SetInstructionParams (fun _ => hjmppos) _ _ _ _).bind
  intro _ _
  exact (spares_END_SCOPE _ _).sparesTo P

instance spares_functionStatement (is_pub : Bool) :
    Spares late (functionStatement n call is_pub) := by
  unfold functionStatement
  infer_instance

instance spares_classStatement (is_pub : Bool) : Spares late (classStatement call is_pub) := by
  unfold classStatement
  apply spares_Lex.bind
  intro _
  apply Spares.withDonotGet
  infer_instance

instance spares_returnStatement (op : Opcode) : Spares late (returnStatement call op) := by
  unfold returnStatement
  infer_instance

instance spares_pubStatement : Spares late (pubStatement call) := by
  unfold pubStatement
  apply spares_Lex.bind
  intro _
  apply Spares.bind inferInstance
  intro token
  split <;> infer_instance

instance spares_statement (closeframe : Bool) : Spares late (statement n call closeframe) := by
  unfold statement
  apply Spares.bind inferInstance
  intro c
  apply Spares.bind inferInstance
  intro _
  apply Spares.bind inferInstance
  intro token
  split <;> infer_instance

/-! ### Functions -/

/-- Nothing has been compiled into the function yet. -/
def Fresh (fs : FuncState) : Prop :=
  fs.instructions = #[] ∧ fs.unresolvedbreaks = [] ∧ fs.unresolvedcontinues = []

theorem sparesTo_parameter (p : Parameters) (hp : Fresh p.funcstate) :
    SparesTo P late (Sum.elim (fun p => Fresh p.funcstate) fun p => Fresh p.funcstate)
      (parameter call p) := by
  unfold parameter
  repeat' first
    | exact sparesTo_pure hp
    | apply Spares.bindTo inferInstance
    | dsimp only
    | apply sparesTo_ite
    | intro _

theorem sparesTo_functionParameters (name : Object) :
    SparesTo P late (fun p => Fresh p.funcstate) (functionParameters n call name) := by
  unfold functionParameters
  apply spares_get.bindTo
  intro c
  apply (spares_genericNames n).bindTo
  intro generics
  apply (spares_Expect _).bindTo
  intro _
  apply SparesTo.bind (sparesTo_loop (sparesTo_parameter call) n ⟨rfl, rfl, rfl⟩)
  intro p hp
  apply (spares_Expect _).bindTo
  intro _
  exact sparesTo_pure hp

end

/-- The checks that a function with these generic types starts with. -/
def checks (generics : Generics) : List Instruction :=
  generics.flatMap fun generic =>
    match generic.2 with
    | [] => []
    | base_reg :: regs => regs.map fun (reg : Nat) => .make .MATCHTYPES base_reg reg 0 0

theorem checks_op (generics : Generics) : ∀ i ∈ checks generics, i.op = .MATCHTYPES := by
  intro i hi
  obtain ⟨generic, -, hi⟩ := List.mem_flatMap.mp hi
  split at hi
  · cases hi
  · obtain ⟨reg, -, rfl⟩ := List.mem_map.mp hi
    rfl

/-- `c'` is `c` with `code` added to the function that is compiled. -/
structure Added (code : List Instruction) (c c' : Compiler) : Prop where
  outline : c'.fs.outline =
    { c.fs.outline with instructions := c.fs.instructions ++ code.toArray }
  parents : c'.parents = c.parents

theorem Added.trans {code code' : List Instruction} {c c₁ c' : Compiler} (h : Added code c c₁)
    (h' : Added code' c₁ c') : Added (code ++ code') c c' := by
  have hinstructions : c₁.fs.instructions = c.fs.instructions ++ code.toArray :=
    congrArg Outline.instructions h.outline
  refine ⟨?_, h'.parents.trans h.parents⟩
  rw [h'.outline, h.outline, hinstructions]
  simp

theorem addCheck_apply {i : Instruction} (hi : i.op = .MATCHTYPES) (c : Compiler) :
    ∃ c', modifyFs (·.addInstruction i) c = .ok () c' ∧ Added [i] c c' := by
  have hpeephole (fs : FuncState) (pi : Instruction) :
      fs.peephole pi i = { prev := some pi, next := some i } := by
    unfold FuncState.peephole
    rw [hi]
  refine ⟨_, rfl, ?_, rfl⟩
  change (c.fs.addInstruction i).outline = _
  unfold FuncState.addInstruction
  split
  · rename_i pi hback
    split
    · obtain ⟨init, hinit⟩ := Array.back?_eq_some_iff.mp hback
      rw [hpeephole]
      unfold FuncState.outline
      rw [hinit]
      simp
    · simp [FuncState.outline]
  · simp [FuncState.outline]

/-- A loop that adds code adds that of all its rounds. -/
theorem forM_added {f : α → CompilerM PUnit} {code : α → List Instruction}
    (h : ∀ a c, ∃ c', f a c = .ok ⟨⟩ c' ∧ Added (code a) c c') (l : List α) (c : Compiler) :
    ∃ c', l.forM f c = .ok ⟨⟩ c' ∧ Added (l.flatMap code) c c' := by
  induction l generalizing c with
  | nil =>
    refine ⟨c, rfl, ?_, rfl⟩
    simp [FuncState.outline]
  | cons a l ih =>
    obtain ⟨c₁, hfirst, hadded⟩ := h a c
    obtain ⟨c', hrest, hadded'⟩ := ih c₁
    refine ⟨c', ?_, hadded.trans hadded'⟩
    change (f a >>= fun _ => l.forM f) c = _
    rw [bind_apply, hfirst]
    exact hrest

theorem matchGenerics_apply (generics : Generics) (c : Compiler) :
    ∃ c', matchGenerics generics c = .ok () c' ∧ Added (checks generics) c c' := by
  unfold matchGenerics checks
  apply forM_added
  rintro ⟨name, regs⟩ c
  cases regs with
  | nil =>
    refine ⟨c, rfl, ?_, rfl⟩
    simp [FuncState.outline]
  | cons base_reg regs =>
    dsimp only
    rw [List.map_eq_flatMap]
    exact forM_added (fun reg => addCheck_apply rfl) regs c

/-- A function that has been compiled starts with the checks, and has the parameters. -/
def Begins (P : Prologue) (func : FunctionProto) : Prop :=
  (∀ (j : Nat) i, P.code[j]? = some i → func.instructions[j]? = some i) ∧
    func.parameters = P.parameters.toList

/-- The start of a function that is compiled in the state `c`. -/
def inner (p : Parameters) (c : Compiler) : Prologue where
  code := checks p.generics
  checks := checks_op p.generics
  parameters := p.funcstate.parameters
  around := (c.fs :: c.parents).map (·.outline)

/-- Behind the checks the function is entered. -/
theorem past_inner {p : Parameters} (hp : Fresh p.funcstate) {c c₁ : Compiler}
    (hadded : Added (checks p.generics)
      { c with fs := p.funcstate, parents := c.fs :: c.parents } c₁) :
    Past (inner p c) false c₁ := by
  obtain ⟨hinstructions, hbreaks, hcontinues⟩ := hp
  have hcode : p.funcstate.instructions ++ (checks p.generics).toArray =
      (checks p.generics).toArray := by
    rw [hinstructions, Array.empty_append]
  have houtline : c₁.fs.outline =
      { p.funcstate.outline with instructions := (checks p.generics).toArray } := by
    rw [hadded.outline]
    exact congrArg (fun code => { p.funcstate.outline with instructions := code }) hcode
  constructor
  · rw [houtline]
    exact {
      code := by
        intro j i hi
        change (checks p.generics)[j]? = some i at hi
        simpa using hi
      breaks := by
        intro pos hpos
        change pos ∈ p.funcstate.unresolvedbreaks at hpos
        rw [hbreaks] at hpos
        exact absurd hpos List.not_mem_nil
      continues := by
        intro pos hpos
        change pos ∈ p.funcstate.unresolvedcontinues at hpos
        rw [hcontinues] at hpos
        exact absurd hpos List.not_mem_nil
      parameters := rfl
      size := Nat.le_of_eq List.size_toArray.symm
      more := fun h => absurd h Bool.false_ne_true }
  · rw [hadded.parents]
    rfl

/-- The finished function goes to the one around, which is as it was. -/
theorem past_leaveFunction {p : Parameters} {c₀ c c' : Compiler} {func : FunctionProto}
    (hc₀ : Past P late c₀) (hc : Past (inner p c₀) false c)
    {declared : Option Annotation} (h : leaveFunction func declared c = .ok () c') :
    Past P late c' ∧ c'.fs.functions.back? = some func := by
  unfold leaveFunction at h
  rw [get_bind_apply] at h
  have haround := hc.around
  cases hparents : c.parents with
  | nil =>
    rw [hparents] at h
    cases h
  | cons currchunk parents =>
    rw [hparents] at h haround
    cases h
    obtain ⟨houtline, hrest⟩ := List.cons.inj haround
    have hsame : currchunk.outline = c₀.fs.outline := houtline
    refine ⟨⟨?_, hrest.trans hc₀.around⟩, by simp⟩
    change P.Starts late currchunk.outline
    rw [hsame]
    exact hc₀.starts

section

variable (n : Nat) (call : Proc → CompilerM Unit) [hcall : CallsSpare call]

include hcall

/-- What follows the checks keeps them. -/
theorem functionBody_begins {p : Parameters} (hp : Fresh p.funcstate) (lambda : Bool)
    {c c' : Compiler} {func : FunctionProto} (h : functionBody call p lambda c = .ok func c') :
    Past (inner p c) false c' ∧ Begins (inner p c) func := by
  have hproto {P : Prologue} {late : Bool} :
      SparesTo P late (Begins P) (do return (← getFs).buildProto) := by
    intro c hc
    refine ⟨hc, ?_, ?_⟩
    · intro j i hi
      have hcode := hc.starts.code j i hi
      exact (Array.getElem?_toList ..).trans hcode
    · exact congrArg Array.toList hc.starts.parameters
  have hend {P : Prologue} {late : Bool} : SparesTo P late (Begins P) (do
      let lex := (← get).lex
      AddLineInfos (if ← prevtokenIs '\n' then lex.lasttokenline else lex.currentline) true
      AddInstruction .RETURN (-1)
      modifyFs (·.setStackSize 0)
      return (← getFs).buildProto) := by
    iterate 5 refine Spares.bindTo inferInstance fun _ => ?_
    exact hproto
  unfold functionBody at h
  obtain ⟨c₁, hchecks, hadded⟩ := matchGenerics_apply p.generics
    { c with fs := p.funcstate, parents := c.fs :: c.parents }
  unfold enterFunction at h
  rw [modify_bind_apply, bind_apply, hchecks] at h
  dsimp only at h
  have hpast := past_inner hp hadded
  split at h
  · have hlambda : SparesTo (inner p c) false (Begins (inner p c)) _ :=
      (spares_call call .Expression).bindTo fun _ => spares_PopTarget.bindTo fun trg =>
        (spares_AddInstruction .RETURN 1 trg 0 0).bindTo fun _ => hend
    exact Triple.ok hlambda hpast h
  · have hstatement : SparesTo (inner p c) false (Begins (inner p c)) _ :=
      (spares_call call (.Statement false)).bindTo fun _ => hend
    exact Triple.ok hstatement hpast h

/-- What a run of `CreateFunction` adds, and where it leaves the function around. -/
theorem createFunction_ok (name : Object) (boundtarget : Int) (lambda : Bool) {c c' : Compiler}
    (hc : Past P late c) (h : createFunction n call name boundtarget lambda c = .ok () c') :
    Past P late c' ∧ ∃ p c₁ c₂ func, functionParameters n call name c = .ok p c₁ ∧
      Begins (inner p c₂) func ∧ c'.fs.functions.back? = some func := by
  unfold createFunction at h
  obtain ⟨p, c₁, hp, h⟩ := bind_eq_ok.mp h
  obtain ⟨a, c₂, ha, h⟩ := bind_eq_ok.mp h
  obtain ⟨_, c₃, hpop, h⟩ := bind_eq_ok.mp h
  obtain ⟨func, c₄, hfunc, h⟩ := bind_eq_ok.mp h
  obtain ⟨hpast₁, hfresh⟩ := Triple.ok (sparesTo_functionParameters n call name) hc hp
  obtain ⟨hpast₂, -⟩ := Triple.ok (spares_returnType.sparesTo P) hpast₁ ha
  obtain ⟨hpast₃, -⟩ := Triple.ok ((spares_popParameters _ _).sparesTo P) hpast₂ hpop
  obtain ⟨hpast₄, hbegins⟩ := functionBody_begins call hfresh lambda hfunc
  obtain ⟨hpast, hback⟩ := past_leaveFunction hpast₃ hpast₄ h
  exact ⟨hpast, p, c₁, c₃, { func with rettype := some (Int64.ofInt (expectedRettype a)) }, hp,
    hbegins, hback⟩

instance spares_createFunction (name : Object) (boundtarget : Int) (lambda : Bool) :
    Spares late (createFunction n call name boundtarget lambda) := by
  apply spares_of_ends
  intro P c hc
  cases h : createFunction n call name boundtarget lambda c with
  | error e c' => trivial
  | ok a c' => exact (createFunction_ok n call name boundtarget lambda hc h).1

/-- Every procedure keeps the start of the functions. -/
theorem body_spares (p : Proc) (h : Callable late (patchesLast p)) :
    Spares late (body n call p) := by
  cases p with
  | ParseTableOrClass separator terminator =>
    cases h.callable rfl
    exact spares_parseTableOrClass n call separator terminator
  | BitwiseOrExp => exact spares_binaryLevel n call .BitwiseXorExp bitwiseOrOps
  | BitwiseXorExp => exact spares_binaryLevel n call .BitwiseAndExp bitwiseXorOps
  | BitwiseAndExp => exact spares_binaryLevel n call .EqExp bitwiseAndOps
  | EqExp => exact spares_binaryLevel n call .CompExp eqOps
  | CompExp => exact spares_binaryLevel n call .ShiftExp compOps
  | ShiftExp => exact spares_binaryLevel n call .PlusExp shiftOps
  | PlusExp => exact spares_binaryLevel n call .MultExp plusOps
  | MultExp => exact spares_binaryLevel n call .PrefixedExpr multOps
  | _ =>
    simp only [body]
    infer_instance

end

/-- Every state is one behind no checks. -/
theorem past_anywhere (c : Compiler) : Past {
    code := []
    checks := nofun
    parameters := c.fs.parameters
    around := c.parents.map (·.outline) } false c where
  starts := {
    code := fun _ _ h => absurd h (Option.some_ne_none _).symm
    breaks := fun _ _ hpos => hpos
    continues := fun _ _ hpos => hpos
    parameters := rfl
    size := Nat.zero_le _
    more := fun h => absurd h Bool.false_ne_true }
  around := rfl

instance callsSpare_run (n : Nat) : CallsSpare (run n) := by
  induction n with
  | zero => exact ⟨fun _ _ _ => spares_throw _⟩
  | succ n ih => exact ⟨fun _ p h => body_spares n (run n) p h⟩

end GameScript.Compiler
