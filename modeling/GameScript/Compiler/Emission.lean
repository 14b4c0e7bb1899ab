import GameScript.Generics

/-!
Emission. Between two tokens the compiler only emits: it adds and changes instructions,
allocates registers, pushes and pops targets. None of this reads a token or touches a function
that is finished, and all of it ends. `Emits` says so of a computation, with an instance for
every operation of this kind.
-/

namespace GameScript.Compiler

open Effect

variable {α β : Type} {m : CompilerM α}

/-- The functions finished in the function that is compiled and in those around it, and the
annotations of all that are finished. -/
def finished (c : Compiler) : List (Array FunctionProto) × List (FunctionProto × Option Annotation) :=
  ((c.fs :: c.parents).map (·.functions), c.annotations)

/-- `c'` is at the same token as `c`, with the same functions finished and the same float
constants read. -/
structure Emitted (c c' : Compiler) : Prop where
  token : c'.token = c.token
  lex : c'.lex = c.lex
  finished : finished c' = finished c
  loaded : c'.loaded = c.loaded

theorem Emitted.refl (c : Compiler) : Emitted c c := ⟨rfl, rfl, rfl, rfl⟩

theorem Emitted.trans {c₁ c₂ c₃ : Compiler} (h : Emitted c₁ c₂) (h' : Emitted c₂ c₃) :
    Emitted c₁ c₃ :=
  ⟨h'.token.trans h.token, h'.lex.trans h.lex, h'.finished.trans h.finished,
    h'.loaded.trans h.loaded⟩

/-- How a computation ends that only emits. -/
def EmitsFrom (c : Compiler) : EStateM.Result CompileError Compiler α → Prop
  | .ok _ c' => Emitted c c'
  | .error e c' => e ≠ .outOfFuel ∧ Emitted c c'

class Emits (m : CompilerM α) : Prop where
  emitsFrom : ∀ c, EmitsFrom c (m c)

theorem Emits.emitted (h : Emits m) (c : Compiler) : Emitted c (leaves m c) := by
  have hc := h.emitsFrom c
  unfold leaves
  cases hm : m c with
  | ok a c' =>
    rw [hm] at hc
    exact hc
  | error e c' =>
    rw [hm] at hc
    exact hc.2

theorem Emits.ok (h : Emits m) {c c' : Compiler} {a : α} (hm : m c = .ok a c') :
    Emitted c c' := by
  have hc := h.emitsFrom c
  rwa [hm] at hc

theorem Emits.ends (h : Emits m) {c c' : Compiler} : m c ≠ .error .outOfFuel c' := by
  intro hm
  have hc := h.emitsFrom c
  rw [hm] at hc
  exact hc.1 rfl

theorem Emits.bind {f : α → CompilerM β} (hm : Emits m) (hf : ∀ a, Emits (f a)) :
    Emits (m >>= f) := by
  refine ⟨fun c => ?_⟩
  have hc := hm.emitsFrom c
  rw [bind_apply]
  cases hr : m c with
  | error e c' =>
    rw [hr] at hc
    exact hc
  | ok a c₁ =>
    rw [hr] at hc
    have hc₁ := (hf a).emitsFrom c₁
    dsimp only
    cases hr₁ : f a c₁ with
    | error e c' =>
      rw [hr₁] at hc₁
      exact ⟨hc₁.1, Emitted.trans hc hc₁.2⟩
    | ok b c' =>
      rw [hr₁] at hc₁
      exact Emitted.trans hc hc₁

instance emits_bind {f : α → CompilerM β} [hm : Emits m] [hf : ∀ a, Emits (f a)] :
    Emits (m >>= f) := hm.bind hf

instance emits_pure (a : α) : Emits (pure a : CompilerM α) := ⟨fun c => .refl c⟩

instance emits_ite {p : Prop} [Decidable p] {m' : CompilerM α} [h : Emits m] [h' : Emits m'] :
    Emits (if p then m else m') := by
  split
  · exact h
  · exact h'

instance emits_error (msg : String) : Emits (error msg : CompilerM α) :=
  ⟨fun c => ⟨by simp, .refl c⟩⟩

instance emits_undefined : Emits (undefined : CompilerM α) :=
  ⟨fun c => ⟨by simp, .refl c⟩⟩

instance emits_forM {l : List α} {f : α → CompilerM PUnit} [h : ∀ a, Emits (f a)] :
    Emits (l.forM f) := by
  induction l with
  | nil => exact emits_pure _
  | cons a l ih => exact emits_bind

/-! ### The state -/

theorem emits_modify {f : Compiler → Compiler} (h : ∀ c, Emitted c (f c)) :
    Emits (modify f : CompilerM Unit) := ⟨h⟩

theorem emits_modifyFs {f : FuncState → FuncState} (h : ∀ fs, (f fs).functions = fs.functions) :
    Emits (modifyFs f) := by
  apply emits_modify
  intro c
  refine ⟨rfl, rfl, ?_, rfl⟩
  simp only [finished, List.map_cons, h]

/-- An update of other fields. -/
instance emits_updateFs {parent varparams bgenerator optimization : FuncState → Bool}
    {name sourcename : FuncState → Object} {returnexp outers : FuncState → Int}
    {vlocals : FuncState → Array VLocal} {targetstack breaktargets continuetargets :
      FuncState → List Nat} {stacksize traps : FuncState → Nat}
    {unresolvedbreaks unresolvedcontinues : FuncState → List Int}
    {parameters literals : FuncState → Array Object} {outervalues : FuncState → Array OuterVar}
    {instructions : FuncState → Array Instruction}
    {localvarinfos : FuncState → Array LocalVarInfo} {lineinfos : FuncState → Array LineInfo}
    {defaultparams : FuncState → Array Nat} {lastline : FuncState → GSInteger} :
    Emits (modifyFs fun fs => {
      parent := parent fs, name := name fs, sourcename := sourcename fs
      returnexp := returnexp fs, vlocals := vlocals fs, targetstack := targetstack fs
      stacksize := stacksize fs, varparams := varparams fs, bgenerator := bgenerator fs
      unresolvedbreaks := unresolvedbreaks fs, unresolvedcontinues := unresolvedcontinues fs
      functions := fs.functions, parameters := parameters fs, outervalues := outervalues fs
      instructions := instructions fs, localvarinfos := localvarinfos fs
      literals := literals fs, lineinfos := lineinfos fs, breaktargets := breaktargets fs
      continuetargets := continuetargets fs, defaultparams := defaultparams fs
      lastline := lastline fs, traps := traps fs, outers := outers fs
      optimization := optimization fs }) :=
  emits_modifyFs fun _ => rfl

instance emits_update {sourcename : Compiler → Object} {lineinfo : Compiler → Bool}
    {es : Compiler → ExpState} {scope : Compiler → Scope}
    {consts : Compiler → List (Object × Constant)} :
    Emits (modify fun c => {
      token := c.token, fs := c.fs, parents := c.parents, sourcename := sourcename c
      lex := c.lex, lineinfo := lineinfo c, es := es c, scope := scope c
      consts := consts c
      annotations := c.annotations
      loaded := c.loaded } : CompilerM Unit) :=
  emits_modify fun _ => ⟨rfl, rfl, rfl, rfl⟩

/-- What only looks at the state. -/
theorem emits_reads {q : Compiler → α} : Emits (do return q (← get) : CompilerM α) :=
  ⟨fun c => .refl c⟩

instance emits_get : Emits (get : CompilerM Compiler) := ⟨fun c => .refl c⟩

instance emits_getFs : Emits getFs := emits_reads

instance emits_getToken : Emits getToken := emits_reads

instance emits_getEtype : Emits getEtype := emits_reads

instance emits_prevtokenIs (c : Char) : Emits (prevtokenIs c) := emits_reads

instance emits_IsConstant (name : Object) : Emits (IsConstant name) := emits_reads

/-- The second computation may use what the state is. -/
theorem emits_getFs_bind {f : FuncState → CompilerM β} (h : ∀ c, EmitsFrom c (f c.fs c)) :
    Emits (getFs >>= f) := ⟨h⟩

/-- The new state of the function is known. -/
theorem emits_setFs_bind {c : Compiler} {fs : FuncState} {f : CompilerM β} (hf : Emits f)
    (h : fs.functions = c.fs.functions) :
    EmitsFrom c ((do modifyFs fun _ => fs; f) c) := by
  have hset : Emitted c { c with fs := fs } := by
    refine ⟨rfl, rfl, ?_, rfl⟩
    simp only [finished, List.map_cons, h]
  have hc := hf.emitsFrom { c with fs := fs }
  change EmitsFrom c (f { c with fs := fs })
  cases hr : f { c with fs := fs } with
  | ok a c' =>
    rw [hr] at hc
    exact hset.trans hc
  | error e c' =>
    rw [hr] at hc
    exact ⟨hc.1, hset.trans hc.2⟩

/-! ### Operations -/

instance emits_GetCurrentPos : Emits GetCurrentPos := by
  unfold GetCurrentPos
  infer_instance

instance emits_GetStackSize : Emits GetStackSize := by
  unfold GetStackSize
  infer_instance

instance emits_IsLocal (stkpos : Nat) : Emits (IsLocal stkpos) := by
  unfold IsLocal
  infer_instance

instance emits_IsEndOfStatement : Emits IsEndOfStatement := by
  unfold IsEndOfStatement
  infer_instance

theorem addInstruction_functions (fs : FuncState) (i : Instruction) :
    (fs.addInstruction i).functions = fs.functions := by
  unfold FuncState.addInstruction
  split
  · split <;> rfl
  · rfl

instance emits_addInstruction (i : Instruction) : Emits (modifyFs (·.addInstruction i)) :=
  emits_modifyFs fun fs => addInstruction_functions fs i

instance emits_AddInstruction (op : Opcode) (arg0 arg1 arg2 arg3 : Int) :
    Emits (AddInstruction op arg0 arg1 arg2 arg3) := emits_addInstruction _

instance emits_SnoozeOpt : Emits SnoozeOpt := emits_modifyFs fun _ => rfl

instance emits_SetInstructionParam (pos : Int) (arg : Nat) (val : Int) :
    Emits (SetInstructionParam pos arg val) := by
  have hset := emits_modifyFs (f := (·.setInstructionParam pos.toNat arg val)) fun _ => rfl
  unfold SetInstructionParam
  infer_instance

instance emits_SetInstructionParams (pos arg0 arg1 arg2 arg3 : Int) :
    Emits (SetInstructionParams pos arg0 arg1 arg2 arg3) := by
  have hset := emits_modifyFs (f := (·.setInstructionParams pos.toNat arg0 arg1 arg2 arg3))
    fun _ => rfl
  unfold SetInstructionParams
  infer_instance

instance emits_AllocStackPos : Emits AllocStackPos := by
  unfold AllocStackPos
  apply emits_getFs_bind
  intro c
  split
  · exact (emits_error _).emitsFrom c
  · exact emits_setFs_bind (emits_pure _) rfl

instance emits_PushTargetAt (n : Nat) : Emits (PushTargetAt n) := by
  unfold PushTargetAt
  infer_instance

instance emits_PushTarget : Emits PushTarget := by
  unfold PushTarget
  infer_instance

instance emits_TopTarget : Emits TopTarget := by
  unfold TopTarget
  apply emits_getFs.bind
  intro fs
  split <;> infer_instance

theorem popTarget_functions {fs fs' : FuncState} {n : Nat} (h : fs.popTarget = some (n, fs')) :
    fs'.functions = fs.functions := by
  unfold FuncState.popTarget at h
  split at h
  · cases h
  · split at h
    · cases h
    · cases h
      rfl

instance emits_PopTarget : Emits PopTarget := by
  unfold PopTarget
  apply emits_getFs_bind
  intro c
  cases hpop : c.fs.popTarget with
  | none => exact emits_undefined.emitsFrom c
  | some r => exact emits_setFs_bind (emits_pure _) (popTarget_functions hpop)

instance emits_PopTargets (n : Nat) : Emits (PopTargets n) := by
  induction n with
  | zero => exact emits_pure ()
  | succ n ih =>
    unfold PopTargets
    infer_instance

instance emits_discardResult (n : Nat) : Emits (modifyFs (·.discardResult n)) := by
  apply emits_modifyFs
  intro fs
  unfold FuncState.discardResult
  repeat' split
  all_goals rfl

instance emits_DiscardTarget : Emits DiscardTarget := by
  unfold DiscardTarget
  infer_instance

theorem getConstant_functions (fs : FuncState) (cons : Object) :
    (fs.getConstant cons).2.functions = fs.functions := by
  unfold FuncState.getConstant
  split <;> rfl

instance emits_GetConstant (cons : Object) : Emits (GetConstant cons) := by
  unfold GetConstant
  apply emits_getFs_bind
  intro c
  apply emits_setFs_bind
  · infer_instance
  · exact getConstant_functions c.fs cons

instance emits_PushLocalVariable (name : Object) : Emits (PushLocalVariable name) := by
  unfold PushLocalVariable
  apply emits_getFs_bind
  intro c
  exact emits_setFs_bind (emits_pure _) rfl

instance emits_GetOuterVariable (name : Object) : Emits (GetOuterVariable name) := by
  refine ⟨fun c => ?_⟩
  have hsame := FuncState.getOuterVariable_map (·.functions) (fun _ _ _ _ => rfl)
    (fun _ _ => rfl) name (c.fs :: c.parents)
  unfold GetOuterVariable
  rw [get_bind_apply]
  cases hout : FuncState.getOuterVariable name (c.fs :: c.parents) with
  | mk pos fns =>
    rw [hout] at hsame
    cases fns with
    | nil => exact emits_undefined.emitsFrom c
    | cons fs parents => exact ⟨rfl, rfl, congrArg (·, c.annotations) hsame, rfl⟩

instance emits_newConstant (name : Object) (constant : Constant) :
    Emits (newConstant name constant) := emits_modify fun _ => ⟨rfl, rfl, rfl, rfl⟩

instance emits_AddLineInfos (line : GSInteger) (force : Bool) :
    Emits (AddLineInfos line force) := by
  unfold AddLineInfos
  apply emits_get.bind
  intro c
  apply emits_modifyFs
  intro fs
  unfold FuncState.addLineInfos
  split
  · dsimp only
    split
    · exact addInstruction_functions fs _
    · rfl
  · rfl

instance emits_setStackSize (n : Nat) : Emits (modifyFs (·.setStackSize n)) := by
  apply emits_modifyFs
  intro fs
  unfold FuncState.setStackSize
  generalize fs.vlocals.size - n = k
  induction k with
  | zero => rfl
  | succ k ih =>
    have hpop (fs : FuncState) : fs.popLocal.functions = fs.functions := by
      unfold FuncState.popLocal
      split
      · rfl
      · split <;> rfl
    exact (hpop _).trans ih

instance emits_setEtype (etype : ExpType) : Emits (setEtype etype) :=
  emits_modify fun _ => ⟨rfl, rfl, rfl, rfl⟩

instance emits_setEpos (epos : Int) : Emits (setEpos epos) :=
  emits_modify fun _ => ⟨rfl, rfl, rfl, rfl⟩

instance emits_MoveIfCurrentTargetIsLocal : Emits (MoveIfCurrentTargetIsLocal) := by
  unfold MoveIfCurrentTargetIsLocal
  infer_instance

instance emits_EmitDerefOp (op : Opcode) : Emits (EmitDerefOp op) := by
  unfold EmitDerefOp
  infer_instance

instance emits_Emit2ArgsOP (op : Opcode) (p3 : Int) : Emits (Emit2ArgsOP op p3) := by
  unfold Emit2ArgsOP
  infer_instance

instance emits_targetOr (target : Option Nat) : Emits (targetOr target) := by
  unfold targetOr
  split <;> infer_instance

instance emits_EmitLoadConstInt (value : GSInteger) (target : Option Nat) :
    Emits (EmitLoadConstInt value target) := by
  unfold EmitLoadConstInt
  infer_instance

instance emits_EmitLoadConstFloat (value : GSFloat) (target : Option Nat) :
    Emits (EmitLoadConstFloat value target) := by
  unfold EmitLoadConstFloat
  infer_instance

instance emits_EmitCompoundArith (tok : Token) (etype : ExpType) (pos : Int) :
    Emits (EmitCompoundArith tok etype pos) := by
  unfold EmitCompoundArith
  split <;> infer_instance

instance emits_checkLocalType (dst : Nat) : Emits (checkLocalType dst) := by
  unfold checkLocalType
  apply emits_getFs.bind
  intro fs
  split <;> infer_instance

instance emits_assign (ds : ExpType) (pos : Int) : Emits (assign ds pos) := by
  unfold assign
  split <;> infer_instance

instance emits_moveTo (trg src : Nat) : Emits (moveTo trg src) := by
  unfold moveTo
  infer_instance

instance emits_emitBinary (op : Opcode) (op3 : Int) : Emits (emitBinary op op3) := by
  unfold emitBinary
  infer_instance

instance emits_NeedGet : Emits (NeedGet) := by
  unfold NeedGet
  apply emits_get.bind
  intro c
  split <;> infer_instance

instance emits_derefKey : Emits (derefKey) := by
  unfold derefKey
  infer_instance

instance emits_prepareCall : Emits (prepareCall) := by
  unfold prepareCall
  apply emits_get.bind
  intro c
  dsimp only
  split <;> infer_instance

instance emits_emitClosure (boundtarget : Int) : Emits (emitClosure boundtarget) := by
  unfold emitClosure
  infer_instance

instance emits_setLocalType (type array_size : GSInteger) :
    Emits (setLocalType type array_size) := emits_modifyFs fun _ => rfl

instance emits_RESOLVE_OUTERS : Emits RESOLVE_OUTERS := by
  unfold RESOLVE_OUTERS
  infer_instance

instance emits_BEGIN_SCOPE : Emits BEGIN_SCOPE := by
  unfold BEGIN_SCOPE
  infer_instance

instance emits_END_SCOPE (oldscope : Scope) (closeframe : Bool) :
    Emits (END_SCOPE oldscope closeframe) := by
  unfold END_SCOPE
  infer_instance

instance emits_BEGIN_BREAKBLE_BLOCK : Emits BEGIN_BREAKBLE_BLOCK := by
  unfold BEGIN_BREAKBLE_BLOCK
  infer_instance

instance emits_ResolveBreaks (n : Nat) : Emits (ResolveBreaks n) := by
  induction n with
  | zero => exact emits_pure ()
  | succ n ih =>
    apply emits_getFs.bind
    intro fs
    split <;> infer_instance

instance emits_ResolveContinues (targetpos : Int) (n : Nat) :
    Emits (ResolveContinues targetpos n) := by
  induction n with
  | zero => exact emits_pure ()
  | succ n ih =>
    apply emits_getFs.bind
    intro fs
    split <;> infer_instance

instance emits_popBreaktarget : Emits popBreaktarget := by
  unfold popBreaktarget
  infer_instance

instance emits_END_BREAKBLE_BLOCK (before : Nat × Nat) (continue_target : Int) :
    Emits (END_BREAKBLE_BLOCK before continue_target) := by
  unfold END_BREAKBLE_BLOCK
  infer_instance

instance emits_cutInstructions (expstart : Int) : Emits (cutInstructions expstart) := by
  unfold cutInstructions
  infer_instance

instance emits_foreachVariable (name : Object) : Emits (foreachVariable name) := by
  unfold foreachVariable
  infer_instance

instance emits_countTraps (f : Nat → Nat) : Emits (countTraps f) := by
  unfold countTraps
  infer_instance

instance emits_loadDeclarationTable (is_pub : Bool) : Emits (loadDeclarationTable is_pub) := by
  unfold loadDeclarationTable
  infer_instance

instance emits_loadName (id : Object) : Emits (loadName id) := by
  unfold loadName
  infer_instance

instance emits_matchGenerics (generics : Generics) : Emits (matchGenerics generics) := by
  have hgeneric (generic : Object × List Nat) : Emits (match generic.2 with
      | [] => return ()
      | base_reg :: regs => regs.forM fun reg => AddInstruction .MATCHTYPES base_reg reg) := by
    split <;> infer_instance
  exact emits_forM

instance emits_popParameters (boundtarget : Int) (defparams : Nat) :
    Emits (popParameters boundtarget defparams) := by
  unfold popParameters
  infer_instance

instance emits_jumpStatement (text : String) (targets : FuncState → List Nat) :
    Emits (jumpStatement text targets) := by
  unfold jumpStatement
  apply emits_getFs.bind
  intro fs
  split <;> infer_instance

instance emits_popTraps (op : Opcode) : Emits (returnStatement.popTraps op) := by
  unfold returnStatement.popTraps
  infer_instance

end GameScript.Compiler
