import GameScript.Generics

/-!
The table of constants, which all compilations share. `KeepsTable` says of a computation that
the table has the same entries afterwards, however it ends, with an instance for every procedure
of the compiler that does not declare a constant or an enumeration.
-/

namespace GameScript.Compiler

open Effect

variable {α β : Type}

/-- The entry of a name in the table of constants. -/
def entry (consts : List (Object × Constant)) (name : Object) : Option Constant :=
  (consts.find? fun entry => entry.1 = name).map (·.2)

/-- Every name has the same entry. -/
def SameTable (c c' : Compiler) : Prop := ∀ name, entry c'.consts name = entry c.consts name

theorem SameTable.refl (c : Compiler) : SameTable c c := fun _ => rfl

theorem SameTable.trans {c₁ c₂ c₃ : Compiler} (h : SameTable c₁ c₂) (h' : SameTable c₂ c₃) :
    SameTable c₁ c₃ :=
  fun name => (h' name).trans (h name)

instance : Std.Refl SameTable := ⟨.refl⟩

instance : IsTrans Compiler SameTable := ⟨fun _ _ _ => .trans⟩

class KeepsTable (m : CompilerM α) : Prop where
  within : Within SameTable m

theorem KeepsTable.bind {m : CompilerM α} {f : α → CompilerM β} (hm : KeepsTable m)
    (hf : ∀ a, KeepsTable (f a)) : KeepsTable (m >>= f) :=
  ⟨within_bind hm.within fun a => (hf a).within⟩

instance keeps_bind {m : CompilerM α} {f : α → CompilerM β} [hm : KeepsTable m]
    [hf : ∀ a, KeepsTable (f a)] : KeepsTable (m >>= f) := hm.bind hf

instance keeps_pure (a : α) : KeepsTable (pure a : CompilerM α) := ⟨within_pure a⟩

instance keeps_throw (e : CompileError) : KeepsTable (throw e : CompilerM α) := ⟨within_throw e⟩

instance keeps_error (msg : String) : KeepsTable (error msg : CompilerM α) := keeps_throw _

instance keeps_undefined : KeepsTable (undefined : CompilerM α) := keeps_throw _

instance keeps_ite {p : Prop} [Decidable p] {m m' : CompilerM α} [h : KeepsTable m]
    [h' : KeepsTable m'] : KeepsTable (if p then m else m') := by
  split
  · exact h
  · exact h'

instance keeps_get : KeepsTable (get : CompilerM Compiler) := ⟨within_get⟩

/-- An update of other fields. -/
instance keeps_update {token : Compiler → Token} {fs : Compiler → FuncState}
    {parents : Compiler → List FuncState} {sourcename : Compiler → Object}
    {lex : Compiler → Lexer} {lineinfo : Compiler → Bool} {es : Compiler → ExpState}
    {scope : Compiler → Scope} {annotations : Compiler → List (FunctionProto × Option Annotation)}
    {loaded : Compiler → List FloatConstant} :
    KeepsTable (modify fun c => {
      token := token c, fs := fs c, parents := parents c, sourcename := sourcename c
      lex := lex c, lineinfo := lineinfo c, es := es c, scope := scope c
      consts := c.consts
      annotations := annotations c
      loaded := loaded c } : CompilerM Unit) :=
  ⟨within_modify fun _ _ => rfl⟩

instance keeps_modifyFs (f : FuncState → FuncState) : KeepsTable (modifyFs f) :=
  ⟨within_modify fun _ _ => rfl⟩

instance keeps_loop (n : Nat) {body : α → CompilerM (α ⊕ β)} [h : ∀ a, KeepsTable (body a)]
    (a : α) : KeepsTable (loop n body a) := by
  induction n generalizing a with
  | zero => exact keeps_throw _
  | succ n ih =>
    unfold loop
    apply (h a).bind
    intro r
    cases r with
    | inl a => exact ih a
    | inr b => exact keeps_pure b

instance keeps_whileLoop (n : Nat) {cond : CompilerM Bool} {body : CompilerM Unit}
    [KeepsTable cond] [KeepsTable body] : KeepsTable (whileLoop n cond body) := by
  induction n with
  | zero => exact keeps_throw _
  | succ n ih =>
    unfold whileLoop
    infer_instance

instance keeps_forM {l : List α} {f : α → CompilerM PUnit} [h : ∀ a, KeepsTable (f a)] :
    KeepsTable (l.forM f) :=
  ⟨within_forM_mem fun a _ => (h a).within⟩

/-! ### Operations -/

instance keeps_getFs : KeepsTable getFs := by
  unfold getFs
  infer_instance

instance keeps_getToken : KeepsTable getToken := by
  unfold getToken
  infer_instance

instance keeps_Lex : KeepsTable Lex := by
  unfold Lex
  apply keeps_get.bind
  intro c
  split <;> infer_instance

instance keeps_Expect (tok : Token) : KeepsTable (Expect tok) := by
  unfold Expect
  infer_instance

instance keeps_prevtokenIs (c : Char) : KeepsTable (prevtokenIs c) := by
  unfold prevtokenIs
  infer_instance

instance keeps_IsEndOfStatement : KeepsTable IsEndOfStatement := by
  unfold IsEndOfStatement
  infer_instance

instance keeps_OptionalSemicolon : KeepsTable OptionalSemicolon := by
  unfold OptionalSemicolon
  infer_instance

instance keeps_endStatement : KeepsTable endStatement := by
  unfold endStatement
  infer_instance

instance keeps_AddInstruction (op : Opcode) (arg0 arg1 arg2 arg3 : Int) :
    KeepsTable (AddInstruction op arg0 arg1 arg2 arg3) := by
  unfold AddInstruction
  infer_instance

instance keeps_SnoozeOpt : KeepsTable SnoozeOpt := by
  unfold SnoozeOpt
  infer_instance

instance keeps_GetCurrentPos : KeepsTable GetCurrentPos := by
  unfold GetCurrentPos
  infer_instance

instance keeps_GetStackSize : KeepsTable GetStackSize := by
  unfold GetStackSize
  infer_instance

instance keeps_SetInstructionParam (pos : Int) (arg : Nat) (val : Int) :
    KeepsTable (SetInstructionParam pos arg val) := by
  unfold SetInstructionParam
  infer_instance

instance keeps_SetInstructionParams (pos arg0 arg1 arg2 arg3 : Int) :
    KeepsTable (SetInstructionParams pos arg0 arg1 arg2 arg3) := by
  unfold SetInstructionParams
  infer_instance

instance keeps_AllocStackPos : KeepsTable AllocStackPos := by
  unfold AllocStackPos
  infer_instance

instance keeps_PushTargetAt (n : Nat) : KeepsTable (PushTargetAt n) := by
  unfold PushTargetAt
  infer_instance

instance keeps_PushTarget : KeepsTable PushTarget := by
  unfold PushTarget
  infer_instance

instance keeps_TopTarget : KeepsTable TopTarget := by
  unfold TopTarget
  apply keeps_getFs.bind
  intro fs
  split <;> infer_instance

instance keeps_PopTarget : KeepsTable PopTarget := by
  unfold PopTarget
  apply keeps_getFs.bind
  intro fs
  split <;> infer_instance

instance keeps_PopTargets (n : Nat) : KeepsTable (PopTargets n) := by
  induction n with
  | zero => exact keeps_pure ()
  | succ n ih =>
    unfold PopTargets
    infer_instance

instance keeps_DiscardTarget : KeepsTable DiscardTarget := by
  unfold DiscardTarget
  infer_instance

instance keeps_IsLocal (stkpos : Nat) : KeepsTable (IsLocal stkpos) := by
  unfold IsLocal
  infer_instance

instance keeps_GetConstant (cons : Object) : KeepsTable (GetConstant cons) := by
  unfold GetConstant
  infer_instance

instance keeps_PushLocalVariable (name : Object) : KeepsTable (PushLocalVariable name) := by
  unfold PushLocalVariable
  infer_instance

instance keeps_GetOuterVariable (name : Object) : KeepsTable (GetOuterVariable name) := by
  unfold GetOuterVariable
  apply keeps_get.bind
  intro c
  split <;> infer_instance

instance keeps_IsConstant (name : Object) : KeepsTable (IsConstant name) := by
  unfold IsConstant
  infer_instance

instance keeps_AddLineInfos (line : GSInteger) (force : Bool) :
    KeepsTable (AddLineInfos line force) := by
  unfold AddLineInfos
  infer_instance

instance keeps_MoveIfCurrentTargetIsLocal : KeepsTable MoveIfCurrentTargetIsLocal := by
  unfold MoveIfCurrentTargetIsLocal
  infer_instance

instance keeps_EmitDerefOp (op : Opcode) : KeepsTable (EmitDerefOp op) := by
  unfold EmitDerefOp
  infer_instance

instance keeps_Emit2ArgsOP (op : Opcode) (p3 : Int) : KeepsTable (Emit2ArgsOP op p3) := by
  unfold Emit2ArgsOP
  infer_instance

instance keeps_targetOr (target : Option Nat) : KeepsTable (targetOr target) := by
  unfold targetOr
  split <;> infer_instance

instance keeps_EmitLoadConstInt (value : GSInteger) (target : Option Nat) :
    KeepsTable (EmitLoadConstInt value target) := by
  unfold EmitLoadConstInt
  infer_instance

instance keeps_recordFloat (negated : Bool) (value : GSFloat) :
    KeepsTable (recordFloat negated value) := by
  unfold recordFloat
  infer_instance

instance keeps_EmitLoadConstFloat (value : GSFloat) (target : Option Nat) :
    KeepsTable (EmitLoadConstFloat value target) := by
  unfold EmitLoadConstFloat
  infer_instance

instance keeps_BEGIN_SCOPE : KeepsTable BEGIN_SCOPE := by
  unfold BEGIN_SCOPE
  infer_instance

instance keeps_RESOLVE_OUTERS : KeepsTable RESOLVE_OUTERS := by
  unfold RESOLVE_OUTERS
  infer_instance

instance keeps_END_SCOPE (oldscope : Scope) (closeframe : Bool) :
    KeepsTable (END_SCOPE oldscope closeframe) := by
  unfold END_SCOPE
  infer_instance

instance keeps_BEGIN_BREAKBLE_BLOCK : KeepsTable BEGIN_BREAKBLE_BLOCK := by
  unfold BEGIN_BREAKBLE_BLOCK
  infer_instance

instance keeps_ResolveBreaks (n : Nat) : KeepsTable (ResolveBreaks n) := by
  induction n with
  | zero => exact keeps_pure ()
  | succ n ih =>
    apply keeps_getFs.bind
    intro fs
    split <;> infer_instance

instance keeps_ResolveContinues (targetpos : Int) (n : Nat) :
    KeepsTable (ResolveContinues targetpos n) := by
  induction n with
  | zero => exact keeps_pure ()
  | succ n ih =>
    apply keeps_getFs.bind
    intro fs
    split <;> infer_instance

instance keeps_popBreaktarget : KeepsTable popBreaktarget := by
  unfold popBreaktarget
  infer_instance

instance keeps_END_BREAKBLE_BLOCK (before : Nat × Nat) (continue_target : Int) :
    KeepsTable (END_BREAKBLE_BLOCK before continue_target) := by
  unfold END_BREAKBLE_BLOCK
  infer_instance

/-! ### Expressions -/

set_option synthInstance.maxSize 100000
set_option synthInstance.maxHeartbeats 400000

theorem KeepsTable.withFreshEs {m : CompilerM Unit} (h : KeepsTable m) :
    KeepsTable (withFreshEs m) := by
  unfold Compiler.withFreshEs
  infer_instance

instance keeps_withFreshEs {m : CompilerM Unit} [h : KeepsTable m] :
    KeepsTable (withFreshEs m) := h.withFreshEs

theorem KeepsTable.withDonotGet {m : CompilerM Unit} (h : KeepsTable m) :
    KeepsTable (withDonotGet m) := by
  unfold Compiler.withDonotGet
  infer_instance

instance keeps_setEtype (etype : ExpType) : KeepsTable (setEtype etype) := by
  unfold setEtype
  infer_instance

instance keeps_setEpos (epos : Int) : KeepsTable (setEpos epos) := by
  unfold setEpos
  infer_instance

instance keeps_getEtype : KeepsTable getEtype := by
  unfold getEtype
  infer_instance

instance keeps_EmitCompoundArith (tok : Token) (etype : ExpType) (pos : Int) :
    KeepsTable (EmitCompoundArith tok etype pos) := by
  unfold EmitCompoundArith
  split <;> infer_instance

instance keeps_checkLocalType (dst : Nat) : KeepsTable (checkLocalType dst) := by
  unfold checkLocalType
  apply keeps_getFs.bind
  intro fs
  split <;> infer_instance

instance keeps_assign (ds : ExpType) (pos : Int) : KeepsTable (assign ds pos) := by
  unfold assign
  split <;> infer_instance

instance keeps_moveTo (trg src : Nat) : KeepsTable (moveTo trg src) := by
  unfold moveTo
  infer_instance

instance keeps_emitBinary (op : Opcode) (op3 : Int) : KeepsTable (emitBinary op op3) := by
  unfold emitBinary
  infer_instance

instance keeps_NeedGet : KeepsTable NeedGet := by
  unfold NeedGet
  apply keeps_get.bind
  intro c
  split <;> infer_instance

instance keeps_genericArguments (n : Nat) : KeepsTable (genericArguments n) := by
  unfold genericArguments
  dsimp only
  infer_instance

instance keeps_derefKey : KeepsTable derefKey := by
  unfold derefKey
  infer_instance

instance keeps_postfixIncDec (diff : Int) : KeepsTable (postfixIncDec diff) := by
  unfold postfixIncDec
  apply keeps_Lex.bind
  intro _
  apply keeps_get.bind
  intro c
  dsimp only
  split <;> infer_instance

instance keeps_prepareCall : KeepsTable prepareCall := by
  unfold prepareCall
  apply keeps_get.bind
  intro c
  dsimp only
  split <;> infer_instance

instance keeps_emitConstant (id : Object) (constant : Constant) :
    KeepsTable (emitConstant id constant) := by
  unfold emitConstant
  repeat' first | infer_instance | apply KeepsTable.bind | intro _ | split

instance keeps_identifier (n : Nat) : KeepsTable (identifier n) := by
  unfold identifier
  repeat' first | infer_instance | apply KeepsTable.bind | intro _ | split

instance keeps_emitClosure (boundtarget : Int) : KeepsTable (emitClosure boundtarget) := by
  unfold emitClosure
  infer_instance

section

variable (n : Nat) (call : Proc → CompilerM Unit) [hcall : ∀ p, KeepsTable (call p)]

include hcall

instance keeps_commaExpr : KeepsTable (commaExpr n call) := by
  unfold commaExpr
  infer_instance

instance keeps_assignment (op : Token) : KeepsTable (assignment call op) := by
  unfold assignment
  repeat' first | infer_instance | apply KeepsTable.bind | intro _ | split

instance keeps_conditional : KeepsTable (conditional call) := by
  unfold conditional
  infer_instance

instance keeps_expression : KeepsTable (expression call) := by
  unfold expression
  apply KeepsTable.withFreshEs
  apply (hcall _).bind
  intro _
  apply keeps_getToken.bind
  intro token
  split <;> infer_instance

instance keeps_BIN_EXP (op : Opcode) (f : Proc) (op3 : Int) :
    KeepsTable (BIN_EXP call op f op3) := by
  unfold BIN_EXP
  infer_instance

instance keeps_binaryLevel (f : Proc) (ops : Token → Option (Opcode × Int)) :
    KeepsTable (binaryLevel n call f ops) := by
  unfold binaryLevel
  apply (hcall _).bind
  intro _
  have hround : KeepsTable (do
      match ops (← getToken) with
      | some (op, op3) => BIN_EXP call op f op3
      | none => return ()) := by
    apply keeps_getToken.bind
    intro token
    split <;> infer_instance
  infer_instance

instance keeps_shortCircuit (op : Opcode) (f : Proc) : KeepsTable (shortCircuit call op f) := by
  unfold shortCircuit
  infer_instance

instance keeps_logicalOrExp : KeepsTable (logicalOrExp call) := by
  unfold logicalOrExp
  infer_instance

instance keeps_logicalAndExp : KeepsTable (logicalAndExp n call) := by
  unfold logicalAndExp
  infer_instance

instance keeps_suffix : KeepsTable (suffix n call) := by
  unfold suffix
  apply keeps_getToken.bind
  intro token
  dsimp only
  split <;> infer_instance

instance keeps_prefixedExpr : KeepsTable (prefixedExpr n call) := by
  unfold prefixedExpr
  infer_instance

instance keeps_arrayElements : KeepsTable (arrayElements n call) := by
  unfold arrayElements
  infer_instance

instance keeps_arrayConstructor : KeepsTable (arrayConstructor n call) := by
  unfold arrayConstructor
  infer_instance

instance keeps_negation : KeepsTable (negation call) := by
  unfold negation
  apply keeps_Lex.bind
  intro _
  apply keeps_get.bind
  intro c
  split <;> infer_instance

instance keeps_factorExpr : KeepsTable (factorExpr n call) := by
  unfold factorExpr
  apply keeps_get.bind
  intro c
  split <;> infer_instance

instance keeps_factor : KeepsTable (factor n call) := by
  unfold factor
  apply keeps_getToken.bind
  intro token
  split <;> infer_instance

instance keeps_unaryOP (op : Opcode) : KeepsTable (unaryOP call op) := by
  unfold unaryOP
  infer_instance

instance keeps_deleteExpr : KeepsTable (deleteExpr call) := by
  unfold deleteExpr
  apply keeps_Lex.bind
  intro _
  apply KeepsTable.withDonotGet
  apply (hcall _).bind
  intro _
  apply keeps_getEtype.bind
  intro etype
  split <;> infer_instance

instance keeps_prefixIncDec (token : Token) : KeepsTable (prefixIncDec call token) := by
  unfold prefixIncDec
  apply keeps_Lex.bind
  intro _
  apply KeepsTable.withDonotGet
  apply (hcall _).bind
  intro _
  apply keeps_get.bind
  intro c
  dsimp only
  split <;> infer_instance

instance keeps_callArguments : KeepsTable (callArguments n call) := by
  unfold callArguments
  infer_instance

instance keeps_slotKey : KeepsTable (slotKey call) := by
  unfold slotKey
  apply keeps_getToken.bind
  intro token
  split <;> infer_instance

instance keeps_callSlots : KeepsTable (callSlots n call) := by
  unfold callSlots
  infer_instance

instance keeps_functionCallArgs (rawcall : Bool) :
    KeepsTable (functionCallArgs n call rawcall) := by
  unfold functionCallArgs
  infer_instance

instance keeps_ParseBindEnv : KeepsTable (ParseBindEnv call) := by
  unfold ParseBindEnv
  infer_instance

instance keeps_optionalBindEnv : KeepsTable (optionalBindEnv call) := by
  unfold optionalBindEnv
  infer_instance

instance keeps_method (id : Object) : KeepsTable (slot.method call id) := by
  unfold slot.method
  infer_instance

instance keeps_keyAndValue : KeepsTable (slot.keyAndValue call) := by
  unfold slot.keyAndValue
  infer_instance

instance keeps_slot (separator : Token) : KeepsTable (slot call separator) := by
  unfold slot
  apply keeps_getToken.bind
  intro token
  split <;> infer_instance

instance keeps_parseTableOrClass (separator terminator : Token) :
    KeepsTable (parseTableOrClass n call separator terminator) := by
  unfold parseTableOrClass
  infer_instance

instance keeps_classExp : KeepsTable (classExp call) := by
  unfold classExp
  infer_instance

instance keeps_functionExp (lambda : Bool) : KeepsTable (functionExp call lambda) := by
  unfold functionExp
  infer_instance

end

/-! ### Statements -/

instance keeps_ExpectScalar : KeepsTable ExpectScalar := by
  unfold ExpectScalar
  repeat' first | infer_instance | apply KeepsTable.bind | intro _ | split

instance keeps_modulePath (n : Nat) : KeepsTable (modulePath n) := by
  unfold modulePath
  infer_instance

instance keeps_moduleStatement (n : Nat) (op : Opcode) : KeepsTable (moduleStatement n op) := by
  unfold moduleStatement
  infer_instance

instance keeps_importStatement (n : Nat) : KeepsTable (importStatement n) := by
  unfold importStatement
  infer_instance

instance keeps_namespaceStatement (n : Nat) : KeepsTable (namespaceStatement n) := by
  unfold namespaceStatement
  infer_instance

instance keeps_arraySuffix (what : String) : KeepsTable (arraySuffix what) := by
  unfold arraySuffix
  infer_instance

instance keeps_localType : KeepsTable localType := by
  unfold localType
  infer_instance

instance keeps_setLocalType (type array_size : GSInteger) :
    KeepsTable (setLocalType type array_size) := by
  unfold setLocalType
  infer_instance

instance keeps_cutInstructions (expstart : Int) : KeepsTable (cutInstructions expstart) := by
  unfold cutInstructions
  infer_instance

instance keeps_foreachVariable (name : Object) : KeepsTable (foreachVariable name) := by
  unfold foreachVariable
  infer_instance

instance keeps_countTraps (f : Nat → Nat) : KeepsTable (countTraps f) := by
  unfold countTraps
  infer_instance

instance keeps_loadDeclarationTable (is_pub : Bool) : KeepsTable (loadDeclarationTable is_pub) := by
  unfold loadDeclarationTable
  infer_instance

instance keeps_loadName (id : Object) : KeepsTable (loadName id) := by
  unfold loadName
  infer_instance

instance keeps_genericNames (n : Nat) : KeepsTable (genericNames n) := by
  unfold genericNames
  infer_instance

instance keeps_parameterType : KeepsTable parameterType := by
  unfold parameterType
  infer_instance

instance keeps_returnType : KeepsTable returnType := by
  unfold returnType
  infer_instance

instance keeps_matchGenerics (generics : Generics) : KeepsTable (matchGenerics generics) := by
  have hgeneric (generic : Object × List Nat) : KeepsTable (match generic.2 with
      | [] => return ()
      | base_reg :: regs => regs.forM fun reg => AddInstruction .MATCHTYPES base_reg reg) := by
    split <;> infer_instance
  exact keeps_forM

instance keeps_enterFunction (funcstate : FuncState) : KeepsTable (enterFunction funcstate) := by
  unfold enterFunction
  infer_instance

instance keeps_leaveFunction (func : FunctionProto) (declared : Option Annotation) :
    KeepsTable (leaveFunction func declared) := by
  unfold leaveFunction
  apply keeps_get.bind
  intro c
  split <;> infer_instance

instance keeps_popParameters (boundtarget : Int) (defparams : Nat) :
    KeepsTable (popParameters boundtarget defparams) := by
  unfold popParameters
  infer_instance

instance keeps_jumpStatement (text : String) (targets : FuncState → List Nat) :
    KeepsTable (jumpStatement text targets) := by
  unfold jumpStatement
  apply keeps_getFs.bind
  intro fs
  split <;> infer_instance

instance keeps_breakStatement : KeepsTable breakStatement := by
  unfold breakStatement
  infer_instance

instance keeps_continueStatement : KeepsTable continueStatement := by
  unfold continueStatement
  infer_instance

instance keeps_popTraps (op : Opcode) : KeepsTable (returnStatement.popTraps op) := by
  unfold returnStatement.popTraps
  infer_instance

section

variable (n : Nat) (call : Proc → CompilerM Unit) [hcall : ∀ p, KeepsTable (call p)]

include hcall

instance keeps_statements : KeepsTable (statements n call) := by
  unfold statements
  infer_instance

instance keeps_localVariable : KeepsTable (localVariable call) := by
  unfold localVariable
  infer_instance

instance keeps_localDeclStatement : KeepsTable (localDeclStatement n call) := by
  unfold localDeclStatement
  infer_instance

instance keeps_block (closeframe : Bool) : KeepsTable (block call closeframe) := by
  unfold block
  infer_instance

instance keeps_ifBlock : KeepsTable (ifBlock call) := by
  unfold ifBlock
  infer_instance

instance keeps_condition : KeepsTable (condition call) := by
  unfold condition
  infer_instance

instance keeps_ifStatement : KeepsTable (ifStatement call) := by
  unfold ifStatement
  infer_instance

instance keeps_scopedStatement : KeepsTable (scopedStatement call) := by
  unfold scopedStatement
  infer_instance

instance keeps_whileStatement : KeepsTable (whileStatement call) := by
  unfold whileStatement
  infer_instance

instance keeps_doWhileStatement : KeepsTable (doWhileStatement call) := by
  unfold doWhileStatement
  infer_instance

instance keeps_forStatement : KeepsTable (forStatement call) := by
  unfold forStatement
  repeat' first
    | with_reducible apply KeepsTable.bind
    | intro _
    | dsimp only
    | split
    | infer_instance

instance keeps_forEachStatement : KeepsTable (forEachStatement call) := by
  unfold forEachStatement
  repeat' first
    | with_reducible apply KeepsTable.bind
    | intro _
    | dsimp only
    | split
    | infer_instance

instance keeps_caseStatements : KeepsTable (caseStatements call) := by
  unfold caseStatements
  infer_instance

instance keeps_switchCases (expr : Nat) : KeepsTable (switchCases n call expr) := by
  unfold switchCases
  infer_instance

instance keeps_switchStatement : KeepsTable (switchStatement n call) := by
  unfold switchStatement
  infer_instance

instance keeps_tryCatchStatement : KeepsTable (tryCatchStatement call) := by
  unfold tryCatchStatement
  repeat' first
    | with_reducible apply KeepsTable.bind
    | intro _
    | dsimp only
    | split
    | infer_instance

instance keeps_functionStatement (is_pub : Bool) :
    KeepsTable (functionStatement n call is_pub) := by
  unfold functionStatement
  infer_instance

instance keeps_classStatement (is_pub : Bool) : KeepsTable (classStatement call is_pub) := by
  unfold classStatement
  apply keeps_Lex.bind
  intro _
  apply KeepsTable.withDonotGet
  infer_instance

instance keeps_parameter (p : Parameters) : KeepsTable (parameter call p) := by
  unfold parameter
  infer_instance

instance keeps_functionParameters (name : Object) :
    KeepsTable (functionParameters n call name) := by
  unfold functionParameters
  infer_instance

instance keeps_functionBody (p : Parameters) (lambda : Bool) :
    KeepsTable (functionBody call p lambda) := by
  unfold functionBody
  infer_instance

instance keeps_createFunction (name : Object) (boundtarget : Int) (lambda : Bool) :
    KeepsTable (createFunction n call name boundtarget lambda) := by
  unfold createFunction
  infer_instance

instance keeps_returnStatement (op : Opcode) : KeepsTable (returnStatement call op) := by
  unfold returnStatement
  infer_instance

instance keeps_pubStatement : KeepsTable (pubStatement call) := by
  unfold pubStatement
  apply keeps_Lex.bind
  intro _
  apply keeps_getToken.bind
  intro token
  split <;> infer_instance

end

end GameScript.Compiler
