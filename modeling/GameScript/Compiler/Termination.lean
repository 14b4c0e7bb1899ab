import GameScript.Compiler.Progress

/-!
The compiler terminates. A procedure that is called where it was called before has taken a token
in between, or is one that comes later in the grammar: `rank` orders the procedures that call
each other without reading. So the recursion and the loops end within a bound that is linear in
the number of tokens.
-/

namespace GameScript.Compiler

open Effect

variable {α β : Type} {m : CompilerM α} {P : Token → Prop} {b n : Nat}

set_option synthInstance.maxSize 100000
set_option synthInstance.maxHeartbeats 400000

/-! ### Declarations -/

instance free_ExpectScalar : Free b ExpectScalar := by
  unfold ExpectScalar
  apply Free.bind inferInstance
  intro c
  dsimp only
  repeat' first | infer_instance | apply Free.bind | intro _ | split

instance eats_constStatement : Eats b constStatement := by
  unfold constStatement
  infer_instance

/-- A loop takes something if every round does, the last one too. -/
instance eats_loop [hn : Rounds b n] {body : α → CompilerM (α ⊕ β)} [h : ∀ a, Eats b (body a)]
    (a : α) : Eats b (loop n body a) := by
  refine ⟨?_⟩
  have hle := hn.le
  cases n with
  | zero =>
    rw [Nat.le_zero.mp hle]
    exact takes_none
  | succ n =>
    unfold loop
    apply (h a).takes.eat
    · intro r
      cases r with
      | inl a =>
        refine ⟨takes_loop (by omega) (fun a => ?_) a⟩
        exact (h a).takes.mono (fun _ h => h) (Nat.sub_le b 1) perRound_le
      | inr x => exact (emits_pure x).free
    · exact fun _ => Nat.le_refl 1

instance eats_enumStatement [hn : Rounds b n] : Eats b (enumStatement n) := by
  unfold enumStatement
  infer_instance

instance eats_modulePath [hn : Rounds b n] : Eats b (modulePath n) := by
  unfold modulePath
  infer_instance

instance eats_moduleStatement [hn : Rounds b n] (op : Opcode) : Eats b (moduleStatement n op) := by
  unfold moduleStatement
  infer_instance

instance free_arraySuffix (what : String) : Free b (arraySuffix what) := by
  unfold arraySuffix
  infer_instance

instance free_localType : Free b localType := by
  unfold localType
  infer_instance

instance eats_localVariable {call : Proc → CompilerM Unit} [he : Eats b (call .Expression)] :
    Eats b (localVariable call) := by
  unfold localVariable
  infer_instance

theorem eats_localDeclStatement {call : Proc → CompilerM Unit} [he : Eats b (call .Expression)]
    [hf : ∀ name boundtarget lambda, Eats b (call (.CreateFunction name boundtarget lambda))]
    [hn : Rounds b n] : Eats b (localDeclStatement n call) := by
  unfold localDeclStatement
  infer_instance

instance free_genericNames [hn : Rounds b n] : Free b (genericNames n) := by
  unfold genericNames
  infer_instance

instance free_parameterType : Free b parameterType := by
  unfold parameterType
  infer_instance

instance free_returnType : Free b returnType := by
  unfold returnType
  infer_instance

/-! ### Functions -/

instance free_enterFunction (fs : FuncState) : Free b (enterFunction fs) :=
  ⟨fun _ _ _ => Nat.le_refl _⟩

instance free_leaveFunction (func : FunctionProto) (declared : Option Annotation) :
    Free b (leaveFunction func declared) := by
  refine ⟨fun c _ _ => ?_⟩
  unfold leaveFunction
  rw [get_bind_apply]
  cases c.parents with
  | nil =>
    intro h
    cases h
  | cons currchunk parents => exact Nat.le_refl _

section

variable {call : Proc → CompilerM Unit} [h : Calls b call] [hn : Rounds b n]

include h

instance round_parameter (p : Parameters) : Round b (parameter call p) := by
  unfold parameter
  dsimp only
  infer_instance

instance free_functionBody (p : Parameters) (lambda : Bool) :
    Free b (functionBody call p lambda) := by
  unfold functionBody
  dsimp only
  infer_instance

end

section

variable {call : Proc → CompilerM Unit} [h : Calls (b - 1) call] [hn : Rounds b n]

include h hn

/-- A function takes its opening parenthesis at least. -/
theorem takes_createFunction (name : Object) (boundtarget : Int) (lambda : Bool) :
    Takes Anywhere b (fun _ => 1) (createFunction n call name boundtarget lambda) := by
  have hrest : Rounds (b - 1) n := ⟨Nat.le_trans (Nat.sub_le b 1) hn.le⟩
  have hparameters : Takes Anywhere b (fun _ => 1) (functionParameters n call name) := by
    unfold functionParameters
    apply Emits.takes_bind inferInstance
    intro c
    dsimp only
    apply (free_genericNames (n := n)).takes.pass
    intro generics
    apply (eats_Expect_chr '(').takes.eat
    · intro _
      infer_instance
    · exact fun _ => Nat.le_refl 1
  unfold createFunction
  apply hparameters.eat
  · intro p
    infer_instance
  · exact fun _ => Nat.le_refl 1

end

/-! ### Statements -/

section

variable {call : Proc → CompilerM Unit} [h : Calls b call] [hn : Rounds b n]

include h

instance free_condition : Free b (condition call) := by
  unfold condition
  infer_instance

instance free_scopedStatement : Free b (scopedStatement call) := by
  unfold scopedStatement
  infer_instance

instance free_caseStatements : Free b (caseStatements call) := by
  unfold caseStatements
  infer_instance

include hn

instance free_switchCases (expr : Nat) : Free b (switchCases n call expr) := by
  unfold switchCases
  refine ⟨takes_loop hn.le ?_ _⟩
  rintro ⟨bfirst, tonextcondjmp, skip⟩
  dsimp only
  exact (inferInstance : Round b _).takes

end

section

variable {call : Proc → CompilerM Unit} [h : Calls (b - 1) call] [hn : Rounds (b - 1) n]

include h

theorem takes_ifStatement : Takes (· ≠ .eob) b (fun _ => 1) (ifStatement call) := by
  unfold ifStatement
  apply takes_Lex_bind fun _ h => h
  · intro _
    infer_instance
  · exact fun _ => Nat.le_refl 1

theorem takes_whileStatement : Takes (· ≠ .eob) b (fun _ => 1) (whileStatement call) := by
  unfold whileStatement
  apply Emits.takes_bind inferInstance
  intro jmppos
  apply takes_Lex_bind fun _ h => h
  · intro _
    infer_instance
  · exact fun _ => Nat.le_refl 1

theorem takes_doWhileStatement : Takes (· ≠ .eob) b (fun _ => 1) (doWhileStatement call) := by
  unfold doWhileStatement
  apply takes_Lex_bind fun _ h => h
  · intro _
    infer_instance
  · exact fun _ => Nat.le_refl 1

theorem takes_forStatement : Takes (· ≠ .eob) b (fun _ => 1) (forStatement call) := by
  unfold forStatement
  apply takes_Lex_bind fun _ h => h
  · repeat' first | with_reducible apply Free.bind | intro _ | dsimp only | split | infer_instance
  · exact fun _ => Nat.le_refl 1

theorem takes_forEachStatement : Takes (· ≠ .eob) b (fun _ => 1) (forEachStatement call) := by
  unfold forEachStatement
  apply takes_Lex_bind fun _ h => h
  · repeat' first | with_reducible apply Free.bind | intro _ | dsimp only | split | infer_instance
  · exact fun _ => Nat.le_refl 1

theorem takes_tryCatchStatement : Takes (· ≠ .eob) b (fun _ => 1) (tryCatchStatement call) := by
  unfold tryCatchStatement
  apply takes_Lex_bind fun _ h => h
  · intro _
    infer_instance
  · exact fun _ => Nat.le_refl 1

theorem takes_classStatement (is_pub : Bool) :
    Takes (· ≠ .eob) b (fun _ => 1) (classStatement call is_pub) := by
  unfold classStatement
  apply takes_Lex_bind fun _ h => h
  · intro _
    apply Free.withDonotGet
    infer_instance
  · exact fun _ => Nat.le_refl 1

include hn

theorem takes_switchStatement : Takes (· ≠ .eob) b (fun _ => 1) (switchStatement n call) := by
  unfold switchStatement
  apply takes_Lex_bind fun _ h => h
  · intro _
    dsimp only
    infer_instance
  · exact fun _ => Nat.le_refl 1

theorem takes_functionStatement (is_pub : Bool) :
    Takes (· ≠ .eob) b (fun _ => 1) (functionStatement n call is_pub) := by
  unfold functionStatement
  apply takes_Lex_bind fun _ h => h
  · intro _
    infer_instance
  · exact fun _ => Nat.le_refl 1

omit hn in
/-- The declarations after `pub` start with the token that was looked at. -/
theorem takes_pubStatement (hread : ∀ t, P t → t ≠ .eob) :
    Takes P b (fun _ => 1) (pubStatement call) := by
  unfold pubStatement
  apply takes_Lex_bind hread
  · intro _
    refine ⟨takes_getToken_bind fun t _ => ?_⟩
    split
    · apply (h.takes (.FunctionStatement true)).mono
      · rintro _ rfl
        simp [Starts]
      · exact Nat.le_refl _
      · exact fun _ => Nat.zero_le _
    · apply (h.takes (.ClassStatement true)).mono
      · rintro _ rfl
        simp [Starts]
      · exact Nat.le_refl _
      · exact fun _ => Nat.zero_le _
    · exact (inferInstance : Free (b - 1) _).takes.everywhere
    · exact takes_error _
  · exact fun _ => Nat.le_refl 1

omit hn in
theorem takes_returnStatement (op : Opcode) (hread : ∀ t, P t → t ≠ .eob) :
    Takes P b (fun _ => 1) (returnStatement call op) := by
  have hrest {f : Unit → CompilerM Unit} (hf : ∀ a, Free (b - 1) (f a)) :
      Takes P b (fun _ => 1) (Lex >>= f) := takes_Lex_bind hread hf fun _ => Nat.le_refl 1
  unfold returnStatement
  dsimp only
  apply takes_ite
  · intro _
    refine Emits.takes_bind inferInstance fun _ => ?_
    exact hrest fun _ => inferInstance
  · intro _
    exact hrest fun _ => inferInstance

omit h hn in
theorem takes_breakStatement (hread : ∀ t, P t → t ≠ .eob) :
    Takes P b (fun _ => 1) breakStatement := by
  unfold breakStatement
  iterate 2 refine Emits.takes_bind inferInstance fun _ => ?_
  exact takes_Lex hread

omit h hn in
theorem takes_continueStatement (hread : ∀ t, P t → t ≠ .eob) :
    Takes P b (fun _ => 1) continueStatement := by
  unfold continueStatement
  iterate 2 refine Emits.takes_bind inferInstance fun _ => ?_
  exact takes_Lex hread

omit hn in
theorem takes_block (closeframe : Bool) (hread : ∀ t, P t → t ≠ .eob) :
    Takes P b (fun _ => 1) (block call closeframe) := by
  unfold block
  refine Emits.takes_bind inferInstance fun _ => ?_
  apply takes_Lex_bind hread
  · intro _
    infer_instance
  · exact fun _ => Nat.le_refl 1

end

/-! ### The recursion -/

/-- The procedures that a procedure calls before it reads anything have lower ranks. -/
def rank : Proc → Nat
  | .Factor => 1
  | .PrefixedExpr => 2
  | .UnaryOP _ | .MultExp => 3
  | .PlusExp => 4
  | .ShiftExp => 5
  | .CompExp => 6
  | .EqExp => 7
  | .BitwiseAndExp => 8
  | .BitwiseXorExp => 9
  | .BitwiseOrExp => 10
  | .LogicalAndExp => 11
  | .LogicalOrExp => 12
  | .Expression => 13
  | .CommaExpr | .LocalDeclStatement => 14
  | .Statement _ | .FunctionCallArgs _ | .ParseTableOrClass .. => 15
  | .Statements | .ClassExp => 16
  | .IfBlock => 17
  | _ => 0

section

variable {call : Proc → CompilerM Unit} [h : Calls (b - 1) call] [hn : Rounds b n]

include h hn

/-- A statement takes a token. -/
theorem takes_statement (closeframe : Bool)
    (hcall : ∀ p, rank p < 15 → Takes (Starts p) b (fun _ => minimum p) (call p)) :
    Takes Anywhere b (fun _ => 1) (statement n call closeframe) := by
  have hrest : Rounds (b - 1) n := ⟨Nat.le_trans (Nat.sub_le b 1) hn.le⟩
  have hcomma : Takes Anywhere b (fun _ => 1) (call .CommaExpr) := hcall .CommaExpr (by decide)
  unfold statement
  refine Emits.takes_bind inferInstance fun c => ?_
  refine Emits.takes_bind inferInstance fun _ => ?_
  apply takes_getToken_bind
  intro t _
  by_cases heob : t = .eob
  · subst heob
    apply hcomma.everywhere.eat
    · intro _
      infer_instance
    · exact fun _ => Nat.le_refl 1
  have hread : ∀ t', t' = t → t' ≠ .eob := by
    rintro _ rfl
    exact heob
  -- The statements that are procedures start at a token that was looked at.
  have hkind (p : Proc) (hrank : rank p < 15) (hp : Starts p = (· ≠ .eob))
      (hmin : minimum p = 1) : Takes (· = t) b (fun _ => 1) (call p) :=
    (hcall p hrank).mono (fun t' h => hp ▸ hread t' h) (Nat.le_refl b)
      fun _ => Nat.le_of_eq hmin.symm
  dsimp only
  split
  all_goals refine Takes.eat ?_ (fun _ => inferInstance) fun _ => Nat.le_refl 1
  all_goals first
    | with_reducible exact takes_Lex hread
    | exact hkind _ (by decide) rfl rfl
    | with_reducible exact takes_returnStatement _ hread
    | with_reducible exact takes_breakStatement hread
    | with_reducible exact takes_continueStatement hread
    | with_reducible exact takes_pubStatement hread
    | with_reducible exact takes_block closeframe hread
    | exact (hcall .LocalDeclStatement (by decide)).everywhere
    | exact (eats_moduleStatement _).takes.everywhere
    | exact hcomma.everywhere
    | exact takes_of_eats

omit h in
theorem takes_statements (hcall : Takes Anywhere b (fun _ => 1) (call (.Statement true))) :
    Takes Anywhere b (fun _ => 0) (statements n call) := by
  unfold statements
  apply takes_whileLoop hn.le
  apply hcall.everywhere.eat
  · intro _
    infer_instance
  · exact fun _ => Nat.le_refl 1

omit hn in
theorem takes_ifBlock (hcall : Takes Anywhere b (fun _ => 1) (call (.Statement true))) :
    Takes Anywhere b (fun _ => 0) (ifBlock call) := by
  unfold ifBlock
  apply takes_getToken_bind
  intro t _
  apply takes_ite
  · rintro rfl
    apply (takes_block true fun t ht => ?_).mono (fun _ h => h) (Nat.le_refl b)
    · exact fun _ => Nat.zero_le 1
    · rw [ht]
      simp
  · intro _
    apply hcall.everywhere.eat
    · intro _
      infer_instance
    · exact fun _ => Nat.zero_le 1

/-- Every procedure takes what it has to if the calls it makes do. -/
theorem takes_body (p : Proc)
    (hcall : ∀ q, rank q < rank p → Takes (Starts q) b (fun _ => minimum q) (call q)) :
    Takes (Starts p) b (fun _ => minimum p) (body n call p) := by
  have hrest : Rounds (b - 1) n := ⟨Nat.le_trans (Nat.sub_le b 1) hn.le⟩
  cases p with
  | Statements => exact takes_statements (hcall (.Statement true) (by simp [rank]))
  | Statement closeframe => exact takes_statement closeframe hcall
  | CommaExpr => exact takes_commaExpr (hcall .Expression (by simp [rank]))
  | Expression => exact takes_expression (hcall .LogicalOrExp (by simp [rank]))
  | LogicalOrExp => exact takes_logicalOrExp (hcall .LogicalAndExp (by simp [rank]))
  | LogicalAndExp => exact takes_logicalAndExp (hcall .BitwiseOrExp (by simp [rank]))
  | BitwiseOrExp => exact takes_binaryLevel (hcall .BitwiseXorExp (by simp [rank]))
  | BitwiseXorExp => exact takes_binaryLevel (hcall .BitwiseAndExp (by simp [rank]))
  | BitwiseAndExp => exact takes_binaryLevel (hcall .EqExp (by simp [rank]))
  | EqExp => exact takes_binaryLevel (hcall .CompExp (by simp [rank]))
  | CompExp => exact takes_binaryLevel (hcall .ShiftExp (by simp [rank]))
  | ShiftExp => exact takes_binaryLevel (hcall .PlusExp (by simp [rank]))
  | PlusExp => exact takes_binaryLevel (hcall .MultExp (by simp [rank]))
  | MultExp => exact takes_binaryLevel (hcall .PrefixedExpr (by simp [rank]))
  | PrefixedExpr => exact takes_prefixedExpr (hcall .Factor (by simp [rank]))
  | Factor =>
    exact takes_factor (fun lambda => hcall (.FunctionExp lambda) (by simp [rank]))
      (fun token => hcall (.PrefixIncDec token) (by simp [rank])) (hcall .DeleteExpr (by simp [rank]))
  | UnaryOP op => exact takes_unaryOP op (hcall .PrefixedExpr (by simp [rank]))
  | FunctionCallArgs rawcall =>
    have he : Eats b (call .Expression) := ⟨hcall .Expression (by simp [rank])⟩
    have hc : Eats b (call .CommaExpr) := ⟨hcall .CommaExpr (by simp [rank])⟩
    exact (free_functionCallArgs rawcall).takes
  | ParseTableOrClass separator terminator =>
    have he : Eats b (call .Expression) := ⟨hcall .Expression (by simp [rank])⟩
    have hc : Eats b (call .CommaExpr) := ⟨hcall .CommaExpr (by simp [rank])⟩
    have hf name boundtarget lambda : Eats b (call (.CreateFunction name boundtarget lambda)) :=
      ⟨hcall (.CreateFunction name boundtarget lambda) (by simp [rank])⟩
    exact takes_parseTableOrClass separator terminator
  | LocalDeclStatement =>
    have he : Eats b (call .Expression) := ⟨hcall .Expression (by simp [rank])⟩
    have hf name boundtarget lambda : Eats b (call (.CreateFunction name boundtarget lambda)) :=
      ⟨hcall (.CreateFunction name boundtarget lambda) (by simp [rank])⟩
    exact eats_localDeclStatement.takes
  | IfBlock => exact takes_ifBlock (hcall (.Statement true) (by simp [rank]))
  | IfStatement => exact takes_ifStatement
  | WhileStatement => exact takes_whileStatement
  | DoWhileStatement => exact takes_doWhileStatement
  | ForStatement => exact takes_forStatement
  | ForEachStatement => exact takes_forEachStatement
  | SwitchStatement => exact takes_switchStatement
  | TryCatchStatement => exact takes_tryCatchStatement
  | FunctionStatement is_pub => exact takes_functionStatement is_pub
  | ClassStatement is_pub => exact takes_classStatement is_pub
  | FunctionExp lambda => exact takes_functionExp lambda
  | ClassExp =>
    have he : Eats b (call .Expression) := ⟨hcall .Expression (by simp [rank])⟩
    exact takes_classExp fun separator terminator =>
      ⟨hcall (.ParseTableOrClass separator terminator) (by simp [rank])⟩
  | DeleteExpr => exact takes_deleteExpr
  | PrefixIncDec token => exact takes_prefixIncDec token
  | CreateFunction name boundtarget lambda => exact takes_createFunction name boundtarget lambda

end

theorem rank_le (p : Proc) : rank p ≤ 17 := by
  cases p <;> simp [rank]

/-- Calls nested as deep as all ranks for every token that is left are enough. -/
theorem takes_run {n : Nat} (p : Proc) {b : Nat} (hn : 18 * b + rank p < n) :
    Takes (Starts p) b (fun _ => minimum p) (run n p) := by
  induction n generalizing p b with
  | zero => exact absurd hn (Nat.not_lt_zero _)
  | succ n ih =>
    have hrounds : Rounds b n := ⟨by omega⟩
    have hcalls : Calls (b - 1) (run n) := by
      refine ⟨fun q => ?_⟩
      have hrank := rank_le q
      cases b with
      | zero => exact takes_none
      | succ b =>
        apply ih q
        omega
    apply takes_body p
    intro q hq
    apply ih q
    omega

theorem free_Compile (hn : 18 * b + 15 < n) : Free b (Compile n) := by
  have hrounds : Rounds b n := ⟨by omega⟩
  have hstatement : Eats b (run n (.Statement true)) := ⟨takes_run (.Statement true) hn⟩
  unfold Compile
  infer_instance

/-- **The compiler terminates** on every stream of lexemes, within a bound that is linear in
its length. -/
theorem Compile_ends (sourcename : Object) (lineinfo : Bool) (consts : List (Object × Constant))
    (input : List (Except String Lexeme)) {n : Nat} (hn : 54 * input.length + 33 < n)
    (c : Compiler) :
    Compile n (start sourcename lineinfo consts input) ≠ .error .outOfFuel c := by
  have hleft : left (start sourcename lineinfo consts input) = 3 * input.length := rfl
  have hfree : Free (3 * input.length + 1) (Compile n) := free_Compile (by omega)
  intro h
  have hends := hfree.takes (start sourcename lineinfo consts input) trivial (by omega)
  rw [h] at hends
  exact hends rfl

end GameScript.Compiler
