import GameScript.Bytecode
import GameScript.Compiler.Settled

/-!
Which prototypes have a return type. A script's prototypes come from `Compile` or are read
back from bytecode. Nothing but `CreateFunction` writes the return type, so it is there in
the functions nested in a compiled script and nowhere else.
-/

namespace GameScript

open Effect

namespace Compiler

variable {α β : Type}

set_option synthInstance.maxSize 100000
set_option synthInstance.maxHeartbeats 400000

/-! ### Statements -/

instance settles_ExpectScalar : Settles ExpectScalar := by
  unfold ExpectScalar
  apply Settles.bind inferInstance
  intro c
  dsimp only
  repeat' first | infer_instance | apply Settles.bind | intro _ | split

instance settles_constStatement : Settles constStatement := by
  unfold constStatement
  infer_instance

instance settles_enumStatement (n : Nat) : Settles (enumStatement n) := by
  unfold enumStatement
  infer_instance

instance settles_modulePath (n : Nat) : Settles (modulePath n) := by
  unfold modulePath
  infer_instance

instance settles_moduleStatement (n : Nat) (op : Opcode) : Settles (moduleStatement n op) := by
  unfold moduleStatement
  infer_instance

instance settles_importStatement (n : Nat) : Settles (importStatement n) :=
  settles_moduleStatement n .IMPORT

instance settles_namespaceStatement (n : Nat) : Settles (namespaceStatement n) :=
  settles_moduleStatement n .NAMESPACE

instance settles_arraySuffix (what : String) : Settles (arraySuffix what) := by
  unfold arraySuffix
  infer_instance

instance settles_localType : Settles localType := by
  unfold localType
  infer_instance

instance settles_genericNames (n : Nat) : Settles (genericNames n) := by
  unfold genericNames
  infer_instance

instance settles_parameterType : Settles parameterType := by
  unfold parameterType
  infer_instance

/-- What is declared is a type. -/
theorem returnType_settlesTo : SettlesTo (fun a => ∀ b ∈ a, b.type.isType = true) returnType := by
  unfold returnType
  refine Settles.bindTo inferInstance fun token => ?_
  split
  · refine settles_Lex.bindTo fun _ => Settles.bindTo inferInstance fun type => ?_
    dsimp only
    split
    · exact triple_throw fun _ hs => hs
    · rename_i htype
      refine settles_Lex.bindTo fun _ => (settles_arraySuffix _).bindTo fun array => ?_
      refine settlesTo_pure fun b hb => ?_
      cases hb
      simpa using htype
  · exact settlesTo_pure fun b hb => nomatch hb

instance settles_breakStatement : Settles breakStatement := by
  unfold breakStatement
  infer_instance

instance settles_continueStatement : Settles continueStatement := by
  unfold continueStatement
  infer_instance

section

variable (n : Nat) (call : Proc → CompilerM Unit) [hcall : ∀ p, Settles (call p)]

include hcall

instance settles_statements : Settles (statements n call) := by
  unfold statements
  infer_instance

instance settles_localVariable : Settles (localVariable call) := by
  unfold localVariable
  infer_instance

instance settles_localDeclStatement : Settles (localDeclStatement n call) := by
  unfold localDeclStatement
  infer_instance

instance settles_block (closeframe : Bool) : Settles (block call closeframe) := by
  unfold block
  infer_instance

instance settles_ifBlock : Settles (ifBlock call) := by
  unfold ifBlock
  infer_instance

instance settles_condition : Settles (condition call) := by
  unfold condition
  infer_instance

instance settles_ifStatement : Settles (ifStatement call) := by
  unfold ifStatement
  infer_instance

instance settles_scopedStatement : Settles (scopedStatement call) := by
  unfold scopedStatement
  infer_instance

instance settles_whileStatement : Settles (whileStatement call) := by
  unfold whileStatement
  infer_instance

instance settles_doWhileStatement : Settles (doWhileStatement call) := by
  unfold doWhileStatement
  infer_instance

instance settles_forStatement : Settles (forStatement call) := by
  unfold forStatement
  repeat' first | with_reducible apply Settles.bind | intro _ | dsimp only | split | infer_instance

instance settles_forEachStatement : Settles (forEachStatement call) := by
  unfold forEachStatement
  repeat' first | with_reducible apply Settles.bind | intro _ | dsimp only | split | infer_instance

instance settles_caseStatements : Settles (caseStatements call) := by
  unfold caseStatements
  infer_instance

instance settles_switchCases (expr : Nat) : Settles (switchCases n call expr) := by
  unfold switchCases
  apply Settles.loop
  rintro ⟨bfirst, tonextcondjmp, skip⟩
  dsimp only
  infer_instance

instance settles_switchStatement : Settles (switchStatement n call) := by
  unfold switchStatement
  repeat' first | with_reducible apply Settles.bind | intro _ | dsimp only | split | infer_instance

instance settles_tryCatchStatement : Settles (tryCatchStatement call) := by
  unfold tryCatchStatement
  repeat' first | with_reducible apply Settles.bind | intro _ | dsimp only | split | infer_instance

instance settles_functionStatement (is_pub : Bool) : Settles (functionStatement n call is_pub) := by
  unfold functionStatement
  infer_instance

instance settles_classStatement (is_pub : Bool) : Settles (classStatement call is_pub) := by
  unfold classStatement
  apply settles_Lex.bind
  intro _
  apply Settles.withDonotGet
  infer_instance

omit hcall in
instance settles_returnStatement (op : Opcode) : Settles (returnStatement call op) := by
  unfold returnStatement
  infer_instance

instance settles_pubStatement : Settles (pubStatement call) := by
  unfold pubStatement
  apply settles_Lex.bind
  intro _
  apply Settles.bind inferInstance
  intro token
  split <;> infer_instance

instance settles_statement (closeframe : Bool) : Settles (statement n call closeframe) := by
  unfold statement
  apply Settles.bind inferInstance
  intro c
  apply Settles.bind inferInstance
  intro _
  apply Settles.bind inferInstance
  intro token
  split <;> infer_instance

/-! ### Functions -/

theorem parameter_settlesTo (p : Parameters) (hp : p.funcstate.functions = #[]) :
    SettlesTo (Sum.elim (fun p => p.funcstate.functions = #[]) fun p => p.funcstate.functions = #[])
      (parameter call p) := by
  unfold parameter
  repeat' first
    | exact settlesTo_pure hp
    | apply Settles.bindTo inferInstance
    | dsimp only
    | apply settlesTo_ite
    | intro _

/-- The state of the new function has no functions yet. -/
theorem functionParameters_settlesTo (name : Object) :
    SettlesTo (fun p => p.funcstate.functions = #[]) (functionParameters n call name) := by
  unfold functionParameters
  apply Settles.bindTo inferInstance
  intro c
  apply (settles_genericNames n).bindTo
  intro generics
  apply (settles_Expect _).bindTo
  intro _
  apply SettlesTo.bind (settlesTo_loop (parameter_settlesTo call) n rfl)
  intro p hp
  apply (settles_Expect _).bindTo
  intro _
  exact settlesTo_pure hp

/-- The functions nested in the function that was compiled are recorded. -/
theorem functionBody_settled (p : Parameters) (lambda : Bool) (hp : p.funcstate.functions = #[]) :
    Triple Settled (functionBody call p lambda)
      (fun func c => Settled c ∧ ∀ f ∈ func.functions, f.Annotated c.annotations) Settled := by
  have henter : Settles (enterFunction p.funcstate) := by
    refine ⟨triple_modify fun c hc => ⟨⟨fun fns hfns => ?_, hc.rettype, hc.isType⟩, trivial⟩⟩
    rcases List.mem_cons.mp hfns with rfl | hfns
    · intro f hf
      have hnone : f ∈ p.funcstate.functions := hf
      rw [hp] at hnone
      exact absurd hnone (Array.not_mem_empty f)
    · exact hc.annotated fns hfns
  have hend : Triple Settled (do return (← getFs).buildProto : CompilerM FunctionProto)
      (fun func c => Settled c ∧ ∀ f ∈ func.functions, f.Annotated c.annotations) Settled := by
    intro c hc
    refine ⟨hc, fun f hf => ?_⟩
    exact hc.annotated c.fs.functions List.mem_cons_self f (Array.mem_toList_iff.mp hf)
  unfold functionBody
  apply henter.bind_triple
  intro _
  apply Settles.bind_triple inferInstance
  intro _
  dsimp only
  split
  all_goals repeat' first
    | with_reducible exact hend
    | apply Settles.bind_triple inferInstance
    | intro _

/-- The function that `CreateFunction` adds is recorded, with its return type. -/
theorem settles_createFunction (name : Object) (boundtarget : Int) (lambda : Bool) :
    Settles (createFunction n call name boundtarget lambda) := by
  refine ⟨?_⟩
  unfold createFunction
  apply (functionParameters_settlesTo n call name).bind_triple
  intro p hp
  apply returnType_settlesTo.bind_triple
  intro a ha
  apply (settles_of_emits (m := popParameters _ _)).bind_triple
  intro _
  apply (functionBody_settled call p lambda hp).bind
  intro func c hc
  obtain ⟨hc, hfunc⟩ := hc
  unfold leaveFunction
  rw [get_bind_apply]
  cases hparents : c.parents with
  | nil => exact hc
  | cons currchunk parents =>
    have hkept : ∀ fns ∈ (finished c).1, ∀ f ∈ fns,
        f.Annotated (({ func with rettype := some (Int64.ofInt (expectedRettype a)) }, a) ::
          c.annotations) := fun fns hfns f hf =>
      (hc.annotated fns hfns f hf).mono (List.subset_cons_self _ _)
    refine ⟨⟨fun fns hfns => ?_, fun x hx => ?_, fun x hx => ?_⟩, trivial⟩
    · rcases List.mem_cons.mp hfns with rfl | hfns
      · intro f hf
        rcases Array.mem_push.mp hf with hf | rfl
        · exact hkept currchunk.functions (by simp [finished, hparents]) f hf
        · intro q hq
          cases hq with
          | self => exact ⟨a, List.mem_cons_self⟩
          | nested hf hq =>
            obtain ⟨b, hb⟩ := hfunc _ hf q hq
            exact ⟨b, List.mem_cons_of_mem _ hb⟩
      · refine hkept fns ?_
        unfold finished
        rw [hparents]
        exact List.mem_cons_of_mem _ (List.mem_cons_of_mem _ hfns)
    · rcases List.mem_cons.mp hx with rfl | hx
      · rfl
      · exact hc.rettype x hx
    · rcases List.mem_cons.mp hx with rfl | hx
      · exact ha
      · exact hc.isType x hx

end

section

variable (n : Nat) [hrun : ∀ p, Settles (run n p)]

include hrun

/-- Every procedure keeps the functions settled. -/
theorem body_settles (p : Proc) : Settles (body n (run n) p) := by
  cases p with
  | BitwiseOrExp => exact settles_binaryLevel n (run n) .BitwiseXorExp bitwiseOrOps
  | BitwiseXorExp => exact settles_binaryLevel n (run n) .BitwiseAndExp bitwiseXorOps
  | BitwiseAndExp => exact settles_binaryLevel n (run n) .EqExp bitwiseAndOps
  | EqExp => exact settles_binaryLevel n (run n) .CompExp eqOps
  | CompExp => exact settles_binaryLevel n (run n) .ShiftExp compOps
  | ShiftExp => exact settles_binaryLevel n (run n) .PlusExp shiftOps
  | PlusExp => exact settles_binaryLevel n (run n) .MultExp plusOps
  | MultExp => exact settles_binaryLevel n (run n) .PrefixedExpr multOps
  | CreateFunction name boundtarget lambda =>
    exact settles_createFunction n (run n) name boundtarget lambda
  | _ =>
    simp only [body]
    infer_instance

end

instance settles_run (n : Nat) (p : Proc) : Settles (run n p) := by
  induction n generalizing p with
  | zero => exact settles_throw _
  | succ n ih => exact body_settles n p

/-! ### Prototypes -/

/-- The main function has no return type, and those nested in it are recorded. -/
theorem Compile_settled (n : Nat) :
    Triple Settled (Compile n) (fun p c => Settled c ∧ p.rettype = none ∧
      ∀ f ∈ p.functions, f.Annotated c.annotations) Settled := by
  have hend : Triple Settled (do return (← getFs).buildProto : CompilerM FunctionProto)
      (fun p c => Settled c ∧ p.rettype = none ∧ ∀ f ∈ p.functions, f.Annotated c.annotations)
      Settled := by
    intro c hc
    refine ⟨hc, rfl, fun f hf => ?_⟩
    exact hc.annotated c.fs.functions List.mem_cons_self f (Array.mem_toList_iff.mp hf)
  unfold Compile
  repeat' first
    | with_reducible exact hend
    | apply Settles.bind_triple inferInstance
    | intro _

theorem start_settled (sourcename : Object) (lineinfo : Bool) (consts : List (Object × Constant))
    (input : List (Except String Lexeme)) : (start sourcename lineinfo consts input).Settled where
  annotated fns hfns p hp := by
    rw [List.mem_singleton.mp hfns] at hp
    exact absurd hp (Array.not_mem_empty p)
  rettype x hx := absurd hx List.not_mem_nil
  isType x hx := absurd hx List.not_mem_nil

end Compiler

/-- Where the virtual machine gets a prototype from, the top one of a script or of a module:
the compiler or a stream of bytecode. -/
inductive Origin where
  | compiled (n : Nat) (sourcename : Object) (lineinfo : Bool)
      (consts : List (Object × Constant)) (input : List (Except String Lexeme))
  | loaded (fuel : Nat) (bytes : List UInt8)

namespace Origin

/-- The prototype of the script or module, if there is one. -/
def proto : Origin → Option FunctionProto
  | .compiled n sourcename lineinfo consts input =>
    result (Compiler.Compile n) (Compiler.start sourcename lineinfo consts input)
  | .loaded fuel bytes => ((closureLoad fuel bytes).toOption).map (·.1)

/-- `q` is that prototype or nested in it. -/
def Gives (s : Origin) (q : FunctionProto) : Prop := ∃ p, s.proto = some p ∧ p.Within q

/-- The functions that `CreateFunction` has made in the run, each with its annotation. -/
def annotations : Origin → List (FunctionProto × Option Annotation)
  | .compiled n sourcename lineinfo consts input =>
    (leaves (Compiler.Compile n) (Compiler.start sourcename lineinfo consts input)).annotations
  | .loaded .. => []

/-- The number of the declared return type, 0 where none is declared. As in the instructions that
check types, a negative number stands for an array. -/
def declaredType : Option Annotation → GSInteger
  | some a => Int64.ofInt (if a.isArray then -a.type.code else a.type.code)
  | none => 0

/-- The return type of `q` has been written, and it is the declared one. -/
def Written (s : Origin) (q : FunctionProto) : Prop :=
  ∃ r, q.rettype = some r ∧ ∀ a, (q, a) ∈ s.annotations → r = declaredType a

/-- `q` is nested in a function that was compiled. -/
def Nests (s : Origin) (q : FunctionProto) : Prop :=
  match s with
  | .compiled .. => ∃ p f, s.proto = some p ∧ f ∈ p.functions ∧ f.Within q
  | .loaded .. => False

end Origin

/-- No function that is read back from bytecode has a return type. -/
theorem load_rettype (fuel : Nat) :
    Codec.Yields (FunctionProto.load fuel) (fun p => ∀ q, p.Within q → q.rettype = none) := by
  induction fuel with
  | zero =>
    intro input p rest h
    cases h
  | succ fuel ih =>
    -- Only the nested functions matter: `load` gives the new one no return type.
    rw [FunctionProto.load]
    iterate 27 refine Codec.yields_bind fun _ => ?_
    refine (Codec.yields_many ih _).bind fun functions hfunctions => ?_
    iterate 3 refine Codec.yields_bind fun _ => ?_
    apply Codec.yields_pure
    intro q hq
    cases hq with
    | self => rfl
    | nested hr hq => exact hfunctions _ hr q hq

theorem closureLoad_rettype (fuel : Nat) :
    Codec.Yields (closureLoad fuel) (fun p => ∀ q, p.Within q → q.rettype = none) := by
  unfold closureLoad
  iterate 4 refine Codec.yields_bind fun _ => ?_
  refine (load_rettype fuel).bind fun p hp => ?_
  refine Codec.yields_bind fun _ => ?_
  exact Codec.yields_pure hp

namespace Origin

/-- What a run of the compiler leaves. -/
theorem annotations_compiled {n : Nat} {sourcename : Object} {lineinfo : Bool}
    {consts : List (Object × Constant)} {input : List (Except String Lexeme)} {p : FunctionProto}
    {c : Compiler}
    (hc : Compiler.Compile n (Compiler.start sourcename lineinfo consts input) = .ok p c) :
    (compiled n sourcename lineinfo consts input).annotations = c.annotations := by
  change (leaves (Compiler.Compile n) (Compiler.start sourcename lineinfo consts input)).annotations
    = c.annotations
  unfold leaves
  rw [hc]

/-- The prototype of a compiled script has no return type, those nested in it are recorded with
theirs. -/
theorem proto_compiled {n : Nat} {sourcename : Object} {lineinfo : Bool}
    {consts : List (Object × Constant)} {input : List (Except String Lexeme)} {p : FunctionProto}
    (hp : (compiled n sourcename lineinfo consts input).proto = some p) :
    p.rettype = none ∧
      (∀ f ∈ p.functions, f.Annotated (compiled n sourcename lineinfo consts input).annotations) ∧
      ∀ q a, (q, a) ∈ (compiled n sourcename lineinfo consts input).annotations →
        q.rettype = some (Int64.ofInt (Compiler.expectedRettype a)) ∧
          ∀ b ∈ a, b.type.isType = true := by
  obtain ⟨c, hc⟩ := result_eq_some.mp hp
  have hstart := Compiler.start_settled sourcename lineinfo consts input
  obtain ⟨hsettled, hmain, hnested⟩ := (Compiler.Compile_settled n).ok hstart hc
  rw [annotations_compiled hc]
  exact ⟨hmain, hnested, fun q a hq => ⟨hsettled.rettype (q, a) hq, hsettled.isType (q, a) hq⟩⟩

/-- Every function nested in a compiled one was made by `CreateFunction` in that run. -/
theorem Nests.annotated {s : Origin} {q : FunctionProto} (h : s.Nests q) :
    ∃ a, (q, a) ∈ s.annotations := by
  cases s with
  | compiled n sourcename lineinfo consts input =>
    obtain ⟨p, f, hp, hf, hq⟩ := h
    exact (proto_compiled hp).2.1 f hf q hq
  | loaded fuel bytes => cases h

/-- What `CreateFunction` writes is the declared type of all but arrays. -/
theorem expectedRettype_eq_iff {a : Annotation} (ha : a.type.isType = true) :
    Int64.ofInt (Compiler.expectedRettype (some a)) = declaredType (some a) ↔
      a.isArray = false := by
  obtain ⟨type, isArray⟩ := a
  cases isArray with
  | false => exact ⟨fun _ => rfl, fun _ => rfl⟩
  | true =>
    refine ⟨fun h => ?_, fun h => nomatch h⟩
    exfalso
    cases type with
    | TK_INT | TK_FLOAT | TK_STRING | TK_BOOL | TK_VOID | TK_IDENTIFIER => revert h; decide
    | _ => cases ha

theorem proto_loaded {fuel : Nat} {bytes : List UInt8} {p : FunctionProto}
    (hp : (loaded fuel bytes).proto = some p) : ∀ q, p.Within q → q.rettype = none := by
  change (closureLoad fuel bytes).toOption.map (·.1) = some p at hp
  cases hload : closureLoad fuel bytes with
  | error e =>
    rw [hload] at hp
    cases hp
  | ok x =>
    rw [hload] at hp
    cases hp
    exact closureLoad_rettype fuel bytes x.1 x.2 hload

/-- `func f() -> int { return 1 }`. -/
def declaresInt : Origin :=
  .compiled 30 .null false [] ([{ token := .TK_FUNCTION },
    { token := .TK_IDENTIFIER, svalue := sc "f" }, { token := .chr '(' }, { token := .chr ')' },
    { token := .TK_ARROW }, { token := .TK_INT }, { token := .chr '{' }, { token := .TK_RETURN },
    { token := .TK_INTEGER, nvalue := 1 }, { token := .chr '}' }, { token := .eob }].map .ok)

theorem declaresInt_proto : ∃ p f, declaresInt.proto = some p ∧ p.functions = [f] := by
  have hrun : declaresInt.proto.map (fun p => p.functions.length) = some 1 := by decide +kernel
  cases hp : declaresInt.proto with
  | none =>
    rw [hp] at hrun
    cases hrun
  | some p =>
    rw [hp] at hrun
    obtain ⟨f, hf⟩ := List.length_eq_one_iff.mp (Option.some.inj hrun)
    exact ⟨p, f, rfl, hf⟩

end Origin

end GameScript
