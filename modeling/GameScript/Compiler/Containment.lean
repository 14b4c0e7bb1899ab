import GameScript.Compiler.ConstTable
import GameScript.Lexemes

/-!
Compilations that fail. An error leaves `Compile` by `longjmp` and makes it return false, but two
things are not undone or not caught: the entries that declarations have made in the table of
constants by then, and an error that the constructor of the lexer raises, before `setjmp`.

`runBut` is the recursion of the compiler with something else in place of every statement that
declares a new entry. A compilation reaches no such statement if it is the same whatever stands in
its place, and then it leaves the table as it is.
-/

namespace GameScript

open Effect

namespace Compiler

/-! ### Declarations -/

/-- The declaration of a constant up to its entry. -/
def constDeclaration : CompilerM (Object × Constant) := do
  Lex
  let id ← Expect .TK_IDENTIFIER
  let _ ← Expect (.chr '=')
  let val ← ExpectScalar
  OptionalSemicolon
  return (id, .scalar val)

/-- The entries of an enumeration. -/
def enumEntries (n : Nat) : CompilerM (List (Object × Object)) :=
  loop n (fun (acc : List (Object × Object) × GSInteger) => do
    let (table, nval) := acc
    if (← getToken) = .chr '}' then return .inr table
    let key ← Expect .TK_IDENTIFIER
    let mut val : Object := .integer nval
    let mut next := nval + 1
    if (← getToken) = .chr '=' then
      Lex
      val ← ExpectScalar
      next := nval
    if (← getToken) = .chr ',' then Lex
    return .inl ((key, val) :: table.filter fun entry => entry.1 ≠ key, next)) ([], 0)

/-- The declaration of an enumeration up to its entry. -/
def enumDeclaration (n : Nat) : CompilerM (Object × Constant) := do
  Lex
  let id ← Expect .TK_IDENTIFIER
  let _ ← Expect (.chr '{')
  let table ← enumEntries n
  return (id, .table table)

theorem constStatement_eq :
    constStatement = (constDeclaration >>= fun e => newConstant e.1 e.2) := by
  unfold constStatement constDeclaration
  simp only [bind_assoc, pure_bind]

theorem enumStatement_eq (n : Nat) :
    enumStatement n = (enumDeclaration n >>= fun e => newConstant e.1 e.2 >>= fun _ => Lex) := by
  have hentries : enumStatement n = (do
      Lex
      let id ← Expect .TK_IDENTIFIER
      let _ ← Expect (.chr '{')
      let table ← enumEntries n
      newConstant id (.table table)
      Lex) := rfl
  rw [hentries]
  unfold enumDeclaration
  simp only [bind_assoc, pure_bind]

/-- The entry of the declaration that starts here, if there is a whole one. -/
def declaration (n : Nat) (c : Compiler) : Option (Object × Constant) :=
  match c.token with
  | .TK_CONST => result constDeclaration c
  | .TK_ENUM => result (enumDeclaration n) c
  | _ => none

/-- A whole declaration starts here, and the table does not have its entry. -/
def declares (n : Nat) (c : Compiler) : Bool :=
  match declaration n c with
  | some (name, constant) => entry c.consts name ≠ some constant
  | none => false

/-- A new constant changes its own entry only. -/
theorem entry_newConstant (name : Object) (constant : Constant) (c : Compiler) (x : Object) :
    entry (leaves (newConstant name constant) c).consts x =
      if x = name then some constant else entry c.consts x := by
  change entry ((name, constant) :: c.consts.filter fun e => e.1 ≠ name) x = _
  unfold entry
  by_cases hx : x = name
  · simp [hx]
  · have hother : (c.consts.filter fun e => e.1 ≠ name).find? (fun e => e.1 = x) =
        c.consts.find? fun e => e.1 = x := by
      rw [List.find?_filter]
      congr 1
      funext e
      by_cases he : e.1 = x
      · simp [he, hx]
      · simp [he]
    rw [List.find?_cons_of_neg (by simpa using Ne.symm hx), hother, if_neg hx]

/-! ### Statements -/

/-- Changes the function that is compiled, as a function of states. -/
def withFs (f : FuncState → FuncState) (c : Compiler) : Compiler := { c with fs := f c.fs }

section

variable {f : FuncState → FuncState}

theorem commutes_Lex : Commutes (withFs f) Lex := by
  unfold Lex
  refine commutes_get_bind (fun _ => rfl) fun c => ?_
  split
  · exact commutes_throw _
  · exact commutes_modify fun _ => rfl

theorem commutes_getToken_bind {α : Type} {k : Token → CompilerM α}
    (hk : ∀ t, Commutes (withFs f) (k t)) : Commutes (withFs f) (getToken >>= k) :=
  commutes_get_bind (fun _ => rfl) fun c => hk c.token

theorem commutes_Expect (tok : Token) : Commutes (withFs f) (Expect tok) := by
  unfold Expect
  refine commutes_get_bind (fun _ => rfl) fun c => ?_
  have hrest : Commutes (withFs f) (do Lex; return Lexer.value c.lex tok) :=
    commutes_Lex.bind fun _ => commutes_pure _
  dsimp only
  split
  · exact Commutes.bind (commutes_throw _) fun _ => hrest
  · exact hrest

theorem commutes_ExpectScalar : Commutes (withFs f) ExpectScalar := by
  have hrest (val : Object) : Commutes (withFs f) (do Lex; return val : CompilerM Object) :=
    commutes_Lex.bind fun _ => commutes_pure _
  have hfloat (negated : Bool) (value : GSFloat) (val : Object) : Commutes (withFs f)
      (do recordFloat negated value; Lex; return val : CompilerM Object) :=
    Commutes.bind (commutes_modify fun _ => rfl) fun _ => hrest val
  unfold ExpectScalar
  refine commutes_get_bind (fun _ => rfl) fun c => ?_
  split
  case h_6 =>
    apply commutes_Lex.bind
    intro _
    refine commutes_get_bind (fun _ => rfl) fun c => ?_
    dsimp only
    split
    · exact hrest _
    · exact hfloat true _ _
    · exact Commutes.bind (commutes_throw _) hrest
  case h_2 => exact hfloat false _ _
  case h_7 => exact Commutes.bind (commutes_throw _) hrest
  all_goals exact hrest _

theorem commutes_OptionalSemicolon : Commutes (withFs f) OptionalSemicolon := by
  have hend : Commutes (withFs f) IsEndOfStatement := by
    unfold IsEndOfStatement
    apply commutes_getToken_bind
    intro t
    exact commutes_get_bind (fun _ => rfl) fun _ => commutes_pure _
  unfold OptionalSemicolon
  apply commutes_getToken_bind
  intro t
  split
  · exact commutes_Lex
  · apply hend.bind
    intro b
    split
    · exact commutes_throw _
    · exact commutes_pure _

theorem commutes_loop {α β : Type} {round : α → CompilerM (α ⊕ β)}
    (h : ∀ a, Commutes (withFs f) (round a)) (n : Nat) (a : α) :
    Commutes (withFs f) (loop n round a) := by
  induction n generalizing a with
  | zero => exact commutes_throw _
  | succ n ih =>
    unfold loop
    apply (h a).bind
    intro r
    cases r with
    | inl a => exact ih a
    | inr b => exact commutes_pure b

theorem commutes_enumEntries (n : Nat) : Commutes (withFs f) (enumEntries n) := by
  unfold enumEntries
  apply commutes_loop
  rintro ⟨table, nval⟩
  have hcomma (acc : List (Object × Object) × GSInteger) : Commutes (withFs f) (do
      if (← getToken) = .chr ',' then Lex
      return .inl acc :
        CompilerM (List (Object × Object) × GSInteger ⊕ List (Object × Object))) := by
    apply commutes_getToken_bind
    intro t
    dsimp only
    split
    · exact commutes_Lex.bind fun _ => commutes_pure _
    · exact commutes_pure _
  dsimp only
  apply commutes_getToken_bind
  intro t
  split
  · exact commutes_pure _
  apply (commutes_Expect _).bind
  intro key
  apply commutes_getToken_bind
  intro t
  split
  · apply commutes_Lex.bind
    intro _
    apply commutes_ExpectScalar.bind
    intro val
    exact hcomma _
  · exact hcomma _

/-- A declaration does not depend on the function around it. -/
theorem declaration_withFs (n : Nat) (c : Compiler) :
    declaration n (withFs f c) = declaration n c := by
  have hresult {m : CompilerM (Object × Constant)} (hm : Commutes (withFs f) m) :
      result m (withFs f c) = result m c := by
    unfold result
    rw [hm c]
    cases m c <;> rfl
  have hconst : Commutes (withFs f) constDeclaration := by
    unfold constDeclaration
    apply commutes_Lex.bind
    intro _
    apply (commutes_Expect _).bind
    intro id
    apply (commutes_Expect _).bind
    intro _
    apply commutes_ExpectScalar.bind
    intro val
    exact commutes_OptionalSemicolon.bind fun _ => commutes_pure _
  have henum : Commutes (withFs f) (enumDeclaration n) := by
    unfold enumDeclaration
    apply commutes_Lex.bind
    intro _
    apply (commutes_Expect _).bind
    intro id
    apply (commutes_Expect _).bind
    intro _
    exact (commutes_enumEntries n).bind fun _ => commutes_pure _
  unfold declaration
  rw [hresult hconst, hresult henum]
  rfl

end

instance keeps_constDeclaration : KeepsTable constDeclaration := by
  unfold constDeclaration
  infer_instance

set_option synthInstance.maxSize 100000 in
instance keeps_enumEntries (n : Nat) : KeepsTable (enumEntries n) := by
  unfold enumEntries
  infer_instance

instance keeps_enumDeclaration (n : Nat) : KeepsTable (enumDeclaration n) := by
  unfold enumDeclaration
  infer_instance

/-- Making an entry leaves the table as it is if it has the entry already. -/
theorem declare_sameTable_iff {m : CompilerM (Object × Constant)} {k : CompilerM Unit}
    (hm : KeepsTable m) (hk : KeepsTable k) (c : Compiler) :
    SameTable c (leaves (m >>= fun e => newConstant e.1 e.2 >>= fun _ => k) c) ↔
      ∀ e, result m c = some e → entry c.consts e.1 = some e.2 := by
  have hsame := hm.within c
  rw [leaves_bind]
  unfold result
  cases hrun : m c with
  | error e c₁ =>
    rw [leaves_error hrun] at hsame
    simp [hsame]
  | ok e c₁ =>
    rw [leaves_ok hrun] at hsame
    have hmade (name : Object) :
        entry (leaves (newConstant e.1 e.2 >>= fun _ => k) c₁).consts name =
          if name = e.1 then some e.2 else entry c.consts name := by
      have hlast := hk.within (leaves (newConstant e.1 e.2) c₁) name
      rw [entry_newConstant, hsame name] at hlast
      exact hlast
    constructor
    · rintro h _ ⟨⟩
      have hentry := hmade e.1
      rw [h e.1, if_pos rfl] at hentry
      exact hentry
    · intro h name
      rw [hmade name]
      split
      · rename_i heq
        rw [heq, h e rfl]
      · rfl

theorem declares_eq_false_iff {n : Nat} {c : Compiler} :
    declares n c = false ↔ ∀ e, declaration n c = some e → entry c.consts e.1 = some e.2 := by
  unfold declares
  cases declaration n c with
  | none => simp
  | some e => simp

section

variable {n : Nat} {call : Proc → CompilerM Unit} [hcall : ∀ p, KeepsTable (call p)]

include hcall

/-- **A statement leaves the table as it is unless it is a declaration** of an entry that the
table does not have, if the statements in it do. -/
theorem statement_sameTable_iff (closeframe : Bool) (c : Compiler) :
    SameTable c (leaves (statement n call closeframe) c) ↔ declares n c = false := by
  obtain ⟨f, hline⟩ : ∃ f, AddLineInfos c.lex.currentline false c = .ok () (withFs f c) :=
    ⟨_, rfl⟩
  have hdeclares : declares n c = false ↔
      ∀ e, declaration n (withFs f c) = some e → entry c.consts e.1 = some e.2 := by
    rw [declares_eq_false_iff, declaration_withFs]
  have hget : (get : CompilerM Compiler) c = .ok c c := rfl
  have htoken : getToken (withFs f c) = .ok c.token (withFs f c) := rfl
  have hsame {m : CompilerM Unit} (hm : KeepsTable m) (hno : declaration n (withFs f c) = none) :
      SameTable c (leaves m (withFs f c)) ↔
        ∀ e, declaration n (withFs f c) = some e → entry c.consts e.1 = some e.2 := by
    have htable : SameTable c (leaves m (withFs f c)) := hm.within (withFs f c)
    simp [htable, hno]
  rw [hdeclares]
  unfold statement
  rw [leaves_bind, hget]
  dsimp only
  rw [leaves_bind, hline]
  dsimp only
  rw [leaves_bind, htoken]
  dsimp only
  split
  case h_15 henum =>
    have hdeclaration : declaration n (withFs f c) = result (enumDeclaration n) (withFs f c) := by
      unfold declaration withFs
      rw [henum]
    rw [enumStatement_eq, bind_assoc, hdeclaration]
    simp only [bind_assoc]
    exact declare_sameTable_iff inferInstance inferInstance (withFs f c)
  case h_22 hconst =>
    have hdeclaration : declaration n (withFs f c) = result constDeclaration (withFs f c) := by
      unfold declaration withFs
      rw [hconst]
    rw [constStatement_eq, bind_assoc, hdeclaration]
    exact declare_sameTable_iff inferInstance inferInstance (withFs f c)
  all_goals
    refine hsame inferInstance ?_
    unfold declaration withFs
    simp [*]

end

/-! ### Runs -/

/-- `run` with `other` in place of every statement that declares a new entry. -/
def runBut (other : CompilerM Unit) : Nat → Proc → CompilerM Unit
  | 0, _ => throw .outOfFuel
  | n + 1, .Statement closeframe => do
    if declares n (← get) then other
    else statement n (runBut other n) closeframe
  | n + 1, p => body n (runBut other n) p

/-- `Compile` with `stmt` for a statement. -/
def compileWith (n : Nat) (stmt : CompilerM Unit) : CompilerM FunctionProto := do
  let stacksize ← GetStackSize
  Lex
  whileLoop n (return (← getToken) ≠ .eob) do
    stmt
    endStatement
  modifyFs (·.setStackSize stacksize)
  AddLineInfos (← get).lex.currentline true
  AddInstruction .RETURN 0xFF
  modifyFs (·.setStackSize 0)
  return (← getFs).buildProto

theorem Compile_eq (n : Nat) : Compile n = compileWith n (run n (.Statement true)) := rfl

/-- The compilation comes to no statement that declares a new entry. -/
def DeclaresNothing (n : Nat) (c : Compiler) : Prop :=
  ∀ other, compileWith n (runBut other n (.Statement true)) c = Compile n c

/-- Every procedure but a statement leaves the table as it is if the calls it makes do. -/
theorem body_keepsTable (n : Nat) (call : Proc → CompilerM Unit) (hcall : ∀ p, KeepsTable (call p))
    (p : Proc) (hp : ∀ closeframe, p ≠ .Statement closeframe) : KeepsTable (body n call p) := by
  cases p with
  | Statement closeframe => exact absurd rfl (hp closeframe)
  | BitwiseOrExp => exact keeps_binaryLevel n call .BitwiseXorExp bitwiseOrOps
  | BitwiseXorExp => exact keeps_binaryLevel n call .BitwiseAndExp bitwiseXorOps
  | BitwiseAndExp => exact keeps_binaryLevel n call .EqExp bitwiseAndOps
  | EqExp => exact keeps_binaryLevel n call .CompExp eqOps
  | CompExp => exact keeps_binaryLevel n call .ShiftExp compOps
  | ShiftExp => exact keeps_binaryLevel n call .PlusExp shiftOps
  | PlusExp => exact keeps_binaryLevel n call .MultExp plusOps
  | MultExp => exact keeps_binaryLevel n call .PrefixedExpr multOps
  | _ =>
    simp only [body]
    infer_instance

/-- Whatever the procedures do but one, the table of constants is kept. -/
theorem keeps_runBut {other : CompilerM Unit} (hother : KeepsTable other) (n : Nat) (p : Proc) :
    KeepsTable (runBut other n p) := by
  induction n generalizing p with
  | zero => exact keeps_throw _
  | succ n ih =>
    cases p with
    | Statement closeframe =>
      refine ⟨within_get_bind fun c => ?_⟩
      split
      · exact hother.within c
      · rename_i hdeclares
        exact (statement_sameTable_iff closeframe c).mpr (by simpa using hdeclares)
    | _ => exact body_keepsTable n _ ih _ fun _ h => by cases h

set_option synthInstance.maxSize 100000 in
theorem keeps_compileWith (n : Nat) {stmt : CompilerM Unit} (h : KeepsTable stmt) :
    KeepsTable (compileWith n stmt) := by
  unfold compileWith
  infer_instance

/-- A compilation that declares nothing new leaves the table as it is. -/
theorem sameTable_of_declaresNothing {n : Nat} {c : Compiler} (h : DeclaresNothing n c) :
    SameTable c (leaves (Compile n) c) := by
  have hstmt := keeps_runBut (keeps_throw (α := Unit) .outOfFuel) n (.Statement true)
  have hkept := (keeps_compileWith n hstmt).within c
  have hsame := h (throw .outOfFuel)
  unfold leaves at hkept ⊢
  rwa [hsame] at hkept

/-- The first statement stops the compilation. -/
theorem compileWith_error {n : Nat} {stmt : CompilerM Unit} {c c₁ c₂ : Compiler}
    {e : CompileError} (hlex : Lex c = .ok () c₁) (htoken : c₁.token ≠ .eob)
    (hstmt : stmt c₁ = .error e c₂) : compileWith (n + 1) stmt c = .error e c₂ := by
  have hcond : (do return (← getToken) ≠ .eob : CompilerM Bool) c₁ = .ok true c₁ := by
    change EStateM.Result.ok (decide (c₁.token ≠ .eob)) c₁ = _
    rw [decide_eq_true htoken]
  have hround : whileLoop (n + 1) (do return (← getToken) ≠ .eob) (do stmt; endStatement) c₁ =
      .error e c₂ := by
    unfold whileLoop
    rw [bind_apply, hcond]
    dsimp only
    rw [if_pos rfl, bind_apply, bind_apply, hstmt]
  have hstack : GetStackSize c = .ok c.fs.getStackSize c := rfl
  unfold compileWith
  rw [bind_apply, hstack]
  dsimp only
  rw [bind_apply, hlex]
  dsimp only
  rw [bind_apply, hround]

end Compiler

/-! ### Compilations -/

/-- What a read function gives the compiler: the character that the constructor of the lexer
reads, and what the calls of `Lex` come to. -/
structure Source where
  first : GSInteger
  input : List (Except String Lexeme)

/-- A source whose read function returns the bytes of a text; `fvalue` is what `_fvalue` of the
lexer was before. -/
def Source.ofText (strtod : List UInt8 → GSFloat) (fvalue : GSFloat) (text : List UInt8) :
    Source where
  first := Int64.ofNat (text.headD 0).toNat
  input := GSLexer.lexemes strtod fvalue text

/-- How a compilation ends. `failed` is an error that `Compile` has caught, `lost` one for which
nothing has called `setjmp` yet. -/
inductive Outcome where
  | compiled (func : FunctionProto)
  | failed (msg : String)
  | lost (msg : String)
  | undefined
  | outOfFuel

def MAX_CHAR : GSInteger := 0xFF

/-- `Compile` with the constructor of `GSCompiler`; the second result is the table of constants
afterwards. -/
def compile (n : Nat) (sourcename : Object) (lineinfo : Bool) (consts : List (Object × Constant))
    (source : Source) : Outcome × List (Object × Constant) :=
  if MAX_CHAR < source.first then (.lost "Invalid character", consts)
  else
    match Compiler.Compile n (Compiler.start sourcename lineinfo consts source.input) with
    | .ok func c => (.compiled func, c.consts)
    | .error (.error msg) c => (.failed msg, c.consts)
    | .error .undefined c => (.undefined, c.consts)
    | .error .outOfFuel c => (.outOfFuel, c.consts)

/-- If lexing or parsing failed, `Compile` returned false and the table of constants is as it was
before. -/
def Contained (consts : List (Object × Constant)) : Outcome × List (Object × Constant) → Prop
  | (.compiled _, _) | (.undefined, _) => True
  | (.failed _, after) => ∀ name, Compiler.entry after name = Compiler.entry consts name
  | (.lost _, _) | (.outOfFuel, _) => False

/-- **A failed compilation is contained**, where it has declared nothing new, **if and only if it
did not fail at the first character.** -/
theorem compile_contained_iff (sourcename : Object) (lineinfo : Bool)
    (consts : List (Object × Constant)) (source : Source) {n : Nat}
    (hn : 54 * source.input.length + 33 < n)
    (hdeclares : source.first ≤ MAX_CHAR →
      Compiler.DeclaresNothing n (Compiler.start sourcename lineinfo consts source.input)) :
    Contained consts (compile n sourcename lineinfo consts source) ↔ source.first ≤ MAX_CHAR := by
  unfold compile
  split
  · rename_i hfirst
    simp [Contained, Int64.not_le.mpr hfirst]
  · rename_i hfirst
    have hfirst : source.first ≤ MAX_CHAR := Int64.not_lt.mp hfirst
    simp only [hfirst, iff_true]
    have hsame := Compiler.sameTable_of_declaresNothing (hdeclares hfirst)
    have hends := Compiler.Compile_ends sourcename lineinfo consts source.input hn
    unfold leaves at hsame
    split
    · trivial
    · rename_i msg c hrun
      rw [hrun] at hsame
      exact hsame
    · trivial
    · rename_i c hrun
      exact absurd hrun (hends c)

/-- `break` on its own. -/
def breakSource : Source where
  first := Int64.ofNat 'b'.toNat
  input := [.ok { token := .TK_BREAK, svalue := sc "break" }, .ok { token := .eob }]

/-- The only statement is no declaration, and is not in a loop. -/
theorem declaresNothing_break (n : Nat) :
    Compiler.DeclaresNothing (n + 1) (Compiler.start .null false [] breakSource.input) := by
  intro other
  obtain ⟨c, hlex, htoken, hno, hstmt⟩ : ∃ c,
      Compiler.Lex (Compiler.start .null false [] breakSource.input) = .ok () c ∧
        c.token = .TK_BREAK ∧ Compiler.declares n c = false ∧
        ∀ call, Compiler.statement n call true c =
          .error (.error "'break' has to be in a loop block")
            (leaves (Compiler.AddLineInfos 1) c) :=
    ⟨_, rfl, rfl, rfl, fun _ => rfl⟩
  have hsome : c.token ≠ .eob := by simp [htoken]
  have hbut : Compiler.runBut other (n + 1) (.Statement true) c =
      .error (.error "'break' has to be in a loop block")
        (leaves (Compiler.AddLineInfos 1) c) := by
    unfold Compiler.runBut
    rw [get_bind_apply, hno]
    exact hstmt _
  have hrun : Compiler.run (n + 1) (.Statement true) c =
      .error (.error "'break' has to be in a loop block")
        (leaves (Compiler.AddLineInfos 1) c) := hstmt _
  rw [Compiler.Compile_eq, Compiler.compileWith_error hlex hsome hbut,
    Compiler.compileWith_error hlex hsome hrun]

theorem compile_contained_break :
    Contained [] (compile 142 .null false [] breakSource) ↔ breakSource.first ≤ MAX_CHAR :=
  compile_contained_iff .null false [] breakSource (by decide) fun _ => declaresNothing_break 141

def Outcome.isFailed : Outcome → Bool
  | .failed _ => true
  | _ => false

/-- A failed compilation that has left a new entry is not contained. -/
theorem not_contained_of_entry {consts : List (Object × Constant)}
    {r : Outcome × List (Object × Constant)} {name : Object} {constant : Constant}
    (hfailed : r.1.isFailed = true) (hmade : Compiler.entry r.2 name = some constant)
    (hnone : Compiler.entry consts name = none) : ¬ Contained consts r := by
  obtain ⟨outcome, after⟩ := r
  cases outcome with
  | failed msg =>
    intro h
    have hentry : Compiler.entry after name = Compiler.entry consts name := h name
    rw [hmade, hnone] at hentry
    cases hentry
  | _ => cases hfailed

/-- A constant, and a bracket after it. -/
def constSource : Source := Source.ofText (fun _ => 0) 0 (sc "const a = 1; )")

/-- The constant stays although the compilation fails. -/
theorem compile_not_contained : ¬ Contained [] (compile 500 .null false [] constSource) := by
  have hfailed : (compile 500 .null false [] constSource).1.isFailed = true := by decide +kernel
  have hmade : Compiler.entry (compile 500 .null false [] constSource).2 (.string (sc "a")) =
      some (.scalar (.integer 1)) := by decide +kernel
  exact not_contained_of_entry hfailed hmade rfl

end GameScript
