import GameScript.Generics

/-!
The token `<` after a complete shift-level expression. `CompExp` compares with it, but the
procedures below see it first and take it for the start of generic arguments.
-/

namespace GameScript.Compiler

open Effect

/-! ### Binary operators around an operand -/

/-- The operators of a level and their right operands, after the first operand. -/
def operators (n : Nat) (call : Proc → CompilerM Unit) (f : Proc)
    (ops : Token → Option (Opcode × Int)) : CompilerM Unit :=
  whileLoop n (return (ops (← getToken)).isSome) do
    match ops (← getToken) with
    | some (op, op3) => BIN_EXP call op f op3
    | none => return ()

theorem binaryLevel_eq (n : Nat) (call : Proc → CompilerM Unit) (f : Proc)
    (ops : Token → Option (Opcode × Int)) :
    binaryLevel n call f ops = (do call f; operators n call f ops) := rfl

/-- A fresh `_es` for an operand. -/
def freshEs : CompilerM Unit := modify fun c => { c with es := {} }

/-- The operator whose right operand an operand is, with the state it was read in. -/
structure Pending where
  es : ExpState
  op : Opcode
  op3 : Int

/-- A level of binary operators around an operand: the operator in front of it, if there is
one, and how many rounds of its loop are left. -/
structure Level where
  pending : Option Pending := none
  rounds : Nat
  call : Proc → CompilerM Unit

/-- The instruction of the operator in front of the operand. -/
def Level.emit (lv : Level) : CompilerM Unit :=
  match lv.pending with
  | some p => do
    modify fun c => { c with es := p.es }
    emitBinary p.op p.op3
    setEtype .EXPR
  | none => return ()

/-- What is left of the level after the operand. -/
def Level.close (f : Proc) (ops : Token → Option (Opcode × Int)) (lv : Level) :
    CompilerM Unit := do
  lv.emit
  operators lv.rounds lv.call f ops

section

variable {n : Nat} {call : Proc → CompilerM Unit} {f : Proc}
  {ops : Token → Option (Opcode × Int)} {c : Compiler}

theorem operators_some {op : Opcode} {op3 : Int} (h : ops c.token = some (op, op3)) :
    operators (n + 1) call f ops c = (do
      BIN_EXP call op f op3
      operators n call f ops) c := by
  unfold operators
  rw [whileLoop, bind_apply]
  have hcond : (do return (ops (← getToken)).isSome : CompilerM Bool) c = .ok true c := by
    rw [getToken_bind_apply, h]
    rfl
  rw [hcond]
  dsimp only
  rw [if_pos rfl, bind_apply, getToken_bind_apply, h]
  rfl

theorem operators_none (h : ops c.token = none) : operators (n + 1) call f ops c = .ok () c := by
  unfold operators
  rw [whileLoop, bind_apply]
  have hcond : (do return (ops (← getToken)).isSome : CompilerM Bool) c = .ok false c := by
    rw [getToken_bind_apply, h]
    rfl
  rw [hcond]
  rfl

/-- The right operand of an operator is an operand of its level. -/
theorem operators_close {op : Opcode} {op3 : Int} (h : ops c.token = some (op, op3)) :
    operators (n + 1) call f ops c = (do
      Lex
      let es := (← get).es
      freshEs
      call f
      Level.close f ops {
        pending := some { es := es, op := op, op3 := op3 }
        rounds := n
        call := call }) c := by
  rw [operators_some h]
  simp only [BIN_EXP, withFreshEs, freshEs, Level.close, Level.emit, bind_assoc]

end

theorem commutes_emit (t : Token) (l : Lexer) (lv : Level) : Commutes (placed t l) lv.emit := by
  unfold Level.emit
  split
  · apply Commutes.bind
    · apply commutes_modify
      exact fun _ => rfl
    intro _
    apply Commutes.bind
    · apply (commutes_PopTarget t l).bind
      intro op1
      apply (commutes_PopTarget t l).bind
      intro op2
      apply (commutes_PushTarget t l).bind
      intro target
      exact commutes_AddInstruction t l _ _ _ _ _
    · exact fun _ => commutes_setEtype t l _
  · exact commutes_pure _

/-- In front of a token that is no operator of it, a level ends. -/
theorem close_apply (f : Proc) {ops : Token → Option (Opcode × Int)} {lv : Level} {c : Compiler}
    (hrounds : 0 < lv.rounds) (h : ops c.token = none) : lv.close f ops c = lv.emit c := by
  have hplaced : c = placed c.token c.lex c := rfl
  unfold Level.close
  rw [bind_apply, hplaced, commutes_emit c.token c.lex lv c]
  cases lv.emit c with
  | error e s => rfl
  | ok _ s =>
      obtain ⟨n, hn⟩ : ∃ n, lv.rounds = n + 1 := ⟨lv.rounds - 1, by omega⟩
      dsimp only [mapState]
      rw [hn]
      exact operators_none h

/-! ### The operand in front of `<` -/

/-- How an operand ends: with a name, with another factor or postfix, or with `++` or `--`. In
the second case the compiler has read the token behind it. -/
inductive OperandEnd where
  | name
  | other
  | incDec
deriving DecidableEq

namespace OperandEnd

def tokens : OperandEnd → List Token
  | .name => [.TK_IDENTIFIER, .TK_CONSTRUCTOR, .TK_THIS]
  | .other => [.chr '<']
  | .incDec => [.TK_PLUSPLUS, .TK_MINUSMINUS]

/-- The source from the end of the operand on, with `rest` behind the token `lt`. -/
def source (lt : Lexeme) (rest : List (Except String Lexeme)) :
    OperandEnd → List (Except String Lexeme)
  | .other => rest
  | _ => .ok lt :: rest

variable (n : Nat) (call : Proc → CompilerM Unit)

/-- `PrefixedExpr` from the end of the operand on. -/
def prefixed (k : Nat) : OperandEnd → CompilerM Unit
  | .name => do
    identifier n
    loop k (fun _ => suffix n call) ()
  | _ => loop k (fun _ => suffix n call) ()

/-- The code for the end of the operand, with `<` left to the levels around it. -/
def emits : OperandEnd → CompilerM Unit
  | .name => do
    let id := identifierName (← get)
    Lex
    resolve id
  | .other => return ()
  | .incDec => do
    if (← getToken) = .TK_MINUSMINUS then postfixIncDec (-1) else postfixIncDec 1

end OperandEnd

/-! `PrefixedExpr` gets there. -/

theorem prefixedExpr_other (n : Nat) (call : Proc → CompilerM Unit) :
    prefixedExpr n call = (do
      call .Factor
      OperandEnd.other.prefixed n call n) := rfl

theorem prefixedExpr_name {n m : Nat} {call call' : Proc → CompilerM Unit} {c : Compiler}
    (hcall : call .Factor = factor m call') (h : c.token ∈ OperandEnd.name.tokens) :
    prefixedExpr n call c = (do
      identifier m
      loop n (fun _ => suffix n call) ()) c := by
  unfold prefixedExpr
  rw [bind_apply, hcall, factor_name m call' h]
  rfl

/-! ### The expression around it -/

/-- The levels of binary operators of a shift-level expression. -/
structure Levels where
  mult : Level
  plus : Level
  shift : Level

namespace Levels

def emit (lv : Levels) : CompilerM Unit := do
  lv.mult.emit
  lv.plus.emit
  lv.shift.emit

/-- The expression after its last operand. -/
def close (lv : Levels) : CompilerM Unit := do
  lv.mult.close .PrefixedExpr multOps
  lv.plus.close .MultExp plusOps
  lv.shift.close .PlusExp shiftOps

/-- No loop is at its bound. -/
structure Fueled (lv : Levels) : Prop where
  mult : 0 < lv.mult.rounds
  plus : 0 < lv.plus.rounds
  shift : 0 < lv.shift.rounds

theorem commutes_levels (t : Token) (l : Lexer) (lv : Levels) :
    Commutes (placed t l) lv.emit := by
  apply (commutes_emit t l lv.mult).bind
  intro _
  exact (commutes_emit t l lv.plus).bind fun _ => commutes_emit t l lv.shift

/-- The levels end in front of `<`. -/
theorem close_less {lv : Levels} (hlv : lv.Fueled) (l : Lexer) (c : Compiler) :
    lv.close (placed (.chr '<') l c) = lv.emit (placed (.chr '<') l c) := by
  unfold close emit
  rw [bind_apply, bind_apply, close_apply _ hlv.mult (by rfl), commutes_emit _ l lv.mult c]
  cases lv.mult.emit c with
  | error e s => rfl
  | ok _ s =>
      dsimp only [mapState]
      rw [bind_apply, bind_apply, close_apply _ hlv.plus (by rfl), commutes_emit _ l lv.plus s]
      cases lv.plus.emit s with
      | error e s => rfl
      | ok _ s => exact close_apply _ hlv.shift rfl

end Levels

/-! ### The comparison -/

/-- `CompExp` from the end of the last operand of its first operand on. -/
def comparing (n : Nat) (call : Proc → CompilerM Unit) (k : Nat) (lv : Levels)
    (call' : Proc → CompilerM Unit) (m : Nat) (e : OperandEnd) : CompilerM Unit := do
  e.prefixed n call k
  lv.close
  operators (m + 1) call' .ShiftExp compOps

/-- The code of a comparison by `<`. -/
def compared (lv : Levels) (call : Proc → CompilerM Unit) (m : Nat) (e : OperandEnd) :
    CompilerM Unit := do
  e.emits
  lv.emit
  BIN_EXP call .CMP .ShiftExp CmpOP.CMP_L.code
  operators m call .ShiftExp compOps

/-- `CompExp` gets there: its first operand is an expression of one operand. -/
theorem run_CompExp (n : Nat) : run (n + 4) .CompExp = (do
    run n .PrefixedExpr
    Levels.close {
      mult := { rounds := n, call := run n }
      plus := { rounds := n + 1, call := run (n + 1) }
      shift := { rounds := n + 2, call := run (n + 2) } }
    operators (n + 3) (run (n + 3)) .ShiftExp compOps) := by
  have hcomp : run (n + 4) .CompExp = (do
      run (n + 3) .ShiftExp
      operators (n + 3) (run (n + 3)) .ShiftExp compOps) := rfl
  have hshift : run (n + 3) .ShiftExp = (do
      run (n + 2) .PlusExp
      Level.close .PlusExp shiftOps { rounds := n + 2, call := run (n + 2) }) := rfl
  have hplus : run (n + 2) .PlusExp = (do
      run (n + 1) .MultExp
      Level.close .MultExp plusOps { rounds := n + 1, call := run (n + 1) }) := rfl
  have hmult : run (n + 1) .MultExp = (do
      run n .PrefixedExpr
      Level.close .PrefixedExpr multOps { rounds := n, call := run n }) := rfl
  rw [hcomp, hshift, hplus, hmult]
  simp only [Levels.close, bind_assoc]

/-! ### Operands that take `<` -/

section

variable {n : Nat} {call : Proc → CompilerM Unit} {c s : Compiler} {lt x : Lexeme}
  {rest : List (Except String Lexeme)}

/-- Generic arguments do not start with anything but a type. -/
theorem genericArguments_error (hinput : c.lex.input = .ok x :: rest)
    (hx : x.token.isType = false) : genericArguments n c ≠ .ok () s := by
  intro h
  rw [genericArguments_eq, bind_apply, Lex_cons hinput] at h
  dsimp only at h
  cases n with
  | zero => cases h
  | succ n =>
      obtain ⟨a, c₁, hname, -⟩ := bind_eq_ok.mp h
      dsimp only at hname
      unfold typeName at hname
      rw [getToken_bind_apply, placed_token, hx] at hname
      cases hname

/-- After a factor or a postfix, `<` is not left to the levels around. -/
theorem suffix_takes_less (hc : c.token = .chr '<') (hinput : c.lex.input = .ok x :: rest)
    (hx : x.token.isType = false) (k : Nat) :
    loop k (fun _ => suffix n call) () c ≠ .ok () s := by
  intro h
  cases k with
  | zero => cases h
  | succ k =>
      obtain ⟨a, c₁, hsuffix, -⟩ := bind_eq_ok.mp h
      dsimp only at hsuffix
      rw [suffix_less n call hc] at hsuffix
      obtain ⟨_, c₂, hargs, -⟩ := bind_eq_ok.mp hsuffix
      exact genericArguments_error hinput hx hargs

/-- Nor is it after a name. -/
theorem identifier_takes_less (hlt : lt.token = .chr '<')
    (hinput : c.lex.input = .ok lt :: .ok x :: rest) (hx : x.token.isType = false) :
    identifier n c ≠ .ok () s := by
  intro h
  rw [identifier_cons n hinput] at h
  unfold afterName at h
  rw [getToken_bind_apply, placed_token, if_pos hlt] at h
  obtain ⟨_, c₁, hargs, -⟩ := bind_eq_ok.mp h
  exact genericArguments_error rfl hx hargs

end

/-- A round of `PrefixedExpr` that is not `++` or `--` goes on, or there is nothing to do. -/
theorem suffix_cases (n : Nat) (call : Proc → CompilerM Unit) :
    ∃ body, suffix n call = getToken >>= body ∧ ∀ t,
      t ∈ OperandEnd.incDec.tokens ∨ (t ≠ .chr '<' ∧ body t = pure (.inr ())) ∨
        Gives (.inl ()) (body t) := by
  refine ⟨_, rfl, fun t => ?_⟩
  dsimp only
  split
  case h_3 => exact .inl (by decide)
  case h_4 => exact .inl (by decide)
  case h_7 _ hless _ => exact .inr (.inl ⟨hless, rfl⟩)
  -- The other rounds end in `return .inl ()`, whatever came before.
  all_goals
    right
    right
    repeat' first
      | exact gives_pure _
      | apply gives_bind; intro _
      | split

/-- `PrefixedExpr` ends in front of `<` only after `++` or `--`. -/
theorem suffix_stops {n : Nat} {call : Proc → CompilerM Unit} {c s : Compiler}
    (h : suffix n call c = .ok (.inr ()) s) (hs : s.token = .chr '<') :
    c.token ∈ OperandEnd.incDec.tokens := by
  obtain ⟨body, heq, hbody⟩ := suffix_cases n call
  rw [heq, getToken_bind_apply] at h
  rcases hbody c.token with hincDec | ⟨hless, hpure⟩ | hgives
  · exact hincDec
  · rw [hpure] at h
    cases h
    exact absurd hs hless
  · cases hgives _ _ _ h

/-- The suffixes stop in front of `<` only at an increment or decrement. -/
theorem loop_suffix_stops {n k : Nat} {call : Proc → CompilerM Unit} {c s : Compiler}
    (h : loop k (fun _ => suffix n call) () c = .ok () s) (hs : s.token = .chr '<') :
    ∃ c₁, c₁.token ∈ OperandEnd.incDec.tokens ∧ suffix n call c₁ = .ok (.inr ()) s := by
  induction k generalizing c with
  | zero => cases h
  | succ k ih =>
      obtain ⟨a, c₁, hsuffix, h⟩ := bind_eq_ok.mp h
      cases a with
      | inl a => exact ih h
      | inr b =>
          cases h
          exact ⟨c, suffix_stops hsuffix hs, hsuffix⟩

/-- The compiler has just read past the `++` or `--` of an operand. -/
def AfterIncDec (s : Compiler) : Prop :=
  ∃ (n : Nat) (call : Proc → CompilerM Unit) (c c₁ : Compiler),
    c.token ∈ OperandEnd.incDec.tokens ∧ suffix n call c = .ok (.inr ()) c₁ ∧
      c₁.token = s.token ∧ c₁.lex = s.lex

/-- Where `m` ends in front of `<`, that is behind `++` or `--`. -/
def LeavesLess (m : CompilerM Unit) : Prop :=
  ∀ c s, m c = .ok () s → s.token = .chr '<' → AfterIncDec s

theorem leavesLess_prefixedExpr (n : Nat) (call : Proc → CompilerM Unit) :
    LeavesLess (prefixedExpr n call) := by
  intro c s h hs
  rw [prefixedExpr_other] at h
  obtain ⟨_, c₁, -, h⟩ := bind_eq_ok.mp h
  obtain ⟨c₂, htoken, hsuffix⟩ := loop_suffix_stops h hs
  exact ⟨n, call, c₂, s, htoken, hsuffix, rfl, rfl⟩

/-- What does not look at the tokens does not change them. -/
theorem placed_of_commutes {α : Type} {m : CompilerM α} (hm : ∀ t l, Commutes (placed t l) m)
    {c s : Compiler} {a : α} (h : m c = .ok a s) : s.token = c.token ∧ s.lex = c.lex := by
  have hplaced := hm c.token c.lex c
  obtain ⟨s', -, rfl⟩ := mapState_eq_ok.mp (hplaced.symm.trans h)
  exact ⟨rfl, rfl⟩

theorem AfterIncDec.congr {c s : Compiler} (h : AfterIncDec c) (htoken : s.token = c.token)
    (hlex : s.lex = c.lex) : AfterIncDec s := by
  obtain ⟨n, call, c₁, c₂, hc₁, hsuffix, hc₂, hlex₂⟩ := h
  exact ⟨n, call, c₁, c₂, hc₁, hsuffix, hc₂.trans htoken.symm, hlex₂.trans hlex.symm⟩

/-- A level whose operands leave `<` behind an increment only does so itself.
-/
theorem leavesLess_operators {call : Proc → CompilerM Unit} {f : Proc}
    (hf : LeavesLess (call f)) (ops : Token → Option (Opcode × Int)) (n : Nat) {c s : Compiler}
    (hc : c.token = .chr '<' → AfterIncDec c) (h : operators n call f ops c = .ok () s)
    (hs : s.token = .chr '<') : AfterIncDec s := by
  induction n generalizing c with
  | zero => cases h
  | succ n ih =>
      cases hop : ops c.token with
      | none =>
          rw [operators_none hop] at h
          cases h
          exact hc hs
      | some p =>
          rw [operators_close hop] at h
          obtain ⟨_, c₁, -, h⟩ := bind_eq_ok.mp h
          rw [get_bind_apply] at h
          obtain ⟨_, c₂, -, h⟩ := bind_eq_ok.mp h
          obtain ⟨_, c₃, hcall, h⟩ := bind_eq_ok.mp h
          obtain ⟨_, c₄, hemit, h⟩ := bind_eq_ok.mp h
          obtain ⟨htoken, hlex⟩ := placed_of_commutes (fun t l => commutes_emit t l _) hemit
          refine ih (fun hless => ?_) h
          exact (hf c₂ c₃ hcall (htoken ▸ hless)).congr htoken hlex

theorem leavesLess_binaryLevel {call : Proc → CompilerM Unit} {f : Proc}
    (hf : LeavesLess (call f)) (n : Nat) (ops : Token → Option (Opcode × Int)) :
    LeavesLess (binaryLevel n call f ops) := by
  intro c s h hs
  rw [binaryLevel_eq] at h
  obtain ⟨_, c₁, hcall, h⟩ := bind_eq_ok.mp h
  exact leavesLess_operators hf ops n (hf c c₁ hcall) h hs

/-- In every run, `<` reaches `CompExp` only behind an operand that ends in `++` or `--`. -/
theorem run_ShiftExp_less (n : Nat) : LeavesLess (run n .ShiftExp) := by
  have hzero (p : Proc) : LeavesLess (run 0 p) := by
    intro c s h
    cases h
  have hprefixed : ∀ n, LeavesLess (run n .PrefixedExpr)
    | 0 => hzero _
    | n + 1 => leavesLess_prefixedExpr n (run n)
  have hmult : ∀ n, LeavesLess (run n .MultExp)
    | 0 => hzero _
    | n + 1 => leavesLess_binaryLevel (hprefixed n) n multOps
  have hplus : ∀ n, LeavesLess (run n .PlusExp)
    | 0 => hzero _
    | n + 1 => leavesLess_binaryLevel (hmult n) n plusOps
  cases n with
  | zero => exact hzero _
  | succ n => exact leavesLess_binaryLevel (hplus n) n shiftOps

/-- A name takes the `<` behind it, and then there has to be a type. -/
theorem prefixedExpr_takes_less {lt x : Lexeme} {rest : List (Except String Lexeme)}
    {c : Compiler} (hc : c.token ∈ OperandEnd.name.tokens)
    (hinput : c.lex.input = .ok lt :: .ok x :: rest) (hlt : lt.token = .chr '<')
    (hx : x.token.isType = false) :
    ∀ (n : Nat) (s : Compiler), run n .PrefixedExpr c ≠ .ok () s
  | 0, s => by
      intro h
      cases h
  | 1, s => by
      intro h
      obtain ⟨_, c₁, hfactor, -⟩ := bind_eq_ok.mp h
      cases hfactor
  | n + 2, s => by
      intro h
      have hname : prefixedExpr (n + 1) (run (n + 1)) c = (do
          identifier n
          loop (n + 1) (fun _ => suffix (n + 1) (run (n + 1))) ()) c := prefixedExpr_name rfl hc
      have hrun : prefixedExpr (n + 1) (run (n + 1)) c = .ok () s := h
      rw [hname] at hrun
      obtain ⟨_, c₁, hid, -⟩ := bind_eq_ok.mp hrun
      exact identifier_takes_less hlt hinput hx hid

section

variable {n : Nat} {call : Proc → CompilerM Unit} {c : Compiler} {lt : Lexeme}
  {rest : List (Except String Lexeme)}

/-- `postfixIncDec` after the operator. -/
def incDecEmit (diff : Int) : CompilerM Unit := do
  let es := (← get).es
  match es.etype with
  | .EXPR => error "can't '++' or '--' an expression"
  | .BASE => error "'base' cannot be modified"
  | .OBJECT =>
    if es.donot_get then error "can't '++' or '--' an expression"
    Emit2ArgsOP .PINC diff
  | .LOCAL =>
    let src ← PopTarget
    AddInstruction .PINCL (← PushTarget) src 0 diff
  | .OUTER =>
    let tmp1 ← PushTarget
    let tmp2 ← PushTarget
    AddInstruction .GETOUTER tmp2 es.epos
    AddInstruction .PINCL tmp1 tmp2 0 diff
    AddInstruction .SETOUTER tmp2 es.epos tmp2
    let _ ← PopTarget
  setEtype .EXPR

theorem postfixIncDec_eq (diff : Int) : postfixIncDec diff = (do Lex; incDecEmit diff) := rfl

theorem commutes_incDecEmit (t : Token) (l : Lexer) (diff : Int) :
    Commutes (placed t l) (incDecEmit diff) := by
  have htype := commutes_setEtype t l .EXPR
  apply commutes_get_bind
  · exact fun _ => rfl
  intro c
  dsimp only
  split
  · exact (commutes_error t l _).bind fun _ => htype
  · exact (commutes_error t l _).bind fun _ => htype
  · split
    · exact (commutes_error t l _).bind fun _ => (commutes_Emit2ArgsOP t l _ _).bind fun _ => htype
    · exact (commutes_Emit2ArgsOP t l _ _).bind fun _ => htype
  · apply (commutes_PopTarget t l).bind
    intro src
    apply (commutes_PushTarget t l).bind
    intro target
    exact (commutes_AddInstruction t l _ _ _ _ _).bind fun _ => htype
  · apply (commutes_PushTarget t l).bind
    intro tmp1
    apply (commutes_PushTarget t l).bind
    intro tmp2
    apply (commutes_AddInstruction t l _ _ _ _ _).bind
    intro _
    apply (commutes_AddInstruction t l _ _ _ _ _).bind
    intro _
    apply (commutes_AddInstruction t l _ _ _ _ _).bind
    intro _
    exact (commutes_PopTarget t l).bind fun _ => htype

theorem IsEndOfStatement_incDec (hc : c.token ∈ OperandEnd.incDec.tokens)
    (hline : c.lex.prevtoken ≠ some (.chr '\n')) : IsEndOfStatement c = .ok false c := by
  have hend : IsEndOfStatement c = .ok (decide (c.lex.prevtoken = some (.chr '\n')) ||
      decide (c.token = .eob) || decide (c.token = .chr '}') || decide (c.token = .chr ';')) c :=
    rfl
  simp only [OperandEnd.tokens, List.mem_cons, List.not_mem_nil, or_false] at hc
  rcases hc with hc | hc <;> rw [hend, hc] <;> simp [hline]

/-- An increment behind an expression is its last suffix. -/
theorem suffix_incDec (hc : c.token ∈ OperandEnd.incDec.tokens)
    (hline : c.lex.prevtoken ≠ some (.chr '\n')) :
    suffix n call c = (do OperandEnd.incDec.emits; return Sum.inr ()) c := by
  have hend := IsEndOfStatement_incDec hc hline
  have hemits : OperandEnd.incDec.emits c =
      (if c.token = .TK_MINUSMINUS then postfixIncDec (-1) else postfixIncDec 1) c := rfl
  have hround (diff : Int) : (do
      if !(← IsEndOfStatement) then postfixIncDec diff
      return Sum.inr () : CompilerM (Unit ⊕ Unit)) c =
        (do postfixIncDec diff; return Sum.inr () : CompilerM (Unit ⊕ Unit)) c := by
    rw [bind_apply, hend]
    rfl
  simp only [OperandEnd.tokens, List.mem_cons, List.not_mem_nil, or_false] at hc
  unfold suffix
  rw [getToken_bind_apply, bind_apply, hemits]
  rcases hc with hc | hc
  · rw [hc]
    exact hround 1
  · rw [hc]
    exact hround (-1)

/-- `++` and `--` end an operand. -/
theorem prefixed_incDec (hc : c.token ∈ OperandEnd.incDec.tokens)
    (hline : c.lex.prevtoken ≠ some (.chr '\n')) (k : Nat) :
    OperandEnd.incDec.prefixed n call (k + 1) c = OperandEnd.incDec.emits c := by
  unfold OperandEnd.prefixed
  dsimp only
  rw [loop, bind_apply, suffix_incDec hc hline, bind_apply]
  cases OperandEnd.incDec.emits c with
  | error e s => rfl
  | ok _ s => rfl

/-- They leave the token behind them. -/
theorem emits_incDec (hlt : lt.token = .chr '<') (hinput : c.lex.input = .ok lt :: rest) :
    ∃ (l : Lexer) (m : CompilerM Unit),
      OperandEnd.incDec.emits c = mapState (placed (.chr '<') l) (m c) := by
  have hemit (diff : Int) : postfixIncDec diff c =
      mapState (placed (.chr '<') (c.lex.next lt rest)) (incDecEmit diff c) := by
    rw [postfixIncDec_eq, bind_apply, Lex_cons hinput, hlt]
    exact commutes_incDecEmit _ _ diff c
  unfold OperandEnd.emits
  dsimp only
  rw [getToken_bind_apply]
  split
  · exact ⟨_, _, hemit (-1)⟩
  · exact ⟨_, _, hemit 1⟩

end

/-! ### Comparisons -/

section

variable {n k m : Nat} {call call' : Proc → CompilerM Unit} {lv : Levels} {e : OperandEnd}
  {d s : Compiler} {lt x : Lexeme} {rest : List (Except String Lexeme)}

/-- An operand that ends in `++` or `--` is compared. -/
theorem comparing_incDec (hlt : lt.token = .chr '<') (hlv : lv.Fueled) (hk : 0 < k)
    (htoken : d.token ∈ OperandEnd.incDec.tokens) (hline : d.lex.prevtoken ≠ some (.chr '\n'))
    (hinput : d.lex.input = .ok lt :: rest) :
    comparing n call k lv call' m .incDec d = compared lv call' m .incDec d := by
  obtain ⟨k, rfl⟩ : ∃ k', k = k' + 1 := ⟨k - 1, by omega⟩
  obtain ⟨l, emit, hemits⟩ := emits_incDec hlt hinput
  unfold comparing compared
  rw [bind_apply, bind_apply, prefixed_incDec htoken hline, hemits]
  cases emit d with
  | error e s => rfl
  | ok _ c =>
      dsimp only [mapState]
      rw [bind_apply, bind_apply, Levels.close_less hlv, Levels.commutes_levels _ l lv c]
      cases lv.emit c with
      | error e s => rfl
      | ok _ c => exact operators_some rfl

/-- No other operand is, whatever follows. -/
theorem prefixed_takes_less (hlt : lt.token = .chr '<') (he : e ≠ .incDec)
    (htoken : d.token ∈ e.tokens) (hinput : d.lex.input = e.source lt (.ok x :: rest))
    (hx : x.token.isType = false) : e.prefixed n call k d ≠ .ok () s := by
  intro h
  cases e with
  | incDec => exact he rfl
  | name =>
      obtain ⟨_, c₁, hid, -⟩ := bind_eq_ok.mp h
      exact identifier_takes_less hlt hinput hx hid
  | other =>
      have hless : d.token = .chr '<' := by simpa [OperandEnd.tokens] using htoken
      exact suffix_takes_less hless hinput hx k h

/-- A right operand that is the number 1. -/
def oneThen : List (Except String Lexeme) := [.ok { token := .TK_INTEGER, nvalue := 1 }]

/-- Less-than is a comparison: where the code of a comparison can be emitted behind the
operand, the compiler emits it for every right operand, exactly if the operand ends in `++` or
`--` of its own. -/
theorem less_compared_iff (hlt : lt.token = .chr '<') (hlv : lv.Fueled) (hk : 0 < k)
    (htoken : d.token ∈ e.tokens)
    (hline : e = .incDec → d.lex.prevtoken ≠ some (.chr '\n'))
    (hone : ∃ s, compared lv call' m e (d.reading (e.source lt oneThen)) = .ok () s) :
    (∀ (x : Lexeme) (rest : List (Except String Lexeme)) (s : Compiler),
      compared lv call' m e (d.reading (e.source lt (.ok x :: rest))) = .ok () s →
      comparing n call k lv call' m e (d.reading (e.source lt (.ok x :: rest))) = .ok () s) ↔
    e = .incDec := by
  constructor
  · intro h
    obtain ⟨s, hs⟩ := hone
    apply Decidable.byContradiction
    intro he
    obtain ⟨_, c, hprefixed, -⟩ := bind_eq_ok.mp (h _ [] s hs)
    exact prefixed_takes_less (d := d.reading (e.source lt oneThen)) hlt he htoken rfl rfl hprefixed
  · rintro rfl x rest s hs
    have hsame : comparing n call k lv call' m .incDec (d.reading (.ok lt :: .ok x :: rest)) =
        compared lv call' m .incDec (d.reading (.ok lt :: .ok x :: rest)) :=
      comparing_incDec hlt hlv hk htoken (hline rfl) rfl
    exact hsame.trans hs

end

/-- `1 < 1` is not compiled, `1 <= 1` is. -/
theorem not_less_compared :
    result (do Lex; run 30 .Expression) (start .null false [] (sourceOf
      [.TK_INTEGER, .chr '<', .TK_INTEGER])) = none ∧
    result (do Lex; run 30 .Expression) (start .null false [] (sourceOf
      [.TK_INTEGER, .TK_LE, .TK_INTEGER])) = some () := by
  decide +kernel

/-- The compiler at the operator of `a++`. -/
def atIncrement : Compiler :=
  { start .null false [] [] with
    token := .TK_PLUSPLUS
    es := { etype := .LOCAL, epos := 0 }
    fs := { (start .null false [] []).fs with targetstack := [0] } }

def oneOperand : Levels where
  mult := { rounds := 30, call := run 30 }
  plus := { rounds := 30, call := run 30 }
  shift := { rounds := 30, call := run 30 }

/-- `a++ < 1` is a comparison. -/
theorem less_compared_iff_increment : ∃ s,
    compared oneOperand (run 30) 30 .incDec
      (atIncrement.reading (.ok (lexeme (.chr '<')) :: oneThen)) = .ok () s ∧
    comparing 30 (run 30) 30 oneOperand (run 30) 30 .incDec
      (atIncrement.reading (.ok (lexeme (.chr '<')) :: oneThen)) = .ok () s := by
  obtain ⟨s, hs⟩ := result_eq_some.mp (by decide +kernel :
    result (compared oneOperand (run 30) 30 .incDec)
      (atIncrement.reading (.ok (lexeme (.chr '<')) :: oneThen)) = some ())
  exact ⟨s, hs, (less_compared_iff (lexeme_token _) ⟨by decide, by decide, by decide⟩
    (by decide) (by decide) (fun _ => by decide) ⟨s, hs⟩).mpr rfl _ _ s hs⟩

end GameScript.Compiler
