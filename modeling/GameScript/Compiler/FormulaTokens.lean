import GameScript.Comparison
import GameScript.Compiler.Formula

/-!
The tokens of a formula. `Derives p ws e` says that the procedure `p` of `GScompiler.cpp` reads the
tokens `ws` as the formula `e`; a level of binary operators groups to the left, `&&`, `||` and `?` to
the right. The steps of the compiler that a formula needs are those of `Formula.emit` where there is
room for its registers and literals.
-/

namespace GameScript

open Effect

/-! ### The grammar -/

/-- How tight the operators are that a token stands for, among the procedures of expressions. -/
def Token.rank : Token → Nat
  | .chr '.' | .chr '[' | .chr '(' | .chr '<' | .TK_PLUSPLUS | .TK_MINUSMINUS => 12
  | .chr '*' | .chr '/' | .chr '%' => 11
  | .chr '+' | .chr '-' => 10
  | .TK_USHIFTR | .TK_SHIFTL | .TK_SHIFTR => 9
  | .chr '>' | .TK_GE | .TK_LE | .TK_IN | .TK_INSTANCEOF => 8
  | .TK_EQ | .TK_NE | .TK_3WAYSCMP => 7
  | .chr '&' => 6
  | .chr '^' => 5
  | .chr '|' => 4
  | .TK_AND => 3
  | .TK_OR => 2
  | .chr '?' | .chr '=' | .TK_NEWSLOT | .TK_MINUSEQ | .TK_PLUSEQ | .TK_MULEQ | .TK_DIVEQ
  | .TK_MODEQ => 1
  | _ => 0

/-- A procedure takes the operators of its rank and of higher ones. -/
def Proc.rank : Proc → Nat
  | .Expression => 1
  | .LogicalOrExp => 2
  | .LogicalAndExp => 3
  | .BitwiseOrExp => 4
  | .BitwiseXorExp => 5
  | .BitwiseAndExp => 6
  | .EqExp => 7
  | .CompExp => 8
  | .ShiftExp => 9
  | .PlusExp => 10
  | .MultExp => 11
  | .PrefixedExpr => 12
  | .Factor => 12
  | _ => 0

/-- The operands of a level of binary operators, and its operators. -/
def Proc.level : Proc → Option (Proc × (Token → Option (Opcode × Int)))
  | .BitwiseOrExp => some (.BitwiseXorExp, Compiler.bitwiseOrOps)
  | .BitwiseXorExp => some (.BitwiseAndExp, Compiler.bitwiseXorOps)
  | .BitwiseAndExp => some (.EqExp, Compiler.bitwiseAndOps)
  | .EqExp => some (.CompExp, Compiler.eqOps)
  | .CompExp => some (.ShiftExp, Compiler.compOps)
  | .ShiftExp => some (.PlusExp, Compiler.shiftOps)
  | .PlusExp => some (.MultExp, Compiler.plusOps)
  | .MultExp => some (.PrefixedExpr, Compiler.multOps)
  | _ => none

def UnaryOperator.token : UnaryOperator → Token
  | .neg => .chr '-'
  | .not => .chr '!'
  | .bwnot => .chr '~'

/-- The literals that an operator in front of them is applied to at once. -/
def UnaryOperator.folds : UnaryOperator → Token → Bool
  | .neg, .TK_INTEGER | .neg, .TK_FLOAT | .bwnot, .TK_INTEGER => true
  | _, _ => false

/-- The tokens of a formula that a procedure reads. -/
inductive Derives : Proc → List Lexeme → Formula → Prop where
  | int {x : Lexeme} (hx : x.token = .TK_INTEGER) : Derives .Factor [x] (.int x.nvalue)
  | float {x : Lexeme} (hx : x.token = .TK_FLOAT) : Derives .Factor [x] (.float x.fvalue)
  | str {x : Lexeme} (hx : x.token = .TK_STRING_LITERAL) : Derives .Factor [x] (.str x.svalue)
  | true {x : Lexeme} (hx : x.token = .TK_TRUE) : Derives .Factor [x] (.bool true)
  | false {x : Lexeme} (hx : x.token = .TK_FALSE) : Derives .Factor [x] (.bool false)
  | null {x : Lexeme} (hx : x.token = .TK_NULL) : Derives .Factor [x] .null
  | var {x : Lexeme} (hx : x.token = .TK_IDENTIFIER) : Derives .Factor [x] (.var x.svalue)
  | this {x : Lexeme} (hx : x.token = .TK_THIS) : Derives .Factor [x] (.var (sc "this"))
  | negInt {x y : Lexeme} (hx : x.token = .chr '-') (hy : y.token = .TK_INTEGER) :
      Derives .Factor [x, y] (.int (-y.nvalue))
  | negFloat {x y : Lexeme} (hx : x.token = .chr '-') (hy : y.token = .TK_FLOAT) :
      Derives .Factor [x, y] (.float (y.fvalue ^^^ 0x80000000))
  | bwnotInt {x y : Lexeme} (hx : x.token = .chr '~') (hy : y.token = .TK_INTEGER) :
      Derives .Factor [x, y] (.int (~~~y.nvalue))
  | unary {x y : Lexeme} {ws : List Lexeme} {a : Formula} (op : UnaryOperator)
      (hx : x.token = op.token) (hfolds : op.folds y.token = Bool.false)
      (ha : Derives .PrefixedExpr (y :: ws) a) : Derives .Factor (x :: y :: ws) (.unary op a)
  | paren {x z : Lexeme} {ws : List Lexeme} {a : Formula} (hx : x.token = .chr '(')
      (hz : z.token = .chr ')') (ha : Derives .Expression ws a) :
      Derives .Factor (x :: ws ++ [z]) a
  | prefixed {ws : List Lexeme} {a : Formula} (ha : Derives .Factor ws a) :
      Derives .PrefixedExpr ws a
  | operand {p f : Proc} {ops : Token → Option (Opcode × Int)} {ws : List Lexeme} {a : Formula}
      (hp : p.level = some (f, ops)) (ha : Derives f ws a) : Derives p ws a
  | binary {p f : Proc} {ops : Token → Option (Opcode × Int)} {x : Lexeme} {ws ws' : List Lexeme}
      {a b : Formula} (op : Operator) (hp : p.level = some (f, ops)) (ha : Derives p ws a)
      (hx : ops x.token = some op.code) (hless : x.token ≠ .chr '<') (hb : Derives f ws' b) :
      Derives p (ws ++ x :: ws') (.binary op a b)
  | logicalAnd {ws : List Lexeme} {a : Formula} (ha : Derives .BitwiseOrExp ws a) :
      Derives .LogicalAndExp ws a
  | and {x : Lexeme} {ws ws' : List Lexeme} {a b : Formula} (ha : Derives .BitwiseOrExp ws a)
      (hx : x.token = .TK_AND) (hb : Derives .LogicalAndExp ws' b) :
      Derives .LogicalAndExp (ws ++ x :: ws') (.and a b)
  | logicalOr {ws : List Lexeme} {a : Formula} (ha : Derives .LogicalAndExp ws a) :
      Derives .LogicalOrExp ws a
  | or {x : Lexeme} {ws ws' : List Lexeme} {a b : Formula} (ha : Derives .LogicalAndExp ws a)
      (hx : x.token = .TK_OR) (hb : Derives .LogicalOrExp ws' b) :
      Derives .LogicalOrExp (ws ++ x :: ws') (.or a b)
  | expression {ws : List Lexeme} {a : Formula} (ha : Derives .LogicalOrExp ws a) :
      Derives .Expression ws a
  | cond {x z : Lexeme} {ws ws' ws'' : List Lexeme} {c a b : Formula}
      (hc : Derives .LogicalOrExp ws c) (hx : x.token = .chr '?') (ha : Derives .Expression ws' a)
      (hz : z.token = .chr ':') (hb : Derives .Expression ws'' b) :
      Derives .Expression (ws ++ x :: (ws' ++ z :: ws'')) (.cond c a b)

/-! #### A formula -/

def lexemeOf (token : Token) : Lexeme :=
  { token := token }

def nameOf (text : String) : Lexeme :=
  { token := .TK_IDENTIFIER, svalue := sc text }

/-- The tokens of `x <= y ? y : x`. -/
def greaterTokens : List Lexeme :=
  [nameOf "x", lexemeOf .TK_LE, nameOf "y", lexemeOf (.chr '?'),
    nameOf "y", lexemeOf (.chr ':'), nameOf "x"]

def greater : Formula :=
  .cond (.binary (.cmp .CMP_LE) (.var (sc "x")) (.var (sc "y"))) (.var (sc "y")) (.var (sc "x"))

/-- An operand of `<=`. -/
theorem Derives.shift {x : Lexeme} (hx : x.token = .TK_IDENTIFIER) :
    Derives .ShiftExp [x] (.var x.svalue) :=
  .operand rfl (.operand rfl (.operand rfl (.prefixed (.var hx))))

theorem Derives.comparison {ws : List Lexeme} {a : Formula} (h : Derives .CompExp ws a) :
    Derives .LogicalOrExp ws a :=
  .logicalOr (.logicalAnd (.operand rfl (.operand rfl (.operand rfl (.operand rfl h)))))

theorem derives_greater : Derives .Expression greaterTokens greater := by
  have hname (text : String) : Derives .ShiftExp [nameOf text] (.var (sc text)) :=
    Derives.shift (x := nameOf text) rfl
  have hbranch (text : String) :
      Derives .Expression [nameOf text] (.var (sc text)) :=
    .expression (.comparison (.operand rfl (hname text)))
  exact .cond (.comparison (.binary (x := lexemeOf .TK_LE) (.cmp .CMP_LE) rfl
    (.operand rfl (hname "x")) rfl (by simp [lexemeOf]) (hname "y"))) (x := lexemeOf (.chr '?')) rfl
    (hbranch "y") (z := lexemeOf (.chr ':')) rfl (hbranch "x")

namespace Compiler

variable {c c' : Compiler} {rest : List (Except String Lexeme)}

/-! ### Tokens -/

/-- The compiler has the token `x` and `xs` are the next ones. -/
def Reading (rest : List (Except String Lexeme)) (c : Compiler) : List Lexeme → Prop
  | [] => False
  | x :: xs => c.token = x.token ∧ c.lex.svalue = x.svalue ∧ c.lex.nvalue = x.nvalue ∧
      c.lex.fvalue = x.fvalue ∧ c.lex.input = xs.map .ok ++ rest

/-- The compiler with other tokens, another function state, another `_es` and other float
constants read. -/
def working (token : Token) (lex : Lexer) (es : ExpState) (loaded : List FloatConstant)
    (fs : FuncState) (c : Compiler) : Compiler :=
  { c with token := token, lex := lex, es := es, loaded := loaded, fs := fs }

/-- The compiler with another function state. -/
def putFs (c : Compiler) (fs : FuncState) : Compiler := { c with fs := fs }

@[simp] theorem putFs_fs (c : Compiler) (fs : FuncState) : (c.putFs fs).fs = fs := rfl

@[simp] theorem putFs_putFs (c : Compiler) (fs fs' : FuncState) :
    (c.putFs fs).putFs fs' = c.putFs fs' := rfl

theorem Reading.lex {x : Lexeme} {xs : List Lexeme} (h : Reading rest c (x :: xs))
    (hxs : xs ≠ []) : ∃ t l, Lex c = .ok () (placed t l c) ∧ Reading rest (placed t l c) xs := by
  obtain ⟨-, -, -, -, hinput⟩ := h
  cases xs with
  | nil => exact absurd rfl hxs
  | cons y xs =>
      have hcons : c.lex.input = .ok y :: (xs.map .ok ++ rest) := hinput
      exact ⟨_, _, Lex_cons hcons, rfl, rfl, rfl, rfl, rfl⟩

theorem reading_append {us vs : List Lexeme} (hus : us ≠ []) :
    Reading rest c (us ++ vs) ↔ Reading (vs.map .ok ++ rest) c us := by
  cases us with
  | nil => exact absurd rfl hus
  | cons x us => simp [Reading]

theorem Reading.congr {xs : List Lexeme} (h : Reading rest c xs) (htoken : c'.token = c.token)
    (hlex : c'.lex = c.lex) : Reading rest c' xs := by
  cases xs with
  | nil => exact h
  | cons x xs => simpa only [Reading, htoken, hlex] using h

theorem Reading.token {x : Lexeme} {xs : List Lexeme} (h : Reading rest c (x :: xs)) :
    c.token = x.token := h.1

/-! ### Targets -/

/-- A target is pushed where a register is left. -/
theorem PushTarget_room (h : c.fs.vlocals.size < 256) :
    PushTarget c = .ok c.fs.vlocals.size (c.putFs c.fs.pushTarget) := by
  have hroom : ¬ (c.fs.stacksize < c.fs.vlocals.size + 1 ∧ MAX_FUNC_STACKSIZE < c.fs.stacksize) := by
    unfold MAX_FUNC_STACKSIZE
    omega
  have halloc : AllocStackPos c = .ok c.fs.vlocals.size (c.putFs { c.fs with
      vlocals := c.fs.vlocals.push .temporary
      stacksize := max c.fs.stacksize (c.fs.vlocals.size + 1) }) := by
    unfold AllocStackPos
    rw [getFs_bind_apply]
    dsimp only
    rw [if_neg hroom]
    rfl
  unfold PushTarget
  rw [bind_apply, halloc]
  rfl

theorem PopTarget_aims {gs : FuncState} {t : Nat} (h : FuncState.Aims gs c.fs t) :
    PopTarget c = .ok t (c.putFs c.fs.dropTarget) := by
  unfold PopTarget
  rw [getFs_bind_apply, h.popTarget, h.dropTarget]
  rfl

theorem AddInstruction_apply (op : Opcode) (arg0 arg1 arg2 arg3 : Int) :
    AddInstruction op arg0 arg1 arg2 arg3 c =
      .ok () (c.putFs (c.fs.addInstruction (.make op arg0 arg1 arg2 arg3))) := rfl

theorem GetConstant_room {o : Object} (h : c.fs.literals.size < MAX_LITERALS) :
    GetConstant o c = .ok ((c.fs.getConstant o).1 : Int) (c.putFs (c.fs.getConstant o).2) := by
  have hroom := (FuncState.grows_getConstant c.fs o).constants
  unfold GetConstant
  rw [getFs_bind_apply]
  dsimp only
  rw [modifyFs, modify_bind_apply, if_neg (by omega)]
  rfl

/-! ### Code -/

theorem emitLoad_apply (h : c.fs.vlocals.size < 256) (op : Opcode) (arg1 : Int) :
    (do AddInstruction op (← PushTarget) arg1) c = .ok () (c.putFs (c.fs.emitLoad op arg1)) := by
  rw [bind_apply, PushTarget_room h]
  rfl

theorem emitConstant_apply (h : c.fs.vlocals.size < 256) (hliterals : c.fs.literals.size < MAX_LITERALS)
    (o : Object) :
    (do let target ← PushTarget; AddInstruction .LOAD target (← GetConstant o)) c =
      .ok () (c.putFs (c.fs.emitConstant o)) := by
  rw [bind_apply, PushTarget_room h]
  dsimp only
  rw [bind_apply, GetConstant_room (c := c.putFs c.fs.pushTarget) hliterals]
  rfl

theorem EmitLoadConstInt_apply (h : c.fs.vlocals.size < 256)
    (hliterals : c.fs.literals.size < MAX_LITERALS) (n : GSInteger) :
    EmitLoadConstInt n none c = .ok () (c.putFs (c.fs.emitInt n)) := by
  unfold EmitLoadConstInt FuncState.emitInt targetOr
  by_cases hn : n.toInt ≤ INT_MAX ∧ INT_MIN < n.toInt
  · simp only [if_pos hn]
    exact emitLoad_apply h _ _
  · simp only [if_neg hn]
    exact emitConstant_apply h hliterals _

theorem EmitLoadConstFloat_apply (h : c.fs.vlocals.size < 256) (f : GSFloat) :
    EmitLoadConstFloat f none c = .ok () (c.putFs (c.fs.emitLoad .LOADFLOAT f.toNat)) :=
  emitLoad_apply h _ _

section

variable {fs₀ fs₁ : FuncState} {t t₁ t₂ : Nat}

theorem emitUnary_apply (h : FuncState.Aims fs₀ c.fs t) (hsize : fs₀.vlocals.size < 256)
    (op : Opcode) :
    (do let src ← PopTarget; AddInstruction op (← PushTarget) src) c =
      .ok () (c.putFs (c.fs.emitUnary op)) := by
  have hdrop : c.fs.dropTarget.vlocals.size < 256 := by simpa [h.dropTarget] using hsize
  rw [bind_apply, PopTarget_aims h]
  dsimp only
  rw [bind_apply, PushTarget_room (c := c.putFs c.fs.dropTarget) hdrop]
  simp only [putFs_fs, putFs_putFs, AddInstruction_apply, FuncState.emitUnary, h.target]

/-- A binary operator reads the targets of its two operands. -/
theorem emitBinary_apply (h₁ : FuncState.Aims fs₀ fs₁ t₁) (h₂ : FuncState.Aims fs₁ c.fs t₂)
    (hsize : fs₀.vlocals.size < 256) (op : Opcode) (op3 : Int) :
    emitBinary op op3 c = .ok () (c.putFs (c.fs.emitBinary op op3)) := by
  have h₁' : FuncState.Aims fs₀ c.fs.dropTarget t₁ := h₁.congr rfl rfl
    (by simp [h₂.dropTarget]) (by simp [h₂.dropTarget])
  have hdrop : c.fs.dropTarget.dropTarget.vlocals.size < 256 := by
    simpa [h₁'.dropTarget] using hsize
  unfold emitBinary
  rw [bind_apply, PopTarget_aims h₂]
  dsimp only
  rw [bind_apply, PopTarget_aims (c := c.putFs c.fs.dropTarget) h₁']
  simp only [putFs_fs, putFs_putFs, bind_apply]
  rw [PushTarget_room (c := c.putFs c.fs.dropTarget.dropTarget) hdrop]
  simp only [putFs_fs, putFs_putFs, AddInstruction_apply, FuncState.emitBinary, h₂.target,
    h₁'.target]

theorem moveTo_apply (trg src : Nat) : moveTo trg src c = .ok () (c.putFs (c.fs.moveTo trg src)) := by
  unfold moveTo FuncState.moveTo
  split
  · rfl
  · rfl

/-- The end of a branch. -/
theorem popInto_apply (h : FuncState.Aims fs₀ c.fs t) (trg : Nat) :
    (do let src ← PopTarget; moveTo trg src) c = .ok () (c.putFs (c.fs.popInto trg)) := by
  rw [bind_apply, PopTarget_aims h]
  dsimp only
  rw [moveTo_apply]
  simp only [putFs_fs, putFs_putFs, FuncState.popInto, h.target]

end

end Compiler

end GameScript
