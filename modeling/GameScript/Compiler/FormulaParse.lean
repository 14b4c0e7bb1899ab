import GameScript.Compiler.FormulaTokens

/-!
The compiler on the tokens of a formula. `Parses p ws e` is what one procedure does; a level of
binary operators reads its operators in rounds (`InRounds`). `run_formula` is the result: the compiler
accepts the tokens and emits the code of the formula.
-/

namespace GameScript

open Effect

namespace Compiler

/-! ### Phrases -/

variable {c c' : Compiler} {rest : List (Except String Lexeme)}

variable {call : Proc → CompilerM Unit} {f : Proc} {c₁ : Compiler} {fs : FuncState}

/-- The compiler has read up to the token `y`, and what it has emitted makes `fs` the state of the
function. -/
structure Compiled (rest : List (Except String Lexeme)) (y : Lexeme) (fs : FuncState)
    (c c' : Compiler) : Prop where
  reading : Reading rest c' [y]
  same : c' = working c'.token c'.lex c'.es c'.loaded fs c

theorem Compiled.fs_eq {y : Lexeme} (h : Compiled rest y fs c c') : c'.fs = fs := by
  rw [h.same]
  rfl

theorem Compiled.after {y : Lexeme} (h : Compiled rest y fs c₁ c') {token : Token} {lex : Lexer}
    {es : ExpState} {loaded : List FloatConstant} {fs₁ : FuncState}
    (h₁ : c₁ = working token lex es loaded fs₁ c) :
    Compiled rest y fs c c' := by
  refine ⟨h.reading, ?_⟩
  rw [h.same, h₁]
  rfl

theorem Compiled.putFs {y : Lexeme} (h : Compiled rest y fs c c') (fs' : FuncState) :
    Compiled rest y fs' c (c'.putFs fs') :=
  ⟨h.reading.congr rfl rfl, by rw [h.same]; rfl⟩

theorem Compiled.setEs {y : Lexeme} (h : Compiled rest y fs c c') (es : ExpState) :
    Compiled rest y fs c { c' with es := es } :=
  ⟨h.reading.congr rfl rfl, by rw [h.same]; rfl⟩

/-- The compiler once `_es.etype` is reset. -/
def asExpr (c : Compiler) : Compiler := { c with es := { c.es with etype := .EXPR } }

theorem Compiled.asExpr {y : Lexeme} (h : Compiled rest y fs c c') :
    Compiled rest y fs c c'.asExpr := h.setEs _

theorem withFreshEs_ok {m : CompilerM Unit} (h : m { c with es := {} } = .ok () c') :
    withFreshEs m c = .ok () { c' with es := c.es } := by
  unfold withFreshEs
  rw [get_bind_apply, modify_bind_apply, bind_apply, h]
  rfl

/-- The procedure `p` reads the tokens `ws` as `e`, whatever token comes behind that it does not
take itself. -/
def Parses (p : Proc) (ws : List Lexeme) (e : Formula) : Prop :=
  ∀ ⦃c y rest⦄, Reading rest c (ws ++ [y]) → y.token.rank < p.rank → e.Fits c.fs →
    ∃ c', Compiled rest y (e.emit c.fs) c c' ∧ ∃ N, ∀ n, N ≤ n → run n p c = .ok () c'

/-- The operand `f` and some rounds of the loop over the operators behind it read `ws` as `e`. -/
def InRounds (f : Proc) (ops : Token → Option (Opcode × Int)) (ws : List Lexeme) (e : Formula) :
    Prop :=
  ∀ ⦃c y rest⦄, Reading rest c (ws ++ [y]) → y.token.rank < f.rank → e.Fits c.fs →
    ∃ c', Compiled rest y (e.emit c.fs) c c' ∧ ∃ N k, ∀ n m, N ≤ n →
      (do run n f; operators (m + k) (run n) f ops) c = operators m (run n) f ops c'

theorem Parses.inRounds {ops : Token → Option (Opcode × Int)} {ws : List Lexeme} {e : Formula}
    (h : Parses f ws e) : InRounds f ops ws e := by
  intro c y rest hreading hy hfits
  obtain ⟨c', hcompiled, N, hrun⟩ := h hreading hy hfits
  refine ⟨c', hcompiled, N, 0, fun n m hn => ?_⟩
  rw [bind_apply, hrun n hn]
  rfl

/-- The operators of a level are those of its rank; `<` is never read as one. -/
theorem level_spec {p : Proc} {ops : Token → Option (Opcode × Int)}
    (hp : p.level = some (f, ops)) : f.rank = p.rank + 1 ∧
      (∀ t, (ops t).isSome = true → t.rank = p.rank ∨ t = .chr '<') ∧
      ∀ n call, body n call p = binaryLevel n call f ops := by
  cases p <;> simp only [Proc.level, Option.some.injEq, Prod.mk.injEq, reduceCtorEq] at hp <;>
    obtain ⟨rfl, rfl⟩ := hp <;> refine ⟨rfl, fun t ht => ?_, fun n call => rfl⟩
  case BitwiseOrExp =>
    unfold bitwiseOrOps at ht
    split at ht <;> first | exact .inl rfl | exact .inr rfl | simp at ht
  case BitwiseXorExp =>
    unfold bitwiseXorOps at ht
    split at ht <;> first | exact .inl rfl | exact .inr rfl | simp at ht
  case BitwiseAndExp =>
    unfold bitwiseAndOps at ht
    split at ht <;> first | exact .inl rfl | exact .inr rfl | simp at ht
  case EqExp =>
    unfold eqOps at ht
    split at ht <;> first | exact .inl rfl | exact .inr rfl | simp at ht
  case CompExp =>
    unfold compOps at ht
    split at ht <;> first | exact .inl rfl | exact .inr rfl | simp at ht
  case ShiftExp =>
    unfold shiftOps at ht
    split at ht <;> first | exact .inl rfl | exact .inr rfl | simp at ht
  case PlusExp =>
    unfold plusOps at ht
    split at ht <;> first | exact .inl rfl | exact .inr rfl | simp at ht
  case MultExp =>
    unfold multOps at ht
    split at ht <;> first | exact .inl rfl | exact .inr rfl | simp at ht

/-- The right operand of an operator: a token, and the operand with a fresh `_es`. -/
theorem Parses.operand {ws : List Lexeme} {e : Formula} {x y : Lexeme} (h : Parses f ws e)
    (hreading : Reading rest c (x :: (ws ++ [y]))) (hy : y.token.rank < f.rank)
    (hfits : e.Fits c.fs) :
    ∃ c', Compiled rest y (e.emit c.fs) c c' ∧
      ∃ N, ∀ n, N ≤ n → (do Lex; withFreshEs (run n f)) c = .ok () c' := by
  obtain ⟨t, l, hlex, hnext⟩ := hreading.lex (by simp)
  have hfresh : Reading rest { placed t l c with es := {} } (ws ++ [y]) := hnext.congr rfl rfl
  obtain ⟨c₁, hcompiled, N, hrun⟩ := h hfresh hy hfits
  refine ⟨{ c₁ with es := c.es }, (hcompiled.setEs c.es).after rfl, N, fun n hn => ?_⟩
  rw [bind_apply, hlex]
  exact withFreshEs_ok (c := placed t l c) (hrun n hn)

/-- One more round. -/
theorem InRounds.binary {p : Proc} {ops : Token → Option (Opcode × Int)} {ws ws' : List Lexeme}
    {a b : Formula} {x : Lexeme} {op : Operator} (hp : p.level = some (f, ops))
    (ha : InRounds f ops ws a) (hx : ops x.token = some op.code) (hless : x.token ≠ .chr '<')
    (hb : Parses f ws' b) : InRounds f ops (ws ++ x :: ws') (.binary op a b) := by
  intro c y rest hreading hy hfits
  obtain ⟨hrank, hsome, -⟩ := level_spec hp
  have hxrank := (hsome x.token (by simp [hx])).resolve_right hless
  obtain ⟨hfitsa, hfitsb⟩ := hfits.binary
  have hreading₀ : Reading ((ws' ++ [y]).map .ok ++ rest) c (ws ++ [x]) := by
    rw [← reading_append (by simp)]
    simpa using hreading
  obtain ⟨c₁, hcompiled₁, N₁, k₁, hrun₁⟩ := ha hreading₀ (by omega) hfitsa
  have hreading₁ : Reading rest c₁ (x :: (ws' ++ [y])) := by
    have hx := hcompiled₁.reading
    rw [← reading_append (by simp)] at hx
    simpa using hx
  rw [← hcompiled₁.fs_eq] at hfitsb
  obtain ⟨c₂, hcompiled₂, N₂, hrun₂⟩ := hb.operand hreading₁ hy hfitsb
  have haims₁ : FuncState.Aims c.fs c₁.fs (a.result c.fs) := by
    rw [hcompiled₁.fs_eq]
    exact Formula.aims_emit hfitsa.resolves
  have haims₂ : FuncState.Aims c₁.fs c₂.fs (b.result c₁.fs) := by
    rw [hcompiled₂.fs_eq]
    exact Formula.aims_emit hfitsb.resolves
  have hsize : c.fs.vlocals.size < 256 := by
    have hregisters := hfits.registers
    simp only [Formula.height] at hregisters
    omega
  have hemit := emitBinary_apply haims₁ haims₂ hsize op.code.1 op.code.2
  have hfs : c₂.fs.emitBinary op.code.1 op.code.2 = (Formula.binary op a b).emit c.fs := by
    rw [hcompiled₂.fs_eq, hcompiled₁.fs_eq]
    rfl
  have hcompiled := ((hcompiled₂.after hcompiled₁.same).putFs ((Formula.binary op a b).emit c.fs))
  refine ⟨_, hcompiled.asExpr, max N₁ N₂, k₁ + 1, fun n m hn => ?_⟩
  have hbin : BIN_EXP (run n) op.code.1 f op.code.2 c₁ =
      .ok () (c₂.putFs ((Formula.binary op a b).emit c.fs)).asExpr := by
    have hsplit : BIN_EXP (run n) op.code.1 f op.code.2 = (do
        (do Lex; withFreshEs (run n f))
        emitBinary op.code.1 op.code.2
        setEtype .EXPR) := by simp only [BIN_EXP, bind_assoc]
    rw [hsplit, bind_apply, hrun₂ n (by omega)]
    dsimp only
    rw [bind_apply, hemit, hfs]
    rfl
  have hrounds : m + (k₁ + 1) = m + 1 + k₁ := by omega
  have hops : ops c₁.token = some (op.code.1, op.code.2) := hreading₁.token ▸ hx
  rw [hrounds, hrun₁ n (m + 1) (by omega), operators_some hops, bind_apply, hbin]

/-- The level ends before a token that is none of its operators. -/
theorem InRounds.parses {p : Proc} {ops : Token → Option (Opcode × Int)} {ws : List Lexeme}
    {e : Formula} (hp : p.level = some (f, ops)) (h : InRounds f ops ws e) : Parses p ws e := by
  intro c y rest hreading hy hfits
  obtain ⟨hrank, hsome, hbody⟩ := level_spec hp
  obtain ⟨c', hcompiled, N, k, hrun⟩ := h hreading (by omega) hfits
  refine ⟨c', hcompiled, N + k + 2, fun n hn => ?_⟩
  obtain ⟨n, rfl⟩ := Nat.exists_eq_add_of_le' (show 1 ≤ n by omega)
  obtain ⟨m, hm⟩ := Nat.exists_eq_add_of_le' (show k + 1 ≤ n by omega)
  have hnone : ops c'.token = none := by
    rw [hcompiled.reading.token]
    cases hops : ops y.token with
    | none => rfl
    | some o =>
        rcases hsome y.token (by simp [hops]) with heq | hless
        · omega
        · have hp : p.rank ≤ 12 := by cases p <;> simp [Proc.rank]
          have hy12 : y.token.rank = 12 := by rw [hless]; rfl
          omega
  have hrounds : n = m + 1 + k := by omega
  change body n (run n) p c = _
  rw [hbody, binaryLevel_eq]
  have hops := hrun n (m + 1) (by omega)
  rw [← hrounds] at hops
  rw [hops, operators_none hnone]

/-! ### Factors -/

theorem Lex_reading {x : Lexeme} {y : Lexeme} (h : Reading rest c [x, y]) :
    ∃ c', Lex c = .ok () c' ∧ Compiled rest y c.fs c c' := by
  obtain ⟨t, l, hlex, hnext⟩ := h.lex (by simp)
  exact ⟨_, hlex, hnext, rfl⟩

/-- The code of a literal, before its token is left. -/
def Loads (m : CompilerM Unit) (x : Lexeme) (e : Formula) : Prop :=
  ∀ ⦃c⦄, c.token = x.token → c.lex.svalue = x.svalue → c.lex.nvalue = x.nvalue →
    c.lex.fvalue = x.fvalue → e.Fits c.fs →
      ∃ loaded, m c = .ok () { c.putFs (e.emit c.fs) with loaded := loaded }

/-- What a load emits is what the formula of its literal emits. -/
theorem Loads.compiled {m : CompilerM Unit} {x y : Lexeme} {e : Formula} (h : Loads m x e)
    (hreading : Reading rest c [x, y]) (hfits : e.Fits c.fs) :
    ∃ c', Compiled rest y (e.emit c.fs) c c' ∧
      (do m; Lex; setEtype .EXPR) c = .ok () c' := by
  obtain ⟨htoken, hsvalue, hnvalue, hfvalue, -⟩ := id hreading
  obtain ⟨loaded, hm⟩ := h htoken hsvalue hnvalue hfvalue hfits
  obtain ⟨c₁, hlex, hcompiled⟩ := Lex_reading
    (c := { c.putFs (e.emit c.fs) with loaded := loaded }) (hreading.congr rfl rfl)
  have hafter : Compiled rest y (e.emit c.fs) c c₁ := hcompiled.after rfl
  refine ⟨c₁.asExpr, hafter.asExpr, ?_⟩
  rw [bind_apply, hm]
  dsimp only
  rw [bind_apply, hlex]
  rfl

/-- The tokens that `Factor` leaves to `factorExpr`. -/
theorem factor_expr {n : Nat} (hc : c.token ∉ [.TK_BASE, .TK_IDENTIFIER, .TK_CONSTRUCTOR, .TK_THIS,
    .TK_DOUBLE_COLON]) :
    factor n call c = (do factorExpr n call; setEtype .EXPR) c := by
  unfold factor
  rw [getToken_bind_apply]
  revert hc
  cases c.token <;> simp

/-- A literal of one token. -/
theorem Loads.parses {m : CompilerM Unit} {x : Lexeme} {e : Formula} (h : Loads m x e)
    (hx : x.token ∉ [.TK_BASE, .TK_IDENTIFIER, .TK_CONSTRUCTOR, .TK_THIS, .TK_DOUBLE_COLON])
    (hm : ∀ n call c, c.token = x.token → factorExpr n call c = (do m; Lex) c) :
    Parses .Factor [x] e := by
  intro c y rest hreading _ hfits
  obtain ⟨c', hcompiled, hrun⟩ := h.compiled hreading hfits
  refine ⟨c', hcompiled, 1, fun n hn => ?_⟩
  obtain ⟨n, rfl⟩ := Nat.exists_eq_add_of_le' hn
  have hc := hreading.token
  change factor n (run n) c = _
  rw [factor_expr (hc ▸ hx), bind_apply, hm n (run n) c hc, ← hrun, ← bind_apply, bind_assoc]

/-- A literal and an operator that is applied to it at once. -/
theorem Loads.parses_folded {m : CompilerM Unit} {x y : Lexeme} {e : Formula} (h : Loads m y e)
    (hx : x.token ∉ [.TK_BASE, .TK_IDENTIFIER, .TK_CONSTRUCTOR, .TK_THIS, .TK_DOUBLE_COLON])
    (hm : ∀ n call c c₁, c.token = x.token → Lex c = .ok () c₁ → c₁.token = y.token →
      factorExpr n call c = (do m; Lex) c₁) : Parses .Factor [x, y] e := by
  intro c z rest hreading _ hfits
  obtain ⟨t, l, hlex, hnext⟩ := hreading.lex (by simp)
  obtain ⟨c', hcompiled, hrun⟩ := h.compiled (c := placed t l c) hnext hfits
  refine ⟨c', hcompiled.after rfl, 1, fun n hn => ?_⟩
  obtain ⟨n, rfl⟩ := Nat.exists_eq_add_of_le' hn
  have hc := hreading.token
  change factor n (run n) c = _
  rw [factor_expr (hc ▸ hx), bind_apply, hm n (run n) c _ hc hlex hnext.token, ← hrun,
    ← bind_apply, bind_assoc]

theorem loads_int (f : GSInteger → GSInteger) {x : Lexeme} :
    Loads (do EmitLoadConstInt (f (← get).lex.nvalue) none) x (.int (f x.nvalue)) := by
  intro c _ _ hnvalue _ hfits
  have hliterals := hfits.literals
  simp only [Formula.constants] at hliterals
  rw [get_bind_apply, hnvalue]
  exact ⟨c.loaded, EmitLoadConstInt_apply (hfits.room_of_literal rfl) (by omega) _⟩

theorem loads_float (negated : Bool) (f : GSFloat → GSFloat) {x : Lexeme} :
    Loads (do
      let c ← get
      EmitLoadConstFloat (f c.lex.fvalue) none
      recordFloat negated (f c.lex.fvalue)) x (.float (f x.fvalue)) := by
  intro c _ _ _ hfvalue hfits
  rw [get_bind_apply, hfvalue, bind_apply, EmitLoadConstFloat_apply (hfits.room_of_literal rfl) _]
  exact ⟨_, rfl⟩

theorem loads_str {x : Lexeme} : Loads (do
    let c ← get
    let target ← PushTarget
    AddInstruction .LOAD target (← GetConstant (.string c.lex.svalue))) x (.str x.svalue) := by
  intro c _ hsvalue _ _ hfits
  have hliterals := hfits.literals
  simp only [Formula.constants] at hliterals
  rw [get_bind_apply, hsvalue]
  exact ⟨c.loaded, emitConstant_apply (hfits.room_of_literal rfl) (by omega) _⟩

theorem loads_bool (b : Bool) {x : Lexeme} :
    Loads (do AddInstruction .LOADBOOL (← PushTarget) b.toInt) x (.bool b) := by
  intro c _ _ _ _ hfits
  exact ⟨c.loaded, emitLoad_apply (hfits.room_of_literal rfl) _ _⟩

theorem loads_null {x : Lexeme} : Loads (do AddInstruction .LOADNULLS (← PushTarget) 1) x .null := by
  intro c _ _ _ _ hfits
  exact ⟨c.loaded, emitLoad_apply (hfits.room_of_literal rfl) _ _⟩

theorem parses_int {x : Lexeme} (hx : x.token = .TK_INTEGER) : Parses .Factor [x] (.int x.nvalue) := by
  apply (loads_int id).parses (by simp [hx])
  intro n call c hc
  unfold factorExpr
  rw [get_bind_apply, hc, hx]
  simp only [bind_assoc, get_bind_apply, id]

theorem parses_float {x : Lexeme} (hx : x.token = .TK_FLOAT) :
    Parses .Factor [x] (.float x.fvalue) := by
  apply (loads_float false id).parses (by simp [hx])
  intro n call c hc
  unfold factorExpr
  rw [get_bind_apply, hc, hx]
  simp only [bind_assoc, get_bind_apply, id]

theorem parses_str {x : Lexeme} (hx : x.token = .TK_STRING_LITERAL) :
    Parses .Factor [x] (.str x.svalue) := by
  apply loads_str.parses (by simp [hx])
  intro n call c hc
  unfold factorExpr
  rw [get_bind_apply, hc, hx]
  simp only [bind_assoc, get_bind_apply]

theorem parses_true {x : Lexeme} (hx : x.token = .TK_TRUE) : Parses .Factor [x] (.bool true) := by
  apply (loads_bool true).parses (by simp [hx])
  intro n call c hc
  unfold factorExpr
  rw [get_bind_apply, hc, hx]
  simp only [bind_assoc]
  rfl

theorem parses_false {x : Lexeme} (hx : x.token = .TK_FALSE) : Parses .Factor [x] (.bool false) := by
  apply (loads_bool false).parses (by simp [hx])
  intro n call c hc
  unfold factorExpr
  rw [get_bind_apply, hc, hx]
  simp only [bind_assoc]
  rfl

theorem parses_null {x : Lexeme} (hx : x.token = .TK_NULL) : Parses .Factor [x] .null := by
  apply loads_null.parses (by simp [hx])
  intro n call c hc
  unfold factorExpr
  rw [get_bind_apply, hc, hx]
  simp only [bind_assoc]

/-- A minus in front of an integer literal is folded into the literal. -/
theorem parses_negInt {x y : Lexeme} (hx : x.token = .chr '-') (hy : y.token = .TK_INTEGER) :
    Parses .Factor [x, y] (.int (-y.nvalue)) := by
  apply (loads_int Neg.neg).parses_folded (by simp [hx])
  intro n call c c₁ hc hlex hc₁
  unfold factorExpr
  rw [get_bind_apply, hc, hx]
  simp only [negation, bind_assoc]
  rw [bind_apply, hlex]
  simp only [get_bind_apply, hc₁, hy]

/-- A minus in front of a float literal turns the sign bit over. -/
theorem parses_negFloat {x y : Lexeme} (hx : x.token = .chr '-') (hy : y.token = .TK_FLOAT) :
    Parses .Factor [x, y] (.float (y.fvalue ^^^ 0x80000000)) := by
  apply (loads_float true (· ^^^ 0x80000000)).parses_folded (by simp [hx])
  intro n call c c₁ hc hlex hc₁
  unfold factorExpr
  rw [get_bind_apply, hc, hx]
  simp only [negation, bind_assoc]
  rw [bind_apply, hlex]
  simp only [get_bind_apply, hc₁, hy]

/-- A complement in front of an integer literal is folded into the literal. -/
theorem parses_bwnotInt {x y : Lexeme} (hx : x.token = .chr '~') (hy : y.token = .TK_INTEGER) :
    Parses .Factor [x, y] (.int (~~~y.nvalue)) := by
  apply (loads_int (~~~·)).parses_folded (by simp [hx])
  intro n call c c₁ hc hlex hc₁
  unfold factorExpr
  rw [get_bind_apply, hc, hx]
  simp only [bind_assoc, get_bind_apply]
  rw [bind_apply, hlex]
  simp only [get_bind_apply, hc₁, hy, if_true]

/-- A name of a local variable emits nothing: its register becomes the target.
-/
theorem identifier_local {x y : Lexeme} {s : List UInt8} {pos : Nat}
    (hreading : Reading rest c [x, y]) (hname : identifierName c = .string s)
    (hy : y.token ≠ .chr '<') (hpos : c.fs.getLocalVariable (.string s) = some pos) :
    ∃ c', Compiled rest y { c.fs with targetstack := pos :: c.fs.targetstack } c c' ∧
      ∀ n, identifier n c = .ok () c' := by
  obtain ⟨c₁, hlex, hcompiled⟩ := Lex_reading hreading
  refine ⟨_, (hcompiled.putFs { c.fs with targetstack := pos :: c.fs.targetstack }).setEs
    { c₁.es with etype := .LOCAL, epos := pos }, fun n => ?_⟩
  have hlocal : c₁.fs.getLocalVariable (identifierName c) = some pos := by
    rw [hcompiled.fs_eq, hname, hpos]
  unfold identifier
  rw [get_bind_apply, bind_apply, hlex]
  dsimp only
  rw [getToken_bind_apply, if_neg (by rwa [hcompiled.reading.token]), getFs_bind_apply, hlocal,
    ← hcompiled.fs_eq]
  rfl

/-- A token is a variable if `factor` reads it as a name. -/
theorem parses_name {x : Lexeme} {s : List UInt8}
    (hfactor : ∀ n call c, c.token = x.token → factor n call c = identifier n c)
    (hname : ∀ c, c.token = x.token → c.lex.svalue = x.svalue → identifierName c = .string s) :
    Parses .Factor [x] (.var s) := by
  intro c y rest hreading hy hfits
  obtain ⟨htoken, hsvalue, -⟩ := id hreading
  obtain ⟨pos, hpos⟩ := hfits.local
  have hless : y.token ≠ .chr '<' := by
    intro h
    rw [h] at hy
    exact absurd hy (by decide)
  have hemit : (Formula.var s).emit c.fs =
      { c.fs with targetstack := pos :: c.fs.targetstack } := by simp [Formula.emit, hpos]
  obtain ⟨c', hcompiled, hrun⟩ := identifier_local hreading (hname c htoken hsvalue) hless hpos
  rw [← hemit] at hcompiled
  refine ⟨c', hcompiled, 1, fun n hn => ?_⟩
  obtain ⟨n, rfl⟩ := Nat.exists_eq_add_of_le' hn
  exact (hfactor n (run n) c htoken).trans (hrun n)

theorem parses_var {x : Lexeme} (hx : x.token = .TK_IDENTIFIER) :
    Parses .Factor [x] (.var x.svalue) := by
  apply parses_name
  · intro n call c hc
    unfold factor
    rw [getToken_bind_apply, hc, hx]
  · intro c hc hsvalue
    unfold identifierName
    rw [hc, hx]
    simp only [hsvalue]

theorem parses_this {x : Lexeme} (hx : x.token = .TK_THIS) :
    Parses .Factor [x] (.var (sc "this")) := by
  apply parses_name
  · intro n call c hc
    unfold factor
    rw [getToken_bind_apply, hc, hx]
  · intro c hc _
    unfold identifierName
    rw [hc, hx]

/-- A unary operator reads its operand's target and emits its opcode. -/
theorem unaryOP_apply {op : Opcode} {fs₀ : FuncState} {t : Nat} (hcall : call .PrefixedExpr c = .ok () c₁)
    (haims : FuncState.Aims fs₀ c₁.fs t) (hsize : fs₀.vlocals.size < 256) :
    unaryOP call op c = .ok () (c₁.putFs (c₁.fs.emitUnary op)) := by
  have hempty : c₁.fs.targetstack.isEmpty = false := by simp [haims.targetstack]
  unfold unaryOP
  rw [bind_apply, hcall]
  dsimp only
  rw [getFs_bind_apply, hempty]
  exact emitUnary_apply haims hsize op

/-- A unary operator that folds no literal compiles its operand first. -/
theorem factor_unary {n : Nat} {op : UnaryOperator} (hc : c.token = op.token)
    (hlex : Lex c = .ok () c₁) (hfolds : op.folds c₁.token = false) :
    factor n call c = (do call (.UnaryOP op.code); setEtype .EXPR) c₁ := by
  cases op with
  | neg =>
      rw [UnaryOperator.token] at hc
      rw [factor_expr (by simp [hc])]
      unfold factorExpr
      rw [bind_assoc, get_bind_apply, hc]
      simp only [negation, bind_assoc]
      rw [bind_apply, hlex]
      dsimp only
      rw [get_bind_apply]
      revert hfolds
      cases c₁.token <;> simp [UnaryOperator.folds, UnaryOperator.code]
  | not =>
      rw [UnaryOperator.token] at hc
      rw [factor_expr (by simp [hc])]
      unfold factorExpr
      rw [bind_assoc, get_bind_apply, hc]
      simp only [bind_assoc]
      rw [bind_apply, hlex]
      rfl
  | bwnot =>
      rw [UnaryOperator.token] at hc
      rw [factor_expr (by simp [hc])]
      unfold factorExpr
      rw [bind_assoc, get_bind_apply, hc]
      simp only [bind_assoc]
      rw [bind_apply, hlex]
      have hint : c₁.token ≠ .TK_INTEGER := fun h => by simp [h, UnaryOperator.folds] at hfolds
      simp only [get_bind_apply, if_neg hint]
      rfl

theorem Parses.unary {op : UnaryOperator} {x y : Lexeme} {ws : List Lexeme} {a : Formula}
    (hx : x.token = op.token) (hfolds : op.folds y.token = false)
    (ha : Parses .PrefixedExpr (y :: ws) a) : Parses .Factor (x :: y :: ws) (.unary op a) := by
  intro c z rest hreading hz hfits
  obtain ⟨t, l, hlex, hnext⟩ := Reading.lex hreading (show y :: ws ++ [z] ≠ [] by simp)
  obtain ⟨c₁, hcompiled, N, hrun⟩ := ha hnext hz hfits.unary
  have haims := Formula.aims_emit hfits.unary.resolves
  have hsize : c.fs.vlocals.size < 256 := by
    have hregisters := hfits.registers
    simp only [Formula.height] at hregisters
    omega
  have hfs₁ : c₁.fs = a.emit c.fs := hcompiled.fs_eq
  rw [← hfs₁] at haims
  have hfs : c₁.fs.emitUnary op.code = (Formula.unary op a).emit c.fs := by
    rw [hfs₁]
    rfl
  have hcompiled₁ := (hcompiled.after (c := c) rfl).putFs ((Formula.unary op a).emit c.fs)
  refine ⟨_, hcompiled₁.asExpr, N + 2, fun n hn => ?_⟩
  obtain ⟨n, rfl⟩ := Nat.exists_eq_add_of_le' (show 2 ≤ n by omega)
  change factor (n + 1) (run (n + 1)) c = _
  rw [factor_unary (hreading.token.trans hx) hlex (by rw [hnext.token]; exact hfolds), bind_apply]
  have hunary : run (n + 1) (.UnaryOP op.code) (placed t l c) = _ :=
    unaryOP_apply (hrun n (by omega)) haims hsize
  rw [hunary, hfs]
  rfl

theorem commaExpr_apply {n : Nat} (hcall : call .Expression c = .ok () c₁)
    (hc : c₁.token ≠ .chr ',') : commaExpr (n + 1) call c = .ok () c₁ := by
  unfold commaExpr
  rw [bind_apply, hcall]
  dsimp only
  rw [whileLoop, bind_apply, getToken_bind_apply]
  simp [hc, pure_apply]

theorem Parses.paren {x z : Lexeme} {ws : List Lexeme} {a : Formula} (hx : x.token = .chr '(')
    (hz : z.token = .chr ')') (ha : Parses .Expression ws a) :
    Parses .Factor (x :: ws ++ [z]) a := by
  intro c y rest hreading hy hfits
  have hreading₀ : Reading rest c (x :: (ws ++ [z] ++ [y])) := by simpa using hreading
  obtain ⟨t, l, hlex, hnext⟩ := hreading₀.lex (by simp)
  rw [reading_append (by simp)] at hnext
  obtain ⟨c₁, hcompiled, N, hrun⟩ := ha hnext (by rw [hz]; decide) hfits
  have hreading₁ : Reading rest c₁ [z, y] := hcompiled.reading
  obtain ⟨c₂, hlex₂, hcompiled₂⟩ := Lex_reading hreading₁
  rw [hcompiled.fs_eq] at hcompiled₂
  refine ⟨_, ((hcompiled₂.after hcompiled.same).after (c := c) rfl).asExpr, N + 3, fun n hn => ?_⟩
  obtain ⟨n, rfl⟩ := Nat.exists_eq_add_of_le' (show 3 ≤ n by omega)
  have hcomma : run (n + 2) .CommaExpr (placed t l c) = .ok () c₁ := by
    apply commaExpr_apply (hrun (n + 1) (by omega))
    rw [hreading₁.token, hz]
    decide
  have hc := hreading.token.trans hx
  change factor (n + 2) (run (n + 2)) c = _
  rw [factor_expr (by simp [hc])]
  unfold factorExpr
  rw [bind_assoc, get_bind_apply, hc]
  simp only [bind_assoc]
  rw [bind_apply, hlex]
  dsimp only
  rw [bind_apply, hcomma]
  have hexpect : Expect (.chr ')') c₁ = .ok (Lexer.value c₁.lex (.chr ')')) c₂ := by
    unfold Expect
    rw [get_bind_apply, if_neg (by simp [hreading₁.token, hz])]
    change (do Lex; pure (Lexer.value c₁.lex (.chr ')'))) c₁ = _
    rw [bind_apply, hlex₂]
    rfl
  dsimp only
  rw [bind_apply, hexpect]
  rfl

/-- A token that is no suffix ends the prefixed expression. -/
theorem suffix_end {n : Nat} (hc : c.token.rank < 12) : suffix n call c = .ok (.inr ()) c := by
  have hend : ∃ body, suffix n call = getToken >>= body ∧
      ∀ t : Token, t.rank < 12 → body t = pure (.inr ()) := by
    refine ⟨_, rfl, fun t ht => ?_⟩
    dsimp only
    split
    case h_7 => rfl
    all_goals exact absurd ht (by decide)
  obtain ⟨body, hbody, hpure⟩ := hend
  rw [hbody, getToken_bind_apply, hpure _ hc]
  rfl

theorem Parses.prefixed {ws : List Lexeme} {a : Formula} (ha : Parses .Factor ws a) :
    Parses .PrefixedExpr ws a := by
  intro c y rest hreading hy hfits
  change y.token.rank < 12 at hy
  obtain ⟨c', hcompiled, N, hrun⟩ := ha hreading hy hfits
  refine ⟨c', hcompiled, N + 2, fun n hn => ?_⟩
  obtain ⟨n, rfl⟩ := Nat.exists_eq_add_of_le' (show 2 ≤ n by omega)
  change prefixedExpr (n + 1) (run (n + 1)) c = _
  unfold prefixedExpr
  rw [bind_apply, hrun (n + 1) (by omega)]
  dsimp only
  rw [loop, bind_apply, suffix_end (by rwa [hcompiled.reading.token])]
  rfl

/-! ### Jumps -/

theorem whileLoop_next {n : Nat} {t : Token} {m : CompilerM Unit} (hc : c.token = t)
    (hm : m c = .ok () c₁) : whileLoop (n + 1) (return (← getToken) = t) m c =
      whileLoop n (return (← getToken) = t) m c₁ := by
  rw [whileLoop, bind_apply, getToken_bind_apply]
  simp only [hc, decide_true, pure_apply, if_true]
  rw [bind_apply, hm]

theorem SetInstructionParam_room {pos : Int} {arg : Nat} {val : Int}
    (h : 0 ≤ pos ∧ pos < c.fs.instructions.size) :
    SetInstructionParam pos arg val c =
      .ok () (c.putFs (c.fs.setInstructionParam pos.toNat arg val)) := by
  unfold SetInstructionParam
  rw [getFs_bind_apply, if_pos h]
  rfl

/-- The position of an instruction that has just been emitted. -/
theorem FuncState.getCurrentPos_range {fs fs' : FuncState} {i : Instruction}
    (h : (fs.addInstruction i).instructions.size ≤ fs'.instructions.size) :
    0 ≤ (fs.addInstruction i).getCurrentPos ∧
      (fs.addInstruction i).getCurrentPos < fs'.instructions.size := by
  have hpos : 0 < (fs.addInstruction i).instructions.size := by
    unfold FuncState.addInstruction
    cases hback : fs.instructions.back? with
    | none => simp
    | some pi =>
        dsimp only
        split
        · simp only [Array.size_append]
          rcases fs.peephole_keeps pi i with hkeeps | hkeeps
          · obtain ⟨j, hj⟩ := Option.isSome_iff_exists.mp hkeeps
            have hone : (fs.peephole pi i).prev.toArray.size = 1 := by
              rw [hj]
              rfl
            omega
          · obtain ⟨j, hj⟩ := Option.isSome_iff_exists.mp hkeeps
            have hone : (fs.peephole pi i).next.toArray.size = 1 := by
              rw [hj]
              rfl
            omega
        · simp
  unfold FuncState.getCurrentPos
  omega

section

variable {fs₀ gs : FuncState} {t t₂ : Nat}

/-- A short circuit emits the test, moves both operands into one target and
aims the jump behind them. -/
theorem shortCircuit_apply {op : Opcode} {second : FuncState → FuncState}
    (haims : FuncState.Aims fs₀ c.fs t) (hsize : fs₀.vlocals.size < 256)
    (hgs : (c.fs.jumpOver op).moveTo (c.fs.jumpOver op).target c.fs.target = gs)
    (hcall : (do Lex; withFreshEs (call f)) (c.putFs gs) = .ok () c₁) (hfs : c₁.fs = second gs)
    (haims₂ : FuncState.Aims gs c₁.fs t₂)
    (hgrows : gs.instructions.size ≤ c₁.fs.instructions.size) :
    shortCircuit call op f c =
      .ok () (c₁.putFs (c.fs.emitShortCircuit op second)).asExpr := by
  have hdrop : c.fs.dropTarget.vlocals = fs₀.vlocals := by simp [haims.dropTarget]
  have htarget : (c.fs.jumpOver op).target = fs₀.vlocals.size := (haims.jumpOver op).target
  have hjump : PushTarget (c.putFs c.fs.dropTarget) =
      .ok fs₀.vlocals.size (c.putFs c.fs.dropTarget.pushTarget) := by
    have hpush := PushTarget_room (c := c.putFs c.fs.dropTarget) (by simpa [hdrop] using hsize)
    simpa [hdrop] using hpush
  have hover : c.fs.dropTarget.pushTarget.addInstruction (.make op fs₀.vlocals.size 0 t 0) =
      c.fs.jumpOver op := by simp [FuncState.jumpOver, hdrop, haims.target]
  rw [htarget, haims.target] at hgs
  have hsnooze : FuncState.Aims gs c₁.fs.snoozeOpt _ := haims₂.congr rfl rfl rfl rfl
  have hpop := popInto_apply (c := c₁.putFs c₁.fs.snoozeOpt) hsnooze fs₀.vlocals.size
  have hrange : 0 ≤ (c.fs.jumpOver op).getCurrentPos ∧ (c.fs.jumpOver op).getCurrentPos <
      (c₁.fs.snoozeOpt.popInto fs₀.vlocals.size).snoozeOpt.instructions.size := by
    apply FuncState.getCurrentPos_range
    have hmove := (FuncState.grows_moveTo (c.fs.jumpOver op) fs₀.vlocals.size t).instructions
    have hpop := (FuncState.grows_popInto c₁.fs.snoozeOpt fs₀.vlocals.size).instructions
    rw [hgs] at hmove
    exact (hmove.trans hgrows).trans hpop
  unfold shortCircuit
  rw [bind_apply, PopTarget_aims haims]
  dsimp only
  rw [bind_apply, hjump]
  dsimp only
  rw [bind_apply, AddInstruction_apply]
  simp only [putFs_fs, putFs_putFs]
  rw [hover]
  change (do
    moveTo fs₀.vlocals.size t
    Lex
    withFreshEs (call f)
    SnoozeOpt
    let second_exp ← PopTarget
    moveTo fs₀.vlocals.size second_exp
    SnoozeOpt
    SetInstructionParam (c.fs.jumpOver op).getCurrentPos 1
      ((← GetCurrentPos) - (c.fs.jumpOver op).getCurrentPos)
    setEtype .EXPR) (c.putFs (c.fs.jumpOver op)) = _
  rw [bind_apply, moveTo_apply]
  simp only [putFs_fs, putFs_putFs, hgs]
  rw [← bind_assoc, bind_apply, hcall]
  dsimp only
  rw [bind_apply]
  change (do
    let second_exp ← PopTarget
    moveTo fs₀.vlocals.size second_exp
    SnoozeOpt
    SetInstructionParam (c.fs.jumpOver op).getCurrentPos 1
      ((← GetCurrentPos) - (c.fs.jumpOver op).getCurrentPos)
    setEtype .EXPR) (c₁.putFs c₁.fs.snoozeOpt) = _
  rw [← bind_assoc, bind_apply, hpop]
  simp only [putFs_fs, putFs_putFs]
  change (do
    SetInstructionParam (c.fs.jumpOver op).getCurrentPos 1
      ((c₁.fs.snoozeOpt.popInto fs₀.vlocals.size).getCurrentPos -
        (c.fs.jumpOver op).getCurrentPos)
    setEtype .EXPR) (c₁.putFs (c₁.fs.snoozeOpt.popInto fs₀.vlocals.size).snoozeOpt) = _
  rw [bind_apply, SetInstructionParam_room hrange, hfs]
  simp only [FuncState.emitShortCircuit, htarget, haims.target, hgs]
  rfl

end

theorem whileLoop_end {n : Nat} {t : Token} {m : CompilerM Unit} (hc : c.token ≠ t) :
    whileLoop (n + 1) (return (← getToken) = t) m c = .ok () c := by
  rw [whileLoop, bind_apply, getToken_bind_apply]
  simp [hc, pure_apply]

theorem Parses.logicalAnd {ws : List Lexeme} {a : Formula} (ha : Parses .BitwiseOrExp ws a) :
    Parses .LogicalAndExp ws a := by
  intro c y rest hreading hy hfits
  have hy₄ : y.token.rank < Proc.BitwiseOrExp.rank := hy.trans (by decide)
  obtain ⟨c', hcompiled, N, hrun⟩ := ha hreading hy₄ hfits
  refine ⟨c', hcompiled, N + 2, fun n hn => ?_⟩
  obtain ⟨n, rfl⟩ := Nat.exists_eq_add_of_le' (show 2 ≤ n by omega)
  change logicalAndExp (n + 1) (run (n + 1)) c = _
  unfold logicalAndExp
  rw [bind_apply, hrun (n + 1) (by omega)]
  dsimp only
  rw [whileLoop_end]
  rw [hcompiled.reading.token]
  intro htoken
  rw [htoken] at hy
  exact absurd hy (by decide)

theorem Parses.logicalOr {ws : List Lexeme} {a : Formula} (ha : Parses .LogicalAndExp ws a) :
    Parses .LogicalOrExp ws a := by
  intro c y rest hreading hy hfits
  have hy₃ : y.token.rank < Proc.LogicalAndExp.rank := hy.trans (by decide)
  obtain ⟨c', hcompiled, N, hrun⟩ := ha hreading hy₃ hfits
  refine ⟨c', hcompiled, N + 1, fun n hn => ?_⟩
  obtain ⟨n, rfl⟩ := Nat.exists_eq_add_of_le' (show 1 ≤ n by omega)
  change logicalOrExp (run n) c = _
  unfold logicalOrExp
  rw [bind_apply, hrun n (by omega)]
  dsimp only
  rw [getToken_bind_apply, if_neg]
  · rfl
  · rw [hcompiled.reading.token]
    intro htoken
    rw [htoken] at hy
    exact absurd hy (by decide)

theorem Reading.tail {x y : Lexeme} {ws ws' : List Lexeme} (h : Reading rest c (ws ++ x :: ws' ++ [y])) :
    Reading ((ws' ++ [y]).map .ok ++ rest) c (ws ++ [x]) := by
  rw [← reading_append (by simp)]
  simpa using h

theorem Compiled.next {x y : Lexeme} {ws : List Lexeme}
    (h : Compiled ((ws ++ [y]).map .ok ++ rest) x fs c c₁) : Reading rest c₁ (x :: (ws ++ [y])) := by
  have hx := h.reading
  rw [← reading_append (by simp)] at hx
  simpa using hx

/-- The second operand of `and` and `or`, with the jump over it. -/
theorem Parses.shortCircuit (op : Opcode) {x y : Lexeme} {ws : List Lexeme} {a b : Formula}
    {fs : FuncState} (hb : Parses f ws b)
    (hcompiled : Compiled ((ws ++ [y]).map .ok ++ rest) x (a.emit fs) c c₁)
    (hy : y.token.rank < f.rank) (ha : a.Resolves fs) (hresolves : b.Resolves fs)
    (hregisters : fs.vlocals.size + (1 + b.height) ≤ 256)
    (hliterals : fs.literals.size + (a.constants + b.constants) ≤ MAX_LITERALS) :
    ∃ c', Compiled rest y ((a.emit fs).emitShortCircuit op b.emit) c c' ∧
      ∃ N, ∀ n, N ≤ n → Compiler.shortCircuit (run n) op f c₁ = .ok () c' := by
  have hfits := Formula.Fits.second op ha hresolves hregisters hliterals
  have haims := Formula.aims_emit ha
  rw [← hcompiled.fs_eq] at hfits haims ⊢
  obtain ⟨c₂, hcompiled₂, N, hrun⟩ := hb.operand
    (c := c₁.putFs ((c₁.fs.jumpOver op).moveTo (c₁.fs.jumpOver op).target c₁.fs.target))
    (hcompiled.next.congr rfl rfl) hy hfits
  have haims₂ := Formula.aims_emit hfits.resolves
  have hgrows := (b.grows_emit ((c₁.fs.jumpOver op).moveTo (c₁.fs.jumpOver op).target
    c₁.fs.target)).instructions
  have hfs₂ := hcompiled₂.fs_eq
  simp only [putFs_fs] at hfs₂
  rw [← hfs₂] at haims₂ hgrows
  have hcompiled' := (hcompiled₂.after (c := c₁) rfl).after hcompiled.same
  refine ⟨_, (hcompiled'.putFs _).asExpr, N, fun n hn => ?_⟩
  exact shortCircuit_apply haims (by omega) rfl (hrun n hn) hfs₂ haims₂ hgrows

theorem Parses.and {x : Lexeme} {ws ws' : List Lexeme} {a b : Formula}
    (ha : Parses .BitwiseOrExp ws a) (hx : x.token = .TK_AND) (hb : Parses .LogicalAndExp ws' b) :
    Parses .LogicalAndExp (ws ++ x :: ws') (.and a b) := by
  intro c y rest hreading hy hfits
  obtain ⟨hfitsa, hresolves, hregisters, hliterals⟩ := hfits.and
  have hxrank : x.token.rank < Proc.BitwiseOrExp.rank := by
    rw [hx]
    decide
  obtain ⟨c₁, hcompiled₁, N₁, hrun₁⟩ := ha hreading.tail hxrank hfitsa
  obtain ⟨c₂, hcompiled₂, N₂, hrun₂⟩ := hb.shortCircuit .AND hcompiled₁ hy
    hfitsa.resolves hresolves hregisters hliterals
  refine ⟨c₂, hcompiled₂, max N₁ N₂ + 3, fun n hn => ?_⟩
  obtain ⟨n, rfl⟩ := Nat.exists_eq_add_of_le' (show 3 ≤ n by omega)
  change logicalAndExp (n + 2) (run (n + 2)) c = _
  unfold logicalAndExp
  rw [bind_apply, hrun₁ (n + 2) (by omega)]
  dsimp only
  rw [whileLoop_next (hcompiled₁.next.token.trans hx) (hrun₂ (n + 2) (by omega)), whileLoop_end]
  rw [hcompiled₂.reading.token]
  intro htoken
  rw [htoken] at hy
  exact absurd hy (by decide)

theorem Parses.or {x : Lexeme} {ws ws' : List Lexeme} {a b : Formula}
    (ha : Parses .LogicalAndExp ws a) (hx : x.token = .TK_OR) (hb : Parses .LogicalOrExp ws' b) :
    Parses .LogicalOrExp (ws ++ x :: ws') (.or a b) := by
  intro c y rest hreading hy hfits
  obtain ⟨hfitsa, hresolves, hregisters, hliterals⟩ := hfits.or
  have hxrank : x.token.rank < Proc.LogicalAndExp.rank := by
    rw [hx]
    decide
  obtain ⟨c₁, hcompiled₁, N₁, hrun₁⟩ := ha hreading.tail hxrank hfitsa
  obtain ⟨c₂, hcompiled₂, N₂, hrun₂⟩ := hb.shortCircuit .OR hcompiled₁ hy
    hfitsa.resolves hresolves hregisters hliterals
  refine ⟨c₂, hcompiled₂, max N₁ N₂ + 1, fun n hn => ?_⟩
  obtain ⟨n, rfl⟩ := Nat.exists_eq_add_of_le' (show 1 ≤ n by omega)
  change logicalOrExp (run n) c = _
  unfold logicalOrExp
  rw [bind_apply, hrun₁ n (by omega)]
  dsimp only
  rw [getToken_bind_apply, if_pos (hcompiled₁.next.token.trans hx), hrun₂ n (by omega)]

/-! ### Conditionals -/

/-- The second expression of a conditional, behind the colon. -/
def secondBranch (call : Proc → CompilerM Unit) (trg : Nat) (jzpos endfirstexp : Int) :
    CompilerM Unit := do
  let jmppos ← GetCurrentPos
  call .Expression
  let second_exp ← PopTarget
  moveTo trg second_exp
  SetInstructionParam jmppos 1 ((← GetCurrentPos) - jmppos)
  SetInstructionParam jzpos 1 (endfirstexp - jzpos + 1)
  SnoozeOpt

/-- The second branch of a conditional is moved into the first one's target,
and both jumps are aimed. -/
theorem secondBranch_apply {trg : Nat} {jzpos endfirstexp : Int} {t : Nat}
    (hcall : call .Expression c = .ok () c₁) (haims : FuncState.Aims c.fs c₁.fs t)
    (hjmp : 0 ≤ c.fs.getCurrentPos) (hjz : 0 ≤ jzpos ∧ jzpos ≤ c.fs.getCurrentPos)
    (hgrows : c.fs.instructions.size ≤ c₁.fs.instructions.size) :
    secondBranch call trg jzpos endfirstexp c =
      .ok () (c₁.putFs ((((c₁.fs.popInto trg).jumpHere c.fs.getCurrentPos).setInstructionParam
        jzpos.toNat 1 (endfirstexp - jzpos + 1)).snoozeOpt)) := by
  have hpop := popInto_apply haims trg
  have hsize := hgrows.trans (FuncState.grows_popInto c₁.fs trg).instructions
  have hlast : c.fs.getCurrentPos < c.fs.instructions.size := by
    unfold FuncState.getCurrentPos
    omega
  have hsame := (FuncState.grows_jumpHere (c₁.fs.popInto trg) c.fs.getCurrentPos).instructions
  unfold secondBranch
  change (do
    call .Expression
    let second_exp ← PopTarget
    moveTo trg second_exp
    SetInstructionParam c.fs.getCurrentPos 1 ((← GetCurrentPos) - c.fs.getCurrentPos)
    SetInstructionParam jzpos 1 (endfirstexp - jzpos + 1)
    SnoozeOpt) c = _
  rw [bind_apply, hcall]
  dsimp only
  rw [← bind_assoc, bind_apply, hpop]
  change (do
    SetInstructionParam c.fs.getCurrentPos 1
      ((c₁.fs.popInto trg).getCurrentPos - c.fs.getCurrentPos)
    SetInstructionParam jzpos 1 (endfirstexp - jzpos + 1)
    SnoozeOpt) (c₁.putFs (c₁.fs.popInto trg)) = _
  rw [bind_apply, SetInstructionParam_room ⟨hjmp, by simp only [putFs_fs]; omega⟩]
  simp only [putFs_fs, putFs_putFs]
  change (do
    SetInstructionParam jzpos 1 (endfirstexp - jzpos + 1)
    SnoozeOpt) (c₁.putFs ((c₁.fs.popInto trg).jumpHere c.fs.getCurrentPos)) = _
  rw [bind_apply, SetInstructionParam_room ⟨hjz.1, by simp only [putFs_fs]; omega⟩]
  rfl

/-- The first expression of a conditional, and the jump behind it. -/
theorem conditional_apply {fs₀ : FuncState} {t t₂ : Nat} {c₂ c₃ : Compiler}
    {first : FuncState → FuncState} (haims : FuncState.Aims fs₀ c.fs t)
    (hsize : fs₀.vlocals.size < 256) (hlex : Lex c = .ok () c₁) (hfs₁ : c₁.fs = c.fs)
    (hfirst : call .Expression (c₁.putFs c.fs.testTarget.pushTarget) = .ok () c₂)
    (hfs₂ : c₂.fs = first c.fs.testTarget.pushTarget)
    (haims₂ : FuncState.Aims c.fs.testTarget.pushTarget c₂.fs t₂) (hcolon : c₂.token = .chr ':')
    (hlex₂ : Lex (c₂.putFs (c.fs.testTarget.emitFirst first)) = .ok () c₃) :
    ∃ endfirstexp, endfirstexp + 1 = (c.fs.testTarget.emitFirst first).getCurrentPos ∧
      conditional call c =
        secondBranch call c.fs.testTarget.vlocals.size c.fs.testTarget.getCurrentPos endfirstexp c₃ := by
  have htest := haims.testTarget.1
  have hjz : c₁.fs.dropTarget.addInstruction (.make .JZ t 0 0 0) = c.fs.testTarget := by
    rw [hfs₁, FuncState.testTarget, haims.target]
  have hpush : PushTarget (c₁.putFs c.fs.testTarget) =
      .ok c.fs.testTarget.vlocals.size (c₁.putFs c.fs.testTarget.pushTarget) :=
    PushTarget_room (c := c₁.putFs c.fs.testTarget) (by simpa [htest] using hsize)
  have hpop := popInto_apply haims₂ c.fs.testTarget.vlocals.size
  have hjmp : (c₂.fs.popInto c.fs.testTarget.vlocals.size).addInstruction (.make .JMP 0 0 0 0) =
      c.fs.testTarget.emitFirst first := by rw [FuncState.emitFirst, hfs₂]
  have hexpect : Expect (.chr ':') (c₂.putFs (c.fs.testTarget.emitFirst first)) =
      .ok (Lexer.value c₂.lex (.chr ':')) c₃ := by
    unfold Expect
    rw [get_bind_apply, if_neg (by simp [putFs, hcolon])]
    change (do Lex; pure (Lexer.value c₂.lex (.chr ':'))) _ = _
    rw [bind_apply, hlex₂]
    rfl
  refine ⟨(c₂.fs.popInto c.fs.testTarget.vlocals.size).getCurrentPos, ?_, ?_⟩
  · rw [← hjmp, FuncState.getCurrentPos_plain _ (by rfl)]
  rw [← hfs₁] at haims
  unfold conditional
  rw [bind_apply, hlex]
  dsimp only
  rw [bind_apply, PopTarget_aims haims]
  dsimp only
  rw [bind_apply, AddInstruction_apply]
  simp only [putFs_fs, putFs_putFs]
  rw [hjz]
  change (do
    let trg ← PushTarget
    call .Expression
    let first_exp ← PopTarget
    moveTo trg first_exp
    let endfirstexp ← GetCurrentPos
    AddInstruction .JMP 0 0
    let _ ← Expect (.chr ':')
    secondBranch call trg c.fs.testTarget.getCurrentPos endfirstexp)
      (c₁.putFs c.fs.testTarget) = _
  rw [bind_apply, hpush]
  dsimp only
  rw [bind_apply, hfirst]
  dsimp only
  rw [← bind_assoc, bind_apply, hpop]
  change (do
    AddInstruction .JMP 0 0
    let _ ← Expect (.chr ':')
    secondBranch call c.fs.testTarget.vlocals.size c.fs.testTarget.getCurrentPos
      (c₂.fs.popInto c.fs.testTarget.vlocals.size).getCurrentPos)
      (c₂.putFs (c₂.fs.popInto c.fs.testTarget.vlocals.size)) = _
  rw [bind_apply, AddInstruction_apply]
  simp only [putFs_fs, putFs_putFs]
  rw [hjmp, bind_apply, hexpect]

/-- Without an operator of its own behind it, an expression is its
or-expression. -/
theorem expression_end
    (hcall : call .LogicalOrExp { c with es := {} } = .ok () c₁) (hc : c₁.token.rank < 1) :
    expression call c = .ok () { c₁ with es := c.es } := by
  have hend : ∃ body, expression call = withFreshEs (call .LogicalOrExp >>= fun _ =>
      getToken >>= body) ∧ ∀ t : Token, t.rank < 1 → body t = pure () := by
    refine ⟨_, rfl, fun t ht => ?_⟩
    split
    case h_9 => rfl
    all_goals exact absurd ht (by decide)
  obtain ⟨body, hbody, hpure⟩ := hend
  rw [hbody]
  apply withFreshEs_ok
  rw [bind_apply, hcall]
  dsimp only
  rw [getToken_bind_apply, hpure _ hc]
  rfl

/-- At `?` an expression compiles the test, the jump over the first branch and
both branches. -/
theorem expression_conditional {c₂ : Compiler}
    (hcall : call .LogicalOrExp { c with es := {} } = .ok () c₁) (hc : c₁.token = .chr '?')
    (hconditional : conditional call c₁ = .ok () c₂) :
    expression call c = .ok () { c₂ with es := c.es } := by
  unfold expression
  apply withFreshEs_ok
  rw [bind_apply, hcall]
  dsimp only
  rw [getToken_bind_apply, hc]
  exact hconditional

/-- An or-expression is an expression where no `?` follows. -/
theorem Parses.expression {ws : List Lexeme} {a : Formula} (ha : Parses .LogicalOrExp ws a) :
    Parses .Expression ws a := by
  intro c y rest hreading hy hfits
  have hy₂ : y.token.rank < Proc.LogicalOrExp.rank := hy.trans (by decide)
  obtain ⟨c', hcompiled, N, hrun⟩ := ha (c := { c with es := {} }) (hreading.congr rfl rfl) hy₂ hfits
  refine ⟨_, (hcompiled.setEs c.es).after (c := c) rfl, N + 1, fun n hn => ?_⟩
  obtain ⟨n, rfl⟩ := Nat.exists_eq_add_of_le' (show 1 ≤ n by omega)
  exact expression_end (hrun n (by omega)) (by rwa [hcompiled.reading.token])

/-- A conditional parses if its test and both its branches do. -/
theorem Parses.cond {x z : Lexeme} {ws ws' ws'' : List Lexeme} {t a b : Formula}
    (ht : Parses .LogicalOrExp ws t) (hx : x.token = .chr '?') (ha : Parses .Expression ws' a)
    (hz : z.token = .chr ':') (hb : Parses .Expression ws'' b) :
    Parses .Expression (ws ++ x :: (ws' ++ z :: ws'')) (.cond t a b) := by
  intro c y rest hreading hy hfits
  obtain ⟨hfitst, hfitsa, hfitsb⟩ := hfits.cond
  have hreading₀ : Reading rest { c with es := {} } (ws ++ x :: (ws' ++ z :: ws'') ++ [y]) :=
    hreading.congr rfl rfl
  obtain ⟨c₁, hcompiled₁, N₁, hrun₁⟩ := ht hreading₀.tail (by rw [hx]; decide) hfitst
  have hnext₁ := hcompiled₁.next
  obtain ⟨t₁, l₁, hlex₁, hreading₁⟩ := hnext₁.lex (by simp)
  have hfs₁ : c₁.fs = t.emit c.fs := hcompiled₁.fs_eq
  rw [← hfs₁] at hfitsa hfitsb
  obtain ⟨c₂, hcompiled₂, N₂, hrun₂⟩ := ha
    (c := (placed t₁ l₁ c₁).putFs c₁.fs.testTarget.pushTarget)
    (hreading₁.congr rfl rfl).tail (by rw [hz]; decide) hfitsa
  have hfs₂ : c₂.fs = a.emit c₁.fs.testTarget.pushTarget := hcompiled₂.fs_eq
  have hnext₂ : Reading rest (c₂.putFs (c₁.fs.testTarget.emitFirst a.emit))
      (z :: (ws'' ++ [y])) := hcompiled₂.next.congr rfl rfl
  obtain ⟨t₃, l₃, hlex₃, hreading₃⟩ := hnext₂.lex (by simp)
  obtain ⟨c₄, hcompiled₄, N₄, hrun₄⟩ := hb
    (c := placed t₃ l₃ (c₂.putFs (c₁.fs.testTarget.emitFirst a.emit))) hreading₃ hy hfitsb
  have hfs₄ : c₄.fs = b.emit (c₁.fs.testTarget.emitFirst a.emit) := hcompiled₄.fs_eq
  have haims := Formula.aims_emit hfitst.resolves
  have haims₂ := Formula.aims_emit hfitsa.resolves
  have haims₄ := Formula.aims_emit hfitsb.resolves
  have hgrows₂ := (a.grows_emit c₁.fs.testTarget.pushTarget).instructions
  have hgrows₄ := (b.grows_emit (c₁.fs.testTarget.emitFirst a.emit)).instructions
  rw [← hfs₂] at haims₂ hgrows₂
  rw [← hfs₄] at haims₄ hgrows₄
  rw [← hfs₁] at haims
  have hsize : c.fs.vlocals.size < 256 := by
    have hregisters := hfits.registers
    simp only [Formula.height] at hregisters
    omega
  have hconditional (n : Nat) (hn : max N₂ N₄ ≤ n) : conditional (run n) c₁ =
      .ok () (c₄.putFs (c₁.fs.emitCond a.emit b.emit)) := by
    obtain ⟨endfirstexp, hend, hfirst⟩ := conditional_apply haims hsize hlex₁ rfl
      (hrun₂ n (by omega)) hfs₂ haims₂ (hcompiled₂.reading.token.trans hz) hlex₃
    have hone := (FuncState.grows_emitFirst c₁.fs.testTarget a.grows_emit).instructions
    obtain ⟨hjz, hjz'⟩ : 0 ≤ c₁.fs.testTarget.getCurrentPos ∧ c₁.fs.testTarget.getCurrentPos <
        (c₁.fs.testTarget.emitFirst a.emit).instructions.size :=
      @FuncState.getCurrentPos_range c₁.fs.dropTarget _ _ hone
    have hjump : endfirstexp - c₁.fs.testTarget.getCurrentPos + 1 =
        (c₁.fs.testTarget.emitFirst a.emit).getCurrentPos - c₁.fs.testTarget.getCurrentPos := by
      omega
    have hjzpos : c₁.fs.testTarget.getCurrentPos ≤
        (c₁.fs.testTarget.emitFirst a.emit).getCurrentPos := by
      unfold FuncState.getCurrentPos at hjz' ⊢
      omega
    rw [hfirst, secondBranch_apply (hrun₄ n (by omega)) haims₄ (hjz.trans hjzpos) ⟨hjz, hjzpos⟩
      hgrows₄, hfs₄, hjump]
    rfl
  have hcompiled : Compiled rest y (c₁.fs.emitCond a.emit b.emit) c
      (c₄.putFs (c₁.fs.emitCond a.emit b.emit)) :=
    (((hcompiled₄.after (c := c₂) rfl).after hcompiled₂.same).after (c := c₁) rfl).after
      (hcompiled₁.same) |>.after (c := c) rfl |>.putFs _
  rw [hfs₁] at hcompiled
  refine ⟨_, hcompiled.setEs c.es, max N₁ (max N₂ N₄) + 1, fun n hn => ?_⟩
  obtain ⟨n, rfl⟩ := Nat.exists_eq_add_of_le' (show 1 ≤ n by omega)
  have hexpression := expression_conditional (hrun₁ n (by omega)) (hnext₁.token.trans hx)
    (hconditional n (by omega))
  rw [hfs₁] at hexpression
  exact hexpression

/-! ### All formulas -/

/-- What the grammar derives the compiler parses, and a level's operands are
its rounds. -/
theorem Parses.of_derives {p : Proc} {ws : List Lexeme} {e : Formula} (h : Derives p ws e) :
    Parses p ws e ∧ ∀ f ops, p.level = some (f, ops) → InRounds f ops ws e := by
  have hnone {q : Proc} {P : Prop} {f : Proc} {ops} (hq : q.level = none)
      (h : q.level = some (f, ops)) : P := by simp [hq] at h
  induction h with
  | int hx => exact ⟨parses_int hx, fun _ _ => hnone rfl⟩
  | float hx => exact ⟨parses_float hx, fun _ _ => hnone rfl⟩
  | str hx => exact ⟨parses_str hx, fun _ _ => hnone rfl⟩
  | true hx => exact ⟨parses_true hx, fun _ _ => hnone rfl⟩
  | false hx => exact ⟨parses_false hx, fun _ _ => hnone rfl⟩
  | null hx => exact ⟨parses_null hx, fun _ _ => hnone rfl⟩
  | var hx => exact ⟨parses_var hx, fun _ _ => hnone rfl⟩
  | this hx => exact ⟨parses_this hx, fun _ _ => hnone rfl⟩
  | negInt hx hy => exact ⟨parses_negInt hx hy, fun _ _ => hnone rfl⟩
  | negFloat hx hy => exact ⟨parses_negFloat hx hy, fun _ _ => hnone rfl⟩
  | bwnotInt hx hy => exact ⟨parses_bwnotInt hx hy, fun _ _ => hnone rfl⟩
  | unary op hx hfolds _ ih => exact ⟨ih.1.unary hx hfolds, fun _ _ => hnone rfl⟩
  | paren hx hz _ ih => exact ⟨ih.1.paren hx hz, fun _ _ => hnone rfl⟩
  | prefixed _ ih => exact ⟨ih.1.prefixed, fun _ _ => hnone rfl⟩
  | operand hp _ ih =>
      exact ⟨ih.1.inRounds.parses hp, fun f ops h => by cases hp.symm.trans h; exact ih.1.inRounds⟩
  | binary op hp _ hx hless _ iha ihb =>
      have hrounds := InRounds.binary hp (iha.2 _ _ hp) hx hless ihb.1
      exact ⟨hrounds.parses hp, fun f ops h => by cases hp.symm.trans h; exact hrounds⟩
  | logicalAnd _ ih => exact ⟨ih.1.logicalAnd, fun _ _ => hnone rfl⟩
  | and _ hx _ iha ihb => exact ⟨iha.1.and hx ihb.1, fun _ _ => hnone rfl⟩
  | logicalOr _ ih => exact ⟨ih.1.logicalOr, fun _ _ => hnone rfl⟩
  | or _ hx _ iha ihb => exact ⟨iha.1.or hx ihb.1, fun _ _ => hnone rfl⟩
  | expression _ ih => exact ⟨ih.1.expression, fun _ _ => hnone rfl⟩
  | cond _ hx _ hz _ ihc iha ihb => exact ⟨ihc.1.cond hx iha.1 hz ihb.1, fun _ _ => hnone rfl⟩

/-- The compiler accepts the tokens of a formula and emits its code. -/
theorem run_formula {ws : List Lexeme} {e : Formula} (h : Derives .Expression ws e) {y : Lexeme}
    (hreading : Reading rest c (ws ++ [y])) (hy : y.token.rank = 0) (hfits : e.Fits c.fs) :
    ∃ c', Compiled rest y (e.emit c.fs) c c' ∧
      ∃ N, ∀ n, N ≤ n → run n .Expression c = .ok () c' :=
  (Parses.of_derives h).1 hreading (by rw [hy]; decide) hfits

/-- The compiler at the formula `greater`, in a function of `x` and `y`. -/
def inGreater : Compiler where
  token := .TK_IDENTIFIER
  fs := ((FuncState.init true .null .null).addParameter (.string (sc "x"))).addParameter
    (.string (sc "y"))
  sourcename := .null
  lex := { input := (greaterTokens.tail ++ [lexemeOf .eob]).map .ok, svalue := sc "x" }
  lineinfo := false

theorem run_formula_greater :
    ∃ c', Compiled [] (lexemeOf .eob) (greater.emit inGreater.fs) inGreater c' ∧
      ∃ N, ∀ n, N ≤ n → run n .Expression inGreater = .ok () c' :=
  run_formula derives_greater ⟨rfl, rfl, rfl, rfl, rfl⟩ rfl
    ⟨by unfold Formula.Resolves; decide, by decide, by decide⟩

end Compiler

end GameScript
