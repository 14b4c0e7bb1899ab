import GameScript.Compiler.FormulaRuns

/-!
The types of formulas. Where the operands of an operator have types that it takes whatever their
values are, its result has a type too; integer division, the remainder of integers and shifts ask
for more than the types of their operands and have none. The type of a formula is found from the
types of its variables, and a formula with a type is computed without an error: what it is
compiled to returns a value of that type.
-/

namespace GameScript

open Calc

/-! ### Types of values -/

def ObjectType.isNumeric (t : ObjectType) : Bool := t = .integer || t = .float

/-- `ObjCmp` compares values of these types without a metamethod. -/
def ObjectType.comparable (t u : ObjectType) : Bool :=
  t = .null || u = .null || t.isNumeric && u.isNumeric ||
    t = u && t ≠ .table && t ≠ .userdata && t ≠ .instance

theorem ObjectType.comparable_cases {t u : ObjectType} (h : t.comparable u = true) :
    t = .null ∨ u = .null ∨ (t.isNumeric = true ∧ u.isNumeric = true) ∨ t = u := by
  simp only [comparable, Bool.or_eq_true, Bool.and_eq_true, decide_eq_true_eq] at h
  tauto

theorem Object.isNumeric_eq (o : Object) : o.isNumeric = o.type.isNumeric := by
  cases o <;> rfl

theorem Object.eq_null_of_type {o : Object} (h : o.type = .null) : o = .null := by
  cases o with
  | null => rfl
  | _ => cases h

/-- `r` is a value of the type `t`. -/
def Calc.Result.HasType (r : Result Object) (t : ObjectType) : Prop :=
  ∃ v, r = .value v ∧ v.type = t

theorem hasType_value {v : Object} {t : ObjectType} : (Result.value v).HasType t ↔ v.type = t := by
  constructor
  · rintro ⟨w, hw, rfl⟩
    cases hw
    rfl
  · exact fun h => ⟨v, rfl, h⟩

theorem Calc.Result.HasType.bind {r : Result Object} {t u : ObjectType} {f : Object → Result Object}
    (h : r.HasType t) (hf : ∀ v, v.type = t → (f v).HasType u) : (r.bind f).HasType u := by
  obtain ⟨v, rfl, hv⟩ := h
  exact hf v hv

/-! ### Types of operators -/

def Operator.typeOf : Operator → ObjectType → ObjectType → Option ObjectType
  | .arith op, t, u =>
    if t = .integer ∧ u = .integer then
      if op = .div ∨ op = .mod then none else some .integer
    else if t.isNumeric && u.isNumeric then some .float
    else none
  | .bits op, t, u =>
    if t = .integer ∧ u = .integer ∧ (op = .BW_AND ∨ op = .BW_OR ∨ op = .BW_XOR) then some .integer
    else none
  | .eq, _, _ | .ne, _, _ => some .bool
  | .cmp op, t, u =>
    if t.comparable u then some (if op = .CMP_3W then .integer else .bool) else none

def UnaryOperator.typeOf : UnaryOperator → ObjectType → Option ObjectType
  | .neg, t => if t.isNumeric then some t else none
  | .not, _ => some .bool
  | .bwnot, t => if t = .integer then some .integer else none

section

variable {fl : FloatOps} {strcmp : List UInt8 → List UInt8 → Int} {v w : Object} {t : ObjectType}

theorem arith_hasType {op : VM.ArithOp} (h : (Operator.arith op).typeOf v.type w.type = some t) :
    (arith fl op v w).HasType t := by
  by_cases hints : v.type = .integer ∧ w.type = .integer
  · simp only [Operator.typeOf, if_pos hints] at h
    cases v with
    | integer i1 =>
        cases w with
        | integer i2 =>
            cases op with
            | add | sub | mul =>
                obtain rfl : ObjectType.integer = t := by simpa using h
                exact ⟨_, rfl, rfl⟩
            | div | mod => simp at h
        | _ => cases hints.2
    | _ => cases hints.1
  · simp only [Operator.typeOf, if_neg hints, ← Object.isNumeric_eq] at h
    split at h
    · rename_i hnumeric
      obtain rfl : ObjectType.float = t := by simpa using h
      have hne : ∀ i1 i2, v = .integer i1 → w = .integer i2 → False := by
        rintro i1 i2 rfl rfl
        exact hints ⟨rfl, rfl⟩
      rw [arith_of_not_integers hne, if_pos (by simpa using hnumeric)]
      exact ⟨_, rfl, rfl⟩
    · cases h

theorem bitwise_hasType {op : BitWiseOP} (h : (Operator.bits op).typeOf v.type w.type = some t) :
    (bitwise op v w).HasType t := by
  simp only [Operator.typeOf] at h
  split at h
  · rename_i hints
    obtain rfl : ObjectType.integer = t := by simpa using h
    obtain ⟨hv, hw, hop⟩ := hints
    cases v with
    | integer i1 =>
        cases w with
        | integer i2 => rcases hop with rfl | rfl | rfl <;> exact ⟨_, rfl, rfl⟩
        | _ => cases hw
    | _ => cases hv
  · cases h

theorem compareOther_value (h : v.type = w.type ∨ v = .null ∨ w = .null) :
    ∃ r, compareOther fl v w = .value r := by
  unfold compareOther
  split
  · exact ⟨_, rfl⟩
  · split
    · exact ⟨_, rfl⟩
    · split
      · exact ⟨_, rfl⟩
      · simp_all

variable (fl strcmp) in
theorem compareObjects_value (h : v.type.comparable w.type = true) :
    ∃ r, compareObjects fl strcmp v w = .value r := by
  unfold compareObjects
  by_cases heq : v = w
  · rw [if_pos heq]
    exact ⟨0, rfl⟩
  · rw [if_neg heq]
    cases v with
    | integer | float =>
        cases w with
        | integer | float => exact ⟨_, rfl⟩
        | null => exact compareOther_value (.inr (.inr rfl))
        | _ => cases h
    | string =>
        cases w with
        | string => exact ⟨_, rfl⟩
        | null => exact compareOther_value (.inr (.inr rfl))
        | _ => cases h
    | table | userdata | «instance» =>
        cases w with
        | null => exact compareOther_value (.inr (.inr rfl))
        | _ => cases h
    | null => exact compareOther_value (.inr (.inl rfl))
    | _ =>
        rcases ObjectType.comparable_cases h with hnull | hnull | ⟨hnumeric, -⟩ | hsame
        · cases hnull
        · exact compareOther_value (.inr (.inr (Object.eq_null_of_type hnull)))
        · cases hnumeric
        · exact compareOther_value (.inl hsame)

theorem compared_type (op : CmpOP) (r : Int) :
    (compared op r).type = if op = .CMP_3W then .integer else .bool := by
  cases op <;> rfl

/-- An operator on operands that it takes has a value, of the type that it has for them. -/
theorem Operator.apply_hasType (op : Operator) (h : op.typeOf v.type w.type = some t) :
    (op.apply fl strcmp v w).HasType t := by
  cases op with
  | arith op => exact arith_hasType h
  | bits op => exact bitwise_hasType h
  | eq | ne => exact ⟨_, rfl, Option.some.inj h⟩
  | cmp op =>
      simp only [Operator.typeOf] at h
      split at h
      · rename_i hcomparable
        obtain ⟨r, hr⟩ := compareObjects_value fl strcmp hcomparable
        refine ⟨compared op r, by rw [Operator.apply, hr]; rfl, ?_⟩
        rw [compared_type]
        simpa using h
      · cases h

theorem UnaryOperator.apply_hasType (op : UnaryOperator) (h : op.typeOf v.type = some t) :
    (op.apply fl v).HasType t := by
  cases op with
  | neg =>
      cases v with
      | integer | float => exact ⟨_, rfl, Option.some.inj h⟩
      | _ => cases h
  | not => exact ⟨_, rfl, Option.some.inj h⟩
  | bwnot =>
      cases v with
      | integer => exact ⟨_, rfl, Option.some.inj h⟩
      | _ => cases h

end

/-! ### Types of formulas -/

/-- The type of a formula whose variables have the types that `context` gives. -/
def Formula.typeOf (context : List UInt8 → Option ObjectType) : Formula → Option ObjectType
  | .int _ => some .integer
  | .float _ => some .float
  | .str _ => some .string
  | .bool _ => some .bool
  | .null => some .null
  | .var name => context name
  | .unary op a => (a.typeOf context).bind op.typeOf
  | .binary op a b => (a.typeOf context).bind fun t => (b.typeOf context).bind (op.typeOf t)
  | .and a b | .or a b =>
    (a.typeOf context).bind fun t => if b.typeOf context = some t then some t else none
  | .cond c a b => (c.typeOf context).bind fun _ =>
    (a.typeOf context).bind fun t => if b.typeOf context = some t then some t else none

/-- The values of the variables have the types of the context. -/
def Respects (context : List UInt8 → Option ObjectType) (env : List UInt8 → Object) : Prop :=
  ∀ s t, context s = some t → (env s).type = t

/-- The value of a formula with a type is of that type. -/
theorem Formula.eval_hasType (fl : FloatOps) (strcmp : List UInt8 → List UInt8 → Int)
    {context : List UInt8 → Option ObjectType} {env : List UInt8 → Object}
    (henv : Respects context env) {e : Formula} {t : ObjectType}
    (h : e.typeOf context = some t) : (e.eval fl strcmp env).HasType t := by
  induction e generalizing t with
  | int | float | str | bool | null => exact ⟨_, rfl, Option.some.inj h⟩
  | var name => exact ⟨_, rfl, henv name t h⟩
  | unary op a iha =>
      obtain ⟨u, ha, hop⟩ := Option.bind_eq_some_iff.mp h
      refine (iha ha).bind fun v hv => ?_
      exact op.apply_hasType (hv ▸ hop)
  | binary op a b iha ihb =>
      obtain ⟨t₁, ha, h⟩ := Option.bind_eq_some_iff.mp h
      obtain ⟨t₂, hb, hop⟩ := Option.bind_eq_some_iff.mp h
      refine (iha ha).bind fun v hv => (ihb hb).bind fun w hw => ?_
      exact op.apply_hasType (hv ▸ hw ▸ hop)
  | and a b iha ihb =>
      obtain ⟨u, ha, h⟩ := Option.bind_eq_some_iff.mp h
      obtain ⟨hb, rfl⟩ : b.typeOf context = some u ∧ u = t := by simpa using h
      refine (iha ha).bind fun v hv => ?_
      split
      · exact hasType_value.mpr hv
      · exact ihb hb
  | or a b iha ihb =>
      obtain ⟨u, ha, h⟩ := Option.bind_eq_some_iff.mp h
      obtain ⟨hb, rfl⟩ : b.typeOf context = some u ∧ u = t := by simpa using h
      refine (iha ha).bind fun v hv => ?_
      split
      · exact ihb hb
      · exact hasType_value.mpr hv
  | cond c a b ihc iha ihb =>
      obtain ⟨t₀, hc, h⟩ := Option.bind_eq_some_iff.mp h
      obtain ⟨u, ha, h⟩ := Option.bind_eq_some_iff.mp h
      obtain ⟨hb, rfl⟩ : b.typeOf context = some u ∧ u = t := by simpa using h
      refine (ihc hc).bind fun v _ => ?_
      split
      · exact ihb hb
      · exact iha ha

/-! ### Functions with a type -/

/-- A lambda with a type is compiled to a function that returns a value of that type and raises
no error, whenever its arguments have the types that it was typed with. -/
theorem Compiler.lambda_typed {c : Compiler} {rest : List (Except String Lexeme)}
    {ps ws : List Lexeme} {x y z : Lexeme} {name : Object} {names : List (List UInt8)} {e : Formula}
    (hnames : Names ps names) (hx : x.token = .chr '(') (hz : z.token = .chr ')')
    (h : Derives .Expression ws e) (hy : y.token.rank = 0)
    (hreading : Reading rest c (x :: (ps ++ z :: (ws ++ [y])))) (htested : e.WellTested false)
    (hfits : e.Fits (.lambda c.sourcename name names)) (hlength : e.length < 2 ^ 31)
    {context : List UInt8 → Option ObjectType} {t : ObjectType} (ht : e.typeOf context = some t) :
    ∃ func c', (∃ N, ∀ n, N ≤ n → run n (.CreateFunction name 0xFF true) c = .ok () c') ∧
      c'.fs = c.fs.pushFunction func ∧
      ∀ (rt : Runtime) (vm : VM rt.Heap) (ci : CallInfo) (callstack : List CallInfo)
        (closure : Closure), closure.function = func → vm.callstack = ci :: callstack → ci.ip = 0 →
          ci.generator = none → VM.Runs vm closure →
          Respects context ((FuncState.lambda c.sourcename name names).env (registers vm)) →
          ∃ v ip r, v.type = t ∧ Steps rt vm (during vm ip r) ∧
            HandsBack rt ci v (during vm ip r) (during vm (ip + 1) r) := by
  obtain ⟨line, func, c', rfl, hcompiled, hrun⟩ := run_lambda hnames hx hz h hy hreading hfits
  refine ⟨_, c', hrun, hcompiled.fs_eq, fun rt vm ci callstack closure hfunction hstack hip
    hgenerator hruns henv => ?_⟩
  have hanswers := lambda_returns htested hfits hlength hfunction hstack hip hgenerator hruns
  obtain ⟨v, hv, htype⟩ := Formula.eval_hasType rt.fl rt.strcmp henv ht
  rw [hv] at hanswers
  obtain ⟨ip, r, hsteps, hback⟩ := hanswers
  exact ⟨v, ip, r, htype, hsteps, hback⟩

/-- `(x, y) x <= y ? y : x` returns an integer for two integers. -/
theorem Compiler.lambda_typed_greater :
    ∃ func c', (∃ N, ∀ n, N ≤ n → run n (.CreateFunction .null 0xFF true) atGreater = .ok () c') ∧
      c'.fs = atGreater.fs.pushFunction func ∧
      ∀ (rt : Runtime) (vm : VM rt.Heap) (ci : CallInfo) (callstack : List CallInfo)
        (closure : Closure), closure.function = func → vm.callstack = ci :: callstack → ci.ip = 0 →
          ci.generator = none → VM.Runs vm closure →
          Respects (fun _ => some .integer)
            ((FuncState.lambda .null .null [sc "x", sc "y"]).env (registers vm)) →
          ∃ v ip r, v.type = .integer ∧ Steps rt vm (during vm ip r) ∧
            HandsBack rt ci v (during vm ip r) (during vm (ip + 1) r) :=
  @lambda_typed atGreater [] [nameOf "x", lexemeOf (.chr ','), nameOf "y"] greaterTokens
    (lexemeOf (.chr '(')) (lexemeOf .eob) (lexemeOf (.chr ')')) .null [sc "x", sc "y"] greater
    (.cons (x := nameOf "x") rfl rfl (.last (x := nameOf "y") rfl)) rfl rfl derives_greater rfl
    ⟨rfl, rfl, rfl, rfl, rfl⟩ (by simp [greater, Formula.WellTested, Formula.width])
    ⟨by unfold Formula.Resolves; decide, by decide, by decide⟩ (by decide) (fun _ => some .integer)
    .integer rfl

end GameScript
