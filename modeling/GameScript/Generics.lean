import GameScript.Compiler.Statement
import GameScript.Lib.Effect

/-!
Calls with generic arguments, `p<T,...>(args)`. The compiler skips the list of types. What it
has read of `p` by then may be a slot whose value is not fetched yet, and whether it is fetched
depends on the token that follows.

* `compile_unfetched`: where nothing is fetched, the callee and what follows it compile to the same
  with the types and without them.
* `loop_erased`: so do the suffixes of a prefixed expression, from `.` or `[` on.
* `targets_fetched`: where the value is fetched, the call leaves the targets one short.
-/

namespace GameScript

namespace Lexer

/-- The lexer after the token `y`. -/
def next (l : Lexer) (y : Lexeme) (rest : List (Except String Lexeme)) : Lexer :=
  let l := { l with lasttokenline := l.currentline }
  let l := Nat.repeat (·.shift (.chr '\n')) y.newlines l
  let l := if y.token = .eob then l else l.shift y.token
  { l with
    input := rest
    currentline := y.currentline
    longstr := y.longstr
    svalue := y.svalue
    nvalue := y.nvalue
    fvalue := y.fvalue }

@[simp] theorem shift_curtoken (l : Lexer) (t : Token) : (l.shift t).curtoken = some t := rfl

@[simp] theorem shift_prevtoken (l : Lexer) (t : Token) :
    (l.shift t).prevtoken = l.curtoken := rfl

@[simp] theorem shift_lasttokenline (l : Lexer) (t : Token) :
    (l.shift t).lasttokenline = l.lasttokenline := rfl

@[simp] theorem next_input (l : Lexer) (y : Lexeme) (rest : List (Except String Lexeme)) :
    (l.next y rest).input = rest := rfl

@[simp] theorem next_currentline (l : Lexer) (y : Lexeme)
    (rest : List (Except String Lexeme)) : (l.next y rest).currentline = y.currentline := rfl

theorem next_curtoken {l : Lexer} {y : Lexeme} (h : y.token ≠ .eob)
    (rest : List (Except String Lexeme)) : (l.next y rest).curtoken = some y.token := by
  simp [next, h]

theorem curtoken_newlines (l : Lexer) (n : Nat) :
    (Nat.repeat (·.shift (.chr '\n')) n l).curtoken =
      if n = 0 then l.curtoken else some (.chr '\n') := by
  cases n <;> rfl

theorem lasttokenline_newlines (l : Lexer) (n : Nat) :
    (Nat.repeat (·.shift (.chr '\n')) n l).lasttokenline = l.lasttokenline := by
  induction n with
  | zero => rfl
  | succ n ih => exact ih

/-- What the lexer holds after a token depends on the token and the line before. -/
theorem next_congr {l₀ l₁ : Lexer} {y : Lexeme} (h : y.token ≠ .eob)
    (hcur : l₀.curtoken = l₁.curtoken) (hline : l₀.currentline = l₁.currentline)
    (rest : List (Except String Lexeme)) : l₀.next y rest = l₁.next y rest := by
  simp only [next, if_neg h, shift_curtoken, shift_prevtoken, shift_lasttokenline,
    curtoken_newlines, lasttokenline_newlines, hcur, hline]

end Lexer

namespace Compiler

open Effect

variable {α β : Type}

/-- The compiler at another place of the source. -/
def placed (token : Token) (lex : Lexer) (c : Compiler) : Compiler :=
  { c with token := token, lex := lex }

@[simp] theorem placed_token (t : Token) (l : Lexer) (c : Compiler) :
    (placed t l c).token = t := rfl

@[simp] theorem placed_lex (t : Token) (l : Lexer) (c : Compiler) : (placed t l c).lex = l := rfl

/-- The compiler with another source before it. -/
def reading (c : Compiler) (input : List (Except String Lexeme)) : Compiler :=
  { c with lex := { c.lex with input := input } }

@[simp] theorem reading_token (c : Compiler) (input : List (Except String Lexeme)) :
    (c.reading input).token = c.token := rfl

theorem getEtype_bind_apply (f : ExpType → CompilerM α) (c : Compiler) :
    (getEtype >>= f) c = f c.es.etype c := rfl

theorem getFs_bind_apply (f : FuncState → CompilerM α) (c : Compiler) :
    (getFs >>= f) c = f c.fs c := rfl

/-! ### What does not look at the tokens -/

section

variable (t : Token) (l : Lexer)

theorem commutes_getFs : Commutes (placed t l) getFs := fun _ => rfl

theorem commutes_getEtype : Commutes (placed t l) getEtype := fun _ => rfl

theorem commutes_modifyFs (f : FuncState → FuncState) : Commutes (placed t l) (modifyFs f) :=
  commutes_modify fun _ => rfl

theorem commutes_setEtype (etype : ExpType) : Commutes (placed t l) (setEtype etype) :=
  commutes_modify fun _ => rfl

theorem commutes_setEpos (epos : Int) : Commutes (placed t l) (setEpos epos) :=
  commutes_modify fun _ => rfl

theorem commutes_error (msg : String) : Commutes (placed t l) (error msg : CompilerM α) :=
  commutes_throw _

theorem commutes_undefined : Commutes (placed t l) (undefined : CompilerM α) := commutes_throw _

theorem commutes_AddInstruction (op : Opcode) (arg0 arg1 arg2 arg3 : Int) :
    Commutes (placed t l) (AddInstruction op arg0 arg1 arg2 arg3) := commutes_modifyFs t l _

theorem commutes_PushTargetAt (n : Nat) : Commutes (placed t l) (PushTargetAt n) :=
  (commutes_modifyFs t l _).bind fun _ => commutes_pure n

theorem commutes_AllocStackPos : Commutes (placed t l) AllocStackPos := by
  apply (commutes_getFs t l).bind
  intro fs
  dsimp only
  split
  · exact (commutes_error t l _).bind fun _ => (commutes_modifyFs t l _).bind fun _ =>
      commutes_pure _
  · exact (commutes_modifyFs t l _).bind fun _ => commutes_pure _

theorem commutes_PushTarget : Commutes (placed t l) PushTarget :=
  (commutes_AllocStackPos t l).bind fun n => commutes_PushTargetAt t l n

theorem commutes_TopTarget : Commutes (placed t l) TopTarget := by
  apply (commutes_getFs t l).bind
  intro fs
  split
  · exact commutes_pure _
  · exact commutes_undefined t l

theorem commutes_PopTarget : Commutes (placed t l) PopTarget := by
  apply (commutes_getFs t l).bind
  intro fs
  split
  · exact (commutes_modifyFs t l _).bind fun _ => commutes_pure _
  · exact commutes_undefined t l

theorem commutes_PopTargets (n : Nat) : Commutes (placed t l) (PopTargets n) := by
  induction n with
  | zero => exact commutes_pure _
  | succ n ih => exact (commutes_PopTarget t l).bind fun _ => ih

theorem commutes_GetConstant (cons : Object) : Commutes (placed t l) (GetConstant cons) := by
  apply (commutes_getFs t l).bind
  intro fs
  dsimp only
  apply (commutes_modifyFs t l _).bind
  intro _
  split
  · exact (commutes_error t l _).bind fun _ => commutes_pure _
  · exact commutes_pure _

theorem commutes_Emit2ArgsOP (op : Opcode) (p3 : Int) :
    Commutes (placed t l) (Emit2ArgsOP op p3) := by
  apply (commutes_PopTarget t l).bind
  intro p2
  apply (commutes_PopTarget t l).bind
  intro p1
  apply (commutes_PushTarget t l).bind
  intro target
  exact commutes_AddInstruction t l _ _ _ _ _

/-- A search through the enclosing functions asks for no token, in whichever
of them it ends. -/
theorem commutes_GetOuterVariable (name : Object) :
    Commutes (placed t l) (GetOuterVariable name) := by
  apply commutes_get_bind
  · exact fun _ => rfl
  intro c
  split
  · apply Commutes.bind
    · apply commutes_modify
      exact fun _ => rfl
    · exact fun _ => commutes_pure _
  · exact commutes_undefined t l

theorem commutes_IsConstant (name : Object) : Commutes (placed t l) (IsConstant name) :=
  commutes_get_bind (fun _ => rfl) fun _ => commutes_pure _

theorem commutes_targetOr (target : Option Nat) : Commutes (placed t l) (targetOr target) := by
  unfold targetOr
  split
  · exact commutes_pure _
  · exact commutes_PushTarget t l

theorem commutes_EmitLoadConstInt (value : GSInteger) (target : Option Nat) :
    Commutes (placed t l) (EmitLoadConstInt value target) := by
  apply (commutes_targetOr t l target).bind
  intro target
  split
  · exact commutes_AddInstruction t l _ _ _ _ _
  · exact (commutes_GetConstant t l _).bind fun _ => commutes_AddInstruction t l _ _ _ _ _

theorem commutes_EmitLoadConstFloat (value : GSFloat) (target : Option Nat) :
    Commutes (placed t l) (EmitLoadConstFloat value target) :=
  (commutes_targetOr t l target).bind fun _ => commutes_AddInstruction t l _ _ _ _ _

/-- The preparation of a call decides by the state of the expression alone. -/
theorem commutes_prepareCall : Commutes (placed t l) prepareCall := by
  apply commutes_get_bind
  · exact fun _ => rfl
  intro c
  dsimp only
  split
  · apply (commutes_PopTarget t l).bind
    intro key
    apply (commutes_PopTarget t l).bind
    intro table
    apply (commutes_PushTarget t l).bind
    intro closure
    exact (commutes_PushTarget t l).bind fun _ => commutes_AddInstruction t l _ _ _ _ _
  · apply (commutes_PushTarget t l).bind
    intro closure
    apply (commutes_AddInstruction t l _ _ _ _ _).bind
    intro _
    exact (commutes_PushTarget t l).bind fun _ => commutes_AddInstruction t l _ _ _ _ _
  · exact (commutes_PushTarget t l).bind fun _ => commutes_AddInstruction t l _ _ _ _ _

end

/-! ### What looks at the next token -/

section

variable (l : Lexer)

theorem NeedGet_call : ActsAs (placed (.chr '(') l) NeedGet (pure false) := fun _ => rfl

/-- What `NeedGet` says in front of generic arguments. -/
def needGetBeforeGenerics : CompilerM Bool := return !(← get).es.donot_get

theorem NeedGet_less : ActsAs (placed (.chr '<') l) NeedGet needGetBeforeGenerics := by
  intro c
  unfold NeedGet needGetBeforeGenerics
  rw [get_bind_apply, get_bind_apply]
  cases h : c.es.donot_get <;> simp [placed, h, mapState, pure_apply]

end

/-- `derefKey` where `needGet` says whether the value is fetched. -/
def derefKeyWith (needGet : CompilerM Bool) : CompilerM Unit := do
  if (← getEtype) = .BASE then
    Emit2ArgsOP .GET
    setEtype .EXPR
    setEpos (← TopTarget)
  else
    if ← needGet then
      Emit2ArgsOP .GET
    setEtype .OBJECT

/-- At a token where `NeedGet` has one answer, the key is read as that answer
says. -/
theorem derefKey_actsAs {t : Token} {l : Lexer} {needGet : CompilerM Bool}
    (h : ActsAs (placed t l) NeedGet needGet) :
    ActsAs (placed t l) derefKey (derefKeyWith needGet) := by
  apply ActsAs.bind (commutes_getEtype t l)
  intro etype
  split
  · apply ActsAs.bind (commutes_Emit2ArgsOP t l _ _)
    intro _
    apply ActsAs.bind (commutes_setEtype t l _)
    intro _
    exact ActsAs.bind (commutes_TopTarget t l) fun _ => commutes_setEpos t l _
  · apply ActsAs.bind h
    intro needGet
    split
    · exact ActsAs.bind (commutes_Emit2ArgsOP t l _ _) fun _ => commutes_setEtype t l _
    · exact commutes_setEtype t l _

/-- The load of a named constant in front of an argument list. An enumeration has no value
of its own. -/
def emitConstantCalled (id : Object) : Constant → CompilerM Unit
  | .scalar o => emitConstant id (.scalar o)
  | .table _ => error (expected (.chr '.'))

/-- `identifier` in front of an argument list, once the name is read. -/
def resolveCalled (id : Object) : CompilerM Unit := do
  match (← getFs).getLocalVariable id with
  | some pos =>
    let _ ← PushTargetAt pos
    setEtype .LOCAL
    setEpos pos
  | none =>
    match ← GetOuterVariable id with
    | some pos =>
      setEtype .OUTER
      setEpos pos
    | none =>
      match ← IsConstant id with
      | some constant => emitConstantCalled id constant
      | none =>
        let _ ← PushTargetAt 0
        let target ← PushTarget
        AddInstruction .LOAD target (← GetConstant id)
        setEtype .OBJECT

/-- `identifier` from the name on. -/
def resolve (id : Object) : CompilerM Unit := do
  match (← getFs).getLocalVariable id with
  | some pos =>
    let _ ← PushTargetAt pos
    setEtype .LOCAL
    setEpos pos
  | none =>
    match ← GetOuterVariable id with
    | some pos =>
      if ← NeedGet then
        let target ← PushTarget
        setEpos target
        AddInstruction .GETOUTER target pos
      else
        setEtype .OUTER
        setEpos pos
    | none =>
      match ← IsConstant id with
      | some constant => emitConstant id constant
      | none =>
        let _ ← PushTargetAt 0
        let target ← PushTarget
        AddInstruction .LOAD target (← GetConstant id)
        if ← NeedGet then
          Emit2ArgsOP .GET
        setEtype .OBJECT

section

variable (l : Lexer)

/-- In front of `(` a constant is always loaded, whatever it would be
elsewhere. -/
theorem emitConstant_actsAs (id : Object) (constant : Constant) :
    ActsAs (placed (.chr '(') l) (emitConstant id constant) (emitConstantCalled id constant) := by
  cases constant with
  | table entries => exact fun _ => rfl
  | scalar o =>
      apply ActsAs.bind (commutes_pure o)
      intro constval
      apply ActsAs.bind (commutes_PushTarget _ l)
      intro target
      apply ActsAs.bind (commutes_setEpos _ l _)
      intro _
      have htype := commutes_setEtype (.chr '(') l .EXPR
      split
      · exact ActsAs.bind (commutes_EmitLoadConstInt _ l _ _) fun _ => htype
      · exact ActsAs.bind (commutes_EmitLoadConstFloat _ l _ _) fun _ => htype
      · exact ActsAs.bind (commutes_AddInstruction _ l _ _ _ _ _) fun _ => htype
      · apply ActsAs.bind (commutes_GetConstant _ l _)
        intro n
        exact ActsAs.bind (commutes_AddInstruction _ l _ _ _ _ _) fun _ => htype

/-- In front of `(` a resolved name is a callee: it is neither assigned nor
incremented. -/
theorem resolve_actsAs (id : Object) :
    ActsAs (placed (.chr '(') l) (resolve id) (resolveCalled id) := by
  apply ActsAs.bind (commutes_getFs _ l)
  intro fs
  split
  · apply ActsAs.bind (commutes_PushTargetAt _ l _)
    intro _
    exact ActsAs.bind (commutes_setEtype _ l _) fun _ => commutes_setEpos _ l _
  apply ActsAs.bind (commutes_GetOuterVariable _ l id)
  intro outer
  split
  · exact fun c => ActsAs.bind (commutes_setEtype _ l _) (fun _ => commutes_setEpos _ l _) c
  apply ActsAs.bind (commutes_IsConstant _ l id)
  intro constant
  split
  · exact emitConstant_actsAs l id _
  apply ActsAs.bind (commutes_PushTargetAt _ l 0)
  intro _
  apply ActsAs.bind (commutes_PushTarget _ l)
  intro target
  apply ActsAs.bind (commutes_GetConstant _ l id)
  intro n
  apply ActsAs.bind (commutes_AddInstruction _ l _ _ _ _ _)
  intro _
  exact fun c => commutes_setEtype _ l _ c

end

/-! ### The tokens of a list of types -/

/-- One token of the input becomes the current one. -/
theorem Lex_cons {c : Compiler} {y : Lexeme} {rest : List (Except String Lexeme)}
    (h : c.lex.input = .ok y :: rest) :
    Lex c = .ok () (placed y.token (c.lex.next y rest) c) := by
  have hlex : c.lex.lex = .ok (y.token, c.lex.next y rest) := by
    cases hl : c.lex with
    | mk input =>
        rw [hl] at h
        cases h
        rfl
  unfold Lex
  rw [get_bind_apply, hlex]
  rfl

/-- An expected token gives its value and is read past. -/
theorem Expect_cons {c : Compiler} {t : Token} {y : Lexeme} {rest : List (Except String Lexeme)}
    (ht : c.token = t ∨ c.token = .TK_CONSTRUCTOR ∧ t = .TK_IDENTIFIER)
    (h : c.lex.input = .ok y :: rest) :
    Expect t c = .ok (Lexer.value c.lex t) (placed y.token (c.lex.next y rest) c) := by
  unfold Expect
  rw [get_bind_apply]
  dsimp only
  rw [if_neg fun hne => ht.elim hne.1 hne.2, bind_apply, Lex_cons h]
  rfl

/-- Type names with commas between them. -/
inductive TypeList : List Lexeme → Prop where
  | last {t : Lexeme} : t.token.isType = true → TypeList [t]
  | more {t comma : Lexeme} {ts : List Lexeme} : t.token.isType = true →
      comma.token = .chr ',' → TypeList ts → TypeList (t :: comma :: ts)

/-- One round of `genericArguments`. -/
def typeName : CompilerM (Unit ⊕ Unit) := do
  if !(← getToken).isType then
    error "expected type name in generic argument list"
  Lex
  if (← getToken) = .chr ',' then
    Lex
    return .inl ()
  else return .inr ()

theorem genericArguments_eq (n : Nat) :
    genericArguments n = (do Lex; loop n (fun _ => typeName) ()) := rfl

/-- The end of `typeName` at the token `t`. -/
def afterTypeName (t : Token) : CompilerM (Unit ⊕ Unit) :=
  if t = .chr ',' then do
    Lex
    return .inl ()
  else return .inr ()

/-- A type name is read past, and what follows decides whether the list goes
on. -/
theorem typeName_apply {c : Compiler} (ht : c.token.isType = true) {y : Lexeme}
    {rest : List (Except String Lexeme)} (h : c.lex.input = .ok y :: rest) :
    typeName c = afterTypeName y.token (placed y.token (c.lex.next y rest) c) := by
  unfold typeName
  rw [getToken_bind_apply]
  dsimp only
  rw [if_neg (by simp [ht]), bind_apply, Lex_cons h]
  rfl

theorem typeName_last {c : Compiler} (ht : c.token.isType = true) {y : Lexeme}
    (hy : y.token ≠ .chr ',') {rest : List (Except String Lexeme)}
    (h : c.lex.input = .ok y :: rest) :
    typeName c = .ok (.inr ()) (placed y.token (c.lex.next y rest) c) := by
  rw [typeName_apply ht h, afterTypeName, if_neg hy]
  rfl

/-- After a comma the list of types goes on. -/
theorem typeName_more {c : Compiler} (ht : c.token.isType = true) {y z : Lexeme}
    (hy : y.token = .chr ',') {rest : List (Except String Lexeme)}
    (h : c.lex.input = .ok y :: .ok z :: rest) :
    typeName c =
      .ok (.inl ()) (placed z.token ((c.lex.next y (.ok z :: rest)).next z rest) c) := by
  have hz : (placed y.token (c.lex.next y (.ok z :: rest)) c).lex.input = .ok z :: rest := rfl
  rw [typeName_apply ht h, afterTypeName, if_pos hy, bind_apply, Lex_cons hz]
  rfl

/-- The compiler reads the types after the first token to the token behind them, and changes
nothing else. -/
theorem typeNames_apply {t : Lexeme} {ts : List Lexeme} (ht : TypeList (t :: ts)) {y : Lexeme}
    (hy : y.token ≠ .chr ',') (rest : List (Except String Lexeme)) {n : Nat}
    (hn : ts.length < n) {c : Compiler} (hc : c.token = t.token)
    (hinput : c.lex.input = ts.map .ok ++ .ok y :: rest) :
    ∃ l : Lexer, loop n (fun _ => typeName) () c =
      .ok () (placed y.token (l.next y rest) c) := by
  generalize hts : t :: ts = types at ht
  induction ht generalizing t ts n c with
  | @last t' htype =>
      cases hts
      obtain ⟨n, rfl⟩ : ∃ k, n = k + 1 := ⟨n - 1, by omega⟩
      refine ⟨c.lex, ?_⟩
      unfold loop
      rw [bind_apply]
      dsimp only
      rw [typeName_last (hc ▸ htype) hy hinput]
      rfl
  | @more t' comma ts' htype hcomma hlist ih =>
      cases hts
      obtain ⟨n, rfl⟩ : ∃ k, n = k + 1 := ⟨n - 1, by omega⟩
      cases ts' with
      | nil => cases hlist
      | cons z zs =>
          have hround := typeName_more (hc ▸ htype) hcomma hinput
          have hn : zs.length < n := by
            simp only [List.length_cons] at hn
            omega
          obtain ⟨l, hl⟩ := ih (c := placed z.token ((c.lex.next comma _).next z _) c) hn rfl rfl rfl
          refine ⟨l, ?_⟩
          unfold loop
          rw [bind_apply]
          dsimp only
          rw [hround]
          exact hl

/-! ### The end of a callee -/

/-- The last token of a callee: a name, the name of a field whose target is there, the bracket
after an index, or the bracket after the arguments of another call. -/
inductive CalleeEnd where
  | name
  | field (target : Nat)
  | index
  | result (rawcall : Bool) (nargs : Nat)

namespace CalleeEnd

variable (n : Nat) (call : Proc → CompilerM Unit)

def tokens : CalleeEnd → List Token
  | .name => [.TK_IDENTIFIER, .TK_CONSTRUCTOR, .TK_THIS]
  | .field _ => [.TK_IDENTIFIER, .TK_CONSTRUCTOR]
  | .index => [.chr ']']
  | .result _ _ => [.chr ')']

/-- What the compiler does from the last token of the callee on. -/
def finish : CalleeEnd → CompilerM Unit
  | .name => identifier n
  | .field target => do
    AddInstruction .LOAD target (← GetConstant (← Expect .TK_IDENTIFIER))
    derefKey
  | .index => do
    let _ ← Expect (.chr ']')
    derefKey
  | .result rawcall nargs => do
    Lex
    if rawcall ∧ nargs < 3 then
      error "rawcall requires at least 2 parameters (callee and this)"
    let nargs := if rawcall then nargs - 2 else nargs
    PopTargets (nargs - 1)
    let stackbase ← PopTarget
    let closure ← PopTarget
    AddInstruction .CALL (← PushTarget) closure stackbase nargs
    if (← getToken) = .chr '{' then
      callSlots n call

end CalleeEnd

variable (n : Nat) (call : Proc → CompilerM Unit)

/-! The procedures of the compiler get there. -/

theorem factor_name {c : Compiler} (h : c.token ∈ CalleeEnd.name.tokens) :
    factor n call c = CalleeEnd.name.finish n call c := by
  unfold factor
  rw [getToken_bind_apply]
  simp only [CalleeEnd.tokens, List.mem_cons, List.not_mem_nil, or_false] at h
  rcases h with h | h | h <;> rw [h] <;> rfl

/-- The suffix `.name` is the field end of a callee, and the suffixes go on.
-/
theorem suffix_field {c : Compiler} (h : c.token = .chr '.') :
    suffix n call c = (do
      Lex
      let target ← PushTarget
      (CalleeEnd.field target).finish n call
      return Sum.inl ()) c := by
  unfold suffix
  rw [getToken_bind_apply, h]
  simp only [CalleeEnd.finish, bind_assoc]

/-- The suffix `[exp]` is the index end of a callee, and the suffixes go on.
-/
theorem suffix_index {c : Compiler} (h : c.token = .chr '[') :
    suffix n call c = (do
      if ← prevtokenIs '\n' then
        error "cannot break deref/or comma needed after [exp]=exp slot declaration"
      Lex
      call .Expression
      CalleeEnd.index.finish n call
      return Sum.inl ()) c := by
  unfold suffix
  rw [getToken_bind_apply, h]
  simp only [CalleeEnd.finish, bind_assoc]

/-- The suffix `<` reads a list of types and emits nothing. -/
theorem suffix_less {c : Compiler} (h : c.token = .chr '<') :
    suffix n call c = (do
      genericArguments n
      let _ ← Expect (.chr '>')
      return Sum.inl ()) c := by
  unfold suffix
  rw [getToken_bind_apply, h]
  rfl

/-- The suffix `(` prepares the call and compiles the arguments. -/
theorem suffix_paren {c : Compiler} (h : c.token = .chr '(') :
    suffix n call c = (do
      prepareCall
      setEtype .EXPR
      Lex
      call (.FunctionCallArgs false)
      return Sum.inl ()) c := by
  unfold suffix
  rw [getToken_bind_apply, h]
  rfl

theorem functionCallArgs_result (rawcall : Bool) :
    functionCallArgs n call rawcall = (do
      let nargs ← callArguments n call
      (CalleeEnd.result rawcall nargs).finish n call) := by
  rfl

/-! ### The callee in front of its arguments -/

/-- The call that ends a callee, less the table constructor that may follow. -/
def emitCall (rawcall : Bool) (nargs : Nat) : CompilerM Unit := do
  if rawcall ∧ nargs < 3 then
    error "rawcall requires at least 2 parameters (callee and this)"
  let nargs := if rawcall then nargs - 2 else nargs
  PopTargets (nargs - 1)
  let stackbase ← PopTarget
  let closure ← PopTarget
  AddInstruction .CALL (← PushTarget) closure stackbase nargs

/-- What the compiler `d` emits at the last token of the callee; `needGet` says whether the
value of a slot is fetched. -/
def CalleeEnd.emits (d : Compiler) (needGet : CompilerM Bool) : CalleeEnd → CompilerM Unit
  | .name => resolveCalled (identifierName d)
  | .field target => do
    AddInstruction .LOAD target (← GetConstant (Lexer.value d.lex .TK_IDENTIFIER))
    derefKeyWith needGet
  | .index => derefKeyWith needGet
  | .result rawcall nargs => emitCall rawcall nargs

/-- The CALL itself asks for a token only to find a `{` behind the arguments.
-/
theorem emitCall_actsAs {t : Token} (ht : t ≠ .chr '{') (l : Lexer) (rawcall : Bool)
    (nargs : Nat) :
    ActsAs (placed t l)
      (do
        if rawcall ∧ nargs < 3 then
          error "rawcall requires at least 2 parameters (callee and this)"
        let nargs := if rawcall then nargs - 2 else nargs
        PopTargets (nargs - 1)
        let stackbase ← PopTarget
        let closure ← PopTarget
        AddInstruction .CALL (← PushTarget) closure stackbase nargs
        if (← getToken) = .chr '{' then
          callSlots n call)
      (emitCall rawcall nargs) := by
  have hend : ActsAs (placed t l)
      (do if (← getToken) = .chr '{' then callSlots n call) (pure ()) := by
    intro c
    rw [getToken_bind_apply]
    exact congrFun (if_neg ht) _
  have hrest (nargs : Nat) := ActsAs.bind (commutes_PopTargets t l (nargs - 1)) fun _ =>
    ActsAs.bind (commutes_PopTarget t l) fun stackbase =>
    ActsAs.bind (commutes_PopTarget t l) fun closure =>
    ActsAs.bind (commutes_PushTarget t l) fun target =>
    ActsAs.bind_pure (commutes_AddInstruction t l .CALL target closure stackbase nargs)
      fun _ => hend
  unfold emitCall
  dsimp only
  split
  · exact ActsAs.bind (commutes_error t l _) fun _ => hrest _
  · exact hrest _

/-- `identifier` after the name. -/
def afterName (id : Object) : CompilerM Unit := do
  if (← getToken) = .chr '<' then
    genericArguments n
    if (← getToken) = .chr '>' then Lex
    else error "expected '>' after generic argument list"
  resolve id

/-- A name is read past before it is resolved. -/
theorem identifier_cons {d : Compiler} {y : Lexeme} {rest : List (Except String Lexeme)}
    (h : d.lex.input = .ok y :: rest) :
    identifier n d = afterName n (identifierName d) (placed y.token (d.lex.next y rest) d) := by
  have hid : identifier n = (do
      let id := identifierName (← get)
      Lex
      afterName n id) := rfl
  rw [hid, get_bind_apply, bind_apply, Lex_cons h]

theorem afterName_call (id : Object) {c : Compiler} (hc : c.token ≠ .chr '<') :
    afterName n id c = resolve id c := by
  unfold afterName
  rw [getToken_bind_apply]
  exact congrFun (if_neg hc) c

/-- The next token is only looked at to decide whether the value of a slot is fetched. -/
theorem finish_reading {e : CalleeEnd} {d : Compiler} (htoken : d.token ∈ e.tokens) {y : Lexeme}
    (hbrace : y.token ≠ .chr '{') (hname : e = .name → y.token = .chr '(')
    {needGet : CompilerM Bool} (hneed : ∀ l, ActsAs (placed y.token l) NeedGet needGet)
    (rest : List (Except String Lexeme)) :
    e.finish n call (d.reading (.ok y :: rest)) =
      mapState (placed y.token ((d.reading (.ok y :: rest)).lex.next y rest))
        (e.emits d needGet d) := by
  cases e with
  | name =>
      have hy := hname rfl
      rw [CalleeEnd.finish, identifier_cons n rfl, afterName_call n _ (by simp [hy]), hy]
      exact resolve_actsAs _ _ d
  | field target =>
      have hpass : (d.reading (.ok y :: rest)).token = .TK_IDENTIFIER ∨
          (d.reading (.ok y :: rest)).token = .TK_CONSTRUCTOR ∧
            Token.TK_IDENTIFIER = .TK_IDENTIFIER := by
        simpa [CalleeEnd.tokens] using htoken
      unfold CalleeEnd.finish
      dsimp only
      rw [bind_apply, Expect_cons hpass rfl]
      exact ActsAs.bind (commutes_GetConstant _ _ _) (fun n =>
        ActsAs.bind (commutes_AddInstruction _ _ _ _ _ _ _) fun _ =>
          derefKey_actsAs (hneed _)) d
  | index =>
      have hpass : (d.reading (.ok y :: rest)).token = .chr ']' := by
        simpa [CalleeEnd.tokens] using htoken
      unfold CalleeEnd.finish
      dsimp only
      rw [bind_apply, Expect_cons (.inl hpass) rfl]
      exact derefKey_actsAs (hneed _) d
  | result rawcall nargs =>
      unfold CalleeEnd.finish
      dsimp only
      rw [bind_apply, Lex_cons rfl]
      exact emitCall_actsAs n call hbrace _ rawcall nargs d

/-! ### The generic arguments -/

/-- The generic arguments in front of `rest`. -/
def genericsThen (lt gt : Lexeme) (types : List Lexeme) (rest : List (Except String Lexeme)) :
    List (Except String Lexeme) :=
  .ok lt :: (types.map .ok ++ .ok gt :: rest)

/-- A list of types is skipped up to its `>`: only the lexer changes. -/
theorem genericArguments_apply {types : List Lexeme} (ht : TypeList types) {y : Lexeme}
    (hy : y.token ≠ .chr ',') {rest : List (Except String Lexeme)} {n : Nat}
    (hn : types.length ≤ n) {c : Compiler}
    (hinput : c.lex.input = types.map .ok ++ .ok y :: rest) :
    ∃ l : Lexer, genericArguments n c = .ok () (placed y.token (l.next y rest) c) := by
  cases types with
  | nil => cases ht
  | cons t ts =>
      rw [genericArguments_eq, bind_apply, Lex_cons hinput]
      simp only [List.length_cons] at hn
      exact typeNames_apply (c := placed t.token (c.lex.next t _) c) ht hy rest hn rfl rfl

/-- Generic arguments after a callee are skipped. -/
theorem suffix_generics {types : List Lexeme} (ht : TypeList types) {gt paren : Lexeme}
    (hgt : gt.token = .chr '>') {rest : List (Except String Lexeme)} {n : Nat}
    (hn : types.length ≤ n) {c : Compiler} (hc : c.token = .chr '<')
    (hinput : c.lex.input = types.map .ok ++ .ok gt :: .ok paren :: rest) :
    ∃ l : Lexer, suffix n call c = .ok (.inl ()) (placed paren.token (l.next paren rest) c) := by
  obtain ⟨l, hl⟩ := genericArguments_apply ht (y := gt) (by simp [hgt]) hn hinput
  refine ⟨l.next gt (.ok paren :: rest), ?_⟩
  have hpass : (placed gt.token (l.next gt (.ok paren :: rest)) c).token = .chr '>' := hgt
  rw [suffix_less n call hc, bind_apply, hl]
  dsimp only
  rw [bind_apply, Expect_cons (.inl hpass) rfl]
  rfl

/-- Generic arguments after a name are skipped. -/
theorem identifier_generics {types : List Lexeme} (ht : TypeList types) {lt gt paren : Lexeme}
    (hlt : lt.token = .chr '<') (hgt : gt.token = .chr '>')
    {rest : List (Except String Lexeme)} {n : Nat} (hn : types.length ≤ n) {d : Compiler}
    (hinput : d.lex.input = genericsThen lt gt types (.ok paren :: rest)) :
    ∃ l : Lexer, identifier n d =
      resolve (identifierName d) (placed paren.token (l.next paren rest) d) := by
  obtain ⟨l, hl⟩ := genericArguments_apply ht (y := gt) (by simp [hgt]) hn
    (c := placed lt.token (d.lex.next lt (types.map .ok ++ .ok gt :: .ok paren :: rest)) d) rfl
  refine ⟨l.next gt (.ok paren :: rest), ?_⟩
  rw [identifier_cons n hinput]
  unfold afterName
  rw [getToken_bind_apply]
  dsimp only
  rw [placed_token, if_pos hlt, bind_apply, hl]
  dsimp only
  rw [getToken_bind_apply, placed_token, if_pos hgt, bind_apply, Lex_cons rfl]
  rfl

/-! ### The arguments -/

/-- The arguments of a call with the closure and `this` on top of the targets. -/
def callWith : CompilerM (Unit ⊕ Unit) := do
  call (.FunctionCallArgs false)
  return .inl ()

/-- At `(` the suffix prepares the call and reads on from the token behind it.
-/
theorem suffix_placed {l : Lexer} {x : Lexeme} {rest : List (Except String Lexeme)}
    (h : l.input = .ok x :: rest) (c : Compiler) :
    suffix n call (placed (.chr '(') l c) =
      match (do prepareCall; setEtype .EXPR : CompilerM Unit) c with
      | .ok _ s => callWith call (placed x.token (l.next x rest) s)
      | .error e s => .error e (placed (.chr '(') l s) := by
  have hprep := ActsAs.bind (commutes_prepareCall (.chr '(') l) fun _ =>
    commutes_setEtype (.chr '(') l .EXPR
  have hassoc : suffix n call (placed (.chr '(') l c) = (do
      (do prepareCall; setEtype .EXPR)
      Lex
      callWith call) (placed (.chr '(') l c) := by
    rw [suffix_paren n call (placed_token _ _ _)]
    simp only [callWith, bind_assoc]
  rw [hassoc, bind_apply, hprep c]
  cases (do prepareCall; setEtype .EXPR : CompilerM Unit) c with
  | error e s => rfl
  | ok _ s =>
      have hlex := Lex_cons (c := placed (.chr '(') l s) h
      dsimp only [mapState]
      rw [bind_apply, hlex]
      rfl

/-- Behind the opening bracket the compiler does not see what was in front of it. -/
theorem loop_suffix_congr {l₀ l₁ : Lexer} {x : Lexeme} (hx : x.token ≠ .eob)
    {rest : List (Except String Lexeme)} (h₀ : l₀.input = .ok x :: rest)
    (h₁ : l₁.input = .ok x :: rest) (hcur : l₀.curtoken = l₁.curtoken)
    (hline : l₀.currentline = l₁.currentline) {c s : Compiler} {k : Nat}
    (hrun : loop k (fun _ => suffix n call) () (placed (.chr '(') l₀ c) = .ok () s) :
    loop k (fun _ => suffix n call) () (placed (.chr '(') l₁ c) = .ok () s := by
  cases k with
  | zero => cases hrun
  | succ k =>
      unfold loop at hrun ⊢
      rw [bind_apply] at hrun ⊢
      dsimp only at hrun ⊢
      rw [suffix_placed n call h₀] at hrun
      rw [suffix_placed n call h₁]
      cases hprep : (do prepareCall; setEtype .EXPR : CompilerM Unit) c with
      | error e s₁ =>
          rw [hprep] at hrun
          cases hrun
      | ok _ s₁ =>
          rw [hprep] at hrun
          rwa [Lexer.next_congr hx hcur hline] at hrun

/-! ### Whether the value of a slot is fetched -/

/-- The value of the slot is fetched in front of generic arguments. -/
def CalleeEnd.Fetches (es : ExpState) : CalleeEnd → Prop
  | .field _ | .index => es.etype ≠ .BASE ∧ es.donot_get = false
  | .name | .result _ _ => False

/-- Whether a key is fetched matters for no base and where the fetch is
suppressed. -/
theorem derefKeyWith_congr {c : Compiler} (h : c.es.etype = .BASE ∨ c.es.donot_get = true) :
    derefKeyWith needGetBeforeGenerics c = derefKeyWith (pure false) c := by
  unfold derefKeyWith
  rw [getEtype_bind_apply, getEtype_bind_apply]
  split
  · rfl
  · rename_i hbase
    have hdonot : c.es.donot_get = true := h.resolve_left hbase
    have hneed : needGetBeforeGenerics c = .ok false c := by
      unfold needGetBeforeGenerics
      rw [get_bind_apply, hdonot]
      rfl
    rw [bind_apply, hneed]
    rfl

theorem GetConstant_ok {cons : Object} {c c' : Compiler} {m : Int}
    (h : GetConstant cons c = .ok m c') :
    c' = { c with fs := (c.fs.getConstant cons).2 } := by
  unfold GetConstant at h
  obtain ⟨fs, c₁, hfs, h⟩ := bind_eq_ok.mp h
  cases hfs
  generalize c.fs.getConstant cons = found at h ⊢
  obtain ⟨_, c₂, hmodify, h⟩ := bind_eq_ok.mp h
  cases hmodify
  split at h
  · cases h
  · cases h
    rfl

/-- A callee that has nothing to fetch is compiled the same before `<` and
before `(`. -/
theorem emits_generics {e : CalleeEnd} {d : Compiler} (h : ¬ e.Fetches d.es) :
    e.emits d needGetBeforeGenerics d = e.emits d (pure false) d := by
  have hslot (hf : ¬ (d.es.etype ≠ .BASE ∧ d.es.donot_get = false)) :
      d.es.etype = .BASE ∨ d.es.donot_get = true := by
    cases hd : d.es.donot_get with
    | true => exact .inr rfl
    | false => exact .inl (Decidable.not_not.mp fun hbase => hf ⟨hbase, hd⟩)
  cases e with
  | name => rfl
  | result rawcall nargs => rfl
  | index => exact derefKeyWith_congr (hslot h)
  | field target =>
      unfold CalleeEnd.emits
      dsimp only
      rw [bind_apply, bind_apply]
      cases hcons : GetConstant (Lexer.value d.lex .TK_IDENTIFIER) d with
      | error e c => rfl
      | ok m c =>
          cases GetConstant_ok hcons
          exact derefKeyWith_congr (hslot h)

/-! ### The call with and without its generic arguments -/

/-- The rounds of `PrefixedExpr` that skip the generic arguments of the callee. -/
def CalleeEnd.rounds : CalleeEnd → Nat
  | .name => 0
  | _ => 1

/-- The callee from its last token on, and what follows it. -/
def CalleeEnd.compile (e : CalleeEnd) (k : Nat) : CompilerM Unit := do
  e.finish n call
  loop k (fun _ => suffix n call) ()

/-- The callee emits its code and the rest of the source is compiled as its arguments and
what follows them. -/
def CompiledFrom (e : CalleeEnd) (needGet : CompilerM Bool) (k : Nat) (d : Compiler)
    (paren : Lexeme) (rest : List (Except String Lexeme)) (s : Compiler) : Prop :=
  ∃ (c : Compiler) (l : Lexer), e.emits d needGet d = .ok () c ∧
    loop k (fun _ => suffix n call) () (placed (.chr '(') (l.next paren rest) c) = .ok () s

variable {n : Nat} {d s : Compiler} {e : CalleeEnd} {types : List Lexeme} {lt gt paren x : Lexeme}

/-- From `(` on, what the lexer held before does not matter. -/
theorem loop_suffix_next {l₀ l₁ : Lexer} (hparen : paren.token = .chr '(')
    (hx : x.token ≠ .eob) {rest : List (Except String Lexeme)} {c : Compiler} {k : Nat}
    (hrun : loop k (fun _ => suffix n call) ()
      (placed (.chr '(') (l₀.next paren (.ok x :: rest)) c) = .ok () s) :
    loop k (fun _ => suffix n call) ()
      (placed (.chr '(') (l₁.next paren (.ok x :: rest)) c) = .ok () s := by
  have hne : paren.token ≠ .eob := by simp [hparen]
  have hcur : (l₀.next paren (.ok x :: rest)).curtoken =
      (l₁.next paren (.ok x :: rest)).curtoken := by
    rw [Lexer.next_curtoken hne, Lexer.next_curtoken hne]
  exact loop_suffix_congr n call hx rfl rfl hcur rfl hrun

/-- A callee whose end is known is compiled when the rest is compiled from
there. -/
theorem compile_of_finish (hparen : paren.token = .chr '(') (hx : x.token ≠ .eob)
    {input rest : List (Except String Lexeme)} {needGet : CompilerM Bool} {l : Lexer}
    (hfinish : e.finish n call (d.reading input) =
      mapState (placed (.chr '(') (l.next paren (.ok x :: rest))) (e.emits d needGet d))
    (k : Nat) :
    e.compile n call k (d.reading input) = .ok () s ↔
      CompiledFrom n call e needGet k d paren (.ok x :: rest) s := by
  unfold CalleeEnd.compile CompiledFrom
  rw [bind_eq_ok, hfinish]
  constructor
  · rintro ⟨_, s₁, hplaced, hrun⟩
    obtain ⟨c, hemits, rfl⟩ := mapState_eq_ok.mp hplaced
    exact ⟨c, l, hemits, hrun⟩
  · rintro ⟨c, l, hemits, hrun⟩
    exact ⟨(), _, mapState_eq_ok.mpr ⟨c, hemits, rfl⟩, loop_suffix_next call hparen hx hrun⟩

/-- Without the types, the callee ends in front of `(`, where nothing is
fetched early. -/
theorem compile_erased (hparen : paren.token = .chr '(') (hx : x.token ≠ .eob)
    (htoken : d.token ∈ e.tokens) (rest : List (Except String Lexeme)) (k : Nat) :
    e.compile n call k (d.reading (.ok paren :: .ok x :: rest)) = .ok () s ↔
      CompiledFrom n call e (pure false) k d paren (.ok x :: rest) s := by
  have hneed (l : Lexer) : ActsAs (placed paren.token l) NeedGet (pure false) := by
    rw [hparen]
    exact NeedGet_call l
  have hfinish := finish_reading n call htoken (by simp [hparen]) (fun _ => hparen) hneed
    (.ok x :: rest)
  rw [hparen] at hfinish
  exact compile_of_finish call hparen hx hfinish k

/-- The round that skips the types leaves the state as it was, with the lexer
at `(`. -/
theorem loop_generics (ht : TypeList types) (hlt : lt.token = .chr '<')
    (hgt : gt.token = .chr '>') (hparen : paren.token = .chr '(') (hn : types.length ≤ n)
    {l₀ : Lexer} {rest : List (Except String Lexeme)}
    (h : l₀.input = types.map .ok ++ .ok gt :: .ok paren :: rest) (k : Nat) (c : Compiler) :
    ∃ l : Lexer, loop (k + 1) (fun _ => suffix n call) () (placed lt.token l₀ c) =
      loop k (fun _ => suffix n call) () (placed (.chr '(') (l.next paren rest) c) := by
  obtain ⟨l, hl⟩ := suffix_generics call ht hgt hn (c := placed lt.token l₀ c) hlt h
  refine ⟨l, ?_⟩
  rw [loop, bind_apply, hl, hparen]
  rfl

/-- With the value of a slot fetched where `NeedGet` says so in front of `<`, a callee is
compiled as in front of its arguments. -/
theorem compile_generics (ht : TypeList types) (hlt : lt.token = .chr '<')
    (hgt : gt.token = .chr '>') (hparen : paren.token = .chr '(') (hx : x.token ≠ .eob)
    (hn : types.length ≤ n) (htoken : d.token ∈ e.tokens) (rest : List (Except String Lexeme))
    (k : Nat) :
    e.compile n call (k + e.rounds)
        (d.reading (genericsThen lt gt types (.ok paren :: .ok x :: rest))) = .ok () s ↔
      CompiledFrom n call e needGetBeforeGenerics k d paren (.ok x :: rest) s := by
  by_cases hname : e = .name
  · subst hname
    obtain ⟨l, hl⟩ := identifier_generics ht hlt hgt hn
      (d := d.reading (genericsThen lt gt types (.ok paren :: .ok x :: rest))) rfl
    rw [hparen] at hl
    have hfinish : CalleeEnd.name.finish n call (d.reading _) =
        mapState _ (CalleeEnd.name.emits d needGetBeforeGenerics d) :=
      hl.trans (resolve_actsAs _ (identifierName d) d)
    exact compile_of_finish call hparen hx hfinish k
  · have hneed (l : Lexer) : ActsAs (placed lt.token l) NeedGet needGetBeforeGenerics := by
      rw [hlt]
      exact NeedGet_less l
    have hfinish := finish_reading n call htoken (by simp [hlt]) (fun h => absurd h hname) hneed
      (types.map .ok ++ .ok gt :: .ok paren :: .ok x :: rest)
    have hrounds : e.rounds = 1 := by
      cases e with
      | name => exact absurd rfl hname
      | field | index | result => rfl
    have hskip := loop_generics call ht hlt hgt hparen hn (Lexer.next_input
      (d.reading (genericsThen lt gt types (.ok paren :: .ok x :: rest))).lex lt
      (types.map .ok ++ .ok gt :: .ok paren :: .ok x :: rest)) k
    unfold CalleeEnd.compile CompiledFrom
    rw [bind_eq_ok, hrounds]
    constructor
    · rintro ⟨_, s₁, hplaced, hrun⟩
      rw [genericsThen, hfinish] at hplaced
      obtain ⟨c, hemits, rfl⟩ := mapState_eq_ok.mp hplaced
      obtain ⟨l, hl⟩ := hskip c
      exact ⟨c, l, hemits, hl.symm.trans hrun⟩
    · rintro ⟨c, l₀, hemits, hrun⟩
      obtain ⟨l, hl⟩ := hskip c
      exact ⟨(), _, hfinish.trans (mapState_eq_ok.mpr ⟨c, hemits, rfl⟩),
        hl.trans (loop_suffix_next call hparen hx hrun)⟩

/-! ### A call without arguments -/

@[simp] theorem addInstruction_targetstack (fs : FuncState) (i : Instruction) :
    (fs.addInstruction i).targetstack = fs.targetstack := by
  unfold FuncState.addInstruction
  repeat' split
  all_goals rfl

@[simp] theorem addInstruction_vlocals (fs : FuncState) (i : Instruction) :
    (fs.addInstruction i).vlocals = fs.vlocals := by
  unfold FuncState.addInstruction
  repeat' split
  all_goals rfl

@[simp] theorem addInstruction_stacksize (fs : FuncState) (i : Instruction) :
    (fs.addInstruction i).stacksize = fs.stacksize := by
  unfold FuncState.addInstruction
  repeat' split
  all_goals rfl

/-- The number of targets. -/
def targets (c : Compiler) : Nat := c.fs.targetstack.length

theorem PopTarget_targets {c c' : Compiler} {m : Nat} (h : PopTarget c = .ok m c') :
    targets c = targets c' + 1 := by
  unfold PopTarget at h
  obtain ⟨fs, c₁, hfs, h⟩ := bind_eq_ok.mp h
  cases hfs
  cases hpop : c.fs.popTarget with
  | none =>
      rw [hpop] at h
      cases h
  | some p =>
      rw [hpop] at h
      cases h
      unfold FuncState.popTarget at hpop
      split at hpop
      · cases hpop
      · rename_i npos rest hstack
        split at hpop
        · cases hpop
        · cases hpop
          simp [targets, hstack]

/-- A register of its own for the new target. -/
def pushed (c : Compiler) : Compiler :=
  { c with fs := { c.fs with
      vlocals := c.fs.vlocals.push .temporary
      stacksize := max c.fs.stacksize (c.fs.vlocals.size + 1)
      targetstack := c.fs.vlocals.size :: c.fs.targetstack } }

theorem PushTarget_ok {c c' : Compiler} {m : Nat} (h : PushTarget c = .ok m c') :
    m = c.fs.vlocals.size ∧ c' = pushed c := by
  unfold PushTarget AllocStackPos at h
  obtain ⟨npos, c₁, halloc, h⟩ := bind_eq_ok.mp h
  obtain ⟨fs, c₂, hfs, halloc⟩ := bind_eq_ok.mp halloc
  cases hfs
  dsimp only at halloc
  split at halloc
  · cases halloc
  · cases halloc
    cases h
    exact ⟨rfl, rfl⟩

theorem PushTarget_apply {c : Compiler} (h : c.fs.vlocals.size < c.fs.stacksize) :
    PushTarget c = .ok c.fs.vlocals.size (pushed c) := by
  have hroom : ¬ (c.fs.stacksize < c.fs.vlocals.size + 1 ∧ MAX_FUNC_STACKSIZE < c.fs.stacksize) :=
    fun hfull => by omega
  have halloc : AllocStackPos c = .ok c.fs.vlocals.size
      { c with fs := { c.fs with
          vlocals := c.fs.vlocals.push .temporary
          stacksize := max c.fs.stacksize (c.fs.vlocals.size + 1) } } := by
    unfold AllocStackPos
    rw [getFs_bind_apply]
    dsimp only
    rw [if_neg hroom]
    rfl
  unfold PushTarget
  rw [bind_apply, halloc]
  rfl

theorem PopTarget_apply {c : Compiler} {v : VLocal} {V : Array VLocal} {T : List Nat}
    (hstack : c.fs.targetstack = V.size :: T) (hlocals : c.fs.vlocals = V.push v)
    (hv : v.name = .null) :
    PopTarget c = .ok V.size { c with fs := { c.fs with vlocals := V, targetstack := T } } := by
  have hpop : c.fs.popTarget = some (V.size, { c.fs with vlocals := V, targetstack := T }) := by
    unfold FuncState.popTarget
    rw [hstack, hlocals]
    simp [hv]
  unfold PopTarget
  rw [getFs_bind_apply, hpop]
  rfl

/-- A fetched object is prepared in two fresh temporaries: the callee and
`this`. -/
theorem prepareCall_object {c c' : Compiler} (hc : c.es.etype = .OBJECT)
    (h : prepareCall c = .ok () c') :
    targets c' = targets c ∧ ∃ (V : Array VLocal) (T : List Nat),
      c'.fs.vlocals = (V.push .temporary).push .temporary ∧
      c'.fs.targetstack = (V.size + 1) :: V.size :: T ∧ V.size + 1 < c'.fs.stacksize := by
  unfold prepareCall at h
  rw [get_bind_apply, hc] at h
  obtain ⟨key, c₁, hkey, h⟩ := bind_eq_ok.mp h
  obtain ⟨table, c₂, htable, h⟩ := bind_eq_ok.mp h
  obtain ⟨closure, c₃, hclosure, h⟩ := bind_eq_ok.mp h
  obtain ⟨ttarget, c₄, httarget, h⟩ := bind_eq_ok.mp h
  cases h
  have h₁ := PopTarget_targets hkey
  have h₂ := PopTarget_targets htable
  obtain ⟨rfl, rfl⟩ := PushTarget_ok hclosure
  obtain ⟨rfl, rfl⟩ := PushTarget_ok httarget
  constructor
  · simp only [targets, pushed, addInstruction_targetstack, List.length_cons] at h₁ h₂ ⊢
    omega
  · refine ⟨c₂.fs.vlocals, c₂.fs.targetstack, ?_, ?_, ?_⟩
    · simp [pushed]
    · simp [pushed]
    · simp only [pushed, addInstruction_stacksize, Array.size_push]
      omega

theorem emitCall_empty : emitCall false 1 = (do
    let stackbase ← PopTarget
    let closure ← PopTarget
    AddInstruction .CALL (← PushTarget) closure stackbase (1 : Nat)) := rfl

/-- A call of one argument pops the argument and the callee and pushes its
result. -/
theorem emitCall_targets {c c' : Compiler} (h : emitCall false 1 c = .ok () c') :
    targets c = targets c' + 1 := by
  rw [emitCall_empty] at h
  obtain ⟨stackbase, c₂, hstackbase, h⟩ := bind_eq_ok.mp h
  obtain ⟨closure, c₃, hclosure, h⟩ := bind_eq_ok.mp h
  obtain ⟨target, c₄, htarget, h⟩ := bind_eq_ok.mp h
  cases h
  have h₁ := PopTarget_targets hstackbase
  have h₂ := PopTarget_targets hclosure
  obtain ⟨rfl, rfl⟩ := PushTarget_ok htarget
  simp only [targets, pushed, addInstruction_targetstack, List.length_cons] at h₁ h₂ ⊢
  omega

/-- The call of a closure that has just been pushed with its `this`. -/
theorem emitCall_apply {c : Compiler} {V : Array VLocal} {T : List Nat}
    (hlocals : c.fs.vlocals = (V.push .temporary).push .temporary)
    (hstack : c.fs.targetstack = (V.size + 1) :: V.size :: T)
    (hroom : V.size + 1 < c.fs.stacksize) : ∃ c', emitCall false 1 c = .ok () c' := by
  have htop : c.fs.targetstack = (V.push VLocal.temporary).size :: V.size :: T := by
    rw [hstack, Array.size_push]
  rw [emitCall_empty, bind_apply, PopTarget_apply htop hlocals rfl]
  dsimp only
  rw [bind_apply, PopTarget_apply rfl rfl rfl]
  dsimp only
  rw [bind_apply, PushTarget_apply (by dsimp only; omega)]
  exact ⟨_, rfl⟩

theorem Lex_nil {c : Compiler} (h : c.lex.input = []) :
    Lex c = .ok () (placed .eob { c.lex with lasttokenline := c.lex.currentline } c) := by
  unfold Lex Lexer.lex
  rw [get_bind_apply]
  dsimp only
  rw [h]
  rfl

theorem callArguments_empty {c : Compiler} (h : c.token = .chr ')') (n : Nat) :
    callArguments (n + 1) call c = .ok 1 c := by
  unfold callArguments
  rw [loop, bind_apply, getToken_bind_apply, if_pos h]
  rfl

/-- The arguments `()` at the end of the source. -/
theorem callWith_empty (n : Nat) {l : Lexer} (hl : l.input = []) (c : Compiler) :
    callWith (run (n + 2)) (placed (.chr ')') l c) =
      match emitCall false 1 c with
      | .ok _ s => .ok (.inl ()) (placed .eob { l with lasttokenline := l.currentline } s)
      | .error x s => .error x (placed .eob { l with lasttokenline := l.currentline } s) := by
  have hargs : run (n + 2) (.FunctionCallArgs false) (placed (.chr ')') l c) =
      mapState (placed .eob { l with lasttokenline := l.currentline }) (emitCall false 1 c) := by
    have hbody : run (n + 2) (.FunctionCallArgs false) =
        functionCallArgs (n + 1) (run (n + 1)) false := rfl
    rw [hbody, functionCallArgs_result, bind_apply, callArguments_empty _ (placed_token _ _ _)]
    unfold CalleeEnd.finish
    dsimp only
    rw [bind_apply, Lex_nil hl]
    exact emitCall_actsAs _ _ (by decide) _ false 1 c
  rw [callWith, bind_apply, hargs]
  cases emitCall false 1 c with
  | ok _ s => rfl
  | error x s => rfl

/-- The end of the source ends the suffixes. -/
theorem loop_suffix_eob {c : Compiler} (h : c.token = .eob) (k : Nat) :
    loop (k + 1) (fun _ => suffix n call) () c = .ok () c := by
  have hsuffix : suffix n call c = .ok (.inr ()) c := by
    unfold suffix
    rw [getToken_bind_apply, h]
    rfl
  rw [loop, bind_apply, hsuffix]
  rfl

/-- `()` after a callee and nothing behind it. -/
theorem loop_empty (m n : Nat) {l : Lexer} {x : Lexeme} (hx : x.token = .chr ')')
    (hl : l.input = [.ok x]) (c : Compiler) :
    ∃ l' : Lexer, ∀ s,
      loop 2 (fun _ => suffix m (run (n + 2))) () (placed (.chr '(') l c) = .ok () s ↔
        ∃ c₁ c₂ : Compiler, (do prepareCall; setEtype .EXPR : CompilerM Unit) c = .ok () c₁ ∧
          emitCall false 1 c₁ = .ok () c₂ ∧ s = placed .eob l' c₂ := by
  refine ⟨{ l.next x [] with lasttokenline := (l.next x []).currentline }, fun s => ?_⟩
  rw [loop, bind_apply, suffix_placed m _ hl, hx]
  cases hprep : (do prepareCall; setEtype .EXPR : CompilerM Unit) c with
  | error x c₁ =>
      constructor
      · intro h
        cases h
      · rintro ⟨_, _, h, _⟩
        cases h
  | ok _ c₁ =>
      dsimp only
      rw [callWith_empty n rfl]
      cases hcall : emitCall false 1 c₁ with
      | error x c₂ =>
          constructor
          · intro h
            cases h
          · rintro ⟨_, _, h, h', _⟩
            cases h
            cases hcall.symm.trans h'
      | ok _ c₂ =>
          dsimp only
          rw [loop_suffix_eob _ (placed_token _ _ _)]
          constructor
          · intro h
            cases h
            exact ⟨c₁, c₂, rfl, hcall, rfl⟩
          · rintro ⟨_, _, h, h', rfl⟩
            cases h
            cases hcall.symm.trans h'
            rfl

/-- What a call of a slot without arguments does to the targets. -/
theorem emitCall_slot {c : Compiler} (hc : c.es.etype = .OBJECT) {c₁ : Compiler}
    (h : (do prepareCall; setEtype .EXPR : CompilerM Unit) c = .ok () c₁) :
    (∃ c₂, emitCall false 1 c₁ = .ok () c₂) ∧
      ∀ c₂, emitCall false 1 c₁ = .ok () c₂ → targets c = targets c₂ + 1 := by
  obtain ⟨_, c₀, hprep, h⟩ := bind_eq_ok.mp h
  cases h
  obtain ⟨htargets, V, T, hlocals, hstack, hroom⟩ := prepareCall_object hc hprep
  constructor
  · exact emitCall_apply hlocals hstack hroom
  · intro c₂ hcall
    have hcalled := emitCall_targets hcall
    rw [← htargets]
    exact hcalled

theorem Emit2ArgsOP_targets {op : Opcode} {p3 : Int} {c c' : Compiler}
    (h : Emit2ArgsOP op p3 c = .ok () c') : targets c = targets c' + 1 := by
  unfold Emit2ArgsOP at h
  obtain ⟨p2, c₁, hp2, h⟩ := bind_eq_ok.mp h
  obtain ⟨p1, c₂, hp1, h⟩ := bind_eq_ok.mp h
  obtain ⟨target, c₃, htarget, h⟩ := bind_eq_ok.mp h
  cases h
  have h₁ := PopTarget_targets hp2
  have h₂ := PopTarget_targets hp1
  obtain ⟨rfl, rfl⟩ := PushTarget_ok htarget
  simp only [targets, pushed, addInstruction_targetstack, List.length_cons] at h₁ h₂ ⊢
  omega

theorem derefKeyWith_object {needGet : CompilerM Bool} {c c' : Compiler}
    (hc : c.es.etype ≠ .BASE) (h : derefKeyWith needGet c = .ok () c') :
    c'.es.etype = .OBJECT := by
  unfold derefKeyWith at h
  rw [getEtype_bind_apply, if_neg hc] at h
  obtain ⟨fetched, c₁, -, h⟩ := bind_eq_ok.mp h
  split at h
  · obtain ⟨_, c₂, -, h⟩ := bind_eq_ok.mp h
    cases h
    rfl
  · cases h
    rfl

/-- Where the value of the slot is fetched, one target is left of the two. -/
theorem derefKeyWith_fetched {c c₀ c₁ : Compiler}
    (hfetch : c.es.etype ≠ .BASE ∧ c.es.donot_get = false)
    (h₀ : derefKeyWith (pure false) c = .ok () c₀)
    (h₁ : derefKeyWith needGetBeforeGenerics c = .ok () c₁) : targets c₀ = targets c₁ + 1 := by
  have hneed : needGetBeforeGenerics c = .ok true c := by
    unfold needGetBeforeGenerics
    rw [get_bind_apply, hfetch.2]
    rfl
  unfold derefKeyWith at h₀ h₁
  rw [getEtype_bind_apply, if_neg hfetch.1] at h₀ h₁
  cases h₀
  rw [bind_apply, hneed] at h₁
  obtain ⟨_, c₂, hget, h₁⟩ := bind_eq_ok.mp h₁
  cases h₁
  have htargets : targets c = targets c₂ + 1 := Emit2ArgsOP_targets hget
  exact htargets

/-- The load of the name of a field leaves the rest of the compiler as it is. -/
theorem emits_field {target : Nat} {needGet : CompilerM Bool} {c : Compiler}
    (h : (CalleeEnd.field target).emits d needGet d = .ok () c) :
    ∃ m, derefKeyWith needGet
      { d with fs := ((d.fs.getConstant (Lexer.value d.lex .TK_IDENTIFIER)).2.addInstruction
          (.make .LOAD target m 0 0)) } = .ok () c := by
  obtain ⟨m, c₁, hcons, h⟩ := bind_eq_ok.mp h
  cases GetConstant_ok hcons
  obtain ⟨_, c₂, hload, h⟩ := bind_eq_ok.mp h
  cases hload
  exact ⟨m, h⟩

/-- What was not fetched yet is an object after its end is emitted. -/
theorem emits_object {needGet : CompilerM Bool} {c : Compiler} (hfetch : e.Fetches d.es)
    (h : e.emits d needGet d = .ok () c) : c.es.etype = .OBJECT := by
  cases e with
  | name => exact hfetch.elim
  | result rawcall nargs => exact hfetch.elim
  | index => exact derefKeyWith_object hfetch.1 h
  | field target =>
      obtain ⟨m, h⟩ := emits_field h
      exact derefKeyWith_object (by exact hfetch.1) h

/-- A fetch in front of the types takes one target more off the stack than its
absence does. -/
theorem emits_fetched {c₀ c₁ : Compiler} (hfetch : e.Fetches d.es)
    (h₀ : e.emits d (pure false) d = .ok () c₀)
    (h₁ : e.emits d needGetBeforeGenerics d = .ok () c₁) : targets c₀ = targets c₁ + 1 := by
  cases e with
  | name => exact hfetch.elim
  | result rawcall nargs => exact hfetch.elim
  | index => exact derefKeyWith_fetched hfetch h₀ h₁
  | field target =>
      obtain ⟨m, c, hcons, h₀⟩ := bind_eq_ok.mp h₀
      obtain ⟨m', c', hcons', h₁⟩ := bind_eq_ok.mp h₁
      cases hcons.symm.trans hcons'
      cases GetConstant_ok hcons
      obtain ⟨_, c₂, hload, h₀⟩ := bind_eq_ok.mp h₀
      obtain ⟨_, c₂', hload', h₁⟩ := bind_eq_ok.mp h₁
      cases hload
      cases hload'
      exact derefKeyWith_fetched (by exact hfetch) h₀ h₁

/-- The closing bracket of a call without arguments. -/
def closing : Lexeme := { token := .chr ')' }

/-- Where the value of the slot is fetched, the call without arguments leaves one target less
with generic arguments than without. -/
theorem targets_fetched {m : Nat} {s₀ s₁ : Compiler} (ht : TypeList types)
    (hlt : lt.token = .chr '<') (hgt : gt.token = .chr '>') (hparen : paren.token = .chr '(')
    (hn : types.length ≤ m + 2) (htoken : d.token ∈ e.tokens) (hfetch : e.Fetches d.es)
    (h₀ : e.compile (m + 2) (run (m + 2)) 2 (d.reading [.ok paren, .ok closing]) = .ok () s₀)
    (h₁ : e.compile (m + 2) (run (m + 2)) (2 + e.rounds)
      (d.reading (genericsThen lt gt types [.ok paren, .ok closing])) = .ok () s₁) :
    targets s₀ = targets s₁ + 1 := by
  have hclosing : closing.token ≠ .eob := by decide
  obtain ⟨c₀, l₀, hemits₀, hrun₀⟩ := (compile_erased _ hparen hclosing htoken [] 2).mp h₀
  obtain ⟨c₁, l₁, hemits₁, hrun₁⟩ :=
    (compile_generics _ ht hlt hgt hparen hclosing hn htoken [] 2).mp h₁
  have htargets := emits_fetched hfetch hemits₀ hemits₁
  obtain ⟨l, hloop₀⟩ := loop_empty (m + 2) m rfl (Lexer.next_input l₀ paren [.ok closing]) c₀
  obtain ⟨l', hloop₁⟩ := loop_empty (m + 2) m rfl (Lexer.next_input l₁ paren [.ok closing]) c₁
  obtain ⟨c, c', hprep, hcall, rfl⟩ := (hloop₀ s₀).mp hrun₀
  obtain ⟨b, b', hprep', hcall', rfl⟩ := (hloop₁ s₁).mp hrun₁
  have hslot₀ := (emitCall_slot (emits_object hfetch hemits₀) hprep).2 c' hcall
  have hslot₁ := (emitCall_slot (emits_object hfetch hemits₁) hprep').2 b' hcall'
  simp only [targets, placed] at htargets hslot₀ hslot₁ ⊢
  omega

/-- The callee compiles in front of an argument list. -/
def CalleeEnd.Called (e : CalleeEnd) (n : Nat) (d : Compiler) (paren : Lexeme) : Prop :=
  ∃ s, (do e.finish n (run n); prepareCall) (d.reading [.ok paren]) = .ok () s

/-- The erased call without arguments compiles wherever the callee itself
does. -/
theorem compile_empty {m : Nat} (hparen : paren.token = .chr '(') (htoken : d.token ∈ e.tokens)
    (hfetch : e.Fetches d.es) (hcalled : e.Called (m + 2) d paren) :
    ∃ s, e.compile (m + 2) (run (m + 2)) 2 (d.reading [.ok paren, .ok closing]) = .ok () s := by
  have hclosing : closing.token ≠ .eob := by decide
  obtain ⟨s, hcalled⟩ := hcalled
  obtain ⟨_, s₁, hfinish, hprep⟩ := bind_eq_ok.mp hcalled
  rw [finish_reading _ _ htoken (by simp [hparen]) (fun _ => hparen)
    (fun l => hparen ▸ NeedGet_call l), hparen] at hfinish
  obtain ⟨c, hemits, rfl⟩ := mapState_eq_ok.mp hfinish
  rw [commutes_prepareCall _ _ c] at hprep
  obtain ⟨c₀, hprep, -⟩ := mapState_eq_ok.mp hprep
  have hexpr : (do prepareCall; setEtype .EXPR : CompilerM Unit) c =
      .ok () { c₀ with es := { c₀.es with etype := .EXPR } } :=
    bind_eq_ok.mpr ⟨(), c₀, hprep, rfl⟩
  obtain ⟨⟨c₂, hcall⟩, -⟩ := emitCall_slot (emits_object hfetch hemits) hexpr
  obtain ⟨l', hloop⟩ := loop_empty (m + 2) m rfl
    (Lexer.next_input d.lex paren [.ok closing]) c
  have hrun := (hloop _).mpr ⟨_, c₂, hexpr, hcall, rfl⟩
  exact ⟨_, (compile_erased _ hparen hclosing htoken [] 2).mpr ⟨c, d.lex, hemits, hrun⟩⟩

/-- A callee that is not fetched is compiled as in front of its arguments. -/
theorem compile_unfetched (ht : TypeList types) (hlt : lt.token = .chr '<')
    (hgt : gt.token = .chr '>') (hparen : paren.token = .chr '(') (hx : x.token ≠ .eob)
    (hn : types.length ≤ n) (htoken : d.token ∈ e.tokens) (hfetch : ¬ e.Fetches d.es)
    (rest : List (Except String Lexeme)) (k : Nat) :
    e.compile n call (k + e.rounds)
        (d.reading (genericsThen lt gt types (.ok paren :: .ok x :: rest))) = .ok () s ↔
      e.compile n call k (d.reading (.ok paren :: .ok x :: rest)) = .ok () s := by
  rw [compile_generics call ht hlt hgt hparen hx hn htoken, compile_erased call hparen hx htoken,
    CompiledFrom, CompiledFrom, emits_generics hfetch]

/-- Generic arguments are erased: the compiler ends in the state it ends in without them,
whatever the arguments are and whatever follows, exactly if it does not fetch the value of
the slot that is called. -/
theorem generics_erased_iff {m : Nat} (ht : TypeList types) (hlt : lt.token = .chr '<')
    (hgt : gt.token = .chr '>') (hparen : paren.token = .chr '(') (hn : types.length ≤ m + 2)
    (htoken : d.token ∈ e.tokens) (hcalled : e.Called (m + 2) d paren) :
    (∀ (x : Lexeme) (rest : List (Except String Lexeme)) (k : Nat) (s : Compiler),
      x.token ≠ .eob →
      e.compile (m + 2) (run (m + 2)) k (d.reading (.ok paren :: .ok x :: rest)) = .ok () s →
      e.compile (m + 2) (run (m + 2)) (k + e.rounds)
        (d.reading (genericsThen lt gt types (.ok paren :: .ok x :: rest))) = .ok () s) ↔
    ¬ e.Fetches d.es := by
  constructor
  · intro h hfetch
    obtain ⟨s, hs⟩ := compile_empty hparen htoken hfetch hcalled
    have htargets := targets_fetched ht hlt hgt hparen hn htoken hfetch hs
      (h closing [] 2 s (by decide) hs)
    omega
  · intro hfetch x rest k s hx hs
    exact (compile_unfetched _ ht hlt hgt hparen hx hn htoken hfetch rest k).mpr hs

/-! ### Behind a field and an index -/

/-- From `c` on, a suffix that reads a slot brings the compiler to the last token of the callee. -/
def CalleeEnd.Reached (call : Proc → CompilerM Unit) (c d : Compiler) : CalleeEnd → Prop
  | .field target => c.token = .chr '.' ∧ (do Lex; PushTarget) c = .ok target d
  | .index =>
    c.token = .chr '[' ∧ prevtokenIs '\n' c = .ok false c ∧
      (do Lex; call .Expression) c = .ok () d
  | .name | .result _ _ => False

/-- The suffixes from there on are the callee and what follows it. -/
theorem loop_reached {c d : Compiler} (h : e.Reached call c d) (k : Nat) :
    loop (k + 1) (fun _ => suffix n call) () c = e.compile n call k d := by
  have hround {p : CompilerM Unit} (hsuffix : suffix n call c = (do p; return Sum.inl ()) d) :
      loop (k + 1) (fun _ => suffix n call) () c =
        (do p; loop k (fun _ => suffix n call) ()) d := by
    rw [loop, bind_apply, hsuffix, bind_apply, bind_apply]
    cases p d with
    | error err d' => rfl
    | ok _ d' => rfl
  cases e with
  | name => exact h.elim
  | result rawcall nargs => exact h.elim
  | field target =>
      obtain ⟨hdot, hopen⟩ := h
      apply hround
      rw [suffix_field n call hdot]
      obtain ⟨_, c₁, hlex, hpush⟩ := bind_eq_ok.mp hopen
      rw [bind_apply, hlex]
      dsimp only
      rw [bind_apply, hpush]
  | index =>
      obtain ⟨hbracket, hprev, hopen⟩ := h
      apply hround
      rw [suffix_index n call hbracket]
      obtain ⟨_, c₁, hlex, hexp⟩ := bind_eq_ok.mp hopen
      rw [bind_apply, hprev]
      dsimp only
      rw [if_neg Bool.false_ne_true, bind_apply, hlex]
      dsimp only
      rw [bind_apply, hexp]

/-- A prefixed expression goes on behind a field or an index that is not fetched as it does
without the generic arguments. -/
theorem loop_erased (ht : TypeList types) (hlt : lt.token = .chr '<') (hgt : gt.token = .chr '>')
    (hparen : paren.token = .chr '(') (hx : x.token ≠ .eob) (hn : types.length ≤ n)
    (htoken : d.token ∈ e.tokens) (hfetch : ¬ e.Fetches d.es) {c c' : Compiler}
    {rest : List (Except String Lexeme)}
    (hreached : e.Reached call c (d.reading (.ok paren :: .ok x :: rest)))
    (hreached' : e.Reached call c'
      (d.reading (genericsThen lt gt types (.ok paren :: .ok x :: rest)))) (k : Nat) :
    loop (k + e.rounds + 1) (fun _ => suffix n call) () c' = .ok () s ↔
      loop (k + 1) (fun _ => suffix n call) () c = .ok () s := by
  rw [loop_reached call hreached', loop_reached call hreached]
  exact compile_unfetched call ht hlt hgt hparen hx hn htoken hfetch rest k

/-- A token of a source in which every name is `a` and every number 1. -/
def lexeme (t : Token) : Lexeme := { token := t, svalue := sc "a", nvalue := 1 }

theorem lexeme_token (t : Token) : (lexeme t).token = t := rfl

def sourceOf (tokens : List Token) : List (Except String Lexeme) :=
  tokens.map fun t => .ok (lexeme t)

/-- `a.a<int>(1)` is not compiled as `a.a(1)` is. -/
theorem not_generics_erased :
    result (do Lex; run 30 .Expression) (start .null false [] (sourceOf
      [.TK_IDENTIFIER, .chr '.', .TK_IDENTIFIER, .chr '(', .TK_INTEGER, .chr ')'])) = some () ∧
    result (do Lex; run 30 .Expression) (start .null false [] (sourceOf
      [.TK_IDENTIFIER, .chr '.', .TK_IDENTIFIER, .chr '<', .TK_INT, .chr '>', .chr '(',
        .TK_INTEGER, .chr ')'])) = none := by
  decide +kernel

/-- The compiler at a name. -/
def atName : Compiler :=
  { start .null false [] [] with token := .TK_IDENTIFIER }

/-- `a<int>(1)` is compiled as `a(1)` is. -/
theorem generics_erased_iff_name :
    ∃ s, CalleeEnd.name.compile 30 (run 30) 2 (atName.reading (sourceOf
        [.chr '(', .TK_INTEGER, .chr ')'])) = .ok () s ∧
      CalleeEnd.name.compile 30 (run 30) 2 (atName.reading (sourceOf
        [.chr '<', .TK_INT, .chr '>', .chr '(', .TK_INTEGER, .chr ')'])) = .ok () s := by
  obtain ⟨s, hs⟩ := result_eq_some.mp (by decide +kernel :
    result (CalleeEnd.name.compile 30 (run 30) 2) (atName.reading (sourceOf
      [.chr '(', .TK_INTEGER, .chr ')'])) = some ())
  have hcalled : CalleeEnd.name.Called 30 atName (lexeme (.chr '(')) :=
    result_eq_some.mp (by decide +kernel)
  have htypes : TypeList [lexeme .TK_INT] := .last rfl
  have herased := generics_erased_iff htypes (lexeme_token (.chr '<')) (lexeme_token (.chr '>'))
    (lexeme_token _) (by decide) (by decide) hcalled
  exact ⟨s, hs, herased.mpr (fun h => h) _ _ 2 s (by decide) hs⟩

end Compiler

end GameScript
