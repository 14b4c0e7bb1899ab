import GameScript.Compiler.Places

/-!
The places of the compiler's procedures. A type name is read in four places, after the name of a
local variable or a parameter, after `->`, and between `<` and `>`; everywhere else a type keyword
is refused.
-/

namespace GameScript.Compiler

open Effect

set_option synthInstance.maxSize 100000
set_option synthInstance.maxHeartbeats 400000

variable {α β γ : Type}

/-! ### Tokens -/

instance plain_TK_IDENTIFIER : Plain .TK_IDENTIFIER := ⟨by simp [IsTypeWord]⟩

instance plain_TK_CONSTRUCTOR : Plain .TK_CONSTRUCTOR := ⟨by simp [IsTypeWord]⟩

instance plain_TK_STRING_LITERAL : Plain .TK_STRING_LITERAL := ⟨by simp [IsTypeWord]⟩

instance plain_TK_INTEGER : Plain .TK_INTEGER := ⟨by simp [IsTypeWord]⟩

instance plain_TK_ARROW : Plain .TK_ARROW := ⟨by simp [IsTypeWord]⟩

instance plain_TK_OR : Plain .TK_OR := ⟨by simp [IsTypeWord]⟩

instance plain_TK_AND : Plain .TK_AND := ⟨by simp [IsTypeWord]⟩

instance plain_TK_ELSE : Plain .TK_ELSE := ⟨by simp [IsTypeWord]⟩

instance plain_TK_WHILE : Plain .TK_WHILE := ⟨by simp [IsTypeWord]⟩

instance plain_TK_IN : Plain .TK_IN := ⟨by simp [IsTypeWord]⟩

instance plain_TK_LOCAL : Plain .TK_LOCAL := ⟨by simp [IsTypeWord]⟩

instance plain_TK_FUNCTION : Plain .TK_FUNCTION := ⟨by simp [IsTypeWord]⟩

instance plain_TK_CATCH : Plain .TK_CATCH := ⟨by simp [IsTypeWord]⟩

instance plain_TK_DOUBLE_COLON : Plain .TK_DOUBLE_COLON := ⟨by simp [IsTypeWord]⟩

instance plain_TK_CASE : Plain .TK_CASE := ⟨by simp [IsTypeWord]⟩

instance plain_TK_DEFAULT : Plain .TK_DEFAULT := ⟨by simp [IsTypeWord]⟩

instance plain_TK_EXTENDS : Plain .TK_EXTENDS := ⟨by simp [IsTypeWord]⟩

instance plain_TK_VARPARAMS : Plain .TK_VARPARAMS := ⟨by simp [IsTypeWord]⟩

instance plain_TK_ATTR_OPEN : Plain .TK_ATTR_OPEN := ⟨by simp [IsTypeWord]⟩

instance plain_TK_ATTR_CLOSE : Plain .TK_ATTR_CLOSE := ⟨by simp [IsTypeWord]⟩

instance plain_TK_STATIC : Plain .TK_STATIC := ⟨by simp [IsTypeWord]⟩

instance reads_Expect (tok : Token) [htok : Plain tok] : Reads (Expect tok) := by
  unfold Expect
  refine Reads.get_bind (fun _ _ => rfl) (fun c => ?_) fun c ht => ?_
  · infer_instance
  · rw [if_pos ⟨htok.ne ht, fun h => plain_TK_CONSTRUCTOR.ne ht h.1⟩]
    infer_instance

instance reads_OptionalSemicolon : Reads OptionalSemicolon := by
  unfold OptionalSemicolon
  infer_instance

instance reads_endStatement : Reads endStatement := by
  unfold endStatement
  infer_instance

instance reads_loop (n : Nat) {body : α → CompilerM (α ⊕ β)} [h : ∀ a, Reads (body a)] (a : α) :
    Reads (loop n body a) := by
  induction n generalizing a with
  | zero => exact reads_throw _
  | succ n ih =>
    unfold loop
    apply (h a).bind
    intro r
    cases r with
    | inl a => exact ih a
    | inr b => infer_instance

instance reads_whileLoop (n : Nat) {cond : CompilerM Bool} {body : CompilerM Unit}
    [hc : Reads cond] [hb : Reads body] : Reads (whileLoop n cond body) := by
  induction n with
  | zero => exact reads_throw _
  | succ n ih =>
    unfold whileLoop
    infer_instance

/-- The body starts at a token that the condition looks for. -/
theorem reads_whileToken {q : Token → Bool} (hq : ∀ t, IsTypeWord t → q t = false) (n : Nat)
    {body : CompilerM Unit} [hb : Opens body] :
    Reads (whileLoop n (do return q (← getToken)) body) := by
  induction n with
  | zero => exact reads_throw _
  | succ n ih =>
    have hround (u : Token) : Opens (if q u = true then
        (do body; whileLoop n (do return q (← getToken)) body) else pure ()) := inferInstance
    unfold whileLoop
    simp only [bind_assoc, pure_bind]
    apply Reads.matchToken hround
    intro t ht
    simp only [hq t ht, Bool.false_eq_true, if_false]
    infer_instance

instance reads_whileTok (n : Nat) {tok : Token} [htok : Plain tok] {body : CompilerM Unit}
    [hb : Opens body] : Reads (whileLoop n (do return (← getToken) = tok) body) :=
  reads_whileToken (fun _ ht => decide_eq_false (htok.ne ht)) n

theorem Reads.ifToken {tok : Token} [htok : Plain tok] {m m' : CompilerM β} (h : Opens m)
    (h' : Reads m') : Reads (getToken >>= fun u => if u = tok then m else m') := inferInstance

/-! ### Type names -/

/-- A token is read that has to name a type, and the one after it. -/
theorem opens_typeName {msg : String} {g : Compiler → γ → CompilerM β} {k : Compiler → CompilerM β}
    (hsame : ∀ y c, k (feed y c) = k c) (hk : ∀ c, Reads (k c)) :
    Opens (Lex >>= fun _ => get >>= fun c =>
      if (!c.token.isType) = true then error msg >>= g c else Lex >>= fun _ => k c) := by
  have hbad (c : Compiler) (hc : c.token.isType = false) : (get >>= fun c =>
      if (!c.token.isType) = true then error msg >>= g c else Lex >>= fun _ => k c) c =
        .error (.error msg) c := by
    rw [get_bind_apply, if_pos (by rw [hc]; rfl)]
    rfl
  have hgood (c : Compiler) (hc : c.token.isType = true) : (get >>= fun c =>
      if (!c.token.isType) = true then error msg >>= g c else Lex >>= fun _ => k c) c =
        (Lex >>= fun _ => k c) c := by
    rw [get_bind_apply, if_neg (by rw [hc]; decide)]
  obtain ⟨m, hm⟩ : ∃ m, m = (Lex >>= fun _ => get >>= fun c =>
      if (!c.token.isType) = true then error msg >>= g c else Lex >>= fun _ => k c) := ⟨_, rfl⟩
  rw [← hm]
  -- At the end of the input there is no name, and an error.
  have hnone {c : Compiler} (hinput : c.lex.input = []) :
      AtEnd (leaves m c) ∧ (leaves m c).loaded = c.loaded := by
    obtain ⟨c₁, hlex, hend, hloaded⟩ := Lex_exhausted hinput
    have hstop : m c = .error (.error msg) c₁ := by
      rw [hm, bind_apply, hlex]
      exact hbad c₁ (by rw [hend.1]; rfl)
    rw [leaves_error hstop]
    exact ⟨hend, hloaded⟩
  have hrefused {x : Lexeme} {c : Compiler} (hinput : c.lex.input = []) {u : Token}
      (hu : u.isType = false) : ∃ c₁, m (feed (placing x u) c) = .error (.error msg) c₁ ∧
        c₁.token = u ∧ c₁.lex.input = [] ∧ c₁.loaded = c.loaded := by
    obtain ⟨c₁, hlex, htoken, hempty, -, -, hloaded⟩ := Lex_fed (x := x) hinput u
    refine ⟨c₁, ?_, htoken, hempty, hloaded⟩
    rw [hm, bind_apply, hlex]
    exact hbad c₁ (htoken ▸ hu)
  have hpassed {x : Lexeme} {c : Compiler} (hinput : c.lex.input = []) {u : Token}
      (hu : u.isType = true) : AtEnd (leaves m (feed (placing x u) c)) ∧
        (leaves m (feed (placing x u) c)).loaded = c.loaded := by
    obtain ⟨c₁, hlex, htoken, hempty, -, -, hloaded⟩ := Lex_fed (x := x) hinput u
    obtain ⟨c₂, hlex₂, hend, hloaded₂⟩ := Lex_exhausted hempty
    have hrest : leaves m (feed (placing x u) c) = leaves (k c₁) c₂ := by
      unfold leaves
      rw [hm, bind_apply, hlex]
      dsimp only
      rw [hgood c₁ (htoken ▸ hu), bind_apply, hlex₂]
    rw [hrest]
    exact ⟨(hk c₁).ended c₂ hend, ((hk c₁).loaded hend).trans (hloaded₂.trans hloaded)⟩
  refine { place := fun x c => ?_, ended := fun c hc => (hnone hc.2).1, spent := ?_ }
  · by_cases hinput : c.lex.input = []
    · have hsame := (hnone hinput).2
      apply Place.type
      · refine ⟨(hnone hinput).1, fun msg => ?_, fun u hu => ?_⟩
        · obtain ⟨e, c', hlex, hloaded⟩ := Lex_fed_error hinput msg
          exact ⟨e, c', by rw [hm, bind_apply, hlex], hloaded.trans hsame.symm⟩
        · rw [hsame]
          cases htype : u.isType with
          | false =>
            obtain ⟨c₁, hrun, htoken, hempty, hloaded⟩ := hrefused (x := x) hinput htype
            rw [leaves_error hrun]
            exact ⟨hempty, htoken ▸ hu, hloaded⟩
          | true =>
            obtain ⟨hend, hloaded⟩ := hpassed (x := x) hinput htype
            exact hloaded ▸ hend.spent
      · exact fun u hu => (hpassed hinput hu).1
      · intro u hu
        obtain ⟨c₁, hrun, htoken, -⟩ := hrefused (x := x) hinput hu
        exact ⟨_, c₁, hrun, htoken⟩
      · exact (hpassed hinput rfl).2.trans hsame.symm
    · rw [hm]
      apply place_bind_before fun y => Lex_feed hinput y
      intro _ c₁ _
      cases htype : c₁.token.isType with
      | false =>
        apply Place.before
        intro y
        rw [hbad (feed y c₁) htype, hbad c₁ htype]
        rfl
      | true =>
        apply ((opens_Lex.bind fun _ => hk c₁).place x c₁).of_eq
        · exact hgood c₁ htype
        · intro y
          rw [hgood (feed y c₁) htype, hsame]
  · intro read c hc
    obtain ⟨hend, hloaded⟩ := hnone hc.input
    exact (hloaded.trans hc.loaded) ▸ hend.spent

/-- The same, where only the token matters. -/
theorem opens_typeToken {msg : String} {g : Token → γ → CompilerM β} {k : Token → CompilerM β}
    (hk : ∀ t, Reads (k t)) :
    Opens (Lex >>= fun _ => getToken >>= fun t =>
      if (!t.isType) = true then error msg >>= g t else Lex >>= fun _ => k t) :=
  opens_typeName (g := fun c => g c.token) (fun _ _ => rfl) fun c => hk c.token

/-! ### State -/

instance blind_setDonotGet :
    Blind (modify fun c => { c with es := { c.es with donot_get := true } } : CompilerM Unit) :=
  ⟨fun _ _ => rfl⟩

theorem Reads.readState_bind {f : Compiler → CompilerM β} (hsame : ∀ y c, f (feed y c) = f c)
    (hf : ∀ c, Reads (f c)) : Reads (get >>= f) :=
  Reads.get_bind hsame (fun c => (hf c).toOpens) fun c _ => (hf c).toRefuses

instance reads_withFreshEs {m : CompilerM Unit} [Reads m] : Reads (withFreshEs m) := by
  unfold withFreshEs
  exact Reads.readState_bind (fun _ _ => rfl) fun c => inferInstance

instance reads_withDonotGet {m : CompilerM Unit} [Reads m] : Reads (withDonotGet m) := by
  unfold withDonotGet
  exact Reads.readState_bind (fun _ _ => rfl) fun c => inferInstance

/-! ### Type names -/

instance reads_arraySuffix (what : String) : Reads (arraySuffix what) := by
  unfold arraySuffix
  dsimp only
  refine reads_ifToken (h := opens_Lex.bind fun _ => reads_ifToken (h := ?_))
  exact Opens.get_bind (fun _ _ => rfl) fun c => inferInstance

instance reads_localType : Reads localType := by
  unfold localType
  exact reads_ifToken (h := opens_typeToken fun _ => inferInstance)

instance reads_returnType : Reads returnType := by
  unfold returnType
  exact reads_ifToken (h := opens_typeToken fun _ => inferInstance)

instance reads_parameterType : Reads parameterType := by
  unfold parameterType
  refine reads_ifToken (h := opens_typeName (fun _ _ => rfl) fun c => ?_)
  infer_instance

instance opens_postfixIncDec (diff : Int) : Opens (postfixIncDec diff) := by
  unfold postfixIncDec
  refine opens_Lex.bind fun _ => Reads.readState_bind (fun _ _ => rfl) fun c => ?_
  dsimp only
  split <;> infer_instance

/-- The names between `<` and `>`: each is read where a type name has to stand. -/
instance opens_genericArguments (n : Nat) : Opens (genericArguments n) := by
  unfold genericArguments
  induction n with
  | zero => exact opens_Lex.bind fun _ => reads_throw _
  | succ n ih =>
    have hloop (α β : Type) (p : Prop) [Decidable p] (m m' : CompilerM α) (f : α → CompilerM β) :
        (if p then m else m') >>= f = if p then m >>= f else m' >>= f := by
      split <;> rfl
    unfold loop
    simp only [bind_assoc, hloop, pure_bind]
    apply opens_typeToken
    intro t
    infer_instance

instance reads_emitConstant (id : Object) (constant : Constant) :
    Reads (emitConstant id constant) := by
  unfold emitConstant
  repeat' first | infer_instance | apply Reads.bind | intro _ | split

instance opens_identifier (n : Nat) : Opens (identifier n) := by
  unfold identifier
  refine Opens.get_bind (fun _ _ => rfl) fun c => opens_Lex.bind fun _ => ?_
  dsimp only
  apply Reads.ifToken
  · refine (opens_genericArguments n).bind fun _ => Reads.ifToken (opens_Lex.bind fun _ => ?_) ?_
    · repeat' first | infer_instance | apply Reads.bind | intro _ | split
    · infer_instance
  · repeat' first | infer_instance | apply Reads.bind | intro _ | split

instance reads_genericNames (n : Nat) : Reads (genericNames n) := by
  unfold genericNames
  infer_instance

instance reads_enterFunction (funcstate : FuncState) : Reads (enterFunction funcstate) :=
  reads_of_same (fun _ => ⟨rfl, rfl, rfl⟩) ⟨fun _ _ => rfl⟩

instance reads_leaveFunction (func : FunctionProto) (declared : Option Annotation) :
    Reads (leaveFunction func declared) := by
  unfold leaveFunction
  refine Reads.readState_bind (fun _ _ => rfl) fun c => ?_
  split
  · exact reads_of_same (fun _ => ⟨rfl, rfl, rfl⟩) ⟨fun _ _ => rfl⟩
  · infer_instance

/-! ### Loops that a token closes -/

/-- The round is not the last one of a loop. -/
class Continues (m : CompilerM (α ⊕ β)) : Prop where
  continues : ∀ c b c', m c ≠ .ok (.inr b) c'

instance continues_bind {m : CompilerM γ} {f : γ → CompilerM (α ⊕ β)}
    [hf : ∀ a, Continues (f a)] : Continues (m >>= f) := by
  refine ⟨fun c b c' hrun => ?_⟩
  obtain ⟨a, c₁, -, hrest⟩ := bind_eq_ok.mp hrun
  exact (hf a).continues c₁ b c' hrest

instance continues_inl (a : α) : Continues (pure (.inl a) : CompilerM (α ⊕ β)) :=
  ⟨fun _ _ _ hrun => by simp [pure_apply] at hrun⟩

instance continues_ite {p : Prop} [Decidable p] {m m' : CompilerM (α ⊕ β)} [h : Continues m]
    [h' : Continues m'] : Continues (if p then m else m') := by
  split
  · exact h
  · exact h'

/-- A loop that `tok` closes ends there. -/
theorem loop_closed {tok : Token} {result : α → β} {rest : α → CompilerM (α ⊕ β)}
    (hrest : ∀ a, Continues (rest a)) {n : Nat} {a : α} {b : β} {c c' : Compiler}
    (hrun : loop n (fun a => getToken >>= fun u =>
      if u = tok then pure (.inr (result a)) else rest a) a c = .ok b c') : c'.token = tok := by
  induction n generalizing a c with
  | zero => cases hrun
  | succ n ih =>
    obtain ⟨r, c₁, hround, hloop⟩ := bind_eq_ok.mp hrun
    cases r with
    | inl a => exact ih hloop
    | inr b =>
      have hround : (if c.token = tok then pure (.inr (result a)) else rest a) c =
        .ok (.inr b) c₁ := hround
      split at hround
      · rename_i htoken
        cases hround
        cases hloop
        exact htoken
      · exact absurd hround ((hrest a).continues c b c₁)

/-- What follows such a loop may pass the token that closes it. -/
theorem Reads.closedLoop {tok : Token} [htok : Plain tok] {result : α → β}
    {rest : α → CompilerM (α ⊕ β)} {f : β → CompilerM γ} (hrest : ∀ a, Continues (rest a))
    (hread : ∀ a, Reads (rest a)) (hf : ∀ b, Opens (f b)) (n : Nat) (a : α) :
    Reads (loop n (fun a => getToken >>= fun u =>
      if u = tok then pure (.inr (result a)) else rest a) a >>= f) := by
  apply Reads.bind_past
  · infer_instance
  · intro c b c' hrun
    rw [loop_closed hrest hrun]
    exact htok.plain
  · exact hf

/-- The state is looked at, and what follows depends on its token. -/
theorem Reads.matchState {f : Compiler → CompilerM β} (hsame : ∀ y c, f (feed y c) = f c)
    (hf : ∀ c, Opens (f c)) (hrefuse : ∀ c, IsTypeWord c.token → Reads (f c)) :
    Reads (get >>= f) :=
  Reads.get_bind hsame hf fun c hc => (hrefuse c hc).toRefuses

/-- The same, where a float constant may be read. -/
theorem Reads.matchFloat {f : Compiler → CompilerM β} (hsame : ∀ y c, f (feed y c) = f c)
    (hplace : ∀ c, c.token = .TK_FLOAT → Places (f c))
    (hf : ∀ c, c.token ≠ .TK_FLOAT → Opens (f c))
    (hrefuse : ∀ c, IsTypeKeyword c.token → Reads (f c))
    (hfloat : ∀ x read c, Stands x read c → FloatAt x read (leaves (f c) c)) :
    Reads (get >>= f) :=
  Reads.getFloatState_bind hsame hplace hf (fun c hc => (hrefuse c hc).toRefuses) hfloat

/-- A loop that goes on up to `tok` ends there. -/
theorem whileLoop_closed {tok : Token} {body : CompilerM Unit} {n : Nat} {c c' : Compiler}
    (hrun : whileLoop n (do return (← getToken) ≠ tok) body c = .ok () c') : c'.token = tok := by
  induction n generalizing c with
  | zero => cases hrun
  | succ n ih =>
    obtain ⟨b, c₁, hcond, hrest⟩ := bind_eq_ok.mp hrun
    cases hcond
    split at hrest
    · obtain ⟨_, c₂, -, hloop⟩ := bind_eq_ok.mp hrest
      exact ih hloop
    · rename_i hstop
      cases hrest
      simpa using hstop

theorem Reads.closedWhile {tok : Token} [htok : Plain tok] {body : CompilerM Unit}
    {f : Unit → CompilerM γ} (hbody : Reads body) (hf : ∀ u, Opens (f u)) (n : Nat) :
    Reads (whileLoop n (do return (← getToken) ≠ tok) body >>= f) := by
  apply Reads.bind_past
  · infer_instance
  · intro c _ c' hrun
    rw [whileLoop_closed hrun]
    exact htok.plain
  · exact hf

instance reads_ifTokenAnd {p : Prop} [Decidable p] {tok : Token} [htok : Plain tok]
    {m m' : Token → CompilerM β} [h : ∀ u, Opens (m u)] [h' : ∀ u, Reads (m' u)] :
    Reads (getToken >>= fun u => if p ∧ u = tok then m u else m' u) := by
  apply Reads.matchToken
  · intro u
    infer_instance
  · intro t ht
    rw [if_neg fun hand => htok.ne ht hand.2]
    exact h' t

/-! ### Expressions -/

/-- Where a procedure starts: at any token, at one that has been looked at, or in front of the
slots of a table, where two tokens are given to it. -/
inductive StartsAt where
  | any
  | looked
  | slots

@[reducible] def startsAt : Proc → StartsAt
  | .LocalDeclStatement | .IfStatement | .WhileStatement | .DoWhileStatement | .ForStatement
  | .ForEachStatement | .SwitchStatement | .TryCatchStatement | .FunctionStatement _
  | .ClassStatement _ | .FunctionExp _ | .DeleteExpr | .PrefixIncDec _ => .looked
  | .ParseTableOrClass _ _ => .slots
  | _ => .any

/-- The procedures, as far as places go. -/
class PlacedCalls (call : Proc → CompilerM Unit) : Prop where
  any : ∀ p, startsAt p = .any → Reads (call p)
  looked : ∀ p, startsAt p = .looked → Opens (call p)
  slots : ∀ separator terminator, Plain separator → Plain terminator →
    Reads (call (.ParseTableOrClass separator terminator))

class SameStart (s s' : StartsAt) : Prop where
  same : s = s'

instance same_start (s : StartsAt) : SameStart s s := ⟨rfl⟩

section

variable (n : Nat) (call : Proc → CompilerM Unit) [hcall : PlacedCalls call]

include hcall

instance (priority := low) reads_call (p : Proc) [h : SameStart (startsAt p) .any] : Reads (call p) :=
  hcall.any p h.same

instance (priority := low) opens_call (p : Proc) [h : SameStart (startsAt p) .looked] : Opens (call p) :=
  hcall.looked p h.same

instance reads_ParseTableOrClass (separator terminator : Token) [hs : Plain separator]
    [ht : Plain terminator] : Reads (call (.ParseTableOrClass separator terminator)) :=
  hcall.slots separator terminator hs ht

instance reads_commaExpr : Reads (commaExpr n call) := by
  unfold commaExpr
  infer_instance

instance opens_assignment (op : Token) : Opens (assignment call op) := by
  unfold assignment
  refine Opens.get_bind (fun _ _ => rfl) fun c => ?_
  dsimp only
  split
  · infer_instance
  split
  · infer_instance
  refine opens_Lex.bind fun _ => (reads_call call .Expression).bind fun _ => ?_
  split <;> infer_instance

instance opens_conditional : Opens (conditional call) := by
  unfold conditional
  infer_instance

instance reads_expression : Reads (expression call) := by
  unfold expression
  have hchoice : Reads (do
      call .LogicalOrExp
      match ← getToken with
      | .chr '=' => assignment call (.chr '=')
      | .TK_NEWSLOT => assignment call .TK_NEWSLOT
      | .TK_MINUSEQ => assignment call .TK_MINUSEQ
      | .TK_PLUSEQ => assignment call .TK_PLUSEQ
      | .TK_MULEQ => assignment call .TK_MULEQ
      | .TK_DIVEQ => assignment call .TK_DIVEQ
      | .TK_MODEQ => assignment call .TK_MODEQ
      | .chr '?' => conditional call
      | _ => return ()) := by
    apply (reads_call call .LogicalOrExp).bind
    intro _
    apply Reads.matchToken
    · intro u
      split <;> infer_instance
    · rintro _ (rfl | rfl | rfl | rfl | rfl) <;> infer_instance
  infer_instance

instance opens_BIN_EXP (op : Opcode) (f : Proc) (op3 : Int) [Reads (call f)] :
    Opens (BIN_EXP call op f op3) := by
  unfold BIN_EXP
  infer_instance

instance opens_shortCircuit (op : Opcode) (f : Proc) [Reads (call f)] :
    Opens (shortCircuit call op f) := by
  unfold shortCircuit
  infer_instance

instance reads_logicalOrExp : Reads (logicalOrExp call) := by
  unfold logicalOrExp
  infer_instance

instance reads_logicalAndExp : Reads (logicalAndExp n call) := by
  unfold logicalAndExp
  infer_instance

instance reads_suffix : Reads (suffix n call) := by
  unfold suffix
  dsimp only
  apply Reads.matchToken
  · intro u
    split <;> infer_instance
  · rintro _ (rfl | rfl | rfl | rfl | rfl) <;> infer_instance

instance reads_prefixedExpr : Reads (prefixedExpr n call) := by
  unfold prefixedExpr
  infer_instance


omit hcall in
/-- A level of binary operators; no type keyword is one. -/
theorem reads_binaryLevel (f : Proc) [Reads (call f)] (ops : Token → Option (Opcode × Int))
    (hops : ∀ t, IsTypeWord t → ops t = none) : Reads (binaryLevel n call f ops) := by
  unfold binaryLevel
  refine Reads.bind inferInstance fun _ => ?_
  refine @reads_whileToken (fun t => (ops t).isSome) ?_ n _ ?_
  · intro t ht
    rw [hops t ht]
    rfl
  · refine @opens_bind_right _ _ _ _ inferInstance inferInstance fun u => ?_
    split <;> infer_instance

instance opens_arrayConstructor : Opens (arrayConstructor n call) := by
  unfold arrayConstructor
  have helements (apos : Int) : Reads (do
      let key ← arrayElements n call
      SetInstructionParam apos 1 key
      Lex) := by
    apply Reads.closedLoop
    · infer_instance
    · infer_instance
    · infer_instance
  infer_instance

instance opens_negation : Opens (negation call) := by
  unfold negation
  refine opens_Lex.bind fun _ => Reads.matchFloat (fun _ _ => rfl) (fun c hc => ?_)
    (fun c hc => ?_) (fun c hc => ?_) fun x read c hc => ?_
  · simp only [hc]
    infer_instance
  · split
    · infer_instance
    · contradiction
    · infer_instance
  · rcases hc with hc | hc | hc | hc <;> simp only [hc] <;> infer_instance
  · have hvalue : c.lex.fvalue ^^^ 0x80000000 = (constantOf x true).value := by
      rw [hc.fvalue]
      rfl
    simp only [hc.token]
    exact hc.emits_bind inferInstance fun _ c₁ h => h.recordFloat_bind hvalue fun _ => closes_Lex

instance reads_factorExpr : Reads (factorExpr n call) := by
  unfold factorExpr
  have hnot : Opens (do
      Lex
      let c ← get
      if c.token = .TK_INTEGER then
        EmitLoadConstInt (~~~c.lex.nvalue) none
        Lex
      else call (.UnaryOP .BWNOT)) := by
    refine opens_Lex.bind fun _ => Reads.matchState (fun _ _ => rfl) (fun c => ?_) fun c hc => ?_
    · infer_instance
    · rw [if_neg (plain_TK_INTEGER.ne hc)]
      infer_instance
  refine Reads.matchFloat (fun _ _ => rfl) (fun c hc => ?_) (fun c hc => ?_) (fun c hc => ?_)
    fun x read c hc => ?_
  · simp only [hc]
    infer_instance
  · split <;> first | contradiction | infer_instance
  · rcases hc with hc | hc | hc | hc <;> simp only [hc] <;> infer_instance
  · have hvalue : c.lex.fvalue = (constantOf x false).value := hc.fvalue
    simp only [hc.token]
    exact hc.emits_bind inferInstance fun _ c₁ h => h.recordFloat_bind hvalue fun _ => closes_Lex

instance reads_factor : Reads (factor n call) := by
  unfold factor
  have hdot : Blind (modify fun c => { c with token := .chr '.' } : CompilerM Unit) :=
    ⟨fun _ _ => rfl⟩
  have hspent (read : List FloatConstant) : Within (Keeps (Spent read))
      (modify fun c => { c with token := .chr '.' } : CompilerM Unit) :=
    fun c hc => ⟨hc.input, Token.noConfusion, hc.loaded⟩
  apply Reads.getToken_bind
  · intro u
    split
    case h_5 => exact places_of_blind inferInstance
    all_goals exact (inferInstance : Opens _).toPlaces
  · exact (inferInstance : Opens _).toStaysAtEnd
  · intro u _ read
    split
    case h_5 =>
      refine within_bind ((inferInstance : Reads _).spent read) fun _ => ?_
      refine within_bind ((inferInstance : Reads _).spent read) fun _ => ?_
      refine within_bind ((inferInstance : Reads _).spent read) fun _ => ?_
      exact within_bind (hspent read) fun _ => (inferInstance : Reads _).spent read
    all_goals exact (inferInstance : Opens _).spent read
  · rintro _ (rfl | rfl | rfl | rfl | rfl) <;> exact (inferInstance : Reads _).toRefuses

instance reads_unaryOP (op : Opcode) : Reads (unaryOP call op) := by
  unfold unaryOP
  infer_instance

instance opens_deleteExpr : Opens (deleteExpr call) := by
  unfold deleteExpr
  have hdelete (etype : ExpType) : Reads (match etype with
      | .EXPR => error "can't delete an expression"
      | .BASE => error "can't delete 'base'"
      | .OBJECT => Emit2ArgsOP .DELETE
      | _ => error "cannot delete an (outer) local" : CompilerM Unit) := by
    split <;> infer_instance
  infer_instance

instance opens_prefixIncDec (token : Token) : Opens (prefixIncDec call token) := by
  unfold prefixIncDec
  have hstep (diff : Int) : Reads (do
      let es := (← get).es
      match es.etype with
      | .EXPR => error "can't '++' or '--' an expression"
      | .BASE => error "can't '++' or '--' a base"
      | .OBJECT => Emit2ArgsOP .INC diff
      | .LOCAL =>
        let src ← TopTarget
        AddInstruction .INCL src src 0 diff
      | .OUTER =>
        let tmp ← PushTarget
        AddInstruction .GETOUTER tmp es.epos
        AddInstruction .INCL tmp tmp 0 diff
        AddInstruction .SETOUTER tmp es.epos tmp : CompilerM Unit) := by
    refine Reads.readState_bind (fun _ _ => rfl) fun c => ?_
    dsimp only
    split <;> infer_instance
  infer_instance

instance reads_slotKey : Reads (slotKey call) := by
  unfold slotKey
  apply Reads.matchToken
  · intro u
    split <;> infer_instance
  · rintro _ (rfl | rfl | rfl | rfl | rfl) <;> infer_instance

instance opens_callSlots : Opens (callSlots n call) := by
  unfold callSlots
  have hslots (body : CompilerM Unit) [Reads body] : Reads (do
      whileLoop n (return (← getToken) ≠ .chr '}') body
      Lex) :=
    Reads.closedWhile inferInstance inferInstance n
  infer_instance

instance reads_functionCallArgs (rawcall : Bool) : Reads (functionCallArgs n call rawcall) := by
  unfold functionCallArgs
  have harguments (k : Nat → CompilerM Unit) [∀ nargs, Opens (k nargs)] :
      Reads (callArguments n call >>= k) := by
    apply Reads.closedLoop
    · infer_instance
    · infer_instance
    · infer_instance
  infer_instance

instance opens_ParseBindEnv : Opens (ParseBindEnv call) := by
  unfold ParseBindEnv
  infer_instance

instance reads_optionalBindEnv : Reads (optionalBindEnv call) := by
  unfold optionalBindEnv
  infer_instance

instance reads_method (id : Object) : Reads (slot.method call id) := by
  unfold slot.method
  infer_instance

instance reads_keyAndValue : Reads (slot.keyAndValue call) := by
  unfold slot.keyAndValue
  infer_instance

instance reads_slot (separator : Token) : Reads (slot call separator) := by
  unfold slot
  apply Reads.matchToken
  · intro u
    split <;> infer_instance
  · rintro _ (rfl | rfl | rfl | rfl | rfl) <;> infer_instance

theorem reads_parseTableOrClass (separator terminator : Token) [hs : Plain separator]
    [ht : Plain terminator] : Reads (parseTableOrClass n call separator terminator) := by
  unfold parseTableOrClass
  refine Reads.bind inferInstance fun tpos => ?_
  apply Reads.closedLoop
  · infer_instance
  · intro nkeys
    infer_instance
  · infer_instance

instance reads_classExp : Reads (classExp call) := by
  unfold classExp
  infer_instance

instance opens_functionExp (lambda : Bool) : Opens (functionExp call lambda) := by
  unfold functionExp
  infer_instance

/-! ### Statements -/

instance reads_ExpectScalar : Reads ExpectScalar := by
  have hclosed (val : Object) : Closes (do Lex; return val : CompilerM Object) :=
    closes_Lex.bind fun _ => inferInstance
  unfold ExpectScalar
  refine Reads.matchFloat (fun _ _ => rfl) (fun c hc => ?_) (fun c hc => ?_) (fun c hc => ?_)
    fun x read c hc => ?_
  · simp only [hc]
    infer_instance
  · split
    case h_2 => contradiction
    case h_6 =>
      refine opens_Lex.bind fun _ => Reads.matchFloat (fun _ _ => rfl) (fun c hc => ?_)
        (fun c hc => ?_) (fun c hc => ?_) fun x read c hc => ?_
      · simp only [hc]
        infer_instance
      · split
        case h_2 => contradiction
        all_goals infer_instance
      · rcases hc with hc | hc | hc | hc <;> simp only [hc] <;> infer_instance
      · have hvalue : c.lex.fvalue ^^^ 0x80000000 = (constantOf x true).value := by
          rw [hc.fvalue]
          rfl
        simp only [hc.token]
        exact hc.recordFloat_bind hvalue fun _ => hclosed _
    all_goals infer_instance
  · rcases hc with hc | hc | hc | hc <;> simp only [hc] <;> infer_instance
  · have hvalue : c.lex.fvalue = (constantOf x false).value := hc.fvalue
    simp only [hc.token]
    exact hc.recordFloat_bind hvalue fun _ => hclosed _

instance opens_constStatement : Opens constStatement := by
  unfold constStatement
  infer_instance

instance reads_modulePath (n : Nat) : Reads (modulePath n) := by
  unfold modulePath
  infer_instance

instance opens_moduleStatement (n : Nat) (op : Opcode) : Opens (moduleStatement n op) := by
  unfold moduleStatement
  infer_instance

instance opens_importStatement (n : Nat) : Opens (importStatement n) := opens_moduleStatement n _

instance opens_namespaceStatement (n : Nat) : Opens (namespaceStatement n) :=
  opens_moduleStatement n _

instance opens_breakStatement : Opens breakStatement := by
  unfold breakStatement
  infer_instance

instance opens_continueStatement : Opens continueStatement := by
  unfold continueStatement
  infer_instance

instance opens_enumStatement (n : Nat) : Opens (enumStatement n) := by
  unfold enumStatement
  refine opens_Lex.bind fun _ => (reads_Expect _).bind fun id => (reads_Expect _).bind fun _ => ?_
  apply Reads.closedLoop
  · infer_instance
  · infer_instance
  · infer_instance

instance reads_statements : Reads (statements n call) := by
  unfold statements
  infer_instance

instance reads_localVariable : Reads (localVariable call) := by
  unfold localVariable
  infer_instance

instance opens_localDeclStatement : Opens (localDeclStatement n call) := by
  unfold localDeclStatement
  infer_instance

instance opens_block (closeframe : Bool) : Opens (block call closeframe) := by
  unfold block
  infer_instance

instance reads_ifBlock : Reads (ifBlock call) := by
  unfold ifBlock
  infer_instance

instance reads_condition : Reads (condition call) := by
  unfold condition
  infer_instance

instance opens_ifStatement : Opens (ifStatement call) := by
  unfold ifStatement
  infer_instance

instance reads_scopedStatement : Reads (scopedStatement call) := by
  unfold scopedStatement
  infer_instance

instance opens_whileStatement : Opens (whileStatement call) := by
  unfold whileStatement
  infer_instance

instance opens_doWhileStatement : Opens (doWhileStatement call) := by
  unfold doWhileStatement
  infer_instance

set_option synthInstance.maxSize 1000000000 in
instance opens_forStatement : Opens (forStatement call) := by
  unfold forStatement
  infer_instance

set_option synthInstance.maxSize 1000000000 in
instance opens_forEachStatement : Opens (forEachStatement call) := by
  unfold forEachStatement
  infer_instance

instance reads_caseStatements : Reads (caseStatements call) := by
  unfold caseStatements
  infer_instance

instance reads_switchCases (expr : Nat) : Reads (switchCases n call expr) := by
  unfold switchCases
  infer_instance

instance opens_switchStatement : Opens (switchStatement n call) := by
  unfold switchStatement
  infer_instance

set_option synthInstance.maxSize 1000000000 in
instance opens_tryCatchStatement : Opens (tryCatchStatement call) := by
  unfold tryCatchStatement
  infer_instance

instance opens_functionStatement (is_pub : Bool) : Opens (functionStatement n call is_pub) := by
  unfold functionStatement
  infer_instance

instance opens_classStatement (is_pub : Bool) : Opens (classStatement call is_pub) := by
  unfold classStatement
  infer_instance

instance reads_parameter (p : Parameters) : Reads (parameter call p) := by
  unfold parameter
  infer_instance

instance reads_functionParameters (name : Object) : Reads (functionParameters n call name) := by
  unfold functionParameters
  exact Reads.readState_bind (fun _ _ => rfl) fun c => inferInstance

instance reads_functionBody (p : Parameters) (lambda : Bool) :
    Reads (functionBody call p lambda) := by
  unfold functionBody
  have hend : Reads (do
      let lex := (← get).lex
      AddLineInfos (if ← prevtokenIs '\n' then lex.lasttokenline else lex.currentline) true
      AddInstruction .RETURN (-1)
      modifyFs (·.setStackSize 0)
      return (← getFs).buildProto) :=
    Reads.readState_bind (fun _ _ => rfl) fun c => inferInstance
  infer_instance

instance reads_createFunction (name : Object) (boundtarget : Int) (lambda : Bool) :
    Reads (createFunction n call name boundtarget lambda) := by
  unfold createFunction
  infer_instance

instance opens_returnStatement (op : Opcode) : Opens (returnStatement call op) := by
  unfold returnStatement
  infer_instance

instance opens_pubStatement : Opens (pubStatement call) := by
  unfold pubStatement
  refine opens_Lex.bind fun _ => Reads.matchToken (fun u => ?_) ?_
  · split <;> infer_instance
  · rintro _ (rfl | rfl | rfl | rfl | rfl) <;> infer_instance

instance reads_statement (closeframe : Bool) : Reads (statement n call closeframe) := by
  unfold statement
  refine Reads.readState_bind (fun _ _ => rfl) fun c => Reads.bind inferInstance fun _ => ?_
  apply Reads.matchToken
  · intro u
    split <;> infer_instance
  · rintro _ (rfl | rfl | rfl | rfl | rfl) <;> infer_instance

/-! ### The recursion -/

theorem placed_body : PlacedCalls (body n call) where
  any p hp := by
    cases p
    case BitwiseOrExp | BitwiseXorExp | BitwiseAndExp | EqExp | CompExp | ShiftExp | PlusExp
        | MultExp =>
      exact reads_binaryLevel n call _ _ (by rintro _ (rfl | rfl | rfl | rfl | rfl) <;> rfl)
    all_goals first | contradiction | (unfold body; infer_instance)
  looked p hp := by
    cases p
    all_goals first | contradiction | (unfold body; infer_instance)
  slots separator terminator _ _ := reads_parseTableOrClass n call separator terminator

end

theorem placed_run (n : Nat) : PlacedCalls (run n) := by
  induction n with
  | zero => exact ⟨fun _ _ => reads_throw _, fun _ _ => (reads_throw _).toOpens,
      fun _ _ _ _ => reads_throw _⟩
  | succ n ih => exact placed_body n (run n)

instance opens_Compile (n : Nat) : Opens (Compile n) := by
  have hcalls := placed_run n
  have hend : Reads (do
      AddLineInfos (← get).lex.currentline true
      AddInstruction .RETURN 0xFF
      modifyFs (·.setStackSize 0)
      return (← getFs).buildProto : CompilerM FunctionProto) :=
    Reads.readState_bind (fun _ _ => rfl) fun c => inferInstance
  unfold Compile
  infer_instance

end GameScript.Compiler
