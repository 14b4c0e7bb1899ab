import GameScript.Compiler.Emission
import GameScript.Returns

/-!
The return types of compiled functions. `Settled` says that every function finished so far, at
any depth, is one of those whose annotations are recorded, and that these have the return types
that `CreateFunction` makes of their annotations. The operations of the compiler other than
`CreateFunction` leave the finished functions alone, so every procedure keeps it.
-/

namespace GameScript

open Effect

/-- `p` and every function nested in it are among those whose annotations are recorded. -/
def FunctionProto.Annotated (annotations : List (FunctionProto × Option Annotation))
    (p : FunctionProto) : Prop :=
  ∀ q, Within p q → ∃ a, (q, a) ∈ annotations

theorem FunctionProto.Annotated.mono {annotations annotations' : List (FunctionProto × Option Annotation)}
    {p : FunctionProto} (h : p.Annotated annotations) (hsub : annotations ⊆ annotations') :
    p.Annotated annotations' := by
  intro q hq
  obtain ⟨a, ha⟩ := h q hq
  exact ⟨a, hsub ha⟩

namespace Compiler

variable {α β : Type}

/-- The functions finished so far are recorded with what they declare. -/
structure Settled (c : Compiler) : Prop where
  annotated : ∀ fns ∈ (finished c).1, ∀ p ∈ fns, p.Annotated (finished c).2
  rettype : ∀ x ∈ (finished c).2, x.1.rettype = some (Int64.ofInt (expectedRettype x.2))
  isType : ∀ x ∈ (finished c).2, ∀ a ∈ x.2, a.type.isType = true

theorem Settled.congr {c c' : Compiler} (h : Settled c) (hsame : finished c' = finished c) :
    Settled c' :=
  ⟨hsame ▸ h.annotated, hsame ▸ h.rettype, hsame ▸ h.isType⟩

/-- `m` keeps `Settled`, and its results meet `q`. -/
def SettlesTo (q : α → Prop) (m : CompilerM α) : Prop :=
  Triple Settled m (fun a c => Settled c ∧ q a) Settled

class Settles (m : CompilerM α) : Prop where
  settlesTo : SettlesTo (fun _ => True) m

variable {q : α → Prop} {m : CompilerM α}

theorem SettlesTo.mono {q' : α → Prop} (h : SettlesTo q m) (hq : ∀ a, q a → q' a) :
    SettlesTo q' m :=
  Triple.mono h (fun _ hs => hs) (fun a _ hs => ⟨hs.1, hq a hs.2⟩) fun _ hs => hs

theorem SettlesTo.settles (h : SettlesTo q m) : Settles m := ⟨h.mono fun _ _ => trivial⟩

theorem settlesTo_pure {a : α} (h : q a) : SettlesTo q (pure a : CompilerM α) :=
  triple_pure fun _ hs => ⟨hs, h⟩

/-- What follows may end in states that are not settled. -/
theorem SettlesTo.bind_triple {q' : β → Compiler → Prop} {f : α → CompilerM β}
    (hm : SettlesTo q m) (hf : ∀ a, q a → Triple Settled (f a) q' Settled) :
    Triple Settled (m >>= f) q' Settled :=
  Triple.bind hm fun a s hs => hf a hs.2 s hs.1

theorem SettlesTo.bind {q' : β → Prop} {f : α → CompilerM β} (hm : SettlesTo q m)
    (hf : ∀ a, q a → SettlesTo q' (f a)) : SettlesTo q' (m >>= f) :=
  hm.bind_triple hf

/-- What follows may say something of the state that it ends in. -/
theorem Settles.bind_triple {q' : β → Compiler → Prop} {f : α → CompilerM β} (hm : Settles m)
    (hf : ∀ a, Triple Settled (f a) q' Settled) : Triple Settled (m >>= f) q' Settled :=
  hm.settlesTo.bind_triple fun a _ => hf a

theorem Settles.bind {f : α → CompilerM β} (hm : Settles m) (hf : ∀ a, Settles (f a)) :
    Settles (m >>= f) :=
  ⟨hm.settlesTo.bind fun a _ => (hf a).settlesTo⟩

/-- A computation whose results do not matter comes first. -/
theorem Settles.bindTo {q' : β → Prop} {f : α → CompilerM β} (hm : Settles m)
    (hf : ∀ a, SettlesTo q' (f a)) : SettlesTo q' (m >>= f) :=
  hm.settlesTo.bind fun a _ => hf a

instance settles_pure (a : α) : Settles (pure a : CompilerM α) := ⟨settlesTo_pure trivial⟩

instance settles_bind {f : α → CompilerM β} [hm : Settles m] [hf : ∀ a, Settles (f a)] :
    Settles (m >>= f) := hm.bind hf

theorem settlesTo_ite {q : α → Prop} {p : Prop} [Decidable p] {m m' : CompilerM α}
    (h : SettlesTo q m) (h' : SettlesTo q m') : SettlesTo q (if p then m else m') := by
  split
  · exact h
  · exact h'

instance settles_ite {p : Prop} [Decidable p] {m' : CompilerM α} [h : Settles m]
    [h' : Settles m'] : Settles (if p then m else m') := by
  split
  · exact h
  · exact h'

instance settles_throw (e : CompileError) : Settles (throw e : CompilerM α) :=
  ⟨triple_throw fun _ hs => hs⟩

/-- A loop whose rounds keep a property of the value that it carries. -/
theorem settlesTo_loop {keep : α → Prop} {q : β → Prop} {body : α → CompilerM (α ⊕ β)}
    (h : ∀ a, keep a → SettlesTo (Sum.elim keep q) (body a)) (n : Nat) {a : α} (ha : keep a) :
    SettlesTo q (loop n body a) := by
  induction n generalizing a with
  | zero => exact triple_throw fun _ hs => hs
  | succ n ih =>
    apply (h a ha).bind
    intro r hr
    cases r with
    | inl a => exact ih hr
    | inr b => exact settlesTo_pure hr

instance settles_loop (n : Nat) {body : α → CompilerM (α ⊕ β)} [h : ∀ a, Settles (body a)]
    (a : α) : Settles (loop n body a) := by
  have hround (a : α) : SettlesTo (Sum.elim (fun _ => True) fun _ => True) (body a) :=
    (h a).settlesTo.mono fun r _ => by cases r <;> trivial
  exact (settlesTo_loop (fun a _ => hround a) n trivial).settles

instance settles_whileLoop (n : Nat) {cond : CompilerM Bool} {body : CompilerM Unit}
    [Settles cond] [Settles body] : Settles (whileLoop n cond body) := by
  induction n with
  | zero => exact settles_throw _
  | succ n ih =>
    unfold whileLoop
    infer_instance

theorem Settles.loop {n : Nat} {body : α → CompilerM (α ⊕ β)} (h : ∀ a, Settles (body a))
    (a : α) : Settles (loop n body a) := settles_loop n a

theorem Settles.whileLoop {n : Nat} {cond : CompilerM Bool} {body : CompilerM Unit}
    (hc : Settles cond) (hb : Settles body) : Settles (whileLoop n cond body) :=
  settles_whileLoop n

/-! ### Operations -/

/-- What only emits leaves the finished functions as they are. -/
instance (priority := low) settles_of_emits [h : Emits m] : Settles m := by
  refine ⟨fun c hc => ?_⟩
  have hsame : Settled (leaves m c) := hc.congr (h.emitted c).finished
  unfold leaves at hsame
  cases hm : m c with
  | ok a c' => simpa only [hm, and_true] using hsame
  | error e c' => simpa only [hm] using hsame

theorem settles_modify {f : Compiler → Compiler} (h : ∀ c, finished (f c) = finished c) :
    Settles (modify f : CompilerM Unit) := by
  exact ⟨triple_modify fun c hc => ⟨hc.congr (h c), trivial⟩⟩

instance settles_update {token : Compiler → Token} {sourcename : Compiler → Object}
    {lex : Compiler → Lexer} {lineinfo : Compiler → Bool} {es : Compiler → ExpState}
    {scope : Compiler → Scope} {consts : Compiler → List (Object × Constant)}
    {loaded : Compiler → List FloatConstant} :
    Settles (modify fun c => {
      token := token c, fs := c.fs, parents := c.parents, sourcename := sourcename c
      lex := lex c, lineinfo := lineinfo c, es := es c, scope := scope c
      consts := consts c
      annotations := c.annotations
      loaded := loaded c } : CompilerM Unit) :=
  settles_modify fun _ => rfl

instance settles_recordFloat (negated : Bool) (value : GSFloat) :
    Settles (recordFloat negated value) := by
  unfold recordFloat
  infer_instance

instance settles_Lex : Settles Lex := by
  unfold Lex
  apply Settles.bind inferInstance
  intro c
  split
  · infer_instance
  · exact settles_modify fun _ => rfl

instance settles_Expect (tok : Token) : Settles (Expect tok) := by
  unfold Expect
  infer_instance

instance settles_OptionalSemicolon : Settles OptionalSemicolon := by
  unfold OptionalSemicolon
  infer_instance

instance settles_endStatement : Settles endStatement := by
  unfold endStatement
  infer_instance

/-! ### Expressions -/

set_option synthInstance.maxSize 100000
set_option synthInstance.maxHeartbeats 400000

theorem Settles.withFreshEs {m : CompilerM Unit} (h : Settles m) : Settles (withFreshEs m) := by
  unfold Compiler.withFreshEs
  infer_instance

instance settles_withFreshEs {m : CompilerM Unit} [h : Settles m] : Settles (withFreshEs m) :=
  h.withFreshEs

theorem Settles.withDonotGet {m : CompilerM Unit} (h : Settles m) : Settles (withDonotGet m) := by
  unfold Compiler.withDonotGet
  infer_instance

instance settles_genericArguments (n : Nat) : Settles (genericArguments n) := by
  unfold genericArguments
  infer_instance

instance settles_postfixIncDec (diff : Int) : Settles (postfixIncDec diff) := by
  unfold postfixIncDec
  apply settles_Lex.bind
  intro _
  apply Settles.bind inferInstance
  intro c
  dsimp only
  split <;> infer_instance

instance settles_emitConstant (id : Object) (constant : Constant) :
    Settles (emitConstant id constant) := by
  unfold emitConstant
  repeat' first | infer_instance | apply Settles.bind | intro _ | split

instance settles_identifier (n : Nat) : Settles (identifier n) := by
  unfold identifier
  repeat' first | infer_instance | apply Settles.bind | intro _ | split

section

variable (n : Nat) (call : Proc → CompilerM Unit) [hcall : ∀ p, Settles (call p)]

include hcall

instance settles_commaExpr : Settles (commaExpr n call) := by
  unfold commaExpr
  infer_instance

instance settles_assignment (op : Token) : Settles (assignment call op) := by
  unfold assignment
  repeat' first | infer_instance | apply Settles.bind | intro _ | split

instance settles_conditional : Settles (conditional call) := by
  unfold conditional
  infer_instance

instance settles_expression : Settles (expression call) := by
  unfold expression
  apply Settles.withFreshEs
  apply (hcall _).bind
  intro _
  apply Settles.bind inferInstance
  intro token
  split <;> infer_instance

instance settles_BIN_EXP (op : Opcode) (f : Proc) (op3 : Int) :
    Settles (BIN_EXP call op f op3) := by
  unfold BIN_EXP
  infer_instance

instance settles_binaryLevel (f : Proc) (ops : Token → Option (Opcode × Int)) :
    Settles (binaryLevel n call f ops) := by
  unfold binaryLevel
  apply (hcall _).bind
  intro _
  apply Settles.whileLoop inferInstance
  apply Settles.bind inferInstance
  intro token
  split <;> infer_instance

instance settles_shortCircuit (op : Opcode) (f : Proc) : Settles (shortCircuit call op f) := by
  unfold shortCircuit
  infer_instance

instance settles_logicalOrExp : Settles (logicalOrExp call) := by
  unfold logicalOrExp
  infer_instance

instance settles_logicalAndExp : Settles (logicalAndExp n call) := by
  unfold logicalAndExp
  infer_instance

instance settles_suffix : Settles (suffix n call) := by
  unfold suffix
  apply Settles.bind inferInstance
  intro token
  dsimp only
  split <;> infer_instance

instance settles_prefixedExpr : Settles (prefixedExpr n call) := by
  unfold prefixedExpr
  infer_instance

instance settles_arrayElements : Settles (arrayElements n call) := by
  unfold arrayElements
  infer_instance

instance settles_arrayConstructor : Settles (arrayConstructor n call) := by
  unfold arrayConstructor
  infer_instance

instance settles_negation : Settles (negation call) := by
  unfold negation
  apply settles_Lex.bind
  intro _
  apply Settles.bind inferInstance
  intro c
  split <;> infer_instance

instance settles_factorExpr : Settles (factorExpr n call) := by
  unfold factorExpr
  apply Settles.bind inferInstance
  intro c
  split <;> infer_instance

instance settles_factor : Settles (factor n call) := by
  unfold factor
  apply Settles.bind inferInstance
  intro token
  split <;> infer_instance

instance settles_unaryOP (op : Opcode) : Settles (unaryOP call op) := by
  unfold unaryOP
  infer_instance

instance settles_deleteExpr : Settles (deleteExpr call) := by
  unfold deleteExpr
  apply settles_Lex.bind
  intro _
  apply Settles.withDonotGet
  apply (hcall _).bind
  intro _
  apply Settles.bind inferInstance
  intro etype
  split <;> infer_instance

instance settles_prefixIncDec (token : Token) : Settles (prefixIncDec call token) := by
  unfold prefixIncDec
  apply settles_Lex.bind
  intro _
  apply Settles.withDonotGet
  apply (hcall _).bind
  intro _
  apply Settles.bind inferInstance
  intro c
  dsimp only
  split <;> infer_instance

instance settles_callArguments : Settles (callArguments n call) := by
  unfold callArguments
  infer_instance

instance settles_slotKey : Settles (slotKey call) := by
  unfold slotKey
  apply Settles.bind inferInstance
  intro token
  split <;> infer_instance

instance settles_callSlots : Settles (callSlots n call) := by
  unfold callSlots
  infer_instance

instance settles_functionCallArgs (rawcall : Bool) : Settles (functionCallArgs n call rawcall) := by
  unfold functionCallArgs
  infer_instance

instance settles_ParseBindEnv : Settles (ParseBindEnv call) := by
  unfold ParseBindEnv
  infer_instance

instance settles_optionalBindEnv : Settles (optionalBindEnv call) := by
  unfold optionalBindEnv
  infer_instance

instance settles_method (id : Object) : Settles (slot.method call id) := by
  unfold slot.method
  infer_instance

instance settles_keyAndValue : Settles (slot.keyAndValue call) := by
  unfold slot.keyAndValue
  infer_instance

instance settles_slot (separator : Token) : Settles (slot call separator) := by
  unfold slot
  apply Settles.bind inferInstance
  intro token
  split <;> infer_instance

instance settles_parseTableOrClass (separator terminator : Token) :
    Settles (parseTableOrClass n call separator terminator) := by
  unfold parseTableOrClass
  dsimp only
  infer_instance

instance settles_classExp : Settles (classExp call) := by
  unfold classExp
  dsimp only
  infer_instance

instance settles_functionExp (lambda : Bool) : Settles (functionExp call lambda) := by
  unfold functionExp
  infer_instance

end

end Compiler

end GameScript
