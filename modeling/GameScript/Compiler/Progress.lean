import GameScript.Compiler.Emission

/-!
Progress of the compiler. `left` measures what is left to read. `Takes` says that a computation
ends, and how much of it the computation takes at least; loops end because every round takes
something, and procedures because they call each other at the same place in the text only down
the grammar.
-/

namespace GameScript.Compiler

open Effect

variable {α β : Type} {m : CompilerM α} {P : Token → Prop} {b n : Nat}

/-- `::` counts twice: `Factor` makes a dot of it and leaves the dot to be read. -/
def weight : Token → Nat
  | .eob => 0
  | .TK_DOUBLE_COLON => 2
  | _ => 1

/-- The tokens that are left to read, the current one included. -/
def left (c : Compiler) : Nat := 3 * c.lex.input.length + weight c.token

/-- How a computation ends that takes at least `k a` on the way to a result `a`. -/
def TakesFrom (c : Compiler) (k : α → Nat) : EStateM.Result CompileError Compiler α → Prop
  | .ok a c' => left c' + k a ≤ left c
  | .error e _ => e ≠ .outOfFuel

/-- `m` ends in this way wherever it starts at a token of `P` with less than `b` left to read. -/
def Takes (P : Token → Prop) (b : Nat) (k : α → Nat) (m : CompilerM α) : Prop :=
  ∀ c, P c.token → left c < b → TakesFrom c k (m c)

/-- Any token. -/
abbrev Anywhere : Token → Prop := fun _ => True

/-- What a round of a loop has to take: something, if another round follows. -/
def perRound : α ⊕ β → Nat := Sum.elim (fun _ => 1) fun _ => 0

class Free (b : Nat) (m : CompilerM α) : Prop where
  takes : Takes Anywhere b (fun _ => 0) m

class Eats (b : Nat) (m : CompilerM α) : Prop where
  takes : Takes Anywhere b (fun _ => 1) m

class Round (b : Nat) (m : CompilerM (α ⊕ β)) : Prop where
  takes : Takes Anywhere b perRound m

theorem perRound_le (x : α ⊕ β) : perRound x ≤ 1 := by
  cases x
  · exact Nat.le_refl 1
  · exact Nat.zero_le 1

/-- Loops of at most `n` rounds do where less than `b` is left. -/
class Rounds (b n : Nat) : Prop where
  le : b ≤ n

/-! ### Rules -/

/-- A computation that takes more, from more tokens, with more to read, takes
less. -/
theorem Takes.mono {k k' : α → Nat} {P' : Token → Prop} {b' : Nat} (h : Takes P b k m)
    (hP : ∀ t, P' t → P t) (hb : b' ≤ b) (hk : ∀ a, k' a ≤ k a) : Takes P' b' k' m := by
  intro c hc hleft
  have hm := h c (hP _ hc) (Nat.lt_of_lt_of_le hleft hb)
  cases hr : m c with
  | ok a c' =>
    rw [hr] at hm
    exact Nat.le_trans (Nat.add_le_add_left (hk a) _) hm
  | error e c' =>
    rw [hr] at hm
    exact hm

theorem Takes.everywhere {k : α → Nat} (h : Takes Anywhere b k m) : Takes P b k m :=
  h.mono (fun _ _ => trivial) (Nat.le_refl b) fun _ => Nat.le_refl _

theorem Takes.below {k : α → Nat} {b' : Nat} (h : Takes P b k m) (hb : b' ≤ b) :
    Takes P b' k m :=
  h.mono (fun _ h => h) hb fun _ => Nat.le_refl _

theorem Free.below {b' : Nat} (h : Free b m) (hb : b' ≤ b) : Free b' m := ⟨h.takes.below hb⟩

theorem takes_of_eats [h : Eats b m] : Takes P b (fun _ => 1) m := h.takes.everywhere

theorem takes_none {k : α → Nat} : Takes P 0 k m := fun _ _ h => absurd h (Nat.not_lt_zero _)

/-- The second computation starts after what the first one took. -/
theorem Takes.bind {j : Nat} {k : β → Nat} {f : α → CompilerM β} (hm : Takes P b (fun _ => j) m)
    (hf : ∀ a, Takes Anywhere (b - j) (fun x => k x - j) (f a)) : Takes P b k (m >>= f) := by
  intro c hc hleft
  have h := hm c hc hleft
  rw [bind_apply]
  cases hr : m c with
  | error e c' =>
    rw [hr] at h
    exact h
  | ok a c₁ =>
    rw [hr] at h
    have htaken : left c₁ + j ≤ left c := h
    have h₁ := hf a c₁ trivial (by omega)
    change TakesFrom c k (f a c₁)
    cases hr₁ : f a c₁ with
    | error e c' =>
      rw [hr₁] at h₁
      exact h₁
    | ok x c' =>
      rw [hr₁] at h₁
      have htaken₁ : left c' + (k x - j) ≤ left c₁ := h₁
      change left c' + k x ≤ left c
      omega

/-- After something was taken, nothing more has to be. -/
theorem Takes.eat {k : β → Nat} {f : α → CompilerM β} (hm : Takes P b (fun _ => 1) m)
    (hf : ∀ a, Free (b - 1) (f a)) (hk : ∀ x, k x ≤ 1) : Takes P b k (m >>= f) := by
  apply hm.bind
  intro a
  apply (hf a).takes.mono (fun _ h => h) (Nat.le_refl _)
  intro x
  exact Nat.le_of_eq (Nat.sub_eq_zero_of_le (hk x))

theorem Takes.pass {k : β → Nat} {f : α → CompilerM β} (hm : Takes P b (fun _ => 0) m)
    (hf : ∀ a, Takes Anywhere b k (f a)) : Takes P b k (m >>= f) :=
  hm.bind hf

/-- What only emits leaves the token as it is. -/
theorem Emits.takes_bind {k : β → Nat} {f : α → CompilerM β} (hm : Emits m)
    (hf : ∀ a, Takes P b k (f a)) : Takes P b k (m >>= f) := by
  intro c hc hleft
  rw [bind_apply]
  cases hr : m c with
  | error e c' =>
    rintro rfl
    exact hm.ends hr
  | ok a c₁ =>
    have hsame := hm.ok hr
    have heq : left c₁ = left c := by
      unfold left
      rw [hsame.lex, hsame.token]
    have h₁ := hf a c₁ (by rwa [hsame.token]) (by rwa [heq])
    unfold TakesFrom at h₁ ⊢
    rwa [heq] at h₁

theorem takes_get_bind {k : β → Nat} {f : Compiler → CompilerM β}
    (hf : ∀ c, P c.token → Takes (· = c.token) b k (f c)) : Takes P b k (get >>= f) :=
  fun c hc hleft => hf c hc c rfl hleft

theorem takes_getToken_bind {k : β → Nat} {f : Token → CompilerM β}
    (hf : ∀ t, P t → Takes (· = t) b k (f t)) : Takes P b k (getToken >>= f) :=
  fun c hc hleft => hf c.token hc c rfl hleft

theorem takes_ite {k : α → Nat} {p : Prop} [Decidable p] {m' : CompilerM α}
    (h : p → Takes P b k m) (h' : ¬ p → Takes P b k m') :
    Takes P b k (if p then m else m') := by
  split
  · exact h ‹p›
  · exact h' ‹¬ p›

theorem takes_error_bind {k : β → Nat} {msg : String} {f : α → CompilerM β} :
    Takes P b k (error msg >>= f) := by
  intro c _ _ h
  cases h

theorem takes_error {k : α → Nat} (msg : String) : Takes P b k (error msg : CompilerM α) := by
  intro c _ _ h
  cases h

instance (priority := low) free_of_eats [h : Eats b m] : Free b m :=
  ⟨h.takes.mono (fun _ h => h) (Nat.le_refl b) fun _ => Nat.zero_le 1⟩

/-- What only emits reads nothing and does not run out of fuel. -/
theorem Emits.free (h : Emits m) : Free b m := by
  refine ⟨fun c _ _ => ?_⟩
  cases hr : m c with
  | ok a c' =>
    have hsame := h.ok hr
    have hleft : left c' = left c := by
      unfold left
      rw [hsame.lex, hsame.token]
    exact Nat.le_of_eq hleft
  | error e c' =>
    rintro rfl
    exact h.ends hr

instance (priority := low) free_of_emits [h : Emits m] : Free b m := h.free

instance free_recordFloat (negated : Bool) (value : GSFloat) :
    Free b (recordFloat negated value) :=
  ⟨fun _ _ _ => Nat.le_refl _⟩

theorem takes_recordFloat_bind {k : β → Nat} {f : Unit → CompilerM β} {negated : Bool}
    {value : GSFloat} (hf : Takes P b k (f ())) :
    Takes P b k (recordFloat negated value >>= f) :=
  fun _ hc hleft => hf _ hc hleft

theorem Free.bind {f : α → CompilerM β} (hm : Free b m) (hf : ∀ a, Free b (f a)) :
    Free b (m >>= f) :=
  ⟨hm.takes.pass fun a => (hf a).takes⟩

instance free_bind {f : α → CompilerM β} [hm : Free b m] [hf : ∀ a, Free b (f a)] :
    Free b (m >>= f) := hm.bind hf

instance free_ite {p : Prop} [Decidable p] {m' : CompilerM α} [h : Free b m] [h' : Free b m'] :
    Free b (if p then m else m') := by
  split
  · exact h
  · exact h'

theorem Eats.bind {f : α → CompilerM β} (hm : Eats b m) (hf : ∀ a, Free b (f a)) :
    Eats b (m >>= f) := by
  refine ⟨hm.takes.eat (fun a => ?_) fun _ => Nat.le_refl 1⟩
  exact ⟨(hf a).takes.below (Nat.sub_le b 1)⟩

instance eats_bind_right {f : α → CompilerM β} [hm : Free b m] [hf : ∀ a, Eats b (f a)] :
    Eats b (m >>= f) :=
  ⟨hm.takes.pass fun a => (hf a).takes⟩

instance eats_bind_left {f : α → CompilerM β} [hm : Eats b m] [hf : ∀ a, Free b (f a)] :
    Eats b (m >>= f) := hm.bind hf

instance eats_ite {p : Prop} [Decidable p] {m' : CompilerM α} [h : Eats b m] [h' : Eats b m'] :
    Eats b (if p then m else m') := by
  split
  · exact h
  · exact h'

instance eats_error (msg : String) : Eats b (error msg : CompilerM α) := ⟨takes_error msg⟩

instance round_bind_right {γ : Type} {f : α → CompilerM (β ⊕ γ)} [hm : Free b m]
    [hf : ∀ a, Round b (f a)] : Round b (m >>= f) :=
  ⟨hm.takes.pass fun a => (hf a).takes⟩

instance round_bind_left {γ : Type} {f : α → CompilerM (β ⊕ γ)} [hm : Eats b m]
    [hf : ∀ a, Free b (f a)] : Round b (m >>= f) := by
  refine ⟨hm.takes.eat (fun a => ?_) perRound_le⟩
  exact ⟨(hf a).takes.below (Nat.sub_le b 1)⟩

instance round_ite {p : Prop} [Decidable p] {m m' : CompilerM (α ⊕ β)} [h : Round b m]
    [h' : Round b m'] : Round b (if p then m else m') := by
  split
  · exact h
  · exact h'

/-- The last round. -/
instance round_inr (x : β) : Round b (pure (.inr x) : CompilerM (α ⊕ β)) :=
  ⟨fun _ _ _ => Nat.le_refl _⟩

/-! ### Loops -/

/-- A loop has a round for every character left, since every round but the
last takes one. -/
theorem takes_loop {body : α → CompilerM (α ⊕ β)} (hn : b ≤ n)
    (h : ∀ a, Takes Anywhere b perRound (body a)) (a : α) :
    Takes P b (fun _ => 0) (loop n body a) := by
  induction n generalizing b a P with
  | zero =>
    rw [Nat.le_zero.mp hn]
    exact takes_none
  | succ n ih =>
    intro c _ hleft
    have hround := h a c trivial hleft
    unfold loop
    rw [bind_apply]
    cases hr : body a c with
    | error e c' =>
      rw [hr] at hround
      exact hround
    | ok r c₁ =>
      rw [hr] at hround
      cases r with
      | inr x => exact hround
      | inl a₁ =>
        have hless : left c₁ + 1 ≤ left c := hround
        have hrest := fun a => (h a).below (Nat.sub_le b 1)
        have hloop := ih (P := Anywhere) (by omega) hrest a₁ c₁ trivial (by omega)
        change TakesFrom c _ (loop n body a₁ c₁)
        cases hl : loop n body a₁ c₁ with
        | error e c' =>
          rw [hl] at hloop
          exact hloop
        | ok x c' =>
          rw [hl] at hloop
          have hrest : left c' ≤ left c₁ := hloop
          change left c' ≤ left c
          omega

/-- A loop that goes on at some tokens only has to take something from these.
-/
theorem takes_whileLoop {q : Token → Bool} {body : CompilerM Unit} (hn : b ≤ n)
    (h : Takes (fun t => q t = true) b (fun _ => 1) body) :
    Takes P b (fun _ => 0) (whileLoop n (do return q (← getToken)) body) := by
  induction n generalizing b P with
  | zero =>
    rw [Nat.le_zero.mp hn]
    exact takes_none
  | succ n ih =>
    unfold whileLoop
    rw [bind_assoc]
    apply takes_getToken_bind
    intro t _
    rw [pure_bind]
    apply takes_ite
    · intro hq
      have hbody : Takes (· = t) b (fun _ => 1) body :=
        h.mono (by rintro _ rfl; exact hq) (Nat.le_refl b) fun _ => Nat.le_refl 1
      apply hbody.eat
      · intro _
        exact ⟨ih (by omega) (h.below (Nat.sub_le b 1))⟩
      · exact fun _ => Nat.zero_le 1
    · intro _
      exact (emits_pure ()).free.takes.everywhere

instance free_loop [hn : Rounds b n] {body : α → CompilerM (α ⊕ β)} [h : ∀ a, Round b (body a)]
    (a : α) : Free b (loop n body a) :=
  ⟨takes_loop hn.le (fun a => (h a).takes) a⟩

instance free_whileLoop [hn : Rounds b n] {q : Token → Bool} {body : CompilerM Unit}
    [h : Eats b body] : Free b (whileLoop n (do return q (← getToken)) body) :=
  ⟨takes_whileLoop hn.le h.takes.everywhere⟩

/-! ### Tokens -/

theorem weight_le (t : Token) : weight t ≤ 2 := by
  unfold weight
  split <;> decide

theorem weight_pos {t : Token} (h : t ≠ .eob) : 0 < weight t := by
  unfold weight
  split
  · exact absurd rfl h
  · decide
  · decide

/-- A token takes a lexeme off the input, until there are none. -/
theorem lex_input {l l' : Lexer} {t : Token} (h : l.lex = .ok (t, l')) :
    l'.input.length + 1 = l.input.length ∨ l.input = [] ∧ l'.input = [] ∧ t = .eob := by
  unfold Lexer.lex at h
  dsimp only at h
  split at h
  · rename_i hnil
    cases h
    exact .inr ⟨hnil, hnil, rfl⟩
  · cases h
  · rename_i hcons
    cases h
    rw [hcons]
    exact .inl rfl

/-- What `Lex` takes where some token is left. -/
theorem left_lex {c : Compiler} {t : Token} {lex : Lexer} (h : c.lex.lex = .ok (t, lex)) :
    left { c with token := t, lex := lex } + (if left c = 0 then 0 else 1) ≤ left c := by
  have hle := weight_le t
  unfold left
  rcases lex_input h with hinput | ⟨hnil, hnil', rfl⟩
  · split <;> dsimp only <;> omega
  · rw [hnil, hnil']
    split
    · exact Nat.zero_le _
    · exact Nat.pos_of_ne_zero ‹_›

/-- `Lex` takes a token where there is one left. -/
theorem takes_Lex_of {k : Nat} (hk : ∀ c : Compiler, P c.token → k ≤ if left c = 0 then 0 else 1) :
    Takes P b (fun _ => k) Lex := by
  intro c hc _
  unfold Lex
  rw [get_bind_apply]
  cases hlex : c.lex.lex with
  | error msg =>
    intro h
    cases h
  | ok r =>
    have htaken := left_lex hlex
    have hmin := hk c hc
    change left { c with token := r.1, lex := r.2 } + k ≤ left c
    omega

theorem takes_Lex (h : ∀ t, P t → t ≠ .eob) : Takes P b (fun _ => 1) Lex := by
  apply takes_Lex_of
  intro c hc
  have hpos : left c ≠ 0 := by
    have hweight := weight_pos (h _ hc)
    unfold left
    omega
  exact Nat.le_of_eq (if_neg hpos).symm

instance free_Lex : Free b Lex := ⟨takes_Lex_of fun _ _ => Nat.zero_le _⟩

theorem takes_Expect {tok : Token} (h : tok ≠ .eob) : Takes P b (fun _ => 1) (Expect tok) := by
  unfold Expect
  apply takes_get_bind
  intro c _
  dsimp only
  apply takes_ite
  · intro _
    exact takes_error_bind
  · intro htoken
    have hread : c.token ≠ .eob := by
      intro heob
      apply htoken
      rw [heob]
      exact ⟨h.symm, by simp⟩
    apply Takes.eat
    · apply takes_Lex
      rintro _ rfl
      exact hread
    · intro _
      infer_instance
    · exact fun _ => Nat.le_refl 1

instance free_Expect (tok : Token) : Free b (Expect tok) := by
  unfold Expect
  infer_instance

instance eats_Expect_chr (c : Char) : Eats b (Expect (.chr c)) := ⟨takes_Expect (by simp)⟩

instance eats_Expect_identifier : Eats b (Expect .TK_IDENTIFIER) := ⟨takes_Expect (by simp)⟩

instance eats_Expect_string : Eats b (Expect .TK_STRING_LITERAL) := ⟨takes_Expect (by simp)⟩

instance free_OptionalSemicolon : Free b OptionalSemicolon := by
  unfold OptionalSemicolon
  infer_instance

instance free_endStatement : Free b endStatement := by
  unfold endStatement
  infer_instance

/-! ### Expressions -/

set_option synthInstance.maxSize 100000
set_option synthInstance.maxHeartbeats 400000

instance eats_withFreshEs {m : CompilerM Unit} [h : Eats b m] : Eats b (withFreshEs m) := by
  unfold withFreshEs
  infer_instance

theorem Free.withDonotGet {m : CompilerM Unit} (h : Free b m) : Free b (withDonotGet m) := by
  unfold Compiler.withDonotGet
  infer_instance

/-- Procedures that read their first token without looking at it. -/
def Starts : Proc → Token → Prop
  | .IfStatement, t | .WhileStatement, t | .DoWhileStatement, t | .ForStatement, t
  | .ForEachStatement, t | .SwitchStatement, t | .TryCatchStatement, t
  | .FunctionStatement _, t | .ClassStatement _, t | .FunctionExp _, t | .DeleteExpr, t
  | .PrefixIncDec _, t => t ≠ .eob
  | _, _ => True

/-- How much every run of the procedure takes. -/
def minimum : Proc → Nat
  | .Statements | .IfBlock | .FunctionCallArgs _ | .ParseTableOrClass .. | .ClassExp => 0
  | _ => 1

/-- A call takes what the procedure takes, where less than `b` is left. -/
class Calls (b : Nat) (call : Proc → CompilerM Unit) : Prop where
  takes : ∀ p, Takes (Starts p) b (fun _ => minimum p) (call p)

section

variable {call : Proc → CompilerM Unit} [h : Calls b call]

include h

instance eats_call_Expression : Eats b (call .Expression) := ⟨h.takes .Expression⟩

instance eats_call_CommaExpr : Eats b (call .CommaExpr) := ⟨h.takes .CommaExpr⟩

instance eats_call_LogicalOrExp : Eats b (call .LogicalOrExp) := ⟨h.takes .LogicalOrExp⟩

instance eats_call_LogicalAndExp : Eats b (call .LogicalAndExp) := ⟨h.takes .LogicalAndExp⟩

instance eats_call_PrefixedExpr : Eats b (call .PrefixedExpr) := ⟨h.takes .PrefixedExpr⟩

instance eats_call_UnaryOP (op : Opcode) : Eats b (call (.UnaryOP op)) := ⟨h.takes (.UnaryOP op)⟩

instance eats_call_CreateFunction (name : Object) (boundtarget : Int) (lambda : Bool) :
    Eats b (call (.CreateFunction name boundtarget lambda)) :=
  ⟨h.takes (.CreateFunction name boundtarget lambda)⟩

instance free_call_FunctionCallArgs (rawcall : Bool) : Free b (call (.FunctionCallArgs rawcall)) :=
  ⟨h.takes (.FunctionCallArgs rawcall)⟩

instance free_call_ParseTableOrClass (separator terminator : Token) :
    Free b (call (.ParseTableOrClass separator terminator)) :=
  ⟨h.takes (.ParseTableOrClass separator terminator)⟩

instance free_call_ClassExp : Free b (call .ClassExp) := ⟨h.takes .ClassExp⟩

instance eats_call_Statement (closeframe : Bool) : Eats b (call (.Statement closeframe)) :=
  ⟨h.takes (.Statement closeframe)⟩

instance free_call_Statements : Free b (call .Statements) := ⟨h.takes .Statements⟩

instance free_call_IfBlock : Free b (call .IfBlock) := ⟨h.takes .IfBlock⟩

instance eats_call_LocalDeclStatement : Eats b (call .LocalDeclStatement) :=
  ⟨h.takes .LocalDeclStatement⟩

end

instance free_genericArguments [hn : Rounds b n] : Free b (genericArguments n) := by
  unfold genericArguments
  apply free_Lex.bind
  intro _
  refine ⟨takes_loop hn.le (fun _ => ?_) ()⟩
  apply takes_getToken_bind
  intro t _
  dsimp only
  apply takes_ite
  · intro _
    exact takes_error_bind
  · intro htype
    have hread : t ≠ .eob := by
      rintro rfl
      exact htype rfl
    apply Takes.eat
    · apply takes_Lex
      rintro _ rfl
      exact hread
    · intro _
      infer_instance
    · exact perRound_le

instance free_postfixIncDec (diff : Int) : Free b (postfixIncDec diff) := by
  unfold postfixIncDec
  apply free_Lex.bind
  intro _
  apply emits_get.free.bind
  intro c
  dsimp only
  split <;> infer_instance

instance free_emitConstant (id : Object) (constant : Constant) :
    Free b (emitConstant id constant) := by
  unfold emitConstant
  repeat' first | infer_instance | apply Free.bind | intro _ | split

section

variable {call : Proc → CompilerM Unit} [he : Eats b (call .Expression)]
  [hc : Eats b (call .CommaExpr)] [hn : Rounds b n]

include he

instance free_assignment (op : Token) : Free b (assignment call op) := by
  unfold assignment
  repeat' first | infer_instance | apply Free.bind | intro _ | split

instance free_conditional : Free b (conditional call) := by
  unfold conditional
  infer_instance

instance free_ParseBindEnv : Free b (ParseBindEnv call) := by
  unfold ParseBindEnv
  infer_instance

instance free_optionalBindEnv : Free b (optionalBindEnv call) := by
  unfold optionalBindEnv
  infer_instance

include hn

instance free_arrayElements : Free b (arrayElements n call) := by
  unfold arrayElements
  infer_instance

instance free_callArguments : Free b (callArguments n call) := by
  unfold callArguments
  infer_instance

include hc

omit hn he in
instance eats_slotKey : Eats b (slotKey call) := by
  refine ⟨?_⟩
  unfold slotKey
  apply takes_getToken_bind
  intro t _
  split <;> exact takes_of_eats

instance free_callSlots : Free b (callSlots n call) := by
  unfold callSlots
  infer_instance

instance free_functionCallArgs (rawcall : Bool) : Free b (functionCallArgs n call rawcall) := by
  unfold functionCallArgs
  infer_instance

end

/-- What follows the first token of a construct. -/
theorem takes_Lex_bind {k : β → Nat} {f : Unit → CompilerM β} (h : ∀ t, P t → t ≠ .eob)
    (hf : ∀ a, Free (b - 1) (f a)) (hk : ∀ x, k x ≤ 1) : Takes P b k (Lex >>= f) :=
  (takes_Lex h).eat hf hk

/-! ### Procedures for expressions -/

/-- The dot that `Factor` makes of `::`. -/
theorem takes_dot : Takes (· = .TK_DOUBLE_COLON) b (fun _ => 1)
    (modify fun c => { c with token := .chr '.' } : CompilerM Unit) := by
  intro c hc _
  change 3 * c.lex.input.length + 1 + 1 ≤ 3 * c.lex.input.length + weight c.token
  rw [hc]
  exact Nat.le_refl _

theorem takes_identifier [hn : Rounds (b - 1) n] (hread : ∀ t, P t → t ≠ .eob) :
    Takes P b (fun _ => 1) (identifier n) := by
  unfold identifier
  apply takes_get_bind
  intro c hc
  dsimp only
  apply takes_Lex_bind
  · rintro _ rfl
    exact hread _ hc
  · intro _
    repeat' first | infer_instance | apply Free.bind | intro _ | split
  · exact fun _ => Nat.le_refl 1

section

variable {call : Proc → CompilerM Unit} [h : Calls (b - 1) call] [hn : Rounds (b - 1) n]

include h hn

theorem takes_commaExpr (hp : Takes Anywhere b (fun _ => 1) (call .Expression)) :
    Takes Anywhere b (fun _ => 1) (commaExpr n call) := by
  unfold commaExpr
  apply hp.eat
  · intro _
    infer_instance
  · exact fun _ => Nat.le_refl 1

omit h in
theorem takes_binaryLevel {f : Proc} {ops : Token → Option (Opcode × Int)}
    (hp : Takes Anywhere b (fun _ => 1) (call f)) :
    Takes Anywhere b (fun _ => 1) (binaryLevel n call f ops) := by
  have hf : Eats (b - 1) (call f) := ⟨hp.below (Nat.sub_le b 1)⟩
  unfold binaryLevel
  apply hp.eat
  · intro _
    refine ⟨takes_whileLoop hn.le ?_⟩
    apply takes_getToken_bind
    intro t ht
    cases hop : ops t with
    | none =>
      rw [hop] at ht
      cases ht
    | some x =>
      have hbin : Eats (b - 1) (BIN_EXP call x.1 f x.2) := by
        unfold BIN_EXP
        infer_instance
      exact hbin.takes.everywhere
  · exact fun _ => Nat.le_refl 1

omit h hn in
instance eats_shortCircuit (op : Opcode) (f : Proc) [hf : Eats (b - 1) (call f)] :
    Eats (b - 1) (shortCircuit call op f) := by
  unfold shortCircuit
  infer_instance

omit hn in
theorem takes_logicalOrExp (hp : Takes Anywhere b (fun _ => 1) (call .LogicalAndExp)) :
    Takes Anywhere b (fun _ => 1) (logicalOrExp call) := by
  unfold logicalOrExp
  apply hp.eat
  · intro _
    infer_instance
  · exact fun _ => Nat.le_refl 1

theorem takes_logicalAndExp (hp : Takes Anywhere b (fun _ => 1) (call .BitwiseOrExp)) :
    Takes Anywhere b (fun _ => 1) (logicalAndExp n call) := by
  unfold logicalAndExp
  apply hp.eat
  · intro _
    infer_instance
  · exact fun _ => Nat.le_refl 1

omit hn in
/-- An expression takes what its or-expression takes, whatever operator of its
own follows. -/
theorem takes_expression (hp : Takes Anywhere b (fun _ => 1) (call .LogicalOrExp)) :
    Takes Anywhere b (fun _ => 1) (expression call) := by
  unfold expression
  refine (eats_withFreshEs (h := ⟨?_⟩)).takes
  apply hp.eat
  · intro _
    apply emits_getToken.free.bind
    intro t
    split <;> infer_instance
  · exact fun _ => Nat.le_refl 1

instance round_suffix : Round (b - 1) (suffix n call) := by
  refine ⟨?_⟩
  unfold suffix
  apply takes_getToken_bind
  intro t _
  dsimp only
  split
  case h_6 =>
    -- The arguments of a call may be none, but the bracket is read.
    apply Emits.takes_bind inferInstance
    intro _
    apply Emits.takes_bind inferInstance
    intro _
    apply takes_Lex_bind
    · rintro _ rfl
      simp
    · intro _
      exact Free.below inferInstance (Nat.sub_le _ 1)
    · exact perRound_le
  all_goals exact (inferInstance : Round (b - 1) _).takes.everywhere

theorem takes_prefixedExpr (hp : Takes Anywhere b (fun _ => 1) (call .Factor)) :
    Takes Anywhere b (fun _ => 1) (prefixedExpr n call) := by
  unfold prefixedExpr
  apply hp.eat
  · intro _
    infer_instance
  · exact fun _ => Nat.le_refl 1

omit hn in
theorem takes_negation (hread : ∀ t, P t → t ≠ .eob) : Takes P b (fun _ => 1) (negation call) := by
  unfold negation
  apply takes_Lex_bind hread
  · intro _
    apply emits_get.free.bind
    intro c
    split <;> infer_instance
  · exact fun _ => Nat.le_refl 1

theorem takes_arrayConstructor (hread : ∀ t, P t → t ≠ .eob) :
    Takes P b (fun _ => 1) (arrayConstructor n call) := by
  unfold arrayConstructor
  iterate 3 refine Emits.takes_bind inferInstance fun _ => ?_
  apply takes_Lex_bind hread
  · intro _
    infer_instance
  · exact fun _ => Nat.le_refl 1

theorem takes_factorExpr
    (hfunction : ∀ lambda, Takes (· ≠ .eob) b (fun _ => 1) (call (.FunctionExp lambda)))
    (hincdec : ∀ token, Takes (· ≠ .eob) b (fun _ => 1) (call (.PrefixIncDec token)))
    (hdelete : Takes (· ≠ .eob) b (fun _ => 1) (call .DeleteExpr)) :
    Takes Anywhere b (fun _ => 1) (factorExpr n call) := by
  unfold factorExpr
  apply takes_get_bind
  intro c _
  by_cases heob : c.token = .eob
  · rw [heob]
    exact takes_error _
  have hread : ∀ t, t = c.token → t ≠ .eob := by
    rintro _ rfl
    exact heob
  have hcall {p : Proc} (hp : Takes (· ≠ .eob) b (fun _ => 1) (call p)) :
      Takes (· = c.token) b (fun _ => 1) (call p) :=
    hp.mono hread (Nat.le_refl b) fun _ => Nat.le_refl 1
  have hlex {f : Unit → CompilerM Unit} (hf : ∀ a, Free (b - 1) (f a)) :
      Takes (· = c.token) b (fun _ => 1) (Lex >>= f) :=
    takes_Lex_bind hread hf fun _ => Nat.le_refl 1
  split
  all_goals repeat' with_reducible first
    | exact hcall (hfunction _)
    | exact hcall (hincdec _)
    | exact hcall hdelete
    | exact takes_error _
    | exact takes_arrayConstructor hread
    | exact takes_negation hread
    | exact takes_Lex hread
    | exact hlex fun _ => inferInstance
    | refine takes_recordFloat_bind ?_
    | refine Emits.takes_bind inferInstance fun _ => ?_

/-- A factor takes a token, if the expressions that start with a keyword do.
-/
theorem takes_factor
    (hfunction : ∀ lambda, Takes (· ≠ .eob) b (fun _ => 1) (call (.FunctionExp lambda)))
    (hincdec : ∀ token, Takes (· ≠ .eob) b (fun _ => 1) (call (.PrefixIncDec token)))
    (hdelete : Takes (· ≠ .eob) b (fun _ => 1) (call .DeleteExpr)) :
    Takes Anywhere b (fun _ => 1) (factor n call) := by
  unfold factor
  apply takes_getToken_bind
  intro t _
  split
  · apply takes_Lex_bind
    · rintro _ rfl
      simp
    · intro _
      infer_instance
    · exact fun _ => Nat.le_refl 1
  · apply takes_identifier
    rintro _ rfl
    simp
  · apply takes_identifier
    rintro _ rfl
    simp
  · apply takes_identifier
    rintro _ rfl
    simp
  · iterate 3 refine Emits.takes_bind inferInstance fun _ => ?_
    apply takes_dot.eat
    · intro _
      infer_instance
    · exact fun _ => Nat.le_refl 1
  · apply (takes_factorExpr hfunction hincdec hdelete).everywhere.eat
    · intro _
      infer_instance
    · exact fun _ => Nat.le_refl 1

omit h hn in
theorem takes_unaryOP (op : Opcode) (hp : Takes Anywhere b (fun _ => 1) (call .PrefixedExpr)) :
    Takes Anywhere b (fun _ => 1) (unaryOP call op) := by
  unfold unaryOP
  apply hp.eat
  · intro _
    infer_instance
  · exact fun _ => Nat.le_refl 1

omit hn in
theorem takes_deleteExpr : Takes (· ≠ .eob) b (fun _ => 1) (deleteExpr call) := by
  unfold deleteExpr
  apply takes_Lex_bind fun _ h => h
  · intro _
    apply Free.withDonotGet
    apply Free.bind inferInstance
    intro _
    apply Free.bind inferInstance
    intro etype
    split <;> infer_instance
  · exact fun _ => Nat.le_refl 1

omit hn in
theorem takes_prefixIncDec (token : Token) :
    Takes (· ≠ .eob) b (fun _ => 1) (prefixIncDec call token) := by
  unfold prefixIncDec
  dsimp only
  apply takes_Lex_bind fun _ h => h
  · intro _
    apply Free.withDonotGet
    apply Free.bind inferInstance
    intro _
    apply Free.bind inferInstance
    intro c
    split <;> infer_instance
  · exact fun _ => Nat.le_refl 1

omit hn in
theorem takes_functionExp (lambda : Bool) :
    Takes (· ≠ .eob) b (fun _ => 1) (functionExp call lambda) := by
  unfold functionExp
  apply takes_Lex_bind fun _ h => h
  · intro _
    infer_instance
  · exact fun _ => Nat.le_refl 1

end

section

variable {call : Proc → CompilerM Unit} [he : Eats b (call .Expression)]
  [hc : Eats b (call .CommaExpr)]
  [hf : ∀ name boundtarget lambda, Eats b (call (.CreateFunction name boundtarget lambda))]

include he hf

instance eats_method (id : Object) : Eats b (slot.method call id) := by
  unfold slot.method
  infer_instance

include hc

omit hf in
instance eats_keyAndValue : Eats b (slot.keyAndValue call) := by
  unfold slot.keyAndValue
  infer_instance

instance eats_slot (separator : Token) : Eats b (slot call separator) := by
  refine ⟨?_⟩
  unfold slot
  apply takes_getToken_bind
  intro t _
  split <;> exact takes_of_eats

theorem takes_parseTableOrClass [h : Calls (b - 1) call] [hn : Rounds b n]
    (separator terminator : Token) :
    Takes Anywhere b (fun _ => 0) (parseTableOrClass n call separator terminator) := by
  unfold parseTableOrClass
  dsimp only
  apply Emits.takes_bind inferInstance
  intro tpos
  apply Takes.pass
  · apply takes_loop hn.le
    intro nkeys
    apply takes_getToken_bind
    intro t _
    apply takes_ite
    · intro _
      exact (round_inr nkeys).takes.everywhere
    intro _
    apply takes_getToken_bind
    rintro _ rfl
    apply takes_ite
    · intro hattrs
      iterate 2 refine Emits.takes_bind inferInstance fun _ => ?_
      apply takes_Lex_bind
      · rintro _ rfl
        rw [hattrs.2]
        simp
      · intro _
        infer_instance
      · exact perRound_le
    · intro _
      exact (inferInstance : Round b _).takes.everywhere
  · intro nkeys
    exact (inferInstance : Free b _).takes

omit hc hf in
theorem takes_classExp
    (hp : ∀ separator terminator, Free b (call (.ParseTableOrClass separator terminator))) :
    Takes Anywhere b (fun _ => 0) (classExp call) := by
  unfold classExp
  dsimp only
  exact (inferInstance : Free b _).takes

end

end GameScript.Compiler
