import GameScript.Lexemes

/-!
Places in a text. `feed` adds one more lexeme to the input. `Place` says where a computation
comes to with it, whatever token the lexeme has: it does not read the lexeme, or reads it where a
type name has to stand, or reads it elsewhere. Elsewhere no type keyword gets past it, and
`TK_FLOAT` does only as a float constant, which is then the only one that is added to those read
before. What the place is does not depend on the token that stands there.

`Reads` says this of a computation that may start at any token, `Opens` of one that starts at a
token that has been looked at.
-/

namespace GameScript.Compiler

open Effect

variable {α β : Type} {m : CompilerM α} {f : α → CompilerM β} {x : Lexeme} {c : Compiler}
  {read : List FloatConstant}

/-- The keywords that only name types. -/
def IsTypeKeyword (t : Token) : Prop :=
  t = .TK_INT ∨ t = .TK_STRING ∨ t = .TK_BOOL ∨ t = .TK_VOID

/-- The tokens of the type keywords; `TK_FLOAT` is one of the literals too. -/
def IsTypeWord (t : Token) : Prop :=
  t = .TK_INT ∨ t = .TK_STRING ∨ t = .TK_BOOL ∨ t = .TK_VOID ∨ t = .TK_FLOAT

theorem IsTypeKeyword.isTypeWord {t : Token} (h : IsTypeKeyword t) : IsTypeWord t := by
  rcases h with h | h | h | h <;> simp [IsTypeWord, h]

theorem isTypeWord_float : IsTypeWord .TK_FLOAT := by
  simp [IsTypeWord]

/-- `x` with the token `u`. -/
def placing (x : Lexeme) (u : Token) : Except String Lexeme := .ok { x with token := u }

/-- `y` at the end of the input. -/
def feed (y : Except String Lexeme) (c : Compiler) : Compiler :=
  { c with lex := { c.lex with input := c.lex.input ++ [y] } }

/-- All of the input has been read, and the end of it. -/
def AtEnd (c : Compiler) : Prop := c.token = .eob ∧ c.lex.input = []

instance decidable_AtEnd (c : Compiler) : Decidable (AtEnd c) :=
  decidable_of_iff (c.token = .eob ∧ c.lex.input.isEmpty = true) (by simp [AtEnd])

/-- No float constant is left; those of `read` have been read. -/
structure Spent (read : List FloatConstant) (c : Compiler) : Prop where
  input : c.lex.input = []
  token : c.token ≠ .TK_FLOAT
  loaded : c.loaded = read

/-- What is read from `x`. -/
def constantOf (x : Lexeme) (negated : Bool) : FloatConstant :=
  ⟨if negated then x.fvalue ^^^ 0x80000000 else x.fvalue, negated, x.longstr⟩

/-- `x` stands as `TK_FLOAT` at the end of the input. -/
structure Stands (x : Lexeme) (read : List FloatConstant) (c : Compiler) : Prop where
  token : c.token = .TK_FLOAT
  input : c.lex.input = []
  fvalue : c.lex.fvalue = x.fvalue
  longstr : c.lex.longstr = x.longstr
  loaded : c.loaded = read

/-- `x` has been read as a float constant. -/
structure Taken (x : Lexeme) (read : List FloatConstant) (c : Compiler) : Prop where
  ended : AtEnd c
  loaded : ∃ negated, c.loaded = read ++ [constantOf x negated]

def FloatAt (x : Lexeme) (read : List FloatConstant) (c : Compiler) : Prop :=
  Stands x read c ∨ Taken x read c

/-- `m` comes to the end of the input, and to the lexeme if one more is fed. -/
structure Reached (x : Lexeme) (m : CompilerM α) (c : Compiler) : Prop where
  ended : AtEnd (leaves m c)
  error (msg : String) : ∃ e c', m (feed (.error msg) c) = .error e c' ∧
    c'.loaded = (leaves m c).loaded
  spent (u : Token) (hu : u ≠ .TK_FLOAT) :
    Spent (leaves m c).loaded (leaves m (feed (placing x u) c))

/-- Where `m` comes to with one more lexeme. -/
inductive Place (x : Lexeme) (m : CompilerM α) (c : Compiler) : Prop where
  | before (h : ∀ y, m (feed y c) = mapState (feed y) (m c))
  | type (h : Reached x m c)
      (hgood : ∀ u, u.isType = true → AtEnd (leaves m (feed (placing x u) c)))
      (hbad : ∀ u, u.isType = false →
        ∃ e c', m (feed (placing x u) c) = .error e c' ∧ c'.token = u)
      (hfloat : (leaves m (feed (placing x .TK_FLOAT) c)).loaded = (leaves m c).loaded)
  | other (h : Reached x m c)
      (hkeyword : ∀ t, IsTypeKeyword t → (leaves m (feed (placing x t) c)).token = t)
      (hfloat : FloatAt x (leaves m c).loaded (leaves m (feed (placing x .TK_FLOAT) c)))

class Places (m : CompilerM α) : Prop where
  place : ∀ x c, Place x m c

/-- A type keyword stops the computation, or it does not look at it; a float constant is read, or
it does not look at it. -/
class Refuses (m : CompilerM α) : Prop where
  keywords : ∀ t, IsTypeKeyword t → Within (Keeps fun c => c.token = t) m
  floats : ∀ x read, Within (Keeps (FloatAt x read)) m

/-- At the end of the input the computation stays there, and reads no float constant. -/
class StaysAtEnd (m : CompilerM α) : Prop where
  ended : Within (Keeps AtEnd) m
  spent : ∀ read, Within (Keeps (Spent read)) m

class Opens (m : CompilerM α) : Prop extends Places m, StaysAtEnd m

class Reads (m : CompilerM α) : Prop extends Opens m, Refuses m

/-- The computation does not depend on how the input goes on. -/
class Blind (m : CompilerM α) : Prop where
  commutes : ∀ y, Commutes (feed y) m

/-! ### Rules -/

theorem AtEnd.spent (h : AtEnd c) : Spent c.loaded c :=
  ⟨h.2, by simp [h.1], rfl⟩

/-- At the end of the input no float constant is read. -/
theorem StaysAtEnd.loaded (h : StaysAtEnd m) (hc : AtEnd c) :
    (leaves m c).loaded = c.loaded :=
  (h.spent c.loaded c hc.spent).loaded

theorem StaysAtEnd.taken (h : StaysAtEnd m) : Within (Keeps (Taken x read)) m := by
  rintro c ⟨hend, negated, hloaded⟩
  exact ⟨h.ended c hend, negated, (h.loaded hend).trans hloaded⟩

theorem Refuses.of_stands (hend : StaysAtEnd m)
    (hkeywords : ∀ t, IsTypeKeyword t → Within (Keeps fun c => c.token = t) m)
    (hfloats : ∀ x read c, Stands x read c → FloatAt x read (leaves m c)) : Refuses m where
  keywords := hkeywords
  floats x read := by
    rintro c (hstands | htaken)
    · exact hfloats x read c hstands
    · exact .inr (hend.taken c htaken)

/-- Only what happens with the lexeme matters. -/
theorem Place.of_eq {m' : CompilerM α} {c' : Compiler} (h : Place x m c) (hsame : m' c' = m c)
    (hrun : ∀ y, m' (feed y c') = m (feed y c)) : Place x m' c' := by
  have hstart : leaves m' c' = leaves m c := by
    unfold leaves
    rw [hsame]
  have hleaves (y : Except String Lexeme) : leaves m' (feed y c') = leaves m (feed y c) := by
    unfold leaves
    rw [hrun y]
  have hreached (h : Reached x m c) : Reached x m' c' := by
    refine ⟨hstart ▸ h.ended, ?_, ?_⟩
    · intro msg
      rw [hrun, hstart]
      exact h.error msg
    · intro u hu
      rw [hleaves, hstart]
      exact h.spent u hu
  cases h with
  | before h =>
    apply Place.before
    intro y
    rw [hrun y, hsame, h y]
  | type h hgood hbad hfloat =>
    apply Place.type (hreached h)
    · intro u hu
      rw [hleaves]
      exact hgood u hu
    · intro u hu
      rw [hrun]
      exact hbad u hu
    · rw [hleaves, hstart]
      exact hfloat
  | other h hkeyword hfloat =>
    apply Place.other (hreached h)
    · intro t ht
      rw [hleaves]
      exact hkeyword t ht
    · rw [hleaves, hstart]
      exact hfloat

theorem place_bind_before (hm : ∀ y, m (feed y c) = mapState (feed y) (m c))
    (hf : ∀ a c₁, m c = .ok a c₁ → Place x (f a) c₁) : Place x (m >>= f) c := by
  cases hr : m c with
  | error e c₁ =>
    apply Place.before
    intro y
    rw [bind_apply, bind_apply, hm y, hr]
    rfl
  | ok a c₁ =>
    apply (hf a c₁ hr).of_eq
    · rw [bind_apply, hr]
    · intro y
      rw [bind_apply, hm y, hr]
      rfl

/-- What follows keeps the end of the input. -/
theorem Reached.bind (h : Reached x m c) (hend : ∀ a, StaysAtEnd (f a)) :
    Reached x (m >>= f) c ∧ (leaves (m >>= f) c).loaded = (leaves m c).loaded := by
  have hstays : AtEnd (leaves (m >>= f) c) ∧ (leaves (m >>= f) c).loaded = (leaves m c).loaded := by
    have hm := h.ended
    rw [leaves_bind]
    cases hr : m c with
    | error e c₁ =>
      rw [leaves_error hr] at hm ⊢
      exact ⟨hm, rfl⟩
    | ok a c₁ =>
      rw [leaves_ok hr] at hm ⊢
      exact ⟨(hend a).ended c₁ hm, (hend a).loaded hm⟩
  refine ⟨⟨hstays.1, ?_, ?_⟩, hstays.2⟩
  · intro msg
    obtain ⟨e, c', hrun, hloaded⟩ := h.error msg
    exact ⟨e, c', by rw [bind_apply, hrun], hloaded.trans hstays.2.symm⟩
  · intro u hu
    have hm := h.spent u hu
    rw [hstays.2, leaves_bind]
    cases hr : m (feed (placing x u) c) with
    | error e c₁ => rwa [leaves_error hr] at hm
    | ok a c₁ =>
      rw [leaves_ok hr] at hm
      exact (hend a).spent _ c₁ hm

/-- After the first computation, a type keyword that was not passed must not be passed. -/
theorem Place.bind (hm : Place x m c) (hf : ∀ a c₁, Place x (f a) c₁) (hend : ∀ a, StaysAtEnd (f a))
    (hkeyword : ∀ a c₁ t, IsTypeKeyword t → m (feed (placing x t) c) = .ok a c₁ → c₁.token = t →
      (leaves (f a) c₁).token = t)
    (hfloat : ∀ a c₁ read, m (feed (placing x .TK_FLOAT) c) = .ok a c₁ → FloatAt x read c₁ →
      FloatAt x read (leaves (f a) c₁)) : Place x (m >>= f) c := by
  cases hm with
  | before h => exact place_bind_before h fun a c₁ _ => hf a c₁
  | type h hgood hbad hloaded =>
    obtain ⟨hreached, hread⟩ := h.bind hend
    apply Place.type hreached
    · intro u hu
      have hm := hgood u hu
      rw [leaves_bind]
      cases hr : m (feed (placing x u) c) with
      | error e c₁ => rwa [leaves_error hr] at hm
      | ok a c₁ =>
        rw [leaves_ok hr] at hm
        exact (hend a).ended c₁ hm
    · intro u hu
      obtain ⟨e, c', hr, htoken⟩ := hbad u hu
      exact ⟨e, c', by rw [bind_apply, hr], htoken⟩
    · have hm := hgood .TK_FLOAT rfl
      rw [hread, ← hloaded, leaves_bind]
      cases hr : m (feed (placing x .TK_FLOAT) c) with
      | error e c₁ => rw [leaves_error hr]
      | ok a c₁ =>
        rw [leaves_ok hr] at hm ⊢
        exact (hend a).loaded hm
  | other h hkeep hread =>
    obtain ⟨hreached, hsame⟩ := h.bind hend
    apply Place.other hreached
    · intro t ht
      have hm := hkeep t ht
      rw [leaves_bind]
      cases hr : m (feed (placing x t) c) with
      | error e c₁ => rwa [leaves_error hr] at hm
      | ok a c₁ =>
        rw [leaves_ok hr] at hm
        exact hkeyword a c₁ t ht hr hm
    · rw [hsame, leaves_bind]
      cases hr : m (feed (placing x .TK_FLOAT) c) with
      | error e c₁ => rwa [leaves_error hr] at hread
      | ok a c₁ =>
        rw [leaves_ok hr] at hread
        exact hfloat a c₁ _ hr hread

theorem StaysAtEnd.bind (hm : StaysAtEnd m) (hf : ∀ a, StaysAtEnd (f a)) : StaysAtEnd (m >>= f) :=
  ⟨within_bind hm.ended fun a => (hf a).ended,
    fun read => within_bind (hm.spent read) fun a => (hf a).spent read⟩

theorem Refuses.bind (hm : Refuses m) (hf : ∀ a, Refuses (f a)) : Refuses (m >>= f) :=
  ⟨fun t ht => within_bind (hm.keywords t ht) fun a => (hf a).keywords t ht,
    fun x read => within_bind (hm.floats x read) fun a => (hf a).floats x read⟩

theorem Opens.bind (hm : Opens m) (hf : ∀ a, Reads (f a)) : Opens (m >>= f) where
  place x c := (hm.place x c).bind (fun a c₁ => (hf a).place x c₁)
    (fun a => (hf a).toOpens.toStaysAtEnd)
    (fun a c₁ t ht _ htoken => (hf a).keywords t ht c₁ htoken)
    fun a c₁ read _ hfloat => (hf a).floats x read c₁ hfloat
  toStaysAtEnd := hm.toStaysAtEnd.bind fun a => (hf a).toOpens.toStaysAtEnd

theorem Reads.bind (hm : Reads m) (hf : ∀ a, Reads (f a)) : Reads (m >>= f) where
  toOpens := hm.toOpens.bind hf
  toRefuses := hm.toRefuses.bind fun a => (hf a).toRefuses

instance opens_bind_left [hm : Opens m] [hf : ∀ a, Reads (f a)] : Opens (m >>= f) := hm.bind hf

instance reads_bind [hm : Reads m] [hf : ∀ a, Reads (f a)] : Reads (m >>= f) := hm.bind hf

/-- No type keyword is left when the first computation has a result. -/
theorem Reads.bind_past (hm : Reads m) (hpast : ∀ c a c', m c = .ok a c' → ¬ IsTypeWord c'.token)
    (hf : ∀ a, Opens (f a)) : Reads (m >>= f) := by
  have hfloat {c c₁ : Compiler} {a : α} {x : Lexeme} {read : List FloatConstant}
      (hr : m c = .ok a c₁) (h : FloatAt x read c₁) : FloatAt x read (leaves (f a) c₁) := by
    rcases h with hstands | htaken
    · exact absurd (hstands.token ▸ isTypeWord_float) (hpast c a c₁ hr)
    · exact .inr ((hf a).taken c₁ htaken)
  have hkeyword {c c₁ : Compiler} {a : α} {t : Token} (hr : m c = .ok a c₁)
      (ht : IsTypeKeyword t) (htoken : c₁.token = t) : (leaves (f a) c₁).token = t :=
    absurd (htoken ▸ ht.isTypeWord) (hpast c a c₁ hr)
  have hrefuses : Refuses (m >>= f) := by
    constructor
    · intro t ht c hc
      have hkept := hm.keywords t ht c hc
      rw [leaves_bind]
      cases hr : m c with
      | error e c₁ => rwa [leaves_error hr] at hkept
      | ok a c₁ =>
        rw [leaves_ok hr] at hkept
        exact hkeyword hr ht hkept
    · intro x read c hc
      have hkept := hm.floats x read c hc
      rw [leaves_bind]
      cases hr : m c with
      | error e c₁ => rwa [leaves_error hr] at hkept
      | ok a c₁ =>
        rw [leaves_ok hr] at hkept
        exact hfloat hr hkept
  have hstays : StaysAtEnd (m >>= f) := hm.toStaysAtEnd.bind fun a => (hf a).toStaysAtEnd
  refine { place := fun x c => ?_, toStaysAtEnd := hstays, toRefuses := hrefuses }
  exact (hm.place x c).bind (fun a c₁ => (hf a).place x c₁) (fun a => (hf a).toStaysAtEnd)
    (fun a c₁ t ht hr htoken => hkeyword hr ht htoken) fun a c₁ read hr h => hfloat hr h

theorem places_of_blind (h : Blind m) : Places m :=
  ⟨fun _ c => .before fun y => h.commutes y c⟩

/-- What leaves the token, the input and the constants read as they are. -/
theorem reads_of_same (hsame : ∀ c, (leaves m c).token = c.token ∧ (leaves m c).lex = c.lex ∧
    (leaves m c).loaded = c.loaded) (hblind : Blind m) : Reads m := by
  have hend : StaysAtEnd m := by
    constructor
    · intro c hc
      obtain ⟨htoken, hlex, -⟩ := hsame c
      exact ⟨htoken.trans hc.1, by rw [hlex, hc.2]⟩
    · intro read c hc
      obtain ⟨htoken, hlex, hloaded⟩ := hsame c
      exact ⟨by rw [hlex, hc.input], htoken ▸ hc.token, hloaded.trans hc.loaded⟩
  have hrefuses : Refuses m := by
    apply Refuses.of_stands hend
    · exact fun t ht c hc => (hsame c).1.trans hc
    · intro x read c hc
      obtain ⟨htoken, hlex, hloaded⟩ := hsame c
      exact .inl ⟨htoken.trans hc.token, by rw [hlex, hc.input], by rw [hlex, hc.fvalue],
        by rw [hlex, hc.longstr], hloaded.trans hc.loaded⟩
  exact { toPlaces := places_of_blind hblind, toStaysAtEnd := hend, toRefuses := hrefuses }

instance (priority := low) reads_of_emits [h : Emits m] [hblind : Blind m] : Reads m :=
  reads_of_same (fun c => ⟨(h.emitted c).token, (h.emitted c).lex, (h.emitted c).loaded⟩) hblind

instance opens_bind_right [h : Emits m] [hblind : Blind m] [hf : ∀ a, Opens (f a)] :
    Opens (m >>= f) where
  place x c := place_bind_before (fun y => hblind.commutes y c) fun a c₁ _ => (hf a).place x c₁
  toStaysAtEnd :=
    (reads_of_emits (h := h)).toStaysAtEnd.bind fun a => (hf a).toStaysAtEnd

/-- What comes first does not matter to the place. -/
instance places_bind_right [hblind : Blind m] [hf : ∀ a, Places (f a)] : Places (m >>= f) where
  place x c := place_bind_before (fun y => hblind.commutes y c) fun a c₁ _ => (hf a).place x c₁

instance opens_ite {p : Prop} [Decidable p] {m' : CompilerM α} [h : Opens m] [h' : Opens m'] :
    Opens (if p then m else m') := by
  split
  · exact h
  · exact h'

instance reads_ite {p : Prop} [Decidable p] {m' : CompilerM α} [h : Reads m] [h' : Reads m'] :
    Reads (if p then m else m') := by
  split
  · exact h
  · exact h'

instance reads_throw (e : CompileError) : Reads (throw e : CompilerM α) :=
  reads_of_same (fun _ => ⟨rfl, rfl, rfl⟩) ⟨fun _ => commutes_throw e⟩

/-- What follows an error does not matter. -/
instance reads_error_bind (msg : String) : Reads (error msg >>= f) := by
  have hsame : (error msg >>= f) = error msg := rfl
  rw [hsame]
  exact reads_throw _

/-! ### Tokens -/

/-- A token that is no type keyword. -/
class Plain (tok : Token) : Prop where
  plain : ¬ IsTypeWord tok

theorem Plain.ne {tok t : Token} (h : Plain tok) (ht : IsTypeWord t) : t ≠ tok :=
  fun heq => h.plain (heq ▸ ht)

instance plain_chr (ch : Char) : Plain (.chr ch) := ⟨by simp [IsTypeWord]⟩

/-- The token is looked at. -/
theorem Reads.getToken_bind {f : Token → CompilerM β} (hplace : ∀ u, Places (f u))
    (hend : StaysAtEnd (f .eob))
    (hspent : ∀ u, u ≠ .TK_FLOAT → ∀ read, Within (Keeps (Spent read)) (f u))
    (hrefuse : ∀ t, IsTypeWord t → Refuses (f t)) : Reads (getToken >>= f) := by
  have hrun (c : Compiler) : leaves (getToken >>= f) c = leaves (f c.token) c := rfl
  have hstays : StaysAtEnd (getToken >>= f) := by
    constructor
    · intro c hc
      rw [hrun, hc.1]
      exact hend.ended c hc
    · intro read c hc
      rw [hrun]
      exact hspent c.token hc.token read c hc
  have hrefuses : Refuses (getToken >>= f) := by
    apply Refuses.of_stands hstays
    · intro t ht c hc
      rw [hrun, show c.token = t from hc]
      exact (hrefuse t ht.isTypeWord).keywords t ht c hc
    · intro x read c hc
      rw [hrun, hc.token]
      exact (hrefuse _ isTypeWord_float).floats x read c (.inl hc)
  refine { place := fun x c => ?_, toStaysAtEnd := hstays, toRefuses := hrefuses }
  exact place_bind_before (fun _ => rfl) fun u c₁ _ => (hplace u).place x c₁

/-- The token is looked at, and what follows depends on it. -/
theorem Reads.matchToken {f : Token → CompilerM β} (hf : ∀ u, Opens (f u))
    (hrefuse : ∀ t, IsTypeWord t → Reads (f t)) : Reads (getToken >>= f) :=
  Reads.getToken_bind (fun u => (hf u).toPlaces) (hf .eob).toStaysAtEnd (fun u _ => (hf u).spent)
    fun t ht => (hrefuse t ht).toRefuses

instance reads_ifToken {tok : Token} [htok : Plain tok] {m m' : CompilerM β} [h : Opens m]
    [h' : Reads m'] : Reads (getToken >>= fun u => if u = tok then m else m') := by
  apply Reads.matchToken
  · intro u
    infer_instance
  · intro t ht
    rw [if_neg (htok.ne ht)]
    exact h'

instance reads_ifNotToken {tok : Token} [htok : Plain tok] {m m' : CompilerM β} [h : Reads m]
    [h' : Opens m'] : Reads (getToken >>= fun u => if u ≠ tok then m else m') := by
  apply Reads.matchToken
  · intro u
    infer_instance
  · intro t ht
    rw [if_pos (htok.ne ht)]
    exact h

/-- The state is looked at, but not how the input goes on. -/
theorem places_get_bind {f : Compiler → CompilerM β} (hsame : ∀ y c, f (feed y c) = f c)
    (hf : ∀ c, Places (f c)) : Places (get >>= f) where
  place x c := ((hf c).place x c).of_eq rfl fun y => congrFun (hsame y c) (feed y c)

theorem Opens.get_bind {f : Compiler → CompilerM β} (hsame : ∀ y c, f (feed y c) = f c)
    (hf : ∀ c, Opens (f c)) : Opens (get >>= f) where
  toPlaces := places_get_bind hsame fun c => (hf c).toPlaces
  ended := within_get_bind fun c => (hf c).ended c
  spent read := within_get_bind fun c => (hf c).spent read c

/-- The state is looked at; where its token is `TK_FLOAT`, the constant may be read. -/
theorem Reads.getFloatState_bind {f : Compiler → CompilerM β} (hsame : ∀ y c, f (feed y c) = f c)
    (hplace : ∀ c, c.token = .TK_FLOAT → Places (f c))
    (hf : ∀ c, c.token ≠ .TK_FLOAT → Opens (f c))
    (hrefuse : ∀ c, IsTypeKeyword c.token → Refuses (f c))
    (hfloat : ∀ x read c, Stands x read c → FloatAt x read (leaves (f c) c)) :
    Reads (get >>= f) := by
  have hstays : StaysAtEnd (get >>= f) := by
    constructor
    · exact within_get_bind fun c hc => (hf c (by simp [hc.1])).ended c hc
    · exact fun read => within_get_bind fun c hc => (hf c hc.token).spent read c hc
  have hrefuses : Refuses (get >>= f) := by
    apply Refuses.of_stands hstays
    · exact fun t ht => within_get_bind fun c hc => (hrefuse c (hc ▸ ht)).keywords t ht c hc
    · exact hfloat
  have hplaces : Places (get >>= f) := by
    apply places_get_bind hsame
    intro c
    by_cases hc : c.token = .TK_FLOAT
    · exact hplace c hc
    · exact (hf c hc).toPlaces
  exact { toPlaces := hplaces, toStaysAtEnd := hstays, toRefuses := hrefuses }

theorem Reads.get_bind {f : Compiler → CompilerM β} (hsame : ∀ y c, f (feed y c) = f c)
    (hf : ∀ c, Opens (f c)) (hrefuse : ∀ c, IsTypeWord c.token → Refuses (f c)) :
    Reads (get >>= f) :=
  Reads.getFloatState_bind hsame (fun c _ => (hf c).toPlaces) (fun c _ => hf c)
    (fun c hc => hrefuse c hc.isTypeWord) fun x read c hc =>
      (hrefuse c (hc.token ▸ isTypeWord_float)).floats x read c (.inl hc)

/-- The rest of the input plays no part. -/
theorem lex_append {l : Lexer} {y : Except String Lexeme} {ys : List (Except String Lexeme)}
    (h : l.input = y :: ys) (zs : List (Except String Lexeme)) :
    Lexer.lex { l with input := l.input ++ zs } =
      l.lex.map fun r => (r.1, { r.2 with input := r.2.input ++ zs }) := by
  unfold Lexer.lex
  simp only [h, List.cons_append]
  cases y with
  | error msg => rfl
  | ok y =>
    simp only [GSLexer.repeat_shift]
    by_cases heob : y.token = .eob
    · simp only [if_pos heob]
      rfl
    · simp only [if_neg heob]
      rfl

/-- Where there is a lexeme before it, `Lex` does not come to the one that is fed. -/
theorem Lex_feed (hinput : c.lex.input ≠ []) (y : Except String Lexeme) :
    Lex (feed y c) = mapState (feed y) (Lex c) := by
  cases hcons : c.lex.input with
  | nil => exact absurd hcons hinput
  | cons y' ys =>
    have happend : (feed y c).lex.lex =
        c.lex.lex.map fun r => (r.1, { r.2 with input := r.2.input ++ [y] }) :=
      lex_append hcons _
    unfold Lex
    rw [get_bind_apply, get_bind_apply, happend]
    cases c.lex.lex with
    | error msg => rfl
    | ok r => rfl

/-- Otherwise it comes to the end of the input. -/
theorem Lex_fed (hinput : c.lex.input = []) (u : Token) :
    ∃ c', Lex (feed (placing x u) c) = .ok () c' ∧ c'.token = u ∧ c'.lex.input = [] ∧
      c'.lex.fvalue = x.fvalue ∧ c'.lex.longstr = x.longstr ∧ c'.loaded = c.loaded := by
  unfold Lex Lexer.lex
  simp only [get_bind_apply, feed, placing, hinput, List.nil_append]
  exact ⟨_, rfl, rfl, rfl, rfl, rfl, rfl⟩

theorem Lex_fed_error (hinput : c.lex.input = []) (msg : String) :
    ∃ e c', Lex (feed (.error msg) c) = .error e c' ∧ c'.loaded = c.loaded := by
  unfold Lex Lexer.lex
  simp only [get_bind_apply, feed, hinput, List.nil_append]
  exact ⟨_, _, rfl, rfl⟩

theorem Lex_exhausted (hinput : c.lex.input = []) :
    ∃ c', Lex c = .ok () c' ∧ AtEnd c' ∧ c'.loaded = c.loaded := by
  unfold Lex Lexer.lex
  simp only [get_bind_apply, hinput]
  exact ⟨_, rfl, ⟨rfl, rfl⟩, rfl⟩

instance opens_Lex : Opens Lex where
  place x c := by
    by_cases hinput : c.lex.input = []
    · obtain ⟨c₀, hstart, hend, hloaded₀⟩ := Lex_exhausted hinput
      have hsame : (leaves Lex c).loaded = c.loaded := by
        rw [leaves_ok hstart, hloaded₀]
      apply Place.other
      · refine ⟨leaves_ok hstart ▸ hend, ?_, ?_⟩
        · intro msg
          rw [hsame]
          exact Lex_fed_error hinput msg
        · intro u hu
          obtain ⟨c', hrun, htoken, hempty, -, -, hloaded⟩ := Lex_fed (x := x) hinput u
          rw [leaves_ok hrun, hsame]
          exact ⟨hempty, htoken ▸ hu, hloaded⟩
      · intro t ht
        obtain ⟨c', hrun, htoken, -⟩ := Lex_fed (x := x) hinput t
        rw [leaves_ok hrun]
        exact htoken
      · obtain ⟨c', hrun, htoken, hempty, hfvalue, hlongstr, hloaded⟩ :=
          Lex_fed (x := x) hinput .TK_FLOAT
        rw [leaves_ok hrun, hsame]
        exact .inl ⟨htoken, hempty, hfvalue, hlongstr, hloaded⟩
    · exact .before fun y => Lex_feed hinput y
  ended := by
    rintro c ⟨-, hinput⟩
    obtain ⟨c', hrun, hend, -⟩ := Lex_exhausted hinput
    rw [leaves_ok hrun]
    exact hend
  spent := by
    intro read c hc
    obtain ⟨c', hrun, hend, hloaded⟩ := Lex_exhausted hc.input
    rw [leaves_ok hrun]
    exact (hloaded.trans hc.loaded) ▸ hend.spent

/-- `m` leaves the last token, whatever it is, and reads no float constant. -/
def Closes (m : CompilerM α) : Prop :=
  ∀ c, c.lex.input = [] → AtEnd (leaves m c) ∧ (leaves m c).loaded = c.loaded

theorem closes_Lex : Closes Lex := by
  intro c hinput
  obtain ⟨c', hrun, hend⟩ := Lex_exhausted hinput
  rw [leaves_ok hrun]
  exact hend

theorem Closes.bind (hm : Closes m) (hf : ∀ a, StaysAtEnd (f a)) : Closes (m >>= f) := by
  intro c hinput
  have hclosed := hm c hinput
  rw [leaves_bind]
  cases hr : m c with
  | error e c₁ => rwa [leaves_error hr] at hclosed
  | ok a c₁ =>
    rw [leaves_ok hr] at hclosed
    obtain ⟨hend, hloaded⟩ := hclosed
    exact ⟨(hf a).ended c₁ hend, ((hf a).loaded hend).trans hloaded⟩

/-- A float constant is read, and the token is left. -/
theorem Stands.recordFloat_bind {negated : Bool} {value : GSFloat} {k : Unit → CompilerM α}
    (h : Stands x read c) (hvalue : value = (constantOf x negated).value) (hk : ∀ u, Closes (k u)) :
    FloatAt x read (leaves (recordFloat negated value >>= k) c) := by
  let c₁ : Compiler := { c with loaded := c.loaded ++ [⟨value, negated, c.lex.longstr⟩] }
  have hrest : leaves (recordFloat negated value >>= k) c = leaves (k ()) c₁ := rfl
  obtain ⟨hend, hloaded⟩ := hk () c₁ h.input
  rw [hrest]
  refine .inr ⟨hend, negated, hloaded.trans ?_⟩
  change c.loaded ++ [⟨value, negated, c.lex.longstr⟩] = _
  rw [h.loaded, h.longstr, hvalue]
  rfl

/-- What is emitted before may fail. -/
theorem Stands.emits_bind (h : Stands x read c) (hm : Emits m)
    (hf : ∀ a c₁, Stands x read c₁ → FloatAt x read (leaves (f a) c₁)) :
    FloatAt x read (leaves (m >>= f) c) := by
  have hsame := hm.emitted c
  have hstands : Stands x read (leaves m c) :=
    ⟨hsame.token.trans h.token, by rw [hsame.lex, h.input], by rw [hsame.lex, h.fvalue],
      by rw [hsame.lex, h.longstr], hsame.loaded.trans h.loaded⟩
  rw [leaves_bind]
  cases hr : m c with
  | error e c₁ =>
    rw [leaves_error hr] at hstands
    exact .inl hstands
  | ok a c₁ =>
    rw [leaves_ok hr] at hstands
    exact hf a c₁ hstands

/-! ### Operations -/

theorem Blind.bind (hm : Blind m) (hf : ∀ a, Blind (f a)) : Blind (m >>= f) :=
  ⟨fun y => (hm.commutes y).bind fun a => (hf a).commutes y⟩

instance blind_bind [hm : Blind m] [hf : ∀ a, Blind (f a)] : Blind (m >>= f) := hm.bind hf

instance blind_pure (a : α) : Blind (pure a : CompilerM α) := ⟨fun _ => commutes_pure a⟩

instance blind_throw (e : CompileError) : Blind (throw e : CompilerM α) :=
  ⟨fun _ => commutes_throw e⟩

instance blind_error (msg : String) : Blind (error msg : CompilerM α) := blind_throw _

instance blind_undefined : Blind (undefined : CompilerM α) := blind_throw _

instance blind_ite {p : Prop} [Decidable p] {m' : CompilerM α} [h : Blind m] [h' : Blind m'] :
    Blind (if p then m else m') := by
  split
  · exact h
  · exact h'

instance blind_forM {l : List α} {f : α → CompilerM PUnit} [h : ∀ a, Blind (f a)] :
    Blind (l.forM f) := by
  induction l with
  | nil => exact blind_pure _
  | cons a l ih => exact blind_bind

theorem Blind.get_bind {f : Compiler → CompilerM β} (hsame : ∀ y c, f (feed y c) = f c)
    (hf : ∀ c, Blind (f c)) : Blind (get >>= f) :=
  ⟨fun y => commutes_get_bind (hsame y) fun c => (hf c).commutes y⟩

instance blind_getFs : Blind getFs := ⟨fun _ _ => rfl⟩

instance blind_getToken : Blind getToken := ⟨fun _ _ => rfl⟩

instance blind_getEtype : Blind getEtype := ⟨fun _ _ => rfl⟩

instance blind_prevtokenIs (ch : Char) : Blind (prevtokenIs ch) := ⟨fun _ _ => rfl⟩

instance blind_IsConstant (name : Object) : Blind (IsConstant name) := ⟨fun _ _ => rfl⟩

instance blind_modifyFs (f : FuncState → FuncState) : Blind (modifyFs f) := ⟨fun _ _ => rfl⟩

instance blind_setEtype (etype : ExpType) : Blind (setEtype etype) := ⟨fun _ _ => rfl⟩

instance blind_setEpos (epos : Int) : Blind (setEpos epos) := ⟨fun _ _ => rfl⟩

instance blind_newConstant (name : Object) (constant : Constant) :
    Blind (newConstant name constant) := ⟨fun _ _ => rfl⟩

instance blind_setScope (scope : Scope) :
    Blind (modify fun c => { c with scope := scope } : CompilerM Unit) := ⟨fun _ _ => rfl⟩

instance blind_setEs (es : ExpState) :
    Blind (modify fun c => { c with es := es } : CompilerM Unit) := ⟨fun _ _ => rfl⟩

instance blind_IsEndOfStatement : Blind IsEndOfStatement := by
  unfold IsEndOfStatement
  infer_instance

instance blind_AddInstruction (op : Opcode) (arg0 arg1 arg2 arg3 : Int) :
    Blind (AddInstruction op arg0 arg1 arg2 arg3) := by
  unfold AddInstruction
  infer_instance

instance blind_SnoozeOpt : Blind SnoozeOpt := by
  unfold SnoozeOpt
  infer_instance

instance blind_GetCurrentPos : Blind GetCurrentPos := by
  unfold GetCurrentPos
  infer_instance

instance blind_GetStackSize : Blind GetStackSize := by
  unfold GetStackSize
  infer_instance

instance blind_SetInstructionParam (pos : Int) (arg : Nat) (val : Int) :
    Blind (SetInstructionParam pos arg val) := by
  unfold SetInstructionParam
  infer_instance

instance blind_SetInstructionParams (pos arg0 arg1 arg2 arg3 : Int) :
    Blind (SetInstructionParams pos arg0 arg1 arg2 arg3) := by
  unfold SetInstructionParams
  infer_instance

instance blind_AllocStackPos : Blind AllocStackPos := by
  unfold AllocStackPos
  infer_instance

instance blind_PushTargetAt (n : Nat) : Blind (PushTargetAt n) := by
  unfold PushTargetAt
  infer_instance

instance blind_PushTarget : Blind PushTarget := by
  unfold PushTarget
  infer_instance

instance blind_TopTarget : Blind TopTarget := by
  unfold TopTarget
  apply blind_getFs.bind
  intro fs
  split <;> infer_instance

instance blind_PopTarget : Blind PopTarget := by
  unfold PopTarget
  apply blind_getFs.bind
  intro fs
  split <;> infer_instance

instance blind_PopTargets (n : Nat) : Blind (PopTargets n) := by
  induction n with
  | zero => exact blind_pure ()
  | succ n ih =>
    unfold PopTargets
    infer_instance

instance blind_DiscardTarget : Blind DiscardTarget := by
  unfold DiscardTarget
  infer_instance

instance blind_IsLocal (stkpos : Nat) : Blind (IsLocal stkpos) := by
  unfold IsLocal
  infer_instance

instance blind_GetConstant (cons : Object) : Blind (GetConstant cons) := by
  unfold GetConstant
  infer_instance

instance blind_PushLocalVariable (name : Object) : Blind (PushLocalVariable name) := by
  unfold PushLocalVariable
  infer_instance

instance blind_GetOuterVariable (name : Object) : Blind (GetOuterVariable name) := by
  unfold GetOuterVariable
  refine Blind.get_bind (fun _ _ => rfl) fun c => ?_
  split
  · exact Blind.bind ⟨fun _ _ => rfl⟩ fun _ => blind_pure _
  · infer_instance

instance blind_AddLineInfos (line : GSInteger) (force : Bool) :
    Blind (AddLineInfos line force) := by
  unfold AddLineInfos
  exact Blind.get_bind (fun _ _ => rfl) fun c => blind_modifyFs _

instance blind_MoveIfCurrentTargetIsLocal : Blind MoveIfCurrentTargetIsLocal := by
  unfold MoveIfCurrentTargetIsLocal
  infer_instance

instance blind_EmitDerefOp (op : Opcode) : Blind (EmitDerefOp op) := by
  unfold EmitDerefOp
  infer_instance

instance blind_Emit2ArgsOP (op : Opcode) (p3 : Int) : Blind (Emit2ArgsOP op p3) := by
  unfold Emit2ArgsOP
  infer_instance

instance blind_targetOr (target : Option Nat) : Blind (targetOr target) := by
  unfold targetOr
  split <;> infer_instance

instance blind_recordFloat (negated : Bool) (value : GSFloat) :
    Blind (recordFloat negated value) := ⟨fun _ _ => rfl⟩

instance blind_EmitLoadConstInt (value : GSInteger) (target : Option Nat) :
    Blind (EmitLoadConstInt value target) := by
  unfold EmitLoadConstInt
  infer_instance

instance blind_EmitLoadConstFloat (value : GSFloat) (target : Option Nat) :
    Blind (EmitLoadConstFloat value target) := by
  unfold EmitLoadConstFloat
  infer_instance

instance blind_BEGIN_SCOPE : Blind BEGIN_SCOPE := by
  unfold BEGIN_SCOPE
  refine Blind.get_bind (fun _ _ => rfl) fun c => ?_
  infer_instance

instance blind_RESOLVE_OUTERS : Blind RESOLVE_OUTERS := by
  unfold RESOLVE_OUTERS
  refine blind_getFs.bind fun fs => Blind.get_bind (fun _ _ => rfl) fun c => ?_
  infer_instance

instance blind_END_SCOPE (oldscope : Scope) (closeframe : Bool) :
    Blind (END_SCOPE oldscope closeframe) := by
  unfold END_SCOPE
  refine blind_getFs.bind fun fs => Blind.get_bind (fun _ _ => rfl) fun c => ?_
  infer_instance

instance blind_BEGIN_BREAKBLE_BLOCK : Blind BEGIN_BREAKBLE_BLOCK := by
  unfold BEGIN_BREAKBLE_BLOCK
  infer_instance

instance blind_ResolveBreaks (n : Nat) : Blind (ResolveBreaks n) := by
  induction n with
  | zero => exact blind_pure ()
  | succ n ih =>
    apply blind_getFs.bind
    intro fs
    split <;> infer_instance

instance blind_ResolveContinues (targetpos : Int) (n : Nat) :
    Blind (ResolveContinues targetpos n) := by
  induction n with
  | zero => exact blind_pure ()
  | succ n ih =>
    apply blind_getFs.bind
    intro fs
    split <;> infer_instance

instance blind_popBreaktarget : Blind popBreaktarget := by
  unfold popBreaktarget
  infer_instance

instance blind_END_BREAKBLE_BLOCK (before : Nat × Nat) (continue_target : Int) :
    Blind (END_BREAKBLE_BLOCK before continue_target) := by
  unfold END_BREAKBLE_BLOCK
  infer_instance

instance blind_EmitCompoundArith (tok : Token) (etype : ExpType) (pos : Int) :
    Blind (EmitCompoundArith tok etype pos) := by
  unfold EmitCompoundArith
  split <;> infer_instance

instance blind_checkLocalType (dst : Nat) : Blind (checkLocalType dst) := by
  unfold checkLocalType
  apply blind_getFs.bind
  intro fs
  split <;> infer_instance

instance blind_assign (ds : ExpType) (pos : Int) : Blind (assign ds pos) := by
  unfold assign
  split <;> infer_instance

instance blind_moveTo (trg src : Nat) : Blind (moveTo trg src) := by
  unfold moveTo
  infer_instance

instance blind_emitBinary (op : Opcode) (op3 : Int) : Blind (emitBinary op op3) := by
  unfold emitBinary
  infer_instance

instance blind_NeedGet : Blind NeedGet := by
  unfold NeedGet
  refine Blind.get_bind (fun _ _ => rfl) fun c => ?_
  split <;> infer_instance

instance blind_derefKey : Blind derefKey := by
  unfold derefKey
  infer_instance

instance blind_prepareCall : Blind prepareCall := by
  unfold prepareCall
  refine Blind.get_bind (fun _ _ => rfl) fun c => ?_
  dsimp only
  split <;> infer_instance

instance blind_emitClosure (boundtarget : Int) : Blind (emitClosure boundtarget) := by
  unfold emitClosure
  infer_instance

instance blind_setLocalType (type array_size : GSInteger) :
    Blind (setLocalType type array_size) := by
  unfold setLocalType
  infer_instance

instance blind_cutInstructions (expstart : Int) : Blind (cutInstructions expstart) := by
  unfold cutInstructions
  infer_instance

instance blind_foreachVariable (name : Object) : Blind (foreachVariable name) := by
  unfold foreachVariable
  infer_instance

instance blind_countTraps (f : Nat → Nat) : Blind (countTraps f) := by
  unfold countTraps
  infer_instance

instance blind_loadDeclarationTable (is_pub : Bool) : Blind (loadDeclarationTable is_pub) := by
  unfold loadDeclarationTable
  infer_instance

instance blind_loadName (id : Object) : Blind (loadName id) := by
  unfold loadName
  infer_instance

instance blind_matchGenerics (generics : Generics) : Blind (matchGenerics generics) := by
  have hgeneric (generic : Object × List Nat) : Blind (match generic.2 with
      | [] => return ()
      | base_reg :: regs => regs.forM fun reg => AddInstruction .MATCHTYPES base_reg reg) := by
    split <;> infer_instance
  exact blind_forM

instance blind_popParameters (boundtarget : Int) (defparams : Nat) :
    Blind (popParameters boundtarget defparams) := by
  unfold popParameters
  infer_instance

instance blind_jumpStatement (text : String) (targets : FuncState → List Nat) :
    Blind (jumpStatement text targets) := by
  unfold jumpStatement
  apply blind_getFs.bind
  intro fs
  split <;> infer_instance

instance blind_popTraps (op : Opcode) : Blind (returnStatement.popTraps op) := by
  unfold returnStatement.popTraps
  infer_instance

end GameScript.Compiler
