import GameScript.Gstd.RexMatch

/-!
The patterns that `gstdrex.cpp` accepts and the language of each.

`Reads` is the grammar of patterns: what a text is read as, up to what is left of it.
It reads as far as it can, and any printable character without a meaning in its place
is a literal one; so a `|`, `)`, `*` or `+` is where a list of elements begins, and a
`?` or a brace is behind a quantifier. Groups are numbered as they open.

The language of a pattern is told by the pairs of positions of a text that it spans.
-/

namespace GameScript.Rex

/-! ### Patterns -/

/-- What a class has. A balanced match in a class is no character. -/
inductive Member where
  | char (c : UInt8)
  | range (first last : Int)
  | cclass (classid : Int)
  | none
deriving DecidableEq, Repr

inductive Atom where
  | char (c : UInt8)
  | dot
  | bol
  | eol
  | «class» (negated : Bool) (members : List Member)
  | cclass (classid : Int)
  | boundary (letter : Int)
  | balanced (cb ce : Int)
deriving DecidableEq, Repr

/-- Elements one behind another, or two alternatives. -/
inductive Regex where
  | nil
  | atom (a : Atom) (rest : Regex)
  /-- A group, with its number where it is captured. -/
  | group (capture : Option Nat) (body rest : Regex)
  | greedy (minimum : Nat) (maximum : Option Nat) (body rest : Regex)
  | or (left right : Regex)
deriving DecidableEq, Repr

namespace Regex

/-- `rest` behind an element. -/
def followedBy : Regex → Regex → Regex
  | .nil, rest => rest
  | .atom a _, rest => .atom a rest
  | .group capture body _, rest => .group capture body rest
  | .greedy minimum maximum body _, rest => .greedy minimum maximum body rest
  | .or left right, _ => .or left right

/-- An element under its quantifier, where it has one. -/
def quantified (e : Regex) : Option (Nat × Option Nat) → Regex
  | some (minimum, maximum) => .greedy minimum maximum e .nil
  | none => e

/-- The first element, or the alternatives. -/
def head : Regex → Regex
  | .nil => .nil
  | .atom a _ => .atom a .nil
  | .group capture body _ => .group capture body .nil
  | .greedy minimum maximum body _ => .greedy minimum maximum body .nil
  | .or left right => .or left right

/-- What is behind the first element. -/
def tail : Regex → Regex
  | .nil => .nil
  | .atom _ rest | .group _ _ rest | .greedy _ _ _ rest => rest
  | .or _ _ => .nil

/-- An element without what is behind it. -/
def IsElement : Regex → Prop
  | .atom _ rest | .group _ _ rest | .greedy _ _ _ rest => rest = .nil
  | _ => False

theorem IsElement.ne_nil {e : Regex} (h : e.IsElement) : e ≠ .nil := by
  rintro rfl
  exact h

theorem IsElement.followedBy_ne_nil {e : Regex} (h : e.IsElement) (rest : Regex) :
    e.followedBy rest ≠ .nil := by
  cases e <;> first | exact h.elim | exact nofun

theorem IsElement.head_eq {e : Regex} (h : e.IsElement) : e.head = e := by
  cases e <;> first | exact h.elim | exact congrArg _ h.symm

theorem IsElement.tail_eq {e : Regex} (h : e.IsElement) : e.tail = .nil := by
  cases e <;> first | exact h.elim | exact h

end Regex

/-! ### What a text is read as -/

/-- The code of the node of an atom. -/
def Atom.code : Atom → Int
  | .char c => GSChar c
  | .dot => NodeType.OP_DOT.code
  | .bol => NodeType.OP_BOL.code
  | .eol => NodeType.OP_EOL.code
  | .class negated _ => if negated then NodeType.OP_NCLASS.code else NodeType.OP_CLASS.code
  | .cclass _ => NodeType.OP_CCLASS.code
  | .boundary _ => NodeType.OP_WB.code
  | .balanced _ _ => NodeType.OP_MB.code

/-- A character as a member of a class. -/
def Atom.member : Atom → Member
  | .char c => .char c
  | .cclass classid => .cclass classid
  | _ => .none

inductive CharReads (isclass : Bool) : List UInt8 → Atom → List UInt8 → Prop where
  | plain {c : UInt8} {s : List UInt8} : c ≠ SC '\\' → isPrint c = true →
      CharReads isclass (c :: s) (.char c) s
  | control {t c : UInt8} {s : List UInt8} : controlOf t = some c →
      CharReads isclass (SC '\\' :: t :: s) (.char c) s
  | cclass {t : UInt8} {s : List UInt8} : controlOf t = none → isClassLetter t = true →
      CharReads isclass (SC '\\' :: t :: s) (.cclass (GSChar t)) s
  | balanced {cb ce : UInt8} {s : List UInt8} : cb ≠ 0 → ce ≠ 0 → cb ≠ ce →
      CharReads isclass (SC '\\' :: SC 'm' :: cb :: ce :: s) (.balanced (GSChar cb) (GSChar ce)) s
  | boundary {t : UInt8} {s : List UInt8} : t = SC 'b' ∨ t = SC 'B' → isclass = false →
      CharReads isclass (SC '\\' :: t :: s) (.boundary (GSChar t)) s
  | escaped {t : UInt8} {s : List UInt8} : controlOf t = none → ¬ isClassLetter t = true →
      t ≠ SC 'm' → t ≠ 0 → ¬ ((t = SC 'b' ∨ t = SC 'B') ∧ ¬ isclass = true) →
      CharReads isclass (SC '\\' :: t :: s) (.char t) s

/-- The last character of a range. -/
inductive RangeEndReads : List UInt8 → UInt8 → List UInt8 → Prop where
  | plain {c : UInt8} {s : List UInt8} : c ≠ SC '\\' → isPrint c = true →
      RangeEndReads (c :: s) c s
  | escaped {t : UInt8} {s : List UInt8} :
      RangeEndReads (SC '\\' :: t :: s) ((controlOf t).getD t) s

/-- The rest of a class, behind a character that may begin a range. The first character of a
range is compared with the very next one, which may be a backslash. -/
inductive MembersRead : Option Atom → List UInt8 → List Member → List UInt8 → Prop where
  | done {s : List UInt8} : MembersRead none (SC ']' :: s) [] (SC ']' :: s)
  | last {a : Atom} {s : List UInt8} :
      MembersRead (some a) (SC ']' :: s) [a.member] (SC ']' :: s)
  | first {a : Atom} {s s₁ s' : List UInt8} {ms : List Member} : s.headD 0 ≠ SC ']' →
      CharReads true s a s₁ → MembersRead (some a) s₁ ms s' → MembersRead none s ms s'
  | next {a b : Atom} {s s₁ s' : List UInt8} {ms : List Member} : s.headD 0 ≠ SC ']' →
      s.headD 0 ≠ SC '-' → CharReads true s b s₁ → MembersRead (some b) s₁ ms s' →
      MembersRead (some a) s (a.member :: ms) s'
  | range {a : Atom} {c : UInt8} {s s₁ s' : List UInt8} {ms : List Member} :
      ¬ a.code > GSChar (s.headD 0) → RangeEndReads s c s₁ → MembersRead none s₁ ms s' →
      MembersRead (some a) (SC '-' :: s) (.range a.code (GSChar c) :: ms) s'

/-- A decimal number, and no digit behind it. -/
def NumberReads (s : List UInt8) (n : Nat) (s' : List UInt8) : Prop :=
  ∃ d ds, s = d :: (ds ++ s') ∧ (∀ x ∈ d :: ds, isDigit x = true) ∧
    isDigit (s'.headD 0) = false ∧
    n = (d :: ds).foldl (fun n x => n * 10 + (x.toNat - (SC '0').toNat)) 0

/-- A quantifier: the bounds of the number of repetitions. -/
inductive QuantifierReads :
    List UInt8 → Option (Nat × Option Nat) → List UInt8 → Prop where
  | none {s : List UInt8} : s.headD 0 ≠ SC '*' → s.headD 0 ≠ SC '+' → s.headD 0 ≠ SC '?' →
      s.headD 0 ≠ SC '\x7b' → QuantifierReads s none s
  | star {s : List UInt8} : QuantifierReads (SC '*' :: s) (some (0, none)) s
  | plus {s : List UInt8} : QuantifierReads (SC '+' :: s) (some (1, none)) s
  | question {s : List UInt8} : QuantifierReads (SC '?' :: s) (some (0, some 1)) s
  | exactly {s s' : List UInt8} {n : Nat} : NumberReads s n (SC '\x7d' :: s') →
      QuantifierReads (SC '\x7b' :: s) (some (n, some n)) s'
  | least {s s' : List UInt8} {n : Nat} : NumberReads s n (SC ',' :: SC '\x7d' :: s') →
      QuantifierReads (SC '\x7b' :: s) (some (n, none)) s'
  | between {s s₁ s' : List UInt8} {n m : Nat} : NumberReads s n (SC ',' :: s₁) →
      NumberReads s₁ m (SC '\x7d' :: s') →
      QuantifierReads (SC '\x7b' :: s) (some (n, some m)) s'

mutual

/-- One element without its quantifier. `k` is the number of the next group. -/
inductive HeadReads : Nat → List UInt8 → Regex → Nat → List UInt8 → Prop where
  | group {k k' : Nat} {s s' : List UInt8} {r : Regex} : s.headD 0 ≠ SC '?' →
      ListReads (k + 1) s r k' (SC ')' :: s') →
      HeadReads k (SC '(' :: s) (.group (some k) r .nil) k' s'
  | uncaptured {k k' : Nat} {s s' : List UInt8} {r : Regex} :
      ListReads k s r k' (SC ')' :: s') →
      HeadReads k (SC '(' :: SC '?' :: SC ':' :: s) (.group none r .nil) k' s'
  | negated {k : Nat} {s s' : List UInt8} {ms : List Member} : s.headD 0 ≠ SC ']' →
      MembersRead none s ms (SC ']' :: s') →
      HeadReads k (SC '[' :: SC '^' :: s) (.atom (.class true ms) .nil) k s'
  | «class» {k : Nat} {s s' : List UInt8} {ms : List Member} : s.headD 0 ≠ SC '^' →
      s.headD 0 ≠ SC ']' → MembersRead none s ms (SC ']' :: s') →
      HeadReads k (SC '[' :: s) (.atom (.class false ms) .nil) k s'
  | eol {k : Nat} {s : List UInt8} : HeadReads k (SC '$' :: s) (.atom .eol .nil) k s
  | dot {k : Nat} {s : List UInt8} : HeadReads k (SC '.' :: s) (.atom .dot .nil) k s
  | char {k : Nat} {s s' : List UInt8} {a : Atom} : s.headD 0 ≠ SC '(' → s.headD 0 ≠ SC '[' →
      s.headD 0 ≠ SC '$' → s.headD 0 ≠ SC '.' → CharReads false s a s' →
      HeadReads k s (.atom a .nil) k s'

/-- Elements up to where a list of them ends. -/
inductive ElementsRead : Nat → List UInt8 → Regex → Nat → List UInt8 → Prop where
  | last {k k' : Nat} {s s₁ s' : List UInt8} {e : Regex} {q : Option (Nat × Option Nat)} :
      HeadReads k s e k' s₁ → QuantifierReads s₁ q s' → endsList (s'.headD 0) = true →
      ElementsRead k s (e.quantified q) k' s'
  | cons {k k₁ k' : Nat} {s s₁ s₂ s' : List UInt8} {e rest : Regex}
      {q : Option (Nat × Option Nat)} :
      HeadReads k s e k₁ s₁ → QuantifierReads s₁ q s₂ → ¬ endsList (s₂.headD 0) = true →
      ElementsRead k₁ s₂ rest k' s' →
      ElementsRead k s ((e.quantified q).followedBy rest) k' s'

/-- The elements of an alternative. -/
inductive AlternativeReads : Nat → List UInt8 → Regex → Nat → List UInt8 → Prop where
  | bol {k k' : Nat} {s s' : List UInt8} {r : Regex} : ElementsRead k s r k' s' →
      AlternativeReads k (SC '^' :: s) (.atom .bol r) k' s'
  | elements {k k' : Nat} {s s' : List UInt8} {r : Regex} : s.headD 0 ≠ SC '^' →
      ElementsRead k s r k' s' → AlternativeReads k s r k' s'

inductive ListReads : Nat → List UInt8 → Regex → Nat → List UInt8 → Prop where
  | last {k k' : Nat} {s s' : List UInt8} {r : Regex} : AlternativeReads k s r k' s' →
      s'.headD 0 ≠ SC '|' → ListReads k s r k' s'
  | or {k k₁ k' : Nat} {s s₁ s' : List UInt8} {left right : Regex} :
      AlternativeReads k s left k₁ (SC '|' :: s₁) → ListReads k₁ s₁ right k' s' →
      ListReads k s (.or left right) k' s'

end

/-- A pattern is read as `r`, a group with the number 0. -/
def PatternReads (pattern : List UInt8) (r : Regex) : Prop :=
  ∃ k s' body, ListReads 1 (zeroTerminated pattern) body k s' ∧ s'.headD 0 = 0 ∧
    r = .group (some 0) body .nil

/-! ### The language of a pattern -/

def Member.matches (c : UInt8) : Member → Bool
  | .char x => c = x
  | .range first last => first ≤ GSChar c ∧ GSChar c ≤ last
  | .cclass classid => gstd_rex_matchcclass classid c
  | .none => false

/-- The characters an atom stands for. -/
def Atom.accepts (c : UInt8) : Atom → Bool
  | .char x => c = x
  | .dot => true
  | .class negated members => negated ≠ members.any (Member.matches c)
  | .cclass classid => gstd_rex_matchcclass classid c
  | _ => false

theorem Atom.accepts_class (members : List Member) (c : UInt8) :
    (Atom.class false members).accepts c = members.any (Member.matches c) := by
  show decide (false ≠ members.any (Member.matches c)) = _
  cases members.any (Member.matches c) <;> rfl

theorem Atom.accepts_negated (members : List Member) (c : UInt8) :
    (Atom.class true members).accepts c = !members.any (Member.matches c) := by
  show decide (true ≠ members.any (Member.matches c)) = _
  cases members.any (Member.matches c) <;> rfl

/-- The atom spans the text `w` from `i` to `j`. Word boundaries and balanced matches have no
part in the language. -/
def Atom.Spans (w : List UInt8) (i j : Nat) : Atom → Prop
  | .bol => i = 0 ∧ j = i
  | .eol => i = w.length ∧ j = i
  | a => ∃ c, w[i]? = some c ∧ a.accepts c = true ∧ j = i + 1

theorem Atom.Spans.le {w : List UInt8} {i j : Nat} {a : Atom} (h : a.Spans w i j)
    (hi : i ≤ w.length) : i ≤ j ∧ j ≤ w.length := by
  unfold Atom.Spans at h
  split at h
  · omega
  · omega
  · obtain ⟨c, hc, -, rfl⟩ := h
    have hlt := (List.getElem?_eq_some_iff.mp hc).1
    omega

/-- `n` spans of `R` one behind another. -/
inductive Repeats (R : Nat → Nat → Prop) : Nat → Nat → Nat → Prop where
  | zero {i : Nat} : Repeats R 0 i i
  | succ {n i j k : Nat} : Repeats R n i j → R j k → Repeats R (n + 1) i k

/-- The pattern spans the text `w` from `i` to `j`. -/
def Regex.Spans (w : List UInt8) : Regex → Nat → Nat → Prop
  | .nil, i, j => i = j
  | .atom a rest, i, k => ∃ j, a.Spans w i j ∧ rest.Spans w j k
  | .group _ body rest, i, k => ∃ j, body.Spans w i j ∧ rest.Spans w j k
  | .greedy minimum maximum body rest, i, k => ∃ n j, minimum ≤ n ∧ (∀ m ∈ maximum, n ≤ m) ∧
      Repeats (body.Spans w) n i j ∧ rest.Spans w j k
  | .or left right, i, j => left.Spans w i j ∨ right.Spans w i j

/-- A pattern spans a text as its first element and what is behind that do. -/
theorem Regex.spans_iff {w : List UInt8} {r : Regex} {i k : Nat} :
    r.Spans w i k ↔ ∃ j, r.head.Spans w i j ∧ r.tail.Spans w j k := by
  cases r with
  | nil => exact ⟨fun h => ⟨i, rfl, h⟩, fun ⟨_, h, h'⟩ => h.trans h'⟩
  | or left right => exact ⟨fun h => ⟨k, h, rfl⟩, fun ⟨_, h, h'⟩ => h' ▸ h⟩
  | atom | group =>
      constructor
      · rintro ⟨j, hhead, hrest⟩
        exact ⟨j, ⟨j, hhead, rfl⟩, hrest⟩
      · rintro ⟨j, ⟨_, hhead, rfl⟩, hrest⟩
        exact ⟨_, hhead, hrest⟩
  | greedy =>
      constructor
      · rintro ⟨n, j, hmin, hmax, hrepeats, hrest⟩
        exact ⟨j, ⟨n, j, hmin, hmax, hrepeats, rfl⟩, hrest⟩
      · rintro ⟨j, ⟨n, _, hmin, hmax, hrepeats, rfl⟩, hrest⟩
        exact ⟨n, _, hmin, hmax, hrepeats, hrest⟩

/-- A word boundary and a balanced match are not. -/
def Atom.Regular : Atom → Prop
  | .boundary _ | .balanced _ _ => False
  | _ => True

/-- A pattern of literal characters, dots, classes, `^`, `$`, alternatives, groups and
quantifiers with bounds below 65535. -/
def Regex.Regular : Regex → Prop
  | .nil => True
  | .atom a rest => a.Regular ∧ rest.Regular
  | .group _ body rest => body.Regular ∧ rest.Regular
  | .greedy minimum maximum body rest => minimum < 0xFFFF ∧ (∀ m ∈ maximum, m < 0xFFFF) ∧
      body.Regular ∧ rest.Regular
  | .or left right => left.Regular ∧ right.Regular

theorem Regex.regular_iff {r : Regex} : r.Regular ↔ r.head.Regular ∧ r.tail.Regular := by
  cases r <;> simp only [Regex.Regular, Regex.head, Regex.tail, and_true, and_assoc]

end GameScript.Rex
