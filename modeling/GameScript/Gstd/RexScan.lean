import GameScript.Gstd.Rex

/-!
Where a pattern stops: `scan` follows it character by character, as the compiler of
`gstdrex.cpp` reads it, and says in what place it ends.
-/

namespace GameScript.Rex

/-- What the text so far stops behind, or what must come next. -/
inductive Place where
  | list
  | element
  | opened
  | question
  /-- Behind an element that has no quantifier yet. -/
  | atom
  | quantified
  | countOpen
  /-- Behind the first number of a count, after its first digit and `n` more. -/
  | count (n : Nat)
  | comma
  | maximum (n : Nat)
  | classOpen
  | negated
  /-- In a class, behind a character with this code where one is left. -/
  | inClass (first : Option Int)
  | range (first : Int)
  | rangeEscape
  | escape (isclass : Bool)
  /-- Behind `\m`. -/
  | balanced (isclass : Bool)
  | balancing (isclass : Bool) (cb : UInt8)
  | rejected
deriving DecidableEq, Repr

/-- A place in a pattern, with the number of parentheses that are open. -/
structure Scan where
  place : Place
  depth : Nat
deriving DecidableEq, Repr

namespace Scan

variable (d : Nat) (c : UInt8)

/-- Behind a character of a class or an element, with the code of its node. -/
def behind (isclass : Bool) (code : Int) : Scan :=
  ⟨if isclass then .inClass (some code) else .atom, d⟩

/-- Where a character must come, of a class or as an element. -/
def char (isclass : Bool) : Scan :=
  if c = SC '\\' then ⟨.escape isclass, d⟩
  else if isPrint c then behind d isclass (GSChar c)
  else ⟨.rejected, d⟩

def element : Scan :=
  if c = SC '(' then ⟨.opened, d + 1⟩
  else if c = SC '[' then ⟨.classOpen, d⟩
  else if c = SC '$' ∨ c = SC '.' then ⟨.atom, d⟩
  else char d c false

def list : Scan := if c = SC '^' then ⟨.element, d⟩ else element d c

def quantified : Scan :=
  if c = SC '|' then ⟨.list, d⟩
  else if c = SC ')' then
    if d = 0 then ⟨.rejected, d⟩ else ⟨.atom, d - 1⟩
  else if c = SC '*' ∨ c = SC '+' then ⟨.rejected, d⟩
  else element d c

def atom : Scan :=
  if c = SC '*' ∨ c = SC '+' ∨ c = SC '?' then ⟨.quantified, d⟩
  else if c = SC '\x7b' then ⟨.countOpen, d⟩
  else quantified d c

def escape (isclass : Bool) : Scan :=
  match controlOf c with
  | some c => behind d isclass (GSChar c)
  | none =>
      if isClassLetter c then behind d isclass NodeType.OP_CCLASS.code
      else if c = SC 'm' then ⟨.balanced isclass, d⟩
      else if c = 0 then ⟨.rejected, d⟩
      else behind d isclass (GSChar c)

def inClass (first : Option Int) : Scan :=
  if c = SC ']' then ⟨.atom, d⟩
  else
    match first with
    | some f => if c = SC '-' then ⟨.range f, d⟩ else char d c true
    | none => char d c true

/-- At a digit of a number that has `n` digits after its first. -/
def digit (place : Nat → Place) (n : Nat) : Scan :=
  if n = 8 then ⟨.rejected, d⟩ else ⟨place (n + 1), d⟩

/-- The place behind one more character. -/
def step : Scan → UInt8 → Scan
  | ⟨.list, d⟩, c => list d c
  | ⟨.element, d⟩, c => element d c
  | ⟨.opened, d⟩, c => if c = SC '?' then ⟨.question, d⟩ else list d c
  | ⟨.question, d⟩, c => if c = SC ':' then ⟨.list, d⟩ else ⟨.rejected, d⟩
  | ⟨.atom, d⟩, c => atom d c
  | ⟨.quantified, d⟩, c => quantified d c
  | ⟨.countOpen, d⟩, c => if isDigit c then ⟨.count 0, d⟩ else ⟨.rejected, d⟩
  | ⟨.count n, d⟩, c =>
      if isDigit c then digit d .count n
      else if c = SC '\x7d' then ⟨.quantified, d⟩
      else if c = SC ',' then ⟨.comma, d⟩
      else ⟨.rejected, d⟩
  | ⟨.comma, d⟩, c =>
      if isDigit c then ⟨.maximum 0, d⟩
      else if c = SC '\x7d' then ⟨.quantified, d⟩
      else ⟨.rejected, d⟩
  | ⟨.maximum n, d⟩, c =>
      if isDigit c then digit d .maximum n
      else if c = SC '\x7d' then ⟨.quantified, d⟩
      else ⟨.rejected, d⟩
  | ⟨.classOpen, d⟩, c =>
      if c = SC '^' then ⟨.negated, d⟩
      else if c = SC ']' then ⟨.rejected, d⟩
      else inClass d c none
  | ⟨.negated, d⟩, c => if c = SC ']' then ⟨.rejected, d⟩ else inClass d c none
  | ⟨.inClass first, d⟩, c => inClass d c first
  | ⟨.range first, d⟩, c =>
      if first > GSChar c then ⟨.rejected, d⟩
      else if c = SC '\\' then ⟨.rangeEscape, d⟩
      else if isPrint c then ⟨.inClass none, d⟩
      else ⟨.rejected, d⟩
  | ⟨.rangeEscape, d⟩, _ => ⟨.inClass none, d⟩
  | ⟨.escape isclass, d⟩, c => escape d c isclass
  | ⟨.balanced isclass, d⟩, c => ⟨.balancing isclass c, d⟩
  | ⟨.balancing isclass cb, d⟩, c =>
      if cb = 0 ∨ c = 0 ∨ cb = c then ⟨.rejected, d⟩ else behind d isclass NodeType.OP_MB.code
  | ⟨.rejected, d⟩, _ => ⟨.rejected, d⟩

/-- The compiler does not stop at an end of the text here. -/
def readsOn (q : Scan) : Bool :=
  match q.place with
  | .balanced _ | .rangeEscape => true
  | _ => false

end Scan

/-- The place where a text stops that begins in `q`. -/
def scan (q : Scan) (s : List UInt8) : Scan := s.foldl Scan.step q

/-- A text that begins in `q` stops behind `\m`, or behind a backslash that ends a range. -/
def Cut (q : Scan) (s : List UInt8) : Prop := (scan q s).readsOn = true

/-- A pattern that stops there. -/
def CutShort (s : List UInt8) : Prop := Cut ⟨.list, 0⟩ s

theorem cut_cons {q : Scan} {c : UInt8} {s : List UInt8} : Cut q (c :: s) ↔ Cut (q.step c) s :=
  Iff.rfl

theorem scan_rejected {d : Nat} (s : List UInt8) :
    scan ⟨.rejected, d⟩ s = ⟨.rejected, d⟩ := by
  induction s with
  | nil => rfl
  | cons c s ih => exact ih

theorem not_cut_rejected {d : Nat} (s : List UInt8) : ¬ Cut ⟨.rejected, d⟩ s := by
  unfold Cut
  rw [scan_rejected]
  exact Bool.false_ne_true

end GameScript.Rex
