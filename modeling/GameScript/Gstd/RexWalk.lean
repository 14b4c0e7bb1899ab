import GameScript.Gstd.RexLeaves

/-!
How a pattern is matched, told by the pattern and the text alone.

A walk goes through the elements of a pattern in the order of the matcher of `gstdrex.cpp`. It
takes the first alternative that matches and never goes back; a repetition ends where what is
behind it matches. Nodes, pointers and captures that are left from before have no part in it.

A walk has no result where it comes to a word boundary at the end of the string, behind a
space: what is behind the terminator of a string is not known.
-/

namespace GameScript.Rex

/-- The number of the next group to capture, and the numbers of those that have been. -/
structure Groups where
  counter : Nat
  begun : List Nat
deriving DecidableEq, Repr

/-- A walk for a word boundary behind the terminator. -/
inductive Unknown where
  | behind
deriving DecidableEq, Repr

abbrev Walk := EStateM Unknown Groups

/-! ### Atoms -/

/-- Whether a word boundary is at the position `i`. -/
def boundaryIn (w back : List UInt8) (i : Nat) : Option Bool :=
  if i = 0 ∧ ¬ isSpace (charOf w back 0) then some true
  else if i = w.length ∧ ¬ isSpace (charOf w back (i - 1)) then some true
  else if i < w.length + back.length then
    some (isSpace (charOf w back i) ≠ isSpace (charOf w back (i + 1)))
  else none

/-- Where the characters `cs`, from the position `i` on, close what `cont` characters open. -/
def closesAt (cb ce : Int) : List UInt8 → Nat → Nat → Option Nat
  | [], _, _ => none
  | c :: cs, i, cont =>
      if GSChar c = ce then
        if cont - 1 = 0 then some (i + 1) else closesAt cb ce cs (i + 1) (cont - 1)
      else if GSChar c = cb then closesAt cb ce cs (i + 1) (cont + 1)
      else closesAt cb ce cs (i + 1) cont

section

variable (w back : List UInt8)

/-- Where the atom that is matched at the position `i` ends. -/
def Atom.walk (i : Nat) : Atom → Walk (Option Nat)
  | .boundary letter =>
      match boundaryIn w back i with
      | some b => return if b = decide (letter = GSChar (SC 'b')) then some i else none
      | none => throw .behind
  | .balanced cb ce =>
      return if GSChar (charOf w back i) = cb then closesAt cb ce (w.drop (i + 1)) (i + 1) 1
        else none
  | .bol => return if i = 0 then some i else none
  | .eol => return if i = w.length then some i else none
  | a => return if w[i]?.any fun c => a.accepts c then some (i + 1) else none

/-! ### Groups and repetitions -/

/-- The group with the number `capture` is captured where it is the next. -/
def Groups.enter (g : Groups) (capture : Option Nat) : Groups :=
  if capture = some g.counter then ⟨g.counter + 1, g.counter :: g.begun⟩ else g

/-- The groups inside a group that matches are not counted. -/
def inGroup (capture : Option Nat) (body : Walk (Option Nat)) : Walk (Option Nat) := do
  modify fun g => g.enter capture
  let counter := (← get).counter
  match ← body with
  | none => return none
  | some j =>
      modify fun g => { g with counter := counter }
      return some j

/-- The rounds of a repetition, at most `n`, behind the first `nmaches` that end at `i`. -/
def rounds (once : Nat → Walk (Option Nat)) (stop : Nat → Walk Bool) (p0 p1 : Nat) :
    Nat → Nat → Nat → Walk (Nat × Nat)
  | 0, nmaches, i => return (nmaches, i)
  | n + 1, nmaches, i => do
      if nmaches = 0xFFFF ∨ nmaches < p1 then
        match ← once i with
        | none => return (nmaches, i)
        | some j =>
            if (← stop j) ∧ enough p0 p1 (nmaches + 1) then return (nmaches + 1, j)
            else if w.length ≤ j then return (nmaches + 1, j)
            else rounds once stop p0 p1 n (nmaches + 1) j
      else return (nmaches, i)

/-- What ends a repetition: a match of what is behind it, where there is something. -/
abbrev Ahead := Option (Nat → Walk Bool)

def Ahead.stops (ahead : Ahead) (i : Nat) : Walk Bool :=
  match ahead with
  | some f => f i
  | none => return false

/-- The first element is a repetition that may match nothing. -/
def Regex.optional : Regex → Bool
  | .greedy minimum _ _ _ => minimum % 0x10000 = 0
  | _ => false

theorem Regex.sizeOf_tail {r : Regex} (h : r ≠ .nil) : sizeOf r.tail < sizeOf r := by
  cases r with
  | nil => exact absurd rfl h
  | or left right =>
      have hleft : 0 < sizeOf left := by
        change 1 ≤ sizeOf left
        cases left <;>
          simp only [Regex.nil.sizeOf_spec, Regex.atom.sizeOf_spec, Regex.group.sizeOf_spec,
            Regex.greedy.sizeOf_spec, Regex.or.sizeOf_spec, Nat.add_assoc, Nat.le_add_right,
            Nat.le_refl]
      simp only [Regex.tail, Regex.nil.sizeOf_spec, Regex.or.sizeOf_spec]
      omega
  | _ =>
      simp only [Regex.tail, Regex.atom.sizeOf_spec, Regex.group.sizeOf_spec,
        Regex.greedy.sizeOf_spec]
      omega

/-! ### Patterns -/

mutual

/-- The first element at the position `i`, with `next` behind it. -/
def Regex.first (r : Regex) (next : Ahead) (i : Nat) : Walk (Option Nat) :=
  match r with
  | .nil => return some i
  | .atom a _ => a.walk w back i
  | .group capture body _ => inGroup capture (body.elements next i)
  | .greedy minimum maximum body rest => do
      let p0 := minimum % 0x10000
      let stop := rest.ahead <|> next
      let (nmaches, j) ← rounds w (body.first stop) stop.stops p0 (bound maximum) 0x10001 0 i
      return if enough p0 (bound maximum) nmaches then some j else none
  | .or left right => do
      match ← left.alternative i with
      | some j => return some j
      | none => right.alternative i
termination_by (sizeOf r, 0)

/-- The elements of a group, with `next` behind the group. -/
def Regex.elements (r : Regex) (next : Ahead) (i : Nat) : Walk (Option Nat) :=
  if _h : r = .nil then return some i
  else do
    match ← r.first (r.tail.ahead <|> next) i with
    | none => return none
    | some j => r.tail.elements next j
termination_by (sizeOf r, 1)
decreasing_by
  · exact .left _ _ (Regex.sizeOf_tail _h)
  · exact .right _ (Nat.lt_succ_self 0)
  · exact .left _ _ (Regex.sizeOf_tail _h)

/-- The elements of an alternative. -/
def Regex.alternative (r : Regex) (i : Nat) : Walk (Option Nat) :=
  if _h : r = .nil then return some i
  else do
    match ← r.first none i with
    | none => return none
    | some j => r.tail.alternative j
termination_by (sizeOf r, 1)
decreasing_by
  · exact .right _ (Nat.lt_succ_self 0)
  · exact .left _ _ (Regex.sizeOf_tail _h)

/-- The look ahead to a pattern: only its first element is tried, and where that is optional
not even that. -/
def Regex.ahead (r : Regex) : Ahead :=
  if _h : r = .nil then none
  else some fun i => do
    if r.optional then return false
    else return (← r.first r.tail.ahead i).isSome
termination_by (sizeOf r, 1)
decreasing_by
  · exact .left _ _ (Regex.sizeOf_tail _h)
  · exact .right _ (Nat.lt_succ_self 0)

end

/-! ### Searches -/

/-- The whole pattern at the position `i`. -/
def Regex.attempt (r : Regex) (i : Nat) : Walk (Option Nat) := do
  modify fun g => { g with counter := 0 }
  r.first w back none i

/-- The first match from one of the `n` positions from `i` on. -/
def Regex.searchFrom (r : Regex) : Nat → Nat → Walk (Option (Nat × Nat))
  | 0, _ => return none
  | n + 1, i => do
      match ← r.attempt w back i with
      | some j => return some (i, j)
      | none => r.searchFrom n (i + 1)

/-- The search for a pattern in the text. -/
def Regex.search (r : Regex) : EStateM.Result Unknown Groups (Option (Nat × Nat)) :=
  r.searchFrom w back w.length 0 ⟨0, []⟩

end

end GameScript.Rex
