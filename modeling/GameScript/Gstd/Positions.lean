import GameScript.Gstd.RexMirror

/-!
The methods with positions: `slice`, `find`, `tolower` and `toupper` of a string,
`GSbaselib.cpp`, and `search` and `capture` of the class `regexp`, `gstdstring.cpp`.

Their arguments are integers. `find` gives its string in addition.
-/

namespace GameScript.Rex

open Effect

/-- A string that there can be: its length is a `GSInteger`. -/
structure Str extends Text where
  length_lt : chars.length < 2 ^ 63

def Str.len (s : Str) : GSInteger := Int64.ofNat s.chars.length

/-! ### Strings -/

/-- `n` characters from the position `i` on. -/
def Text.read (text : Text) (i n : Int) : Except Halt (List UInt8) :=
  if 0 ≤ i ∧ 0 ≤ n ∧ i + n ≤ text.chars.length then
    return (text.chars.drop i.toNat).take n.toNat
  else throw .undefined

def get_slice_params (o : Str) : List GSInteger → GSInteger × GSInteger
  | [] => (0, o.len)
  | [sidx] => (sidx, o.len)
  | sidx :: eidx :: _ => (sidx, eidx)

/-- How `slice`, `tolower` and `toupper` begin. -/
def slice_range (o : Str) (args : List GSInteger) : Except Halt (GSInteger × GSInteger) :=
  let (sidx, eidx) := get_slice_params o args
  let slen := o.len
  let sidx := if sidx < 0 then slen + sidx else sidx
  let eidx := if eidx < 0 then slen + eidx else eidx
  if eidx < sidx then throw (.error (sc "wrong indexes"))
  else if eidx > slen ∨ sidx < 0 then throw (.error (sc "slice out of range"))
  else return (sidx, eidx)

def string_slice (o : Str) (args : List GSInteger) : Except Halt (List UInt8) := do
  let (sidx, eidx) ← slice_range o args
  o.read sidx.toInt (eidx - sidx).toInt

/-- The loop of `STRING_TOFUNCZ`, with `n` characters left. -/
def tofuncLoop (func : UInt8 → UInt8) (sthis : Text) :
    Nat → Int → List UInt8 → Except Halt (List UInt8)
  | 0, _, snew => return snew
  | n + 1, i, snew =>
      match sthis.get? i with
      | some c =>
          if i < snew.length then tofuncLoop func sthis n (i + 1) (snew.set i.toNat (func c))
          else throw .undefined
      | none => throw .undefined

/-- `STRING_TOFUNCZ`. -/
def string_tofunc (func : UInt8 → UInt8) (str : Str) (args : List GSInteger) :
    Except Halt (List UInt8) := do
  let (sidx, eidx) ← slice_range str args
  let snew ← str.read 0 str.len.toInt
  tofuncLoop func str.toText (eidx.toInt - sidx.toInt).toNat sidx.toInt snew

def tolower (c : UInt8) : UInt8 := if isUpper c then c + 32 else c

def toupper (c : UInt8) : UInt8 := if isLower c then c - 32 else c

def string_tolower : Str → List GSInteger → Except Halt (List UInt8) := string_tofunc tolower

def string_toupper : Str → List GSInteger → Except Halt (List UInt8) := string_tofunc toupper

/-- `scstrstr` of what is from the position `i` on. -/
def scstrstr (str : Text) (i : Int) (substr : List UInt8) : Except Halt (Option Int) :=
  if 0 ≤ i ∧ i ≤ str.chars.length then
    let s := zeroTerminated (str.chars.drop i.toNat)
    let found := (List.range (s.length + 1)).find? fun k =>
      (zeroTerminated substr).isPrefixOf (s.drop k)
    return found.map fun (k : Nat) => i + k
  else throw .undefined

def string_find (str : Str) (substr : List UInt8) (args : List GSInteger) :
    Except Halt (Option Int) :=
  let start_idx := args.headD 0
  if str.len > start_idx ∧ start_idx ≥ 0 then scstrstr str.toText start_idx.toInt substr
  else return none

/-! ### Regular expressions -/

/-- The distance of a pointer from `str`, which there is within a string. -/
def offset (pointer : Option (Ref × Int)) : MatchM Int := do
  match pointer with
  | some (ref, i) => if ref = (← get).text.ref then return i else throw .undefined
  | none => throw .undefined

/-- `_addrexmatch`, as the pair of its positions. -/
def _addrexmatch (first last : Option (Ref × Int)) : MatchM (Int × Int) := do
  let first ← offset first
  let last ← offset last
  return (first, last)

def _regexp_search (rex : GSRex) (fuel : Nat) (args : List GSInteger) :
    MatchM (Option (Int × Int)) := do
  let start := args.headD 0
  match ← gstd_rex_search rex fuel start.toInt with
  | some (first, last) =>
      let str := (← get).text.ref
      return some (← _addrexmatch (some (str, first)) (some (str, last)))
  | none => return none

/-- `gstd_rex_getsubexp` of a number that there is. -/
def gstd_rex_getsubexp (i : Nat) : MatchM Match := do
  match (← get).matches[i]? with
  | some m => return m
  | none => throw .undefined

/-- What `_regexp_capture` gives for a group. -/
def addcapture (m : Match) : MatchM (Int × Int) := do
  let str := (← get).text.ref
  if m.len > 0 then _addrexmatch m.begin (m.begin.map fun p => (p.1, p.2 + m.len))
  else _addrexmatch (some (str, 0)) (some (str, 0))

/-- The loop of `_regexp_capture`, with `n` groups left. -/
def captureLoop : Nat → Nat → MatchM (List (Int × Int))
  | 0, _ => return []
  | n + 1, i => do
      let m ← gstd_rex_getsubexp i
      let range ← addcapture m
      let ranges ← captureLoop n (i + 1)
      return range :: ranges

def _regexp_capture (rex : GSRex) (fuel : Nat) (args : List GSInteger) :
    MatchM (Option (List (Int × Int))) := do
  let start := args.headD 0
  match ← gstd_rex_search rex fuel start.toInt with
  | some _ => return some (← captureLoop rex.nsubexpr 0)
  | none => return none

/-! ### What an expression has been used for -/

/-- Strings at one address are the same. -/
def Str.Admits (s t : Str) : Prop := t = s ∨ t.ref ≠ s.ref

/-- What an expression may be when it is used on `s`: it may have been used on any strings. -/
inductive Reached (rex : GSRex) (s : Str) : Matching → Prop where
  | compiled {exp : Matching} : exp.matches = rex.matches → Reached rex s exp
  | search {exp exp' : Matching} {t : Str} {fuel : Nat} {start : Int}
      {res : Option (Int × Int)} : Reached rex s exp → s.Admits t → rex.fuel ≤ fuel →
      gstd_rex_search rex fuel start { exp with text := t.toText } = .ok res exp' →
      Reached rex s exp'
  | «match» {exp exp' : Matching} {t : Str} {fuel : Nat} {res : Bool} :
      Reached rex s exp → s.Admits t → rex.fuel ≤ fuel →
      gstd_rex_match rex fuel 0 { exp with text := t.toText } = .ok res exp' →
      Reached rex s exp'

/-- An expression as a script has it: compiled from an accepted pattern, and used on strings. -/
structure Expression (s : Str) where
  pattern : List UInt8
  rex : GSRex
  exp : Matching
  compiled : gstd_rex_compile pattern = .ok rex
  reached : Reached rex s exp

/-! ### What is asked of a call -/

inductive Method (s : Str) where
  | slice
  | tolower
  | toupper
  | find (substr : List UInt8)
  | search (e : Expression s)
  | capture (e : Expression s)

/-- A call raises or answers as `post` says; it reads nothing outside its string. -/
def Answers {α : Type} (post : α → Prop) : Except Halt α → Prop
  | .ok a => post a
  | .error (.error _) => True
  | .error _ => False

def answer {α : Type} (m : MatchM α) (exp : Matching) : Except Halt α :=
  match m exp with
  | .ok a _ => .ok a
  | .error e _ => .error e

/-- Between the beginning of a string and its end. -/
def Text.Within (s : Text) (i : Int) : Prop := 0 ≤ i ∧ i ≤ s.chars.length

/-- What is asked of a method of `regexp`, with all the fuel that the expression needs. -/
def Expression.Meets {s : Str} (e : Expression s) {α : Type} (m : GSRex → Nat → MatchM α)
    (post : α → Prop) : Prop :=
  ∀ fuel, e.rex.fuel ≤ fuel → Answers post (answer (m e.rex fuel) { e.exp with text := s.toText })

/-- The call reads its string only, and answers with positions in it. -/
def Method.Meets {s : Str} (args : List GSInteger) : Method s → Prop
  | .slice => Answers (fun res => ∃ i j : Nat, i ≤ j ∧ j ≤ s.chars.length ∧
      res = (s.chars.drop i).take (j - i)) (string_slice s args)
  | .tolower => Answers (fun res => ∃ i j : Nat, i ≤ j ∧ j ≤ s.chars.length ∧
      res = s.chars.take i ++ ((s.chars.drop i).take (j - i)).map Rex.tolower ++ s.chars.drop j)
      (string_tolower s args)
  | .toupper => Answers (fun res => ∃ i j : Nat, i ≤ j ∧ j ≤ s.chars.length ∧
      res = s.chars.take i ++ ((s.chars.drop i).take (j - i)).map Rex.toupper ++ s.chars.drop j)
      (string_toupper s args)
  | .find substr => Answers (fun res => ∀ i ∈ res, s.Within i) (string_find s substr args)
  | .search e => e.Meets (fun rex fuel => _regexp_search rex fuel args)
      fun res => ∀ m ∈ res, s.Within m.1 ∧ s.Within m.2
  | .capture e => e.Meets (fun rex fuel => _regexp_capture rex fuel args)
      fun res => ∀ ms ∈ res, ∀ m ∈ ms, s.Within m.1 ∧ s.Within m.2

/-! ### The condition of a call -/

/-- What there is to search from the position `start` on: up to a NUL, or to the end. -/
def Text.rest (s : Text) (start : Int) : List UInt8 := zeroTerminated (s.chars.drop start.toNat)

/-- What is behind that. -/
def Text.behind (s : Text) (start : Int) : List UInt8 :=
  (s.chars.drop start.toNat).drop (s.rest start).length

/-- The pattern walks through the string from `start` on, to a match or to none, and does not
come to a word boundary behind a space that ends the string. -/
def Str.Walked (s : Str) (pattern : List UInt8) (start : Int) (o : Option (Nat × Nat))
    (g : Groups) : Prop :=
  ∃ r, PatternReads pattern r ∧ r.search (s.rest start) (s.behind start) = .ok o g

/-- A capture that is not empty and has been made in another string. -/
def Match.Foreign (s : Str) (m : Match) : Prop := 0 < m.len ∧ ∀ i, m.begin ≠ some (s.ref, i)

/-- A match of `e` that begins the groups `g` leaves no group with a capture of another string. -/
def Expression.Own {s : Str} (e : Expression s) (g : Groups) : Prop :=
  ∀ k, k ∉ g.begun → ∀ m, e.exp.matches[k]? = some m → ¬ m.Foreign s

/-- The condition of a call. -/
def Method.Allowed {s : Str} (args : List GSInteger) : Method s → Prop
  | .search e => s.Within (args.headD 0).toInt ∧
      ∃ o g, s.Walked e.pattern (args.headD 0).toInt o g
  | .capture e => s.Within (args.headD 0).toInt ∧
      ∃ o g, s.Walked e.pattern (args.headD 0).toInt o g ∧ (o.isSome = true → e.Own g)
  | _ => True

end GameScript.Rex
