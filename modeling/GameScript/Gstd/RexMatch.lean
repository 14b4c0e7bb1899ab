import GameScript.Gstd.Rex

/-!
The matcher of regular expressions and the searches with it, `gstdrex.cpp`, and the
methods of the class `regexp`, `gstdstring.cpp`.

A pointer into the text is a position in its string; where there is none, at the end
of the string, its NUL is. The matcher is bounded by fuel. `none` is a null pointer.
-/

namespace GameScript.Rex

open Effect

/-- A string and the object it is. -/
structure Text where
  ref : Ref
  chars : List UInt8

/-- `GSRex` while it matches. The nodes do not change. -/
structure Matching where
  text : Text
  bol : Int
  eol : Int
  currsubexp : Int
  «matches» : List Match

abbrev MatchM := EStateM Halt Matching

/-- The node that a pointer points at. -/
def nodeAt (nodes : List Node) (i : Int) : MatchM Node :=
  if 0 ≤ i then
    match nodes[i.toNat]? with
    | some n => pure n
    | none => throw .undefined
  else throw .undefined

/-- The character at a position. -/
def Text.get? (text : Text) (i : Int) : Option UInt8 :=
  if 0 ≤ i ∧ i ≤ text.chars.length then some (text.chars.getD i.toNat 0) else none

/-- `*str`. -/
def charAt (str : Int) : MatchM UInt8 := do
  match (← get).text.get? str with
  | some c => return c
  | none => throw .undefined

def isSpace (c : UInt8) : Bool := c = 0x20 ∨ 9 ≤ c ∧ c ≤ 13

def isLower (c : UInt8) : Bool := SC 'a' ≤ c ∧ c ≤ SC 'z'

def isUpper (c : UInt8) : Bool := SC 'A' ≤ c ∧ c ≤ SC 'Z'

def isPunct (c : UInt8) : Bool := isPrint c ∧ c ≠ 0x20 ∧ ¬ isAlnum c

def gstd_rex_matchcclass (cclass : Int) (c : UInt8) : Bool :=
  if cclass = GSChar (SC 'a') then isAlpha c
  else if cclass = GSChar (SC 'A') then ¬ isAlpha c
  else if cclass = GSChar (SC 'w') then isAlnum c ∨ c = SC '_'
  else if cclass = GSChar (SC 'W') then ¬ isAlnum c ∧ c ≠ SC '_'
  else if cclass = GSChar (SC 's') then isSpace c
  else if cclass = GSChar (SC 'S') then ¬ isSpace c
  else if cclass = GSChar (SC 'd') then isDigit c
  else if cclass = GSChar (SC 'D') then ¬ isDigit c
  else if cclass = GSChar (SC 'x') then isXDigit c
  else if cclass = GSChar (SC 'X') then ¬ isXDigit c
  else if cclass = GSChar (SC 'c') then isCntrl c
  else if cclass = GSChar (SC 'C') then ¬ isCntrl c
  else if cclass = GSChar (SC 'p') then isPunct c
  else if cclass = GSChar (SC 'P') then ¬ isPunct c
  else if cclass = GSChar (SC 'l') then isLower c
  else if cclass = GSChar (SC 'u') then isUpper c
  else false

section

variable (nodes : List Node)

/-- A node of a class against a character. -/
def matchmember (node : Node) (c : UInt8) : Bool :=
  match node.type with
  | .OP_RANGE => GSChar c ≥ node.left ∧ GSChar c ≤ node.right
  | .OP_CCLASS => gstd_rex_matchcclass node.left c
  | type => GSChar c = type.code

def gstd_rex_matchclass : Nat → Int → UInt8 → MatchM Bool
  | 0, _, _ => throw .timeout
  | fuel + 1, i, c => do
      let node ← nodeAt nodes i
      if matchmember node c then return true
      else if node.next ≠ -1 then gstd_rex_matchclass fuel node.next c
      else return false

/-- The bounds of a node of type `OP_GREEDY`. -/
def Node.p0 (n : Node) : Nat := (n.right / 0x10000 % 0x10000).toNat

def Node.p1 (n : Node) : Nat := (n.right % 0x10000).toNat

/-- The test of `nmaches` against the bounds. -/
def enough (p0 p1 nmaches : Nat) : Bool :=
  p0 = p1 ∧ p0 = nmaches ∨ nmaches ≥ p0 ∧ p1 = 0xFFFF ∨ nmaches ≥ p0 ∧ nmaches ≤ p1

/-- The loop of `OP_GREEDY`, with the last values of `nmaches` and `good`; `once` matches the
element, and `stop` what follows it. -/
def greedyLoop (once : Int → MatchM (Option Int)) (stop : Int → MatchM Bool) (p0 p1 : Nat) :
    Nat → Nat → Int → Int → MatchM (Nat × Int)
  | 0, _, _, _ => throw .timeout
  | fuel + 1, nmaches, s, good => do
      if nmaches = 0xFFFF ∨ nmaches < p1 then
        match ← once s with
        | none => return (nmaches, good)
        | some s =>
            if (← stop s) ∧ enough p0 p1 (nmaches + 1) then return (nmaches + 1, s)
            else if s ≥ (← get).eol then return (nmaches + 1, s)
            else greedyLoop once stop p0 p1 fuel (nmaches + 1) s s
      else return (nmaches, good)

/-- What follows a repetition whose element is followed by `next`. -/
def greedystop (node : Node) (next : Option Int) : Option Int :=
  if node.next ≠ -1 then some node.next else next

/-- What follows `greedystop`. -/
def gnext (greedystop : Node) (next : Option Int) : MatchM (Option Int) := do
  if greedystop.next ≠ -1 then return some greedystop.next
  else
    match next with
    | some next =>
        let next ← nodeAt nodes next
        return if next.next ≠ -1 then some next.next else none
    | none => return none

/-- Whether what follows a repetition matches here; where that may be repeated no time, it is not
tried. `matchnode` is `gstd_rex_matchnode`. -/
def satisfied (matchnode : Int → Int → Option Int → MatchM (Option Int))
    (greedystop next : Option Int) (s : Int) : MatchM Bool := do
  match greedystop with
  | none => return false
  | some g =>
      let node ← nodeAt nodes g
      if node.type ≠ .OP_GREEDY ∨ node.p0 ≠ 0 then
        let gnext ← gnext nodes node next
        let stop ← matchnode g s gnext
        return stop.isSome
      else return false

/-- `exp->_matches[capture] = match`. -/
def setMatch (capture : Nat) (m : Match) : MatchM Unit := do
  let exp ← get
  if capture < exp.matches.length then set { exp with «matches» := exp.matches.set capture m }
  else throw .undefined

/-- The test whether a group is captured, and what is done then. -/
def beginCapture (node : Node) (cur : Int) : MatchM (Option Nat) := do
  let exp ← get
  if node.type ≠ .OP_NOCAPEXPR ∧ node.right = exp.currsubexp then
    let capture := exp.currsubexp.toNat
    setMatch capture ⟨some (exp.text.ref, cur), (exp.matches.getD capture ⟨none, 0⟩).len⟩
    modify fun exp => { exp with currsubexp := exp.currsubexp + 1 }
    return some capture
  else return none

def dropCapture : Option Nat → MatchM Unit
  | some capture => setMatch capture ⟨none, 0⟩
  | none => pure ()

/-- The length of a capture is the distance of two pointers, which there is within a string. -/
def endCapture (cur : Int) : Option Nat → MatchM Unit
  | some capture => do
      let exp ← get
      match exp.matches[capture]? with
      | some ⟨some (ref, i), _⟩ =>
          if ref = exp.text.ref then setMatch capture ⟨some (ref, i), cur - i⟩
          else throw .undefined
      | _ => throw .undefined
  | none => pure ()

/-- Whether a pointer is `here` and no space is at `i`. -/
def noSpace (here : Bool) (i : Int) : MatchM Bool := do
  if here then return ¬ isSpace (← charAt i)
  else return false

/-- The test of `OP_WB`. -/
def boundary (str : Int) : MatchM Bool := do
  let exp ← get
  if ← noSpace (str = exp.bol) str then return true
  else if ← noSpace (str = exp.eol) (str - 1) then return true
  else
    let c ← charAt str
    let d ← charAt (str + 1)
    return isSpace c ≠ isSpace d

/-- The loop of `OP_MB`, with the number of characters open in `cont`. -/
def balanceLoop (cb ce : Int) : Nat → Int → Nat → MatchM (Option Int)
  | 0, _, _ => throw .timeout
  | fuel + 1, str, cont => do
      let str := str + 1
      if str < (← get).eol then
        let c ← charAt str
        if GSChar c = ce then
          if cont - 1 = 0 then return some (str + 1)
          else balanceLoop cb ce fuel str (cont - 1)
        else if GSChar c = cb then balanceLoop cb ce fuel str (cont + 1)
        else balanceLoop cb ce fuel str cont
      else return none

/-- A node that matches a character where there is one that `p` holds of. -/
def matchchar (p : UInt8 → MatchM Bool) (str : Int) : MatchM (Option Int) := do
  if str = (← get).eol then return none
  else if ← p (← charAt str) then return some (str + 1)
  else return none

/-- The cases of `gstd_rex_matchnode` that match no other node. -/
def matchleaf (fuel : Nat) (node : Node) (str : Int) : MatchM (Option Int) := do
  match node.type with
  | .OP_WB =>
      let b ← boundary str
      return if b then (if node.left = GSChar (SC 'b') then some str else none)
        else if node.left = GSChar (SC 'b') then none else some str
  | .OP_BOL => return if str = (← get).bol then some str else none
  | .OP_EOL => return if str = (← get).eol then some str else none
  | .OP_DOT => if str = (← get).eol then return none else return some (str + 1)
  | .OP_CLASS => matchchar (gstd_rex_matchclass nodes fuel node.left) str
  | .OP_NCLASS => matchchar (fun c => not <$> gstd_rex_matchclass nodes fuel node.left c) str
  | .OP_CCLASS => matchchar (fun c => pure (gstd_rex_matchcclass node.left c)) str
  | .OP_MB =>
      if GSChar (← charAt str) ≠ node.left then return none
      else
        let exp ← get
        balanceLoop node.left node.right ((exp.eol - str).toNat + 1) str 1
  | type => matchchar (fun c => pure (GSChar c = type.code)) str

mutual

/-- `gstd_rex_matchnode`. -/
def gstd_rex_matchnode : Nat → Int → Int → Option Int → MatchM (Option Int)
  | 0, _, _, _ => throw .timeout
  | fuel + 1, i, str, next => do
      let node ← nodeAt nodes i
      match node.type with
      | .OP_GREEDY =>
          let greedystop := greedystop node next
          let (nmaches, good) ← greedyLoop
            (fun s => gstd_rex_matchnode fuel node.left s greedystop)
            (satisfied nodes (gstd_rex_matchnode fuel) greedystop next)
            node.p0 node.p1 0x10001 0 str str
          return if enough node.p0 node.p1 nmaches then some good else none
      | .OP_OR =>
          match ← orLoop fuel node.left str with
          | some asd => return some asd
          | none => orLoop fuel node.right str
      | .OP_EXPR | .OP_NOCAPEXPR =>
          let capture ← beginCapture node str
          let tempcap := (← get).currsubexp
          match ← exprLoop fuel node.left str next with
          | none =>
              dropCapture capture
              return none
          | some cur =>
              modify fun exp => { exp with currsubexp := tempcap }
              endCapture cur capture
              return some cur
      | _ => matchleaf nodes fuel node str

/-- The loop of `OP_OR` over an alternative. -/
def orLoop : Nat → Int → Int → MatchM (Option Int)
  | 0, _, _ => throw .timeout
  | fuel + 1, temp, asd => do
      match ← gstd_rex_matchnode fuel temp asd none with
      | none => return none
      | some asd =>
          let node ← nodeAt nodes temp
          if node.next ≠ -1 then orLoop fuel node.next asd
          else return some asd

/-- The loop of `OP_EXPR` over the elements of a group that `next` follows. -/
def exprLoop : Nat → Int → Int → Option Int → MatchM (Option Int)
  | 0, _, _, _ => throw .timeout
  | fuel + 1, n, cur, next => do
      let node ← nodeAt nodes n
      let subnext := if node.next ≠ -1 then some node.next else next
      match ← gstd_rex_matchnode fuel n cur subnext with
      | none => return none
      | some cur =>
          if node.next ≠ -1 then exprLoop fuel node.next cur next
          else return some cur

end

/-! ### Searches -/

/-- The inner loop of `gstd_rex_searchrange`, from `node` on, and the node it ends with. -/
def attempt (fuel : Nat) : Nat → Int → Int → MatchM (Option Int × Int)
  | 0, _, _ => throw .timeout
  | n + 1, node, cur => do
      if node ≠ -1 then
        modify fun exp => { exp with currsubexp := 0 }
        match ← gstd_rex_matchnode nodes fuel node cur none with
        | none => return (none, node)
        | some cur =>
            let next := (← nodeAt nodes node).next
            attempt fuel n next cur
      else return (some cur, node)

/-- The outer loop of `gstd_rex_searchrange`. -/
def searchLoop (fuel : Nat) : Nat → Int → Int → Int → MatchM (Option (Int × Int))
  | 0, _, _, _ => throw .timeout
  | n + 1, node, text_begin, text_end => do
      let (cur, node) ← attempt nodes fuel (nodes.length + 1) node text_begin
      match cur with
      | some cur => return some (text_begin, cur)
      | none =>
          if text_begin + 1 ≠ text_end then searchLoop fuel n node (text_begin + 1) text_end
          else return none

end

/-- `gstd_rex_searchrange`, with the ends of the match. -/
def gstd_rex_searchrange (rex : GSRex) (fuel : Nat) (text_begin text_end : Int) :
    MatchM (Option (Int × Int)) := do
  if text_begin ≥ text_end then return none
  else
    modify fun exp => { exp with bol := text_begin, eol := text_end }
    searchLoop rex.nodes fuel ((text_end - text_begin).toNat + 1) rex.first text_begin text_end

/-- `scstrlen`. -/
def strlen (text : Int) : MatchM Nat := do
  let string := (← get).text.chars
  if 0 ≤ text ∧ text ≤ string.length then
    return (zeroTerminated (string.drop text.toNat)).length
  else throw .undefined

def gstd_rex_search (rex : GSRex) (fuel : Nat) (text : Int) : MatchM (Option (Int × Int)) := do
  let len ← strlen text
  gstd_rex_searchrange rex fuel text (text + len)

def gstd_rex_match (rex : GSRex) (fuel : Nat) (text : Int) : MatchM Bool := do
  let len ← strlen text
  modify fun exp => { exp with bol := text, eol := text + len, currsubexp := 0 }
  let res ← gstd_rex_matchnode rex.nodes fuel 0 text none
  return res = some (text + len)

end GameScript.Rex
