import GameScript.GSLexer
import GameScript.Lib.Effect

/-!
The compiler of regular expressions, `gstdrex.cpp`: a recursive descent over the
text of a pattern that allocates the nodes of the expression as it goes.

`p` is what is left of the pattern before its NUL, and `none` where the pointer
is behind the NUL. The functions that recurse are bounded by fuel.
-/

namespace GameScript.Rex

open Effect

def MAX_CHAR : Int := 0xFF

/-- A `GSChar` is signed. -/
def GSChar (c : UInt8) : Int := c.toInt8.toInt

/-- `GSRexNodeType`. No node is an `OP_CHAR`. -/
inductive NodeType where
  | OP_GREEDY | OP_OR | OP_EXPR | OP_NOCAPEXPR | OP_DOT | OP_CLASS | OP_CCLASS | OP_NCLASS
  | OP_RANGE | OP_EOL | OP_BOL | OP_WB | OP_MB
  | char (c : UInt8)
deriving DecidableEq, Repr

def NodeType.code : NodeType → Int
  | .OP_GREEDY => MAX_CHAR + 1
  | .OP_OR => MAX_CHAR + 2
  | .OP_EXPR => MAX_CHAR + 3
  | .OP_NOCAPEXPR => MAX_CHAR + 4
  | .OP_DOT => MAX_CHAR + 5
  | .OP_CLASS => MAX_CHAR + 6
  | .OP_CCLASS => MAX_CHAR + 7
  | .OP_NCLASS => MAX_CHAR + 8
  | .OP_RANGE => MAX_CHAR + 9
  | .OP_EOL => MAX_CHAR + 11
  | .OP_BOL => MAX_CHAR + 12
  | .OP_WB => MAX_CHAR + 13
  | .OP_MB => MAX_CHAR + 14
  | .char c => GSChar c

/-- `GSRexNode`. -/
structure Node where
  type : NodeType
  left : Int
  right : Int
  next : Int
deriving DecidableEq, Repr

/-- What ends the compilation early: `gstd_rex_error`, a step the language of the source
leaves undefined, or that there is no fuel left. -/
inductive Halt where
  | error (msg : List UInt8)
  | undefined
  | timeout
deriving DecidableEq, Repr

/-- `GSRex`, as far as the compilation uses it. -/
structure Compiling where
  p : Option (List UInt8)
  nodes : List Node
  nallocated : Nat
  nsubexpr : Nat

abbrev RexM := EStateM Halt Compiling

def gstd_rex_error {α : Type} (msg : String) : RexM α := throw (.error (sc msg))

/-- `*exp->_p`. -/
def peek : RexM UInt8 := do
  match (← get).p with
  | some s => return s.headD 0
  | none => throw .undefined

/-- `exp->_p++`. -/
def advance : RexM Unit :=
  modify fun exp => { exp with
    p := match exp.p with
      | some (_ :: s) => some s
      | _ => none }

def gstd_rex_newnode (type : NodeType) : RexM Nat := do
  let exp ← get
  let n : Node := {
    type := type
    left := -1
    right := if type = NodeType.OP_EXPR then exp.nsubexpr else -1
    next := -1 }
  let nallocated :=
    if exp.nallocated < exp.nodes.length + 1 then exp.nallocated * 2 else exp.nallocated
  if exp.nodes.length < nallocated then
    set { exp with
      nodes := exp.nodes ++ [n]
      nallocated := nallocated
      nsubexpr := if type = NodeType.OP_EXPR then exp.nsubexpr + 1 else exp.nsubexpr }
    return exp.nodes.length
  else throw .undefined

/-- `exp->_nodes[i]`. -/
def node (i : Nat) : RexM Node := do
  match (← get).nodes[i]? with
  | some n => return n
  | none => throw .undefined

/-- An assignment to fields of `exp->_nodes[i]`. -/
def assign (i : Nat) (f : Node → Node) : RexM Unit := do
  let exp ← get
  if i < exp.nodes.length then set { exp with nodes := exp.nodes.modify i f }
  else throw .undefined

def gstd_rex_expect (n : UInt8) : RexM Unit := do
  if (← peek) ≠ n then gstd_rex_error "expected paren"
  else advance

/-- The letters that escape a control character. -/
def controlOf (c : UInt8) : Option UInt8 :=
  if c = SC 'v' then some 11
  else if c = SC 'n' then some 10
  else if c = SC 't' then some 9
  else if c = SC 'r' then some 13
  else if c = SC 'f' then some 12
  else none

def gstd_rex_escapechar : RexM UInt8 := do
  let c ← peek
  if c = SC '\\' then
    advance
    let c ← peek
    advance
    return (controlOf c).getD c
  else if ¬ isPrint c then gstd_rex_error "letter expected"
  else
    advance
    return c

def gstd_rex_charclass (classid : UInt8) : RexM Nat := do
  let n ← gstd_rex_newnode .OP_CCLASS
  assign n fun n => { n with left := GSChar classid }
  return n

/-- The letters of a class of characters. -/
def isClassLetter (c : UInt8) : Bool := c ∈ sc "aAwWsSdDxXcCpPlu"

/-- The case `'m'`. -/
def balancednode : RexM Nat := do
  advance
  let cb ← peek
  advance
  let ce ← peek
  advance
  if cb = 0 ∨ ce = 0 then gstd_rex_error "balanced chars expected"
  else if cb = ce then gstd_rex_error "open/close char can't be the same"
  else
    let node ← gstd_rex_newnode .OP_MB
    assign node fun n => { n with left := GSChar cb, right := GSChar ce }
    return node

/-- The cases `'b'` and `'B'`. -/
def boundarynode (t : UInt8) : RexM Nat := do
  let node ← gstd_rex_newnode .OP_WB
  assign node fun n => { n with left := GSChar t }
  advance
  return node

/-- The `switch` of `gstd_rex_charnode`. -/
def escapednode (isclass : Bool) : RexM Nat := do
  let t ← peek
  match controlOf t with
  | some c =>
      advance
      gstd_rex_newnode (.char c)
  | none =>
      if isClassLetter t then
        advance
        gstd_rex_charclass t
      else if t = SC 'm' then balancednode
      else if t = 0 then gstd_rex_error "letter expected for argument of escape sequence"
      else if (t = SC 'b' ∨ t = SC 'B') ∧ ¬ isclass then boundarynode t
      else
        advance
        gstd_rex_newnode (.char t)

def gstd_rex_charnode (isclass : Bool) : RexM Nat := do
  let t ← peek
  if t = SC '\\' then
    advance
    escapednode isclass
  else if ¬ isPrint t then gstd_rex_error "letter expected"
  else
    advance
    gstd_rex_newnode (.char t)

/-- The branch of the loop of `gstd_rex_class` that makes a range from `first` on. -/
def rangenode (chain first : Nat) : RexM Nat := do
  let c ← peek
  advance
  -- the character tested is the `-` itself
  if c = SC ']' then gstd_rex_error "unfinished range"
  else
    let r ← gstd_rex_newnode .OP_RANGE
    let type := (← node first).type
    if type.code > GSChar (← peek) then gstd_rex_error "invalid range"
    else if type = .OP_CCLASS then gstd_rex_error "cannot use character classes in ranges"
    else
      let t ← gstd_rex_escapechar
      assign r fun n => { n with left := type.code, right := GSChar t }
      assign chain fun n => { n with next := r }
      return r

/-- The loop of `gstd_rex_class`, with `chain` and `first` and their last values. While a
pattern is compiled `_eol` is null and not where `_p` is. -/
def classLoop : Nat → Nat → Option Nat → RexM (Nat × Option Nat)
  | 0, _, _ => throw .timeout
  | fuel + 1, chain, first => do
      let c ← peek
      if c = SC ']' then return (chain, first)
      else
        match first with
        | some f =>
            if c = SC '-' then
              let r ← rangenode chain f
              classLoop fuel r none
            else
              assign chain fun n => { n with next := f }
              let first ← gstd_rex_charnode true
              classLoop fuel f (some first)
        | none =>
            let first ← gstd_rex_charnode true
            classLoop fuel chain (some first)

/-- The character that the loop of `gstd_rex_class` ends with, behind the others. -/
def linkLast (chain : Nat) : Option Nat → RexM Unit
  | some c => assign chain fun n => { n with next := c }
  | none => pure ()

/-- The node of a class, which a `^` negates. -/
def classnode : RexM Nat := do
  let c ← peek
  if c = SC '^' then
    let ret ← gstd_rex_newnode .OP_NCLASS
    advance
    return ret
  else gstd_rex_newnode .OP_CLASS

def gstd_rex_class (fuel : Nat) : RexM Nat := do
  let ret ← classnode
  if (← peek) = SC ']' then gstd_rex_error "empty class"
  else
    let (chain, first) ← classLoop fuel ret none
    linkLast chain first
    assign ret fun n => { n with left := n.next, next := -1 }
    return ret

/-- The loop of `gstd_rex_parsenumber`. -/
def numberLoop : Nat → Nat → Nat → RexM Nat
  | 0, _, _ => throw .timeout
  | fuel + 1, ret, positions => do
      let c ← peek
      if isDigit c then
        advance
        if positions = 1000000000 then gstd_rex_error "overflow in numeric constant"
        else numberLoop fuel (ret * 10 + (c.toNat - (SC '0').toNat)) (positions * 10)
      else return ret

def gstd_rex_parsenumber (fuel : Nat) : RexM Nat := do
  let c ← peek
  advance
  numberLoop fuel (c.toNat - (SC '0').toNat) 10

/-- The maximum of a count, behind its comma. -/
def maximum (fuel : Nat) : RexM Nat := do
  if isDigit (← peek) then
    let n ← gstd_rex_parsenumber fuel
    gstd_rex_expect (SC '\x7d')
    return n % 0x10000
  else
    gstd_rex_expect (SC '\x7d')
    return 0xFFFF

/-- The bounds of a count, behind its brace. -/
def countBounds (fuel : Nat) : RexM (Nat × Nat) := do
  if ¬ isDigit (← peek) then gstd_rex_error "number expected"
  else
    let n ← gstd_rex_parsenumber fuel
    let p0 := n % 0x10000
    let c ← peek
    if c = SC '\x7d' then
      advance
      return (p0, p0)
    else if c = SC ',' then
      advance
      let p1 ← maximum fuel
      return (p0, p1)
    else gstd_rex_error ", or \x7d expected"

/-- The bounds `p0` and `p1` of a `*`, `+`, `?` or count, where there is one. -/
def bounds (fuel : Nat) : RexM (Option (Nat × Nat)) := do
  let c ← peek
  if c = SC '*' then
    advance
    return some (0, 0xFFFF)
  else if c = SC '+' then
    advance
    return some (1, 0xFFFF)
  else if c = SC '?' then
    advance
    return some (0, 1)
  else if c = SC '\x7b' then
    advance
    let p ← countBounds fuel
    return some p
  else return none

/-- The element `ret` under its quantifier, where it has one. -/
def quantify (fuel ret : Nat) : RexM Nat := do
  match ← bounds fuel with
  | some (p0, p1) =>
      let nnode ← gstd_rex_newnode .OP_GREEDY
      assign nnode fun n => { n with left := ret, right := p0 * 0x10000 + p1 }
      return nnode
  | none => return ret

/-- An element ends a list of them before one of these characters. -/
def endsList (c : UInt8) : Bool :=
  c = SC '|' ∨ c = SC ')' ∨ c = SC '*' ∨ c = SC '+' ∨ c = 0

/-- The list of the group `expr`, and the end of the group. -/
def group (expr : Nat) (list : RexM Nat) : RexM Nat := do
  let newn ← list
  assign expr fun n => { n with left := newn }
  gstd_rex_expect (SC ')')
  return expr

/-- The `switch` of `gstd_rex_element`; `list` is `gstd_rex_list`. -/
def elementHead (fuel : Nat) (list : RexM Nat) : RexM Nat := do
  let c ← peek
  if c = SC '(' then
    advance
    if (← peek) = SC '?' then
      advance
      gstd_rex_expect (SC ':')
      let expr ← gstd_rex_newnode .OP_NOCAPEXPR
      group expr list
    else
      let expr ← gstd_rex_newnode .OP_EXPR
      group expr list
  else if c = SC '[' then
    advance
    let ret ← gstd_rex_class fuel
    gstd_rex_expect (SC ']')
    return ret
  else if c = SC '$' then
    advance
    gstd_rex_newnode .OP_EOL
  else if c = SC '.' then
    advance
    gstd_rex_newnode .OP_DOT
  else gstd_rex_charnode false

/-- The elements of an alternative; `element` is `gstd_rex_element`. -/
def listHead (element : RexM Nat) : RexM Nat := do
  let c ← peek
  if c = SC '^' then
    advance
    let ret ← gstd_rex_newnode .OP_BOL
    let e ← element
    assign ret fun n => { n with next := e }
    return ret
  else element

mutual

def gstd_rex_element : Nat → RexM Nat
  | 0 => throw .timeout
  | fuel + 1 => do
      let ret ← elementHead fuel (gstd_rex_list fuel)
      let ret ← quantify fuel ret
      if ¬ endsList (← peek) then
        let nnode ← gstd_rex_element fuel
        assign ret fun n => { n with next := nnode }
        return ret
      else return ret

def gstd_rex_list : Nat → RexM Nat
  | 0 => throw .timeout
  | fuel + 1 => do
      let ret ← listHead (gstd_rex_element fuel)
      if (← peek) = SC '|' then
        advance
        let temp ← gstd_rex_newnode .OP_OR
        assign temp fun n => { n with left := ret }
        let tright ← gstd_rex_list fuel
        assign temp fun n => { n with right := tright }
        return temp
      else return ret

end

/-- `GSRexMatch`: the string it points into, the position there, and the length. -/
structure Match where
  begin : Option (Ref × Int)
  len : Int
deriving DecidableEq, Repr

/-- `GSRex`. -/
structure GSRex where
  nodes : List Node
  first : Nat
  nsubexpr : Nat
  «matches» : List Match
deriving DecidableEq

/-- The state before the first node, with room for a node for each character. -/
def Compiling.start (text : List UInt8) : Compiling where
  p := some text
  nodes := []
  nallocated := text.length
  nsubexpr := 0

/-- What the pattern is compiled to, from what is before its NUL. -/
def compileText (text : List UInt8) : RexM Nat := do
  let first ← gstd_rex_newnode .OP_EXPR
  let res ← gstd_rex_list (2 * text.length + 2)
  assign first fun n => { n with left := res }
  if (← peek) ≠ 0 then gstd_rex_error "unexpected character"
  else return first

/-- The characters of a string before its first NUL. -/
def zeroTerminated (s : List UInt8) : List UInt8 := s.takeWhile (· ≠ 0)

def gstd_rex_compile (pattern : List UInt8) : Except Halt GSRex :=
  match compileText (zeroTerminated pattern) (.start (zeroTerminated pattern)) with
  | .ok first exp =>
      .ok {
        nodes := exp.nodes
        first := first
        nsubexpr := exp.nsubexpr
        «matches» := List.replicate exp.nsubexpr ⟨none, 0⟩ }
  | .error halt _ => .error halt

end GameScript.Rex
