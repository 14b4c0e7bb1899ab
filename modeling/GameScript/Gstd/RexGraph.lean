import GameScript.Gstd.Pattern
import GameScript.Gstd.RexNodes

/-!
What the nodes of an expression stand for.

A pattern has the nodes of an interval for itself: an element ends where what is behind it
begins, and so does the body of an element within it.
-/

namespace GameScript.Rex

theorem GSChar_le (c : UInt8) : GSChar c ≤ 127 := c.toInt8.toInt_le

theorem GSChar_inj {c d : UInt8} (h : GSChar c = GSChar d) : c = d :=
  congrArg Int8.toUInt8 (Int8.toInt_inj.mp h)

/-- The member of a class that a node is. -/
def Node.member (n : Node) : Member :=
  match n.type with
  | .char c => .char c
  | .OP_CCLASS => .cclass n.left
  | .OP_RANGE => .range n.left n.right
  | _ => .none

/-- The members of a class from the link `l` on, with nodes from `lo` to `hi`. -/
inductive MembersAt (nodes : List Node) (hi : Nat) : Nat → Int → List Member → Prop where
  | nil {lo : Nat} {l : Int} : l = -1 → MembersAt nodes hi lo l []
  | cons {lo i : Nat} {l : Int} {n : Node} {ms : List Member} : l = i → lo ≤ i → i < hi →
      nodes[i]? = some n → MembersAt nodes hi (i + 1) n.next ms →
      MembersAt nodes hi lo l (n.member :: ms)

/-- The node is that of an atom, and the members of a class have nodes from `lo` to `hi`. -/
def Node.IsAtom (nodes : List Node) (lo hi : Nat) (n : Node) : Atom → Prop
  | .char c => n.type = .char c
  | .dot => n.type = .OP_DOT
  | .bol => n.type = .OP_BOL
  | .eol => n.type = .OP_EOL
  | .class negated members => n.type = (if negated then .OP_NCLASS else .OP_CLASS) ∧
      members ≠ [] ∧ MembersAt nodes hi lo n.left members
  | .cclass classid => n.type = .OP_CCLASS ∧ n.left = classid
  | .boundary letter => n.type = .OP_WB ∧ n.left = letter
  | .balanced cb ce => n.type = .OP_MB ∧ n.left = cb ∧ n.right = ce

/-- The node is that of a group. -/
def Node.IsGroup (n : Node) : Option Nat → Prop
  | some capture => n.type = .OP_EXPR ∧ n.right = capture
  | none => n.type = .OP_NOCAPEXPR

/-- A bound in the two bytes it has. -/
def bound : Option Nat → Nat
  | some m => m % 0x10000
  | none => 0xFFFF

/-- The node is that of a repetition. -/
def Node.IsGreedy (n : Node) (minimum : Nat) (maximum : Option Nat) : Prop :=
  n.type = .OP_GREEDY ∧ n.right = (minimum % 0x10000 : Nat) * 0x10000 + bound maximum

/-- The nodes from the link `l` on stand for a pattern, and are from `lo` to `hi`. -/
inductive Represents (nodes : List Node) : Nat → Nat → Int → Regex → Prop where
  | nil {lo hi : Nat} {l : Int} : l = -1 → lo ≤ hi → Represents nodes lo hi l .nil
  | atom {lo i mid hi : Nat} {l : Int} {n : Node} {a : Atom} {rest : Regex} : l = i → lo ≤ i →
      i < mid → nodes[i]? = some n → n.IsAtom nodes (i + 1) mid a →
      Represents nodes mid hi n.next rest → Represents nodes lo hi l (.atom a rest)
  | group {lo i mid hi : Nat} {l : Int} {n : Node} {capture : Option Nat} {body rest : Regex} :
      l = i → lo ≤ i → i < mid → nodes[i]? = some n → n.IsGroup capture → body ≠ .nil →
      Represents nodes (i + 1) mid n.left body → Represents nodes mid hi n.next rest →
      Represents nodes lo hi l (.group capture body rest)
  | greedy {lo i mid hi : Nat} {l : Int} {n : Node} {minimum : Nat} {maximum : Option Nat}
      {body rest : Regex} : l = i → i < mid → nodes[i]? = some n → n.IsGreedy minimum maximum →
      body.IsElement → Represents nodes lo i n.left body → Represents nodes mid hi n.next rest →
      Represents nodes lo hi l (.greedy minimum maximum body rest)
  | or {lo i hi : Nat} {l : Int} {n : Node} {left right : Regex} : l = i →
      nodes[i]? = some n → n.type = .OP_OR → n.next = -1 → left ≠ .nil → right ≠ .nil →
      Represents nodes lo i n.left left → Represents nodes (i + 1) hi n.right right →
      Represents nodes lo hi l (.or left right)

/-- The node `i` is that of the first element of a pattern, which has the nodes from `lo` to
`mid`. -/
inductive HeadAt (nodes : List Node) (lo mid i : Nat) (n : Node) : Regex → Prop where
  | atom {a : Atom} {rest : Regex} : lo ≤ i → i < mid → n.IsAtom nodes (i + 1) mid a →
      HeadAt nodes lo mid i n (.atom a rest)
  | group {capture : Option Nat} {body rest : Regex} : lo ≤ i → i < mid → n.IsGroup capture →
      body ≠ .nil → Represents nodes (i + 1) mid n.left body →
      HeadAt nodes lo mid i n (.group capture body rest)
  | greedy {minimum : Nat} {maximum : Option Nat} {body rest : Regex} : i < mid →
      n.IsGreedy minimum maximum → body.IsElement → Represents nodes lo i n.left body →
      HeadAt nodes lo mid i n (.greedy minimum maximum body rest)
  | or {left right : Regex} : n.type = .OP_OR → left ≠ .nil → right ≠ .nil →
      Represents nodes lo i n.left left → Represents nodes (i + 1) mid n.right right →
      HeadAt nodes lo mid i n (.or left right)

/-- The node is that of an atom without other nodes. -/
def Node.IsCharacter (n : Node) (a : Atom) : Prop := ∀ nodes lo hi, n.IsAtom nodes lo hi a

section

variable {nodes nodes' : List Node} {lo hi lo' hi' : Nat} {l : Int}

theorem Node.IsAtom.code {n : Node} {a : Atom} (h : n.IsAtom nodes lo hi a) :
    n.type.code = a.code := by
  cases a with
  | char | dot | bol | eol => rw [show n.type = _ from h]; rfl
  | «class» negated members =>
      rw [h.1]
      cases negated <;> rfl
  | cclass | boundary | balanced => rw [h.1]; rfl

theorem Node.IsAtom.member {n : Node} {a : Atom} (h : n.IsAtom nodes lo hi a) :
    n.member = a.member := by
  unfold Node.member
  cases a with
  | char | dot | bol | eol => rw [show n.type = _ from h]; rfl
  | «class» negated members =>
      rw [h.1]
      cases negated <;> rfl
  | cclass => rw [h.1, h.2]; rfl
  | boundary | balanced => rw [h.1]; rfl

theorem MembersAt.congr {ms : List Member} (h : MembersAt nodes hi lo l ms)
    (heq : ∀ j, lo ≤ j → j < hi → nodes'[j]? = nodes[j]?) : MembersAt nodes' hi lo l ms := by
  induction h with
  | nil hl => exact .nil hl
  | cons hl hlo hi hget _ ih =>
      refine .cons hl hlo hi ((heq _ hlo hi).trans hget) (ih fun j hj => heq j ?_)
      omega

theorem MembersAt.mono {ms : List Member} (h : MembersAt nodes hi lo l ms) (hlo : lo' ≤ lo)
    (hhi : hi ≤ hi') : MembersAt nodes hi' lo' l ms := by
  induction h generalizing lo' with
  | nil hl => exact .nil hl
  | cons hl hle hlt hget _ ih =>
      exact .cons hl (Nat.le_trans hlo hle) (Nat.lt_of_lt_of_le hlt hhi) hget (ih (Nat.le_refl _))

theorem Node.IsAtom.congr {n : Node} {a : Atom} (h : n.IsAtom nodes lo hi a)
    (heq : ∀ j, lo ≤ j → j < hi → nodes'[j]? = nodes[j]?) : n.IsAtom nodes' lo hi a := by
  cases a with
  | «class» negated members => exact ⟨h.1, h.2.1, h.2.2.congr heq⟩
  | _ => exact h

theorem Node.IsAtom.mono {n : Node} {a : Atom} (h : n.IsAtom nodes lo hi a) (hlo : lo' ≤ lo)
    (hhi : hi ≤ hi') : n.IsAtom nodes lo' hi' a := by
  cases a with
  | «class» negated members => exact ⟨h.1, h.2.1, h.2.2.mono hlo hhi⟩
  | _ => exact h

/-- The link to the next node is no part of an atom. -/
theorem Node.IsAtom.link {n : Node} {a : Atom} (h : n.IsAtom nodes lo hi a) (next : Int) :
    { n with next := next }.IsAtom nodes lo hi a := by
  cases a <;> exact h

theorem Node.IsGroup.link {n : Node} {capture : Option Nat} (h : n.IsGroup capture) (next : Int) :
    { n with next := next }.IsGroup capture := by
  cases capture <;> exact h

variable {r : Regex}

theorem Represents.le (h : Represents nodes lo hi l r) : lo ≤ hi := by
  induction h with
  | nil _ hle => exact hle
  | atom => omega
  | group => omega
  | greedy => omega
  | or => omega

/-- Only the nodes of its interval matter to a pattern. -/
theorem Represents.congr (h : Represents nodes lo hi l r)
    (heq : ∀ j, lo ≤ j → j < hi → nodes'[j]? = nodes[j]?) : Represents nodes' lo hi l r := by
  induction h with
  | nil hl hle => exact .nil hl hle
  | atom hl hlo hi hget hatom hrest ihrest =>
      have hle := hrest.le
      refine .atom hl hlo hi ((heq _ hlo (by omega)).trans hget) (hatom.congr fun j hj hj' => ?_)
        (ihrest fun j hj => heq j (by omega))
      exact heq j (by omega) (by omega)
  | group hl hlo hi hget hgroup hbody _ hrest ihbody ihrest =>
      have hle := hrest.le
      exact .group hl hlo hi ((heq _ hlo (by omega)).trans hget) hgroup hbody
        (ihbody fun j hj hj' => heq j (by omega) (by omega)) (ihrest fun j hj => heq j (by omega))
  | greedy hl hi hget hgreedy hbody hlist hrest ihbody ihrest =>
      have hle := hrest.le
      have hlo := hlist.le
      exact .greedy hl hi ((heq _ hlo (by omega)).trans hget) hgreedy hbody
        (ihbody fun j hj hj' => heq j hj (by omega)) (ihrest fun j hj => heq j (by omega))
  | or hl hget htype hnext hleft hright hlleft hlright ihleft ihright =>
      have hle := hlright.le
      have hlo := hlleft.le
      exact .or hl ((heq _ hlo (by omega)).trans hget) htype hnext hleft hright
        (ihleft fun j hj hj' => heq j hj (by omega)) (ihright fun j hj => heq j (by omega))

theorem Represents.mono (h : Represents nodes lo hi l r) (hlo : lo' ≤ lo) (hhi : hi ≤ hi') :
    Represents nodes lo' hi' l r := by
  induction h generalizing lo' hi' with
  | nil hl hle => exact .nil hl (by omega)
  | atom hl hle hi hget hatom _ ihrest =>
      exact .atom hl (by omega) hi hget hatom (ihrest (Nat.le_refl _) hhi)
  | group hl hle hi hget hgroup hbody hlist _ _ ihrest =>
      exact .group hl (by omega) hi hget hgroup hbody hlist (ihrest (Nat.le_refl _) hhi)
  | greedy hl hi hget hgreedy hbody _ _ ihbody ihrest =>
      exact .greedy hl hi hget hgreedy hbody (ihbody hlo (Nat.le_refl _))
        (ihrest (Nat.le_refl _) hhi)
  | or hl hget htype hnext hleft hright _ _ ihleft ihright =>
      exact .or hl hget htype hnext hleft hright (ihleft hlo (Nat.le_refl _))
        (ihright (Nat.le_refl _) hhi)

/-- The nodes behind the last stay out of what others stand for. -/
theorem Represents.grown {exp exp' : Compiling} (h : Represents exp.nodes lo exp.nodes.length l r)
    (hgrown : Grown exp exp') : Represents exp'.nodes lo exp.nodes.length l r :=
  h.congr fun j _ hj => hgrown.old j hj

/-- The first node of a pattern. -/
theorem Represents.head (h : Represents nodes lo hi l r) (hr : r ≠ .nil) :
    ∃ (i : Nat) (n : Node), l = i ∧ lo ≤ i ∧ i < hi ∧ nodes[i]? = some n := by
  cases h with
  | nil => exact absurd rfl hr
  | atom hl hle hi hget _ hrest => exact ⟨_, _, hl, hle, Nat.lt_of_lt_of_le hi hrest.le, hget⟩
  | group hl hle hi hget _ _ _ hrest =>
      exact ⟨_, _, hl, hle, Nat.lt_of_lt_of_le hi hrest.le, hget⟩
  | greedy hl hi hget _ _ hlist hrest =>
      exact ⟨_, _, hl, hlist.le, Nat.lt_of_lt_of_le hi hrest.le, hget⟩
  | or hl hget _ _ _ _ hleft hright => exact ⟨_, _, hl, hleft.le, hright.le, hget⟩

/-- A pattern has nodes for its first element, and behind them those for the others. -/
theorem Represents.headAt (h : Represents nodes lo hi l r) (hr : r ≠ .nil) :
    ∃ (i mid : Nat) (n : Node), l = i ∧ nodes[i]? = some n ∧ HeadAt nodes lo mid i n r ∧
      Represents nodes mid hi n.next r.tail := by
  cases h with
  | nil => exact absurd rfl hr
  | atom hl hlo hi hget hatom hrest => exact ⟨_, _, _, hl, hget, .atom hlo hi hatom, hrest⟩
  | group hl hlo hi hget hgroup hbody hlist hrest =>
      exact ⟨_, _, _, hl, hget, .group hlo hi hgroup hbody hlist, hrest⟩
  | greedy hl hi hget hgreedy hbody hlist hrest =>
      exact ⟨_, _, _, hl, hget, .greedy hi hgreedy hbody hlist, hrest⟩
  | or hl hget htype hnext hleft hright hlleft hlright =>
      exact ⟨_, _, _, hl, hget, .or htype hleft hright hlleft hlright,
        .nil hnext (Nat.le_refl _)⟩

theorem HeadAt.lt {i mid : Nat} {n : Node} (h : HeadAt nodes lo mid i n r) : lo < mid := by
  cases h with
  | atom hlo hi => exact Nat.lt_of_le_of_lt hlo hi
  | group hlo hi => exact Nat.lt_of_le_of_lt hlo hi
  | greedy hi _ _ hlist => exact Nat.lt_of_le_of_lt hlist.le hi
  | or _ _ _ hleft hright => exact Nat.lt_of_le_of_lt hleft.le hright.le

/-- An element that is linked to what is behind it. -/
theorem Represents.link {i mid : Nat} {e rest : Regex} {next : Int} (he : e.IsElement)
    (h : Represents nodes lo mid i e) (hrest : Represents nodes mid hi next rest) :
    Represents (nodes.modify i fun n => { n with next := next }) lo hi i (e.followedBy rest) := by
  have heq : ∀ j, i ≠ j →
      (nodes.modify i fun n => { n with next := next })[j]? = nodes[j]? :=
    fun j hj => List.getElem?_modify_ne _ nodes hj
  have hself : ∀ n, nodes[i]? = some n →
      (nodes.modify i fun n => { n with next := next })[i]? = some { n with next := next } := by
    intro n hn
    rw [List.getElem?_modify_eq, hn]
    rfl
  cases h with
  | nil hl => exact he.elim
  | @atom _ j mid' _ _ n a rest' hl hle hi hget hatom hrest' =>
      obtain rfl : rest' = .nil := he
      obtain rfl : i = j := Int.ofNat_inj.mp hl
      have hmid := hrest'.le
      refine .atom hl hle (Nat.lt_of_lt_of_le hi hmid) (hself n hget) ?_
        (hrest.congr fun j hj _ => heq j (by omega))
      refine Node.IsAtom.link ?_ next
      exact (hatom.congr fun j hj _ => heq j (by omega)).mono (Nat.le_refl _) hmid
  | @group _ j mid' _ _ n capture body rest' hl hle hi hget hgroup hbody hlist hrest' =>
      obtain rfl : rest' = .nil := he
      obtain rfl : i = j := Int.ofNat_inj.mp hl
      have hmid := hrest'.le
      refine .group hl hle (Nat.lt_of_lt_of_le hi hmid) (hself n hget) (hgroup.link next) hbody ?_
        (hrest.congr fun j hj _ => heq j (by omega))
      exact (hlist.congr fun j hj _ => heq j (by omega)).mono (Nat.le_refl _) hmid
  | @greedy _ j mid' _ _ n minimum maximum body rest' hl hi hget hgreedy hbody hlist hrest' =>
      obtain rfl : rest' = .nil := he
      obtain rfl : i = j := Int.ofNat_inj.mp hl
      have hmid := hrest'.le
      exact .greedy hl (Nat.lt_of_lt_of_le hi hmid) (hself n hget) hgreedy hbody
        (hlist.congr fun j _ hj => heq j (by omega)) (hrest.congr fun j hj _ => heq j (by omega))
  | or => exact he.elim

end

end GameScript.Rex
