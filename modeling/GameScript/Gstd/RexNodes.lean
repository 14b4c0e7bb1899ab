import GameScript.Gstd.Rex

/-!
The nodes of an expression while `gstdrex.cpp` compiles it: nodes are added behind the
others, and only the links of new ones change.
-/

namespace GameScript.Rex

open Effect

/-- `n` is one of `size` nodes. -/
def IsNode (size : Nat) (n : Int) : Prop := 0 ≤ n ∧ n < size

/-- The links of a node, and the number of a group, are valid. -/
def Node.Valid (size nsubexpr : Nat) (n : Node) : Prop :=
  (n.next = -1 ∨ IsNode size n.next) ∧
    match n.type with
    | .OP_EXPR => IsNode size n.left ∧ IsNode nsubexpr n.right
    | .OP_NOCAPEXPR | .OP_GREEDY | .OP_CLASS | .OP_NCLASS => IsNode size n.left
    | .OP_OR => IsNode size n.left ∧ IsNode size n.right
    | _ => True

/-- There is room for the nodes there are, and room is doubled when it is used up. -/
structure Compiling.Fits (exp : Compiling) : Prop where
  nallocated_pos : 0 < exp.nallocated
  nodes_le : exp.nodes.length ≤ exp.nallocated

/-- The nodes that are new are valid, and the others are as they were. -/
structure Grown (exp exp' : Compiling) : Prop where
  length_le : exp.nodes.length ≤ exp'.nodes.length
  old : ∀ j < exp.nodes.length, exp'.nodes[j]? = exp.nodes[j]?
  valid : ∀ j n, exp.nodes.length ≤ j → exp'.nodes[j]? = some n →
    n.Valid exp'.nodes.length exp'.nsubexpr
  nsubexpr_le : exp.nsubexpr ≤ exp'.nsubexpr
  fits : exp'.Fits

/-- The new node `i` among others. -/
structure Made (exp : Compiling) (i : Nat) (exp' : Compiling) : Prop extends Grown exp exp' where
  le : exp.nodes.length ≤ i
  lt : i < exp'.nodes.length

theorem IsNode.mono {size size' : Nat} {n : Int} (h : IsNode size n) (hle : size ≤ size') :
    IsNode size' n := ⟨h.1, by have := h.2; omega⟩

theorem isNode_of_lt {size i : Nat} (h : i < size) : IsNode size i :=
  ⟨Int.natCast_nonneg i, Int.ofNat_lt.mpr h⟩

theorem Node.Valid.mono {size size' nsubexpr nsubexpr' : Nat} {n : Node}
    (h : n.Valid size nsubexpr) (hsize : size ≤ size') (hsub : nsubexpr ≤ nsubexpr') :
    n.Valid size' nsubexpr' := by
  refine ⟨h.1.imp_right fun hn => hn.mono hsize, ?_⟩
  have hlinks := h.2
  split at hlinks
  · exact ⟨hlinks.1.mono hsize, hlinks.2.mono hsub⟩
  · exact hlinks.mono hsize
  · exact hlinks.mono hsize
  · exact hlinks.mono hsize
  · exact hlinks.mono hsize
  · exact ⟨hlinks.1.mono hsize, hlinks.2.mono hsize⟩
  · trivial

theorem Node.Valid.link {size nsubexpr : Nat} {n : Node} (h : n.Valid size nsubexpr) {i : Nat}
    (hi : i < size) : { n with next := (i : Int) }.Valid size nsubexpr :=
  ⟨.inr (isNode_of_lt hi), h.2⟩

/-- A node that links to no other but the next. -/
def NodeType.IsLeaf : NodeType → Prop
  | .OP_DOT | .OP_CCLASS | .OP_RANGE | .OP_EOL | .OP_BOL | .OP_WB | .OP_MB | .char _ => True
  | _ => False

theorem NodeType.IsLeaf.ne_expr {type : NodeType} (h : type.IsLeaf) : type ≠ .OP_EXPR := by
  rintro rfl
  exact h

theorem valid_leaf {size nsubexpr : Nat} {n : Node} (h : n.type.IsLeaf) (hnext : n.next = -1) :
    n.Valid size nsubexpr := by
  refine ⟨.inl hnext, ?_⟩
  split
  all_goals first
    | trivial
    | rename_i htype
      rw [htype] at h
      exact h.elim

theorem Grown.trans {exp exp₁ exp₂ : Compiling} (h : Grown exp exp₁) (h' : Grown exp₁ exp₂) :
    Grown exp exp₂ := by
  refine ⟨Nat.le_trans h.length_le h'.length_le, fun j hj => ?_, fun j n hj hn => ?_,
    Nat.le_trans h.nsubexpr_le h'.nsubexpr_le, h'.fits⟩
  · exact (h'.old j (Nat.lt_of_lt_of_le hj h.length_le)).trans (h.old j hj)
  · by_cases hlt : j < exp₁.nodes.length
    · rw [h'.old j hlt] at hn
      exact (h.valid j n hj hn).mono h'.length_le h'.nsubexpr_le
    · exact h'.valid j n (Nat.le_of_not_lt hlt) hn

/-- A change of the text is none of the nodes. -/
theorem Grown.text {exp exp' : Compiling} (h : Grown exp exp') (p p' : Option (List UInt8)) :
    Grown { exp with p := p } { exp' with p := p' } :=
  ⟨h.length_le, h.old, h.valid, h.nsubexpr_le, ⟨h.fits.1, h.fits.2⟩⟩

theorem Made.text {exp exp' : Compiling} {p : Option (List UInt8)} {i : Nat}
    (h : Made { exp with p := p } i exp') : Made exp i exp' :=
  ⟨h.toGrown.text exp.p exp'.p, h.le, h.lt⟩

/-- `exp'` has the node `n` behind those of `exp`. -/
structure Pushed (exp : Compiling) (n : Node) (exp' : Compiling) : Prop where
  nodes : exp'.nodes = exp.nodes ++ [n]
  nsubexpr_le : exp.nsubexpr ≤ exp'.nsubexpr
  fits : exp'.Fits

section

variable {exp exp' : Compiling} {n : Node}

theorem Pushed.length (h : Pushed exp n exp') : exp'.nodes.length = exp.nodes.length + 1 := by
  rw [h.nodes, List.length_append]
  rfl

theorem Pushed.getElem? (h : Pushed exp n exp') : exp'.nodes[exp.nodes.length]? = some n := by
  rw [h.nodes]
  simp

theorem Pushed.grown (h : Pushed exp n exp') (hn : n.Valid exp'.nodes.length exp'.nsubexpr) :
    Made exp exp.nodes.length exp' := by
  have hlen := h.length
  refine ⟨⟨by omega, fun j hj => ?_, fun j m hj hm => ?_, h.nsubexpr_le, h.fits⟩, Nat.le_refl _,
    by omega⟩
  · rw [h.nodes, List.getElem?_append_left hj]
  · have hlt := (List.getElem?_eq_some_iff.mp hm).1
    obtain rfl : j = exp.nodes.length := by omega
    rw [h.getElem?] at hm
    cases hm
    exact hn

end

/-- The state that `assign` leaves. -/
def Compiling.assigned (exp : Compiling) (i : Nat) (f : Node → Node) : Compiling :=
  { exp with nodes := exp.nodes.modify i f }

theorem assign_apply {exp : Compiling} {i : Nat} (f : Node → Node) (hi : i < exp.nodes.length) :
    assign i f exp = .ok () (exp.assigned i f) := by
  unfold assign
  rw [get_bind_apply, if_pos hi]
  rfl

section

variable {exp exp₁ exp₂ : Compiling} {n : Node} {f : Node → Node} {i : Nat}

theorem length_assigned : (exp.assigned i f).nodes.length = exp.nodes.length :=
  List.length_modify ..

theorem getElem?_assigned (hi : exp.nodes[i]? = some n) :
    (exp.assigned i f).nodes[i]? = some (f n) := by
  unfold Compiling.assigned
  rw [List.getElem?_modify_eq, hi]
  rfl

theorem getElem?_assigned_ne {j : Nat} (hij : i ≠ j) :
    (exp.assigned i f).nodes[j]? = exp.nodes[j]? :=
  List.getElem?_modify_ne f exp.nodes hij

theorem Compiling.Fits.assigned (h : exp.Fits) : (exp.assigned i f).Fits :=
  ⟨h.1, by rw [length_assigned]; exact h.2⟩

/-- A new node may change, as long as it is valid. -/
theorem Grown.assigned (h : Grown exp exp₁) (hi : exp.nodes.length ≤ i)
    (hn : ∀ n, exp₁.nodes[i]? = some n → (f n).Valid exp₁.nodes.length exp₁.nsubexpr) :
    Grown exp (exp₁.assigned i f) := by
  refine ⟨?_, fun j hj => ?_, fun j n hj hm => ?_, h.nsubexpr_le, h.fits.assigned⟩
  · rw [length_assigned]
    exact h.length_le
  · rw [← h.old j hj]
    exact getElem?_assigned_ne (by omega)
  · rw [length_assigned]
    by_cases hij : i = j
    · subst hij
      have hlt := (List.getElem?_eq_some_iff.mp hm).1
      rw [length_assigned] at hlt
      have hget := List.getElem?_eq_getElem hlt
      rw [getElem?_assigned hget] at hm
      cases hm
      exact hn _ hget
    · rw [getElem?_assigned_ne hij] at hm
      exact h.valid j n hj hm

theorem Pushed.assigned (h : Pushed exp n exp₁) :
    Pushed exp (f n) (exp₁.assigned exp.nodes.length f) := by
  refine ⟨?_, h.nsubexpr_le, h.fits.assigned⟩
  have hlt : exp.nodes.length < (exp.nodes ++ [n]).length := by simp
  show exp₁.nodes.modify exp.nodes.length f = exp.nodes ++ [f n]
  rw [h.nodes, List.modify_eq_take_cons_drop hlt]
  simp

/-- The node in front of others is valid once its links are there. -/
theorem Pushed.complete (h : Pushed exp n exp₁) (h' : Grown exp₁ exp₂)
    (hn : (f n).Valid exp₂.nodes.length exp₂.nsubexpr) :
    Made exp exp.nodes.length (exp₂.assigned exp.nodes.length f) := by
  have hlen := h.length
  have hle := h'.length_le
  have hget : exp₂.nodes[exp.nodes.length]? = some n :=
    (h'.old _ (by omega)).trans h.getElem?
  refine ⟨⟨?_, fun j hj => ?_, fun j m hj hm => ?_, Nat.le_trans h.nsubexpr_le h'.nsubexpr_le,
    h'.fits.assigned⟩, Nat.le_refl _, ?_⟩
  · rw [length_assigned]
    omega
  · rw [getElem?_assigned_ne (by omega), h'.old j (by omega), h.nodes,
      List.getElem?_append_left hj]
  · rw [length_assigned]
    by_cases hij : exp.nodes.length = j
    · subst hij
      rw [getElem?_assigned hget] at hm
      cases hm
      exact hn
    · rw [getElem?_assigned_ne hij] at hm
      exact h'.valid j m (by omega) hm
  · rw [length_assigned]
    omega

end

/-- The node that `gstd_rex_newnode` makes. -/
def newNode (type : NodeType) (nsubexpr : Nat) : Node where
  type := type
  left := -1
  right := if type = .OP_EXPR then nsubexpr else -1
  next := -1

theorem newnode_apply (exp : Compiling) (h : exp.Fits) (type : NodeType) : ∃ exp',
    gstd_rex_newnode type exp = .ok exp.nodes.length exp' ∧ exp'.p = exp.p ∧
      Pushed exp (newNode type exp.nsubexpr) exp' ∧
      exp'.nsubexpr = if type = .OP_EXPR then exp.nsubexpr + 1 else exp.nsubexpr := by
  have hpos := h.nallocated_pos
  have hle := h.nodes_le
  have hroom : exp.nodes.length <
      if exp.nallocated < exp.nodes.length + 1 then exp.nallocated * 2 else exp.nallocated := by
    split <;> omega
  let exp' : Compiling := { exp with
    nodes := exp.nodes ++ [newNode type exp.nsubexpr]
    nallocated :=
      if exp.nallocated < exp.nodes.length + 1 then exp.nallocated * 2 else exp.nallocated
    nsubexpr := if type = .OP_EXPR then exp.nsubexpr + 1 else exp.nsubexpr }
  refine ⟨exp', ?_, rfl, ⟨rfl, ?_, ?_, ?_⟩, rfl⟩
  · unfold gstd_rex_newnode
    rw [get_bind_apply]
    simp only [if_pos hroom]
    rfl
  · show exp.nsubexpr ≤ if type = .OP_EXPR then exp.nsubexpr + 1 else exp.nsubexpr
    split <;> omega
  · exact Nat.lt_of_le_of_lt (Nat.zero_le _) hroom
  · show (exp.nodes ++ [newNode type exp.nsubexpr]).length ≤ _
    rw [List.length_append]
    exact hroom

end GameScript.Rex
