import GameScript.Table.Basic
import GameScript.Lib.Scatter

/-!
The invariant of `GSTable` and what its operations do to the stored pairs while
the node array stays: lookup, overwriting, erasing and placing a new key.
-/

namespace GameScript.Table

open GameScript.Chain GameScript.Scatter

variable {hash : Object → Nat} {t : Table}

/-- The keys of the node array. -/
def keys (t : Table) : Nat → Object := fun i => (t.nodes i).key

/-- `t` stores `val` under `key`. -/
def Stores (t : Table) (key val : Object) : Prop :=
  ∃ i, (t.nodes i).key = key ∧ (t.nodes i).val = val

/-- The nodes that hold a key. -/
def occupied (t : Table) : Finset Nat :=
  (Finset.range t.numofnodes).filter fun i => (t.nodes i).key ≠ .null

/-- The keys and links of `t` fit together. -/
abbrev IsWired (hash : Object → Nat) (t : Table) : Prop :=
  Wired .null (t.mainPosition hash) t.numofnodes t.keys t.links

/-- Nothing but main positions is used at `bound` and below. -/
abbrev UsesAbove (hash : Object → Nat) (t : Table) (bound : Nat) : Prop :=
  Above .null (t.mainPosition hash) bound t.keys t.links

/-- What holds of a table between two operations. -/
structure WellFormed (hash : Object → Nat) (t : Table) : Prop where
  wired : IsWired hash t
  above : UsesAbove hash t t.firstfree
  firstfree_lt : t.firstfree < t.numofnodes
  firstfree_key : (t.nodes t.firstfree).key = .null
  firstfree_next : (t.nodes t.firstfree).next = none
  used : t.usednodes = t.occupied.card
  size : ∃ k, t.numofnodes = 2 ^ (k + 2)

theorem mem_occupied {i : Nat} :
    i ∈ t.occupied ↔ i < t.numofnodes ∧ (t.nodes i).key ≠ .null := by
  simp [occupied]

variable (hash) in
theorem mainPosition_lt (hsize : 0 < t.numofnodes) (key : Object) :
    t.mainPosition hash key < t.numofnodes := by
  have hle : hash key &&& (t.numofnodes - 1) ≤ t.numofnodes - 1 := Nat.and_le_right
  unfold mainPosition
  omega

theorem WellFormed.pos (h : WellFormed hash t) : 0 < t.numofnodes :=
  Nat.lt_of_le_of_lt (Nat.zero_le _) h.firstfree_lt

theorem keys_ne_null {i : Nat} {key : Object} (hi : (t.nodes i).key = key) (hkey : key ≠ .null) :
    t.keys i ≠ .null := by
  rw [keys, hi]
  exact hkey

/-! ### Lookup -/

/-- `_Get` from the main position of a key ends at its node, if there is one. -/
theorem IsWired._get_eq (h : IsWired hash t) (hsize : 0 < t.numofnodes)
    {key : Object} (hkey : key ≠ .null) :
    (∃ i, t._get key (t.mainPosition hash key) = some (some i) ∧ (t.nodes i).key = key) ∨
      (t._get key (t.mainPosition hash key) = some none ∧ ∀ i, (t.nodes i).key ≠ key) := by
  have hsome : (t._get key (t.mainPosition hash key)).isSome :=
    h.search_isSome _ (mainPosition_lt hash hsize key)
  obtain ⟨result, hresult⟩ := Option.isSome_iff_exists.mp hsome
  cases result with
  | some i =>
      have hfound := (search_found hresult).1
      exact .inl ⟨i, hresult, by simpa using hfound⟩
  | none =>
      refine .inr ⟨hresult, fun i hi => ?_⟩
      have hreach : Reach t.links (t.mainPosition hash key) i := by
        rw [← hi]
        exact h.reach i (keys_ne_null hi hkey)
      exact search_missing hresult hreach (by simpa using hi)

/-! ### Overwriting and erasing -/

@[simp] theorem setNode_nodes_self (i : Nat) (n : HashNode) : (t.setNode i n).nodes i = n :=
  Function.update_self ..

theorem setNode_nodes_of_ne {i j : Nat} (h : j ≠ i) (n : HashNode) :
    (t.setNode i n).nodes j = t.nodes j :=
  Function.update_of_ne h ..

theorem setVal_nodes (i j : Nat) (val : Object) :
    ((t.setVal i val).nodes j).key = (t.nodes j).key ∧
      ((t.setVal i val).nodes j).next = (t.nodes j).next := by
  by_cases h : j = i
  · subst h
    simp [setVal]
  · simp [setVal, setNode_nodes_of_ne h]

theorem setVal_keys (i : Nat) (val : Object) : (t.setVal i val).keys = t.keys :=
  funext fun j => (setVal_nodes i j val).1

theorem setVal_links (i : Nat) (val : Object) : (t.setVal i val).links = t.links :=
  funext fun j => (setVal_nodes i j val).2

theorem setVal_occupied (i : Nat) (val : Object) : (t.setVal i val).occupied = t.occupied := by
  ext j
  simp only [mem_occupied, (setVal_nodes i j val).1]
  rfl

theorem IsWired.setVal (h : IsWired hash t) (i : Nat) (val : Object) :
    IsWired hash (t.setVal i val) := by
  unfold IsWired
  rw [setVal_keys, setVal_links]
  exact h

theorem UsesAbove.setVal {bound : Nat} (h : UsesAbove hash t bound) (i : Nat) (val : Object) :
    UsesAbove hash (t.setVal i val) bound := by
  unfold UsesAbove
  rw [setVal_keys, setVal_links]
  exact h

/-- Writing the value of a key's node changes what is stored under that key only. -/
theorem setVal_stores {i : Nat} {key : Object} (val : Object) (hi : (t.nodes i).key = key)
    (honly : ∀ j, (t.nodes j).key = key → j = i) {k v : Object} :
    (t.setVal i val).Stores k v ↔ if k = key then v = val else t.Stores k v := by
  constructor
  · rintro ⟨j, hj, hv⟩
    rw [(setVal_nodes i j val).1] at hj
    split
    · next hk =>
        obtain rfl : j = i := honly j (hj.trans hk)
        simpa [Table.setVal] using hv.symm
    · next hk =>
        have hne : j ≠ i := by
          rintro rfl
          exact hk (hj.symm.trans hi)
        rw [Table.setVal, setNode_nodes_of_ne hne] at hv
        exact ⟨j, hj, hv⟩
  · split
    · next hk =>
        rintro rfl
        exact ⟨i, by rw [(setVal_nodes i i v).1, hi, hk], by simp [Table.setVal]⟩
    · next hk =>
        rintro ⟨j, hj, hv⟩
        have hne : j ≠ i := by
          rintro rfl
          exact hk (hj.symm.trans hi)
        refine ⟨j, (setVal_nodes i j val).1.trans hj, ?_⟩
        rw [Table.setVal, setNode_nodes_of_ne hne]
        exact hv

theorem WellFormed.setVal (h : WellFormed hash t) (i : Nat) (val : Object) :
    WellFormed hash (t.setVal i val) where
  wired := IsWired.setVal h.wired i val
  above := UsesAbove.setVal h.above i val
  firstfree_lt := h.firstfree_lt
  firstfree_key := (setVal_nodes i _ val).1.trans h.firstfree_key
  firstfree_next := (setVal_nodes i _ val).2.trans h.firstfree_next
  used := by
    rw [setVal_occupied]
    exact h.used
  size := h.size

end GameScript.Table
