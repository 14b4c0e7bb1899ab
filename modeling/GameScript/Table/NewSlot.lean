import GameScript.Table.Place
import Mathlib.Order.Interval.Finset.Nat

/-!
`NewSlot` and `Rehash`. They call each other, but not for long: a table that
`Rehash` fills has room for every key it is given, so a `NewSlot` inside
`Rehash` does not rehash again, and the `NewSlot` after a forced `Rehash` finds
its key already stored.
-/

namespace GameScript.Table

open GameScript.Chain GameScript.Scatter

variable {hash : Object → Nat} {t : Table}

/-! ### Correcting `firstfree` -/

/-- Node `i` has neither key nor link. -/
def FreeNode (nodes : Nat → HashNode) (i : Nat) : Prop :=
  (nodes i).key = .null ∧ (nodes i).next = none

theorem correctFirstfree_some {nodes : Nat → HashNode} {i j : Nat}
    (h : correctFirstfree nodes i = some j) :
    j ≤ i ∧ FreeNode nodes j ∧ ∀ k, j < k → k ≤ i → ¬ FreeNode nodes k := by
  induction i with
  | zero =>
      rw [correctFirstfree] at h
      split at h
      · next hfree =>
          obtain rfl : 0 = j := Option.some.inj h
          exact ⟨Nat.le_refl 0, hfree, fun k hk hk' => by omega⟩
      · cases h
  | succ i ih =>
      rw [correctFirstfree] at h
      split at h
      · next hfree =>
          obtain rfl : i + 1 = j := Option.some.inj h
          exact ⟨Nat.le_refl _, hfree, fun k hk hk' => by omega⟩
      · next hfree =>
          obtain ⟨hle, hj, habove⟩ := ih h
          refine ⟨Nat.le_succ_of_le hle, hj, fun k hk hk' => ?_⟩
          rcases Nat.lt_or_eq_of_le hk' with hlt | rfl
          · exact habove k hk (Nat.le_of_lt_succ hlt)
          · exact hfree

theorem correctFirstfree_isSome {nodes : Nat → HashNode} {i j : Nat} (hj : j ≤ i)
    (hfree : FreeNode nodes j) : (correctFirstfree nodes i).isSome := by
  induction i with
  | zero =>
      obtain rfl : j = 0 := Nat.le_zero.mp hj
      rw [correctFirstfree, if_pos ⟨hfree.1, hfree.2⟩]
      rfl
  | succ i ih =>
      rw [correctFirstfree]
      split
      · rfl
      · next hnot =>
          refine ih ?_
          rcases Nat.lt_or_eq_of_le hj with hlt | rfl
          · exact Nat.le_of_lt_succ hlt
          · exact absurd hfree hnot

/-! ### One insertion -/

/-- Storing `val` under `key` makes `t'` of `t`. -/
structure Stored (hash : Object → Nat) (t : Table) (key val : Object) (t' : Table) : Prop where
  wellFormed : WellFormed hash t'
  stores : ∀ k v, k ≠ .null → (t'.Stores k v ↔ if k = key then v = val else t.Stores k v)
  delegate : t'.delegate = t.delegate

theorem place_spec (h : WellFormed hash t) {key : Object} (hkey : key ≠ .null)
    (habsent : ∀ i, (t.nodes i).key ≠ key) :
    ∃ t' mp, t.place hash (t.mainPosition hash key) key = some (t', mp) ∧
      Placed hash t key t' mp := by
  by_cases hfree : (t.nodes (t.mainPosition hash key)).key = .null
  · exact ⟨_, _, if_pos hfree, placed_main h hkey habsent hfree⟩
  · by_cases hown : t.mainPosition hash (t.nodes (t.mainPosition hash key)).key =
        t.mainPosition hash key
    · obtain ⟨t', hplace, hplaced⟩ := placed_behind h hkey habsent hfree hown
      exact ⟨t', _, hplace, hplaced⟩
    · obtain ⟨t', hplace, hplaced⟩ := placed_moved h hkey habsent hfree hown
      exact ⟨t', _, hplace, hplaced⟩

theorem Stored.of_setVal (h : WellFormed hash t) {key : Object} (hkey : key ≠ .null)
    (val : Object) {i : Nat} (hi : (t.nodes i).key = key) : Stored hash t key val (t.setVal i val) where
  wellFormed := h.setVal i val
  stores _ _ _ := setVal_stores val hi fun _ hj =>
    (h.wired.nodup _ _ (keys_ne_null hj hkey) (hj.trans hi.symm))
  delegate := rfl

theorem newSlot_found (h : WellFormed hash t) {key val : Object} (hkey : key ≠ .null) {i : Nat}
    (hi : (t.nodes i).key = key) (fuel : Nat) :
    newSlot hash (fuel + 1) t key val = some (t.setVal i val, false) := by
  rcases h.wired._get_eq h.pos hkey with ⟨j, hget, hj⟩ | ⟨_, habsent⟩
  · obtain rfl : i = j := h.wired.nodup i j (keys_ne_null hi hkey) (hi.trans hj.symm)
    simp [newSlot, hget]
  · exact absurd hi (habsent i)

/-- The pair is complete once the value is written and `firstfree` corrected. -/
theorem Placed.stored {key : Object} {t' : Table} {mp firstfree : Nat}
    (h : WellFormed hash t) (hplaced : Placed hash t key t' mp) (hkey : key ≠ .null) (val : Object)
    (hff : correctFirstfree t'.nodes t'.firstfree = some firstfree) :
    Stored hash t key val
      { t'.setVal mp val with firstfree := firstfree, usednodes := t'.usednodes + 1 } := by
  obtain ⟨hle, hfree, _⟩ := correctFirstfree_some hff
  rw [hplaced.firstfree] at hle
  have honly : ∀ j, (t'.nodes j).key = key → j = mp := fun j hj =>
    hplaced.wired.nodup j mp (keys_ne_null hj hkey) (hj.trans hplaced.key_at.symm)
  refine ⟨⟨?_, ?_, ?_, ?_, ?_, ?_, ?_⟩, ?_, ?_⟩
  · exact IsWired.setVal hplaced.wired mp val
  · exact UsesAbove.setVal (hplaced.above firstfree hle hfree.1) mp val
  · have hlt := h.firstfree_lt
    show firstfree < t'.numofnodes
    rw [hplaced.numofnodes]
    omega
  · exact (setVal_nodes mp firstfree val).1.trans hfree.1
  · exact (setVal_nodes mp firstfree val).2.trans hfree.2
  · obtain ⟨i, hi, hocc⟩ := hplaced.occupied
    show t'.usednodes + 1 = (t'.setVal mp val).occupied.card
    rw [setVal_occupied, hocc, Finset.card_insert_of_notMem hi, hplaced.usednodes, h.used]
    rfl
  · obtain ⟨k, hk⟩ := h.size
    exact ⟨k, hplaced.numofnodes.trans hk⟩
  · intro k v hk
    refine (setVal_stores val hplaced.key_at honly).trans ?_
    split
    · rfl
    · next hne => exact hplaced.stores k v hk hne
  · exact hplaced.delegate

/-! ### Filling a new node array -/

/-- A table none of whose keys was removed since its nodes were allocated: the
free nodes are unlinked, and none is above `firstfree`. -/
structure Fresh (hash : Object → Nat) (t : Table) : Prop where
  wellFormed : WellFormed hash t
  unremoved : t.Unremoved
  filled : ∀ i, t.firstfree < i → i < t.numofnodes → (t.nodes i).key ≠ .null

variable (hash) in
theorem fresh_allocNodes (t : Table) {nSize : Nat} (hsize : ∃ k, nSize = 2 ^ (k + 2)) :
    Fresh hash { t.allocNodes nSize with usednodes := 0 } where
  wellFormed :=
    { wired := wired_empty
      above := above_empty
      firstfree_lt := by
        obtain ⟨k, rfl⟩ := hsize
        exact Nat.sub_lt (Nat.two_pow_pos _) Nat.one_pos
      firstfree_key := rfl
      firstfree_next := rfl
      used := by simp [occupied, allocNodes]
      size := hsize }
  unremoved _ _ := rfl
  filled i hi hlt := by
    simp only [allocNodes] at hi hlt
    omega

/-- While room is left, a new key goes into a fresh table without a rehash. -/
theorem newSlot_fresh (h : Fresh hash t) {key : Object} (hkey : key ≠ .null) (val : Object)
    (habsent : ∀ i, (t.nodes i).key ≠ key) (hroom : t.occupied.card + 1 < t.numofnodes)
    (fuel : Nat) :
    ∃ t', newSlot hash (fuel + 1) t key val = some (t', true) ∧ Fresh hash t' ∧
      Stored hash t key val t' ∧ t'.numofnodes = t.numofnodes ∧
      t'.occupied.card = t.occupied.card + 1 := by
  have hwf := h.wellFormed
  obtain ⟨t', mp, hplace, hplaced⟩ := place_spec hwf hkey habsent
  obtain ⟨x, hx, hocc⟩ := hplaced.occupied
  have hget : t._get key (t.mainPosition hash key) = some none := by
    rcases hwf.wired._get_eq hwf.pos hkey with ⟨j, _, hj⟩ | ⟨hget, _⟩
    · exact absurd hj (habsent j)
    · exact hget
  -- some node of `t'` is free, and it is not above `firstfree`
  obtain ⟨j, hjlt, hj⟩ : ∃ j, j < t'.numofnodes ∧ j ∉ t'.occupied := by
    have hcard : t'.occupied.card < (Finset.range t'.numofnodes).card := by
      rw [hocc, Finset.card_insert_of_notMem hx, Finset.card_range, hplaced.numofnodes]
      exact hroom
    obtain ⟨j, hj, hnot⟩ := Finset.exists_mem_notMem_of_card_lt_card hcard
    exact ⟨j, Finset.mem_range.mp hj, hnot⟩
  have hjkey : (t'.nodes j).key = .null := by
    by_contra hne
    exact hj (mem_occupied.mpr ⟨hjlt, hne⟩)
  have hkept : ∀ i, i < t.numofnodes → (t.nodes i).key ≠ .null → (t'.nodes i).key ≠ .null := by
    intro i hlt hi
    have hmem : i ∈ t'.occupied := by
      rw [hocc]
      exact Finset.mem_insert_of_mem (mem_occupied.mpr ⟨hlt, hi⟩)
    exact (mem_occupied.mp hmem).2
  have hjle : j ≤ t'.firstfree := by
    rw [hplaced.firstfree]
    by_contra hlt
    rw [hplaced.numofnodes] at hjlt
    exact hkept j hjlt (h.filled j (by omega) hjlt) hjkey
  have hun := hplaced.unremoved h.unremoved
  obtain ⟨firstfree, hff⟩ :=
    Option.isSome_iff_exists.mp (correctFirstfree_isSome hjle ⟨hjkey, hun j hjkey⟩)
  have hstored := hplaced.stored hwf hkey val hff
  obtain ⟨_, _, hskipped⟩ := correctFirstfree_some hff
  refine ⟨_, ?_, ⟨hstored.wellFormed, ?_, ?_⟩, hstored, hplaced.numofnodes, ?_⟩
  · simp [newSlot, hget, hplace, hff]
  · intro i hi
    exact (setVal_nodes mp i val).2.trans (hun i ((setVal_nodes mp i val).1.symm.trans hi))
  · intro i hi hlt
    refine fun hnull => ?_
    have hnull : (t'.nodes i).key = .null := (setVal_nodes mp i val).1.symm.trans hnull
    have hlt : i < t.numofnodes := hplaced.numofnodes ▸ hlt
    rcases Nat.lt_or_ge t'.firstfree i with hgt | hle
    · rw [hplaced.firstfree] at hgt
      exact hkept i hlt (h.filled i hgt hlt) hnull
    · exact hskipped i hi hle ⟨hnull, hun i hnull⟩
  · show (t'.setVal mp val).occupied.card = _
    rw [setVal_occupied, hocc, Finset.card_insert_of_notMem hx]

/-- The nodes with a key among the `count` from index `i` on. -/
def keyed (nodes : Nat → HashNode) (count i : Nat) : Finset Nat :=
  (Finset.Ico i (i + count)).filter fun j => (nodes j).key ≠ .null

theorem mem_keyed {nodes : Nat → HashNode} {count i j : Nat} :
    j ∈ keyed nodes count i ↔ (i ≤ j ∧ j < i + count) ∧ (nodes j).key ≠ .null := by
  simp [keyed]

theorem keyed_succ_free {nodes : Nat → HashNode} {count i : Nat} (hi : (nodes i).key = .null) :
    keyed nodes (count + 1) i = keyed nodes count (i + 1) := by
  ext j
  rw [mem_keyed, mem_keyed]
  constructor
  · rintro ⟨⟨hle, hlt⟩, hj⟩
    have hne : i ≠ j := by
      rintro rfl
      exact hj hi
    exact ⟨⟨by omega, by omega⟩, hj⟩
  · rintro ⟨⟨hle, hlt⟩, hj⟩
    exact ⟨⟨by omega, by omega⟩, hj⟩

theorem keyed_succ_keyed {nodes : Nat → HashNode} (count : Nat) {i : Nat} (hi : (nodes i).key ≠ .null) :
    i ∉ keyed nodes count (i + 1) ∧
      keyed nodes (count + 1) i = insert i (keyed nodes count (i + 1)) := by
  constructor
  · intro hmem
    have hle := (mem_keyed.mp hmem).1.1
    omega
  · ext j
    rw [Finset.mem_insert, mem_keyed, mem_keyed]
    constructor
    · rintro ⟨⟨hle, hlt⟩, hj⟩
      by_cases heq : j = i
      · exact .inl heq
      · exact .inr ⟨⟨by omega, by omega⟩, hj⟩
    · rintro (rfl | ⟨⟨hle, hlt⟩, hj⟩)
      · exact ⟨⟨Nat.le_refl _, by omega⟩, hi⟩
      · exact ⟨⟨by omega, by omega⟩, hj⟩

/-- Filling a fresh table from a node array with distinct keys, none of them
stored yet and all of them together not as many as the nodes. -/
theorem insertNodes_spec {nold : Nat → HashNode}
    (hnodup : ∀ i j, (nold i).key ≠ .null → (nold i).key = (nold j).key → i = j) (fuel : Nat) :
    ∀ (count i : Nat) (t : Table), Fresh hash t →
      (∀ j ∈ keyed nold count i, ∀ k, (t.nodes k).key ≠ (nold j).key) →
      t.occupied.card + (keyed nold count i).card < t.numofnodes →
      ∃ t', insertNodes (newSlot hash (fuel + 1)) nold count i t = some t' ∧ Fresh hash t' ∧
        t'.delegate = t.delegate ∧
        ∀ k v, k ≠ .null → (t'.Stores k v ↔ t.Stores k v ∨
          ∃ j ∈ keyed nold count i, (nold j).key = k ∧ (nold j).val = v)
  | 0, i, t, hfresh, _, _ => by
      refine ⟨t, rfl, hfresh, rfl, fun k v _ => ⟨.inl, ?_⟩⟩
      rintro (h | ⟨j, hj, _⟩)
      · exact h
      · have hrange := (mem_keyed.mp hj).1
        omega
  | count + 1, i, t, hfresh, habsent, hroom => by
      by_cases hi : (nold i).key = .null
      · rw [keyed_succ_free hi] at habsent hroom ⊢
        rw [insertNodes, if_neg (not_not.mpr hi)]
        exact insertNodes_spec hnodup fuel count (i + 1) t hfresh habsent hroom
      · obtain ⟨hnot, hkeyed⟩ := keyed_succ_keyed count hi
        rw [hkeyed] at habsent hroom ⊢
        rw [Finset.card_insert_of_notMem hnot] at hroom
        obtain ⟨t₁, hnew, hfresh₁, hstored, hsize, hcard⟩ :=
          newSlot_fresh hfresh hi (nold i).val
            (habsent i (Finset.mem_insert_self _ _)) (by omega) fuel
        have habsent₁ : ∀ j ∈ keyed nold count (i + 1), ∀ k, (t₁.nodes k).key ≠ (nold j).key := by
          intro j hj k hk
          have hjnull := (mem_keyed.mp hj).2
          have hstores := (hstored.stores (nold j).key (t₁.nodes k).val hjnull).mp ⟨k, hk, rfl⟩
          split at hstores
          · next heq => exact hnot (hnodup j i hjnull heq ▸ hj)
          · obtain ⟨l, hl, _⟩ := hstores
            exact habsent j (Finset.mem_insert_of_mem hj) l hl
        obtain ⟨t', hins, hfresh', hdelegate, hall⟩ :=
          insertNodes_spec hnodup fuel count (i + 1) t₁ hfresh₁ habsent₁ (by omega)
        refine ⟨t', ?_, hfresh', hdelegate.trans hstored.delegate, fun k v hk => ?_⟩
        · rw [insertNodes, if_pos hi, hnew]
          exact hins
        · rw [hall k v hk, hstored.stores k v hk]
          constructor
          · rintro (h | ⟨j, hj, hjk⟩)
            · split at h
              · next heq =>
                  exact .inr ⟨i, Finset.mem_insert_self _ _, heq.symm, h.symm⟩
              · exact .inl h
            · exact .inr ⟨j, Finset.mem_insert_of_mem hj, hjk⟩
          · rintro (h | ⟨j, hj, hjk, hjv⟩)
            · refine .inl ?_
              split
              · next heq =>
                  obtain ⟨l, hl, _⟩ := h
                  exact absurd (hl.trans heq) (habsent i (Finset.mem_insert_self _ _) l)
              · exact h
            · rcases Finset.mem_insert.mp hj with rfl | hj
              · rw [if_pos hjk.symm]
                exact .inl hjv.symm
              · exact .inr ⟨j, hj, hjk, hjv⟩

end GameScript.Table
