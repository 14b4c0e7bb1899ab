import GameScript.Table.Iteration

/-!
What `NewSlot` returns: "true if a new slot has been created false if it was already present"
(`GStable.h`).
-/

namespace GameScript.Table

open GameScript.Chain GameScript.Scatter

variable {hash : Object → Nat} {t : Table}

/-! ### The free nodes of an insertion -/

/-- The node that an insertion of `key` fills: its main position where that is free, else the one
at `_firstfree`. -/
def filledNode (hash : Object → Nat) (t : Table) (key : Object) : Nat :=
  if (t.nodes (t.mainPosition hash key)).key = .null then t.mainPosition hash key else t.firstfree

/-- An insertion of `key` leaves a free node at `_firstfree` or below. -/
def Spare (hash : Object → Nat) (t : Table) (key : Object) : Prop :=
  ∃ i ≤ t.firstfree, i ≠ t.filledNode hash key ∧ FreeNode t.nodes i

theorem correctFirstfree_isSome_iff {nodes : Nat → HashNode} {i : Nat} :
    (correctFirstfree nodes i).isSome ↔ ∃ j ≤ i, FreeNode nodes j := by
  constructor
  · intro hsome
    obtain ⟨j, hj⟩ := Option.isSome_iff_exists.mp hsome
    obtain ⟨hle, hfree, -⟩ := correctFirstfree_some hj
    exact ⟨j, hle, hfree⟩
  · rintro ⟨j, hle, hfree⟩
    exact correctFirstfree_isSome hle hfree

theorem not_freeNode_of_key {nodes : Nat → HashNode} {i : Nat} (h : (nodes i).key ≠ .null) :
    ¬ FreeNode nodes i := fun hfree => h hfree.1

theorem not_freeNode_of_next {nodes : Nat → HashNode} {i j : Nat} (h : (nodes i).next = some j) :
    ¬ FreeNode nodes i := fun hfree => by
  rw [hfree.2] at h
  cases h

/-- Placing a key fills one node. -/
theorem place_freeNode (h : WellFormed hash t) {key : Object} (hkey : key ≠ .null) {t₁ : Table}
    {mp : Nat} (hplace : t.place hash (t.mainPosition hash key) key = some (t₁, mp)) (j : Nat) :
    FreeNode t₁.nodes j ↔ j ≠ t.filledNode hash key ∧ FreeNode t.nodes j := by
  unfold filledNode
  generalize t.mainPosition hash key = main at hplace ⊢
  unfold place at hplace
  dsimp only at hplace
  split at hplace
  · next hfree =>
      rw [if_pos hfree]
      obtain ⟨rfl, rfl⟩ := Prod.mk.inj (Option.some.inj hplace)
      by_cases hj : j = main
      · refine iff_of_false (not_freeNode_of_key ?_) fun h => h.1 hj
        rw [hj, setNode_nodes_self]
        exact hkey
      · unfold FreeNode
        rw [setNode_nodes_of_ne hj]
        exact (and_iff_right hj).symm
  · next hfull =>
      rw [if_neg hfull]
      have hne : t.firstfree ≠ main := by
        rintro rfl
        exact hfull h.firstfree_key
      split at hplace
      · next hmove =>
          -- `main` held the moved key and now holds `key`; the node before it still has a link
          obtain ⟨found, hsearch, hplace⟩ := Option.bind_eq_some_iff.mp hplace
          obtain ⟨prev, rfl, hplace⟩ := Option.bind_eq_some_iff.mp hplace
          have hprev : t.links prev = some main := of_decide_eq_true (search_found hsearch).1
          obtain ⟨rfl, rfl⟩ := Prod.mk.inj (Option.some.inj hplace)
          by_cases hmain : j = main
          · refine iff_of_false (not_freeNode_of_key ?_) fun h => not_freeNode_of_key hfull (hmain ▸ h.2)
            rw [hmain, setNode_nodes_self]
            exact hkey
          · by_cases hfree : j = t.firstfree
            · refine iff_of_false (not_freeNode_of_key ?_) fun h => h.1 hfree
              rw [setNode_nodes_of_ne hmain, setNode_nodes_of_ne hmain, hfree, setNode_nodes_self]
              show ((t.setNode prev _).nodes main).key ≠ .null
              by_cases hprev : main = prev
              · rw [hprev, setNode_nodes_self]
                exact hprev ▸ hfull
              · rwa [setNode_nodes_of_ne hprev]
            · by_cases hjp : j = prev
              · refine iff_of_false (not_freeNode_of_next (j := t.firstfree) ?_) fun h =>
                  not_freeNode_of_next hprev (hjp ▸ h.2)
                rw [setNode_nodes_of_ne hmain, setNode_nodes_of_ne hmain, setNode_nodes_of_ne hfree,
                  hjp, setNode_nodes_self]
              · unfold FreeNode
                rw [setNode_nodes_of_ne hmain, setNode_nodes_of_ne hmain, setNode_nodes_of_ne hfree,
                  setNode_nodes_of_ne hjp]
                exact (and_iff_right hfree).symm
      · obtain ⟨rfl, rfl⟩ := Prod.mk.inj (Option.some.inj hplace)
        by_cases hfree : j = t.firstfree
        · refine iff_of_false (not_freeNode_of_key ?_) fun h => h.1 hfree
          rw [hfree, setNode_nodes_self]
          exact hkey
        · by_cases hmain : j = main
          · refine iff_of_false (not_freeNode_of_next (j := t.firstfree) ?_) fun h =>
              not_freeNode_of_key hfull (hmain ▸ h.2)
            rw [setNode_nodes_of_ne hfree, hmain, setNode_nodes_self]
          · unfold FreeNode
            rw [setNode_nodes_of_ne hfree, setNode_nodes_of_ne hmain, setNode_nodes_of_ne hfree]
            exact (and_iff_right hfree).symm

/-- `NewSlot` ends, and returns that a slot was created where the key was absent and the insertion
leaves a free node. -/
theorem newSlot_returns (h : WellFormed hash t) {key : Object} (hkey : key ≠ .null) (val : Object)
    (fuel : Nat) :
    ∃ t' created, newSlot hash (fuel + 2) t key val = some (t', created) ∧
      (created = true ↔ (¬ ∃ v, t.Stores key v) ∧ t.Spare hash key) := by
  rcases h.wired._get_eq h.pos hkey with ⟨i, _, hi⟩ | ⟨hget, habsent⟩
  · refine ⟨_, _, newSlot_found h hkey hi (fuel + 1), iff_of_false Bool.false_ne_true fun hnew => ?_⟩
    exact hnew.1 ⟨_, i, hi, rfl⟩
  · have hnone : ¬ ∃ v, t.Stores key v := fun ⟨_, i, hi, _⟩ => habsent i hi
    obtain ⟨t₁, mp, hplace, hplaced⟩ := place_spec h hkey habsent
    have hspare : (correctFirstfree t₁.nodes t₁.firstfree).isSome ↔ t.Spare hash key := by
      rw [correctFirstfree_isSome_iff, hplaced.firstfree]
      exact exists_congr fun j => and_congr_right fun _ => place_freeNode h hkey hplace j
    cases hff : correctFirstfree t₁.nodes t₁.firstfree with
    | some firstfree =>
        rw [hff] at hspare
        exact ⟨_, true, newSlot_placed hget hplace hff val (fuel + 1),
          iff_of_true rfl ⟨hnone, hspare.mp rfl⟩⟩
    | none =>
        rw [hff] at hspare
        obtain ⟨t', hnew, -⟩ := newSlot_rehashed h hkey hget hplace hplaced hff val fuel
        exact ⟨t', false, hnew, iff_of_false Bool.false_ne_true fun h => Bool.false_ne_true
          (hspare.mpr h.2)⟩

/-- `NewSlot` returns true exactly when the key was not stored. -/
def ReportsCreation (hash : Object → Nat) (fuel : Nat) (t : Table) (key val : Object) : Prop :=
  ∃ t' created, newSlot hash fuel t key val = some (t', created) ∧
    (created = true ↔ ¬ ∃ v, t.Stores key v)

/-- The result of `NewSlot` is right exactly where the key is stored or the insertion leaves a free
node: after a rehash, the second call finds the key that the first one has placed. -/
theorem newSlot_reports_iff (hash : Object → Nat) {fuel : Nat} {ops : List Op}
    (hops : ∀ op ∈ ops, op.KeyNonNull) {ts : List Table} {answers : List Answer}
    (hrun : run hash (fuel + 2) [] ops = some (ts, answers)) {t : Table} (ht : t ∈ ts)
    {key : Object} (hkey : key ≠ .null) (val : Object) (depth : Nat) :
    ReportsCreation hash (depth + 2) t key val ↔ (∃ v, t.Stores key v) ∨ t.Spare hash key := by
  obtain ⟨t', created, hnew, hcreated⟩ :=
    newSlot_returns (run_wellFormed hops hrun ht) hkey val depth
  have hreports : ReportsCreation hash (depth + 2) t key val ↔
      (created = true ↔ ¬ ∃ v, t.Stores key v) := by
    refine ⟨fun ⟨_, _, h, hiff⟩ => ?_, fun hiff => ⟨t', created, hnew, hiff⟩⟩
    rw [hnew] at h
    cases h
    exact hiff
  rw [hreports, hcreated]
  tauto

theorem newSlot_reports_one :
    ReportsCreation (fun _ => 0) 2 (create 0) (.integer 1) (.integer 2) := by
  have hops : ∀ op ∈ [Op.create 0], op.KeyNonNull := by simp [Op.KeyNonNull]
  have hrun : run (fun _ => 0) (0 + 2) [] [.create 0] = some ([create 0], [.done]) := rfl
  have hkey : Object.integer 1 ≠ .null := by decide
  exact (newSlot_reports_iff (fun _ => 0) hops hrun (List.mem_singleton.mpr rfl) hkey
    (.integer 2) 0).mpr (.inr ⟨1, by decide, by decide, rfl, rfl⟩)

/-- Three keys, in a table of four nodes. -/
def threeKeys : List Op :=
  [.create 0, .newSlot 0 (.integer 1) .null, .newSlot 0 (.integer 2) .null,
    .newSlot 0 (.integer 3) .null]

/-- The fourth key takes the last node, and is said to have been there. -/
theorem newSlot_not_reports :
    ∃ ts answers t, run (fun _ => 0) 2 [] threeKeys = some (ts, answers) ∧ t ∈ ts ∧
      ¬ ReportsCreation (fun _ => 0) 2 t (.integer 4) .null := by
  have hops : ∀ op ∈ threeKeys, op.KeyNonNull := by simp [threeKeys, Op.KeyNonNull]
  obtain ⟨t, hrun, hget, hnew⟩ : ∃ t, run (fun _ => 0) (0 + 2) [] threeKeys =
      some ([t], [.done, .done, .done, .done]) ∧
      t._get (.integer 4) (t.mainPosition (fun _ => 0) (.integer 4)) = some none ∧
      ∃ t', newSlot (fun _ => 0) 2 t (.integer 4) .null = some (t', false) :=
    ⟨_, rfl, rfl, _, rfl⟩
  have hmem : t ∈ [t] := List.mem_singleton.mpr rfl
  have hwf := run_wellFormed hops hrun hmem
  refine ⟨_, _, t, hrun, hmem, ?_⟩
  rintro ⟨t', created, hcreated, hiff⟩
  obtain ⟨t'', hnew⟩ := hnew
  rw [hnew] at hcreated
  cases hcreated
  rcases hwf.wired._get_eq hwf.pos (show Object.integer 4 ≠ .null by decide) with
    ⟨i, hfound, _⟩ | ⟨_, habsent⟩
  · rw [hget] at hfound
    cases hfound
  · apply Bool.false_ne_true
    rw [hiff]
    rintro ⟨_, i, hi, _⟩
    exact habsent i hi

end GameScript.Table
