import GameScript.Table.Refinement
import Mathlib.Data.Finset.Range

/-!
The tables of a machine and their delegates. A table is what it holds
(`Table.Contents`, which `GSTable` refines) with the table that is asked for
what it does not hold.
-/

namespace GameScript.Scope

open Chain

/-! ### The check of `SetDelegate` -/

section

variable (delegate : Ref → Option Ref) (size : Nat) (self : Ref)

/-- The loop of `SetDelegate`: whether `self` is not the delegate of `temp`, of the delegate of
`temp`, and so on. Of the objects, `size` are in use. -/
def noCycle : Option Ref → Option Bool
  | none => some true
  | some temp =>
      (search delegate (fun temp => delegate temp = some self) size temp).map (·.isNone)

/-- What `SetDelegate` answers: whether it makes `mt` the delegate of `self`. -/
def acceptsDelegate (mt : Option Ref) : Option Bool :=
  if mt = some self then some false else noCycle delegate size self mt

variable {delegate size self} {mt : Option Ref}

/-- The loop comes to an end. -/
theorem acceptsDelegate_isSome (hacyclic : Acyclic delegate)
    (hclosed : ∀ r d, delegate r = some d → d < size) (hmt : ∀ d ∈ mt, d < size) :
    (acceptsDelegate delegate size self mt).isSome := by
  unfold acceptsDelegate
  split
  · rfl
  · cases mt with
    | none => rfl
    | some m =>
        rw [noCycle, Option.isSome_map]
        exact search_terminates _ hacyclic (Finset.mem_range.mpr (hmt m rfl))
          (fun a _ b hab => Finset.mem_range.mpr (hclosed a b hab)) (by simp)

/-- It sees every object that `m` comes to, so a delegate that is accepted does not come to
`self`. -/
theorem not_reach_of_accepted {m : Ref} (h : acceptsDelegate delegate size self (some m) = some true) :
    ¬ Reach delegate m self := by
  unfold acceptsDelegate at h
  split at h
  · cases h
  · next hne =>
      intro hreach
      obtain ⟨a, ha, hself⟩ := hreach.exists_prev fun heq => hne (congrArg some heq)
      obtain ⟨found, hfound, hnone⟩ := Option.map_eq_some_iff.mp h
      obtain rfl : found = none := by simpa using hnone
      exact search_missing hfound ha (by simpa using hself)

/-- A delegate that is accepted closes no cycle. -/
theorem acyclic_of_accepted (hacyclic : Acyclic delegate)
    (h : acceptsDelegate delegate size self mt = some true) :
    Acyclic (Function.update delegate self mt) := by
  cases mt with
  | none => exact hacyclic.unlink self
  | some m => exact hacyclic.link (not_reach_of_accepted h)

end

/-! ### The heap -/

/-- A table of the heap. -/
structure TableObj where
  slots : Table.Contents := .empty
  delegate : Option Ref := none

/-- The tables by address; those from `size` on are not in use. A delegate is a table in
use, and `SetDelegate` refuses one that would close a cycle. -/
structure Heap where
  table : Ref → TableObj
  size : Nat
  closed : ∀ r d, (table r).delegate = some d → r < size ∧ d < size
  acyclic : Acyclic fun r => (table r).delegate

namespace Heap

variable (h : Heap)

/-- `_delegate`. -/
def delegate (r : Ref) : Option Ref := (h.table r).delegate

/-- A table, the delegate it has, the delegate of that, and so on. -/
def chain (r : Ref) : List Ref := trail h.delegate (h.size + 1) r

/-- No table yet. -/
def empty : Heap where
  table _ := {}
  size := 0
  closed r d hd := by cases hd
  acyclic := ⟨fun _ => 0, fun a b hab => by cases hab⟩

/-- A table without a delegate may be created in the empty heap. -/
theorem no_delegate : ∀ d ∈ (none : Option Ref), d < empty.size := by
  intro d hd
  cases hd

/-- The table at `r` with a slot created or given a new value. -/
def setSlot (r : Ref) (key val : Object) : Heap where
  table := Function.update h.table r
    { h.table r with slots := Function.update (h.table r).slots key (some val) }
  size := h.size
  closed r' d hd := by
    by_cases hr : r' = r
    · subst hr
      rw [Function.update_self] at hd
      exact h.closed r' d hd
    · rw [Function.update_of_ne hr] at hd
      exact h.closed r' d hd
  acyclic := by
    convert h.acyclic using 2 with r'
    by_cases hr : r' = r
    · subst hr
      rw [Function.update_self]
    · rw [Function.update_of_ne hr]

/-- `GSTable::Create` and `SetDelegate`, which succeeds on a table nothing refers to yet. The
new table is at `size`. -/
def create (slots : Table.Contents) (delegate : Option Ref) (hd : ∀ d ∈ delegate, d < h.size) :
    Heap where
  table := Function.update h.table h.size { slots := slots, delegate := delegate }
  size := h.size + 1
  closed r d hr := by
    by_cases heq : r = h.size
    · subst heq
      rw [Function.update_self] at hr
      have := hd d hr
      exact ⟨Nat.lt_succ_self _, Nat.lt_succ_of_lt this⟩
    · rw [Function.update_of_ne heq] at hr
      have := h.closed r d hr
      exact ⟨Nat.lt_succ_of_lt this.1, Nat.lt_succ_of_lt this.2⟩
  acyclic := by
    have heq : (fun r => (Function.update h.table h.size
        { slots := slots, delegate := delegate } r).delegate) =
        Function.update (fun r => (h.table r).delegate) h.size delegate := by
      funext r
      by_cases heq : r = h.size
      · subst heq
        simp
      · simp [heq]
    rw [heq]
    apply h.acyclic.update
    · intro a ha
      exact Nat.lt_irrefl _ (h.closed a _ ha).2
    · rintro rfl
      exact Nat.lt_irrefl _ (hd _ rfl)

/-! ### Chains -/

theorem chain_eq (r : Ref) : h.chain r = r :: (h.delegate r).elim [] h.chain := by
  rw [chain, trail]
  congr 1
  cases hd : h.delegate r with
  | none => rfl
  | some d =>
      have hlt := (h.closed r d hd).2
      apply (trail_fuel h.acyclic (s := Finset.range h.size) _ _ _).symm
      · exact Finset.mem_range.mpr hlt
      · intro a _ b hab
        exact Finset.mem_range.mpr (h.closed a b hab).2
      · simp

theorem chain_of_none {r : Ref} (hd : h.delegate r = none) : h.chain r = [r] := by
  rw [chain_eq, hd]
  rfl

theorem chain_of_some {r d : Ref} (hd : h.delegate r = some d) :
    h.chain r = r :: h.chain d := by
  rw [chain_eq, hd]
  rfl

variable {h}

theorem mem_chain_self (r : Ref) : r ∈ h.chain r := by
  rw [chain_eq]
  exact List.mem_cons_self

theorem lt_of_mem_chain {r a : Ref} (hr : r < h.size) (ha : a ∈ h.chain r) : a < h.size := by
  induction r using h.acyclic.induction with
  | step r ih =>
      rw [chain_eq] at ha
      cases hd : h.delegate r with
      | none =>
          rw [hd] at ha
          rw [List.mem_singleton.mp ha]
          exact hr
      | some d =>
          rw [hd] at ha
          rcases List.mem_cons.mp ha with rfl | ha
          · exact hr
          · exact ih d hd (h.closed r d hd).2 ha

/-- No table is among those it delegates to. -/
theorem notMem_chain_tail (r : Ref) : r ∉ (h.chain r).tail := by
  obtain ⟨rank, hrank⟩ := h.acyclic
  have hle : ∀ r, ∀ a ∈ h.chain r, rank a ≤ rank r := by
    intro r
    induction r using h.acyclic.induction with
    | step r ih =>
        intro a ha
        rw [chain_eq] at ha
        cases hd : h.delegate r with
        | none =>
            rw [hd] at ha
            rw [List.mem_singleton.mp ha]
        | some d =>
            rw [hd] at ha
            rcases List.mem_cons.mp ha with rfl | ha
            · exact Nat.le_refl _
            · exact Nat.le_trans (ih d hd a ha) (Nat.le_of_lt (hrank r d hd))
  rw [chain_eq]
  cases hd : h.delegate r with
  | none => exact List.not_mem_nil
  | some d =>
      intro hmem
      exact Nat.not_lt_of_ge (hle d r hmem) (hrank r d hd)

/-! ### What the edits change -/

@[simp] theorem setSlot_size (r : Ref) (key val : Object) :
    (h.setSlot r key val).size = h.size := rfl

@[simp] theorem create_size (slots : Table.Contents) (d : Option Ref) (hd) :
    (h.create slots d hd).size = h.size + 1 := rfl

@[simp] theorem setSlot_delegate (r : Ref) (key val : Object) :
    (h.setSlot r key val).delegate = h.delegate := by
  funext r'
  by_cases hr : r' = r
  · subst hr
    simp [delegate, setSlot]
  · simp [delegate, setSlot, hr]

@[simp] theorem setSlot_chain (r : Ref) (key val : Object) :
    (h.setSlot r key val).chain = h.chain := by
  funext r'
  rw [chain, setSlot_delegate]
  rfl

theorem setSlot_slots_self (r : Ref) (key val : Object) :
    ((h.setSlot r key val).table r).slots = Function.update (h.table r).slots key (some val) := by
  simp [setSlot]

theorem setSlot_slots_other {r r' : Ref} (key val : Object) (hr : r' ≠ r) :
    (h.setSlot r key val).table r' = h.table r' := by
  simp [setSlot, hr]

@[simp] theorem create_new (slots : Table.Contents) (d : Option Ref) (hd) :
    (h.create slots d hd).table h.size = { slots := slots, delegate := d } := by
  simp [create]

theorem create_old {r : Ref} (slots : Table.Contents) (d : Option Ref) (hd) (hr : r < h.size) :
    (h.create slots d hd).table r = h.table r := by
  simp [create, Nat.ne_of_lt hr]

theorem create_chain_old {r : Ref} (slots : Table.Contents) (d : Option Ref) (hd)
    (hr : r < h.size) : (h.create slots d hd).chain r = h.chain r := by
  have hdel : ∀ r, r < h.size → (h.create slots d hd).delegate r = h.delegate r := by
    intro r hr
    rw [delegate, create_old slots d hd hr]
    rfl
  induction r using h.acyclic.induction with
  | step r ih =>
      rw [chain_eq, chain_eq h, hdel r hr]
      cases hd' : h.delegate r with
      | none => rfl
      | some d' => exact congrArg (r :: ·) (ih d' hd' (h.closed r d' hd').2)

/-! ### What takes a reference away -/

/-- `GSTable::Remove`. -/
def deleteSlot (h : Heap) (r : Ref) (key : Object) : Heap where
  table := Function.update h.table r
    { h.table r with slots := Function.update (h.table r).slots key none }
  size := h.size
  closed r' d hd := by
    by_cases hr : r' = r
    · subst hr
      rw [Function.update_self] at hd
      exact h.closed r' d hd
    · rw [Function.update_of_ne hr] at hd
      exact h.closed r' d hd
  acyclic := by
    convert h.acyclic using 2 with r'
    by_cases hr : r' = r
    · subst hr
      rw [Function.update_self]
    · rw [Function.update_of_ne hr]

@[simp] theorem deleteSlot_delegate (r : Ref) (key : Object) :
    (h.deleteSlot r key).delegate = h.delegate := by
  funext r'
  by_cases hr : r' = r
  · subst hr
    simp [delegate, deleteSlot]
  · simp [delegate, deleteSlot, hr]

theorem deleteSlot_slots (r : Ref) (key : Object) (r' : Ref) (key' : Object) :
    ((h.deleteSlot r key).table r').slots key' =
      if r' = r ∧ key' = key then none else (h.table r').slots key' := by
  by_cases hr : r' = r
  · subst hr
    by_cases hk : key' = key <;> simp [deleteSlot, hk]
  · simp [deleteSlot, hr]

/-- The delegates once `r` has another one. -/
theorem update_delegate (r : Ref) (d : Option Ref) :
    (fun r' => (Function.update h.table r { h.table r with delegate := d } r').delegate) =
      Function.update h.delegate r d := by
  funext r'
  by_cases hr : r' = r
  · subst hr
    rw [Function.update_self, Function.update_self]
  · rw [Function.update_of_ne hr, Function.update_of_ne hr]
    rfl

/-- `SetDelegate`, which refuses a delegate that would close a cycle. -/
def setDelegate (h : Heap) (r : Ref) (d : Option Ref) : Heap :=
  if hd : r < h.size ∧ (∀ m ∈ d, m < h.size) ∧
      acceptsDelegate h.delegate h.size r d = some true then
    { table := Function.update h.table r { h.table r with delegate := d }
      size := h.size
      closed := by
        intro r' m hm
        rw [congrFun (h.update_delegate r d) r'] at hm
        by_cases hr : r' = r
        · subst hr
          rw [Function.update_self] at hm
          exact ⟨hd.1, hd.2.1 m hm⟩
        · rw [Function.update_of_ne hr] at hm
          exact h.closed r' m hm
      acyclic := by
        rw [h.update_delegate r d]
        exact acyclic_of_accepted h.acyclic hd.2.2 }
  else h

theorem setDelegate_other {r r' : Ref} (d : Option Ref) (hr : r' ≠ r) :
    (h.setDelegate r d).table r' = h.table r' := by
  unfold setDelegate
  split
  · exact Function.update_of_ne hr _ _
  · rfl

theorem setDelegate_slots (r : Ref) (d : Option Ref) (r' : Ref) :
    ((h.setDelegate r d).table r').slots = (h.table r').slots := by
  by_cases hr : r' = r
  · subst hr
    unfold setDelegate
    split
    · simp only [Function.update_self]
    · rfl
  · rw [setDelegate_other d hr]

/-- The table has the delegate, unless that was refused. -/
theorem setDelegate_self (r : Ref) (d : Option Ref) :
    (h.setDelegate r d).delegate r = d ∨ (h.setDelegate r d).delegate r = h.delegate r := by
  unfold setDelegate
  split
  · left
    simp only [delegate, Function.update_self]
  · exact .inr rfl

theorem setDelegate_size (r : Ref) (d : Option Ref) : (h.setDelegate r d).size = h.size := by
  unfold setDelegate
  split <;> rfl

end Heap

end GameScript.Scope
