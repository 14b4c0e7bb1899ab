import Mathlib.Logic.Function.Basic
import Mathlib.Data.List.Basic
import Mathlib.Data.List.Nodup

/-!
Null-terminated linked lists threaded through a store of nodes by a partial
successor function. `IsList next head l` says that the list entered at `head`
visits exactly the nodes `l`, in that order.

`find` walks a list for a node with a property and keeps the node before it,
bounded by fuel; the length of the list is fuel enough. The three edits are
those of a singly linked list: put a node in front, put one behind another, and
take one out given the node before it.
-/

namespace GameScript.LinkedList

variable {α : Type} {next next' : α → Option α}

/-- The list entered at `head` visits the nodes `l`. -/
inductive IsList (next : α → Option α) : Option α → List α → Prop
  | nil : IsList next none []
  | cons {a : α} {l : List α} : IsList next (next a) l → IsList next (some a) (a :: l)

@[simp] theorem isList_none {l : List α} : IsList next none l ↔ l = [] := by
  constructor
  · intro h
    cases h
    rfl
  · rintro rfl
    exact .nil

@[simp] theorem isList_some {a : α} {l : List α} :
    IsList next (some a) l ↔ ∃ r, l = a :: r ∧ IsList next (next a) r := by
  constructor
  · intro h
    cases h with
    | cons h => exact ⟨_, rfl, h⟩
  · rintro ⟨r, rfl, h⟩
    exact .cons h

/-- A head has one list. -/
theorem IsList.unique {head : Option α} {l l' : List α} (h : IsList next head l)
    (h' : IsList next head l') : l = l' := by
  induction h generalizing l' with
  | nil =>
      cases h'
      rfl
  | cons _ ih =>
      cases h' with
      | cons h' => rw [ih h']

theorem IsList.head_eq {head : Option α} {l : List α} (h : IsList next head l) :
    head = l.head? := by
  cases h <;> rfl

/-- A list does not see links of nodes that are not on it. -/
theorem IsList.congr {head : Option α} {l : List α} (h : IsList next head l)
    (hnext : ∀ a ∈ l, next' a = next a) : IsList next' head l := by
  induction h with
  | nil => exact .nil
  | @cons a l _ ih =>
      apply IsList.cons
      rw [hnext a List.mem_cons_self]
      apply ih
      intro b hb
      exact hnext b (List.mem_cons_of_mem _ hb)

/-- The end of a list is a list of its own. -/
theorem IsList.suffix {head : Option α} {l₁ l₂ : List α} {a : α}
    (h : IsList next head (l₁ ++ a :: l₂)) : IsList next (next a) l₂ := by
  induction l₁ generalizing head with
  | nil =>
      cases h with
      | cons h => exact h
  | cons b l₁ ih =>
      cases h with
      | cons h => exact ih h

/-! ### Walking a list -/

/-- Walk from `cur`, which comes after `prev`, to the first node with property `p`;
the result is the node before it and the node. `none` is a walk longer than the
fuel. -/
def find (next : α → Option α) (p : α → Bool) :
    Nat → Option α → Option α → Option (Option α × Option α)
  | _, prev, none => some (prev, none)
  | 0, _, some _ => none
  | fuel + 1, prev, some a =>
      if p a then some (prev, some a) else find next p fuel (some a) (next a)

/-- What a walk finds: the first node with the property and the node before it. -/
theorem find_of_mem {p : α → Bool} (prev : Option α) {cur : Option α} {l₁ l₂ : List α} {a : α}
    {fuel : Nat} (h : IsList next cur (l₁ ++ a :: l₂)) (hfuel : l₁.length < fuel)
    (hbefore : ∀ b ∈ l₁, ¬ p b) (ha : p a) :
    find next p fuel prev cur = some (l₁.getLast?.or prev, some a) := by
  induction l₁ generalizing prev cur fuel with
  | nil =>
      cases h with
      | cons h =>
          obtain ⟨fuel, rfl⟩ : ∃ n, fuel = n + 1 := ⟨fuel - 1, by simp at hfuel; omega⟩
          simp [find, ha]
  | cons b l₁ ih =>
      cases h with
      | cons h =>
          obtain ⟨fuel, rfl⟩ : ∃ n, fuel = n + 1 := ⟨fuel - 1, by simp at hfuel; omega⟩
          have hb : ¬ p b := hbefore b List.mem_cons_self
          rw [find, if_neg hb, ih _ h]
          · cases l₁ <;> simp [List.getLast?_cons]
          · simp at hfuel
            omega
          · intro c hc
            exact hbefore c (List.mem_cons_of_mem _ hc)

/-- A walk along a list without such a node comes to its end. -/
theorem find_of_not_mem {p : α → Bool} (prev : Option α) {cur : Option α} {l : List α}
    {fuel : Nat} (h : IsList next cur l) (hfuel : l.length ≤ fuel) (hnone : ∀ b ∈ l, ¬ p b) :
    find next p fuel prev cur = some (l.getLast?.or prev, none) := by
  induction h generalizing prev fuel with
  | nil => cases fuel <;> simp [find]
  | @cons b l h ih =>
      obtain ⟨fuel, rfl⟩ : ∃ n, fuel = n + 1 := ⟨fuel - 1, by simp at hfuel; omega⟩
      have hb : ¬ p b := hnone b List.mem_cons_self
      rw [find, if_neg hb, ih]
      · cases l <;> simp [List.getLast?_cons]
      · simpa using hfuel
      · intro c hc
        exact hnone c (List.mem_cons_of_mem _ hc)

/-- A list splits at its first node with a property that some node of it has. -/
theorem exists_first (p : α → Bool) {l : List α} {a : α} (ha : a ∈ l) (hp : p a) :
    ∃ l₁ b l₂, l = l₁ ++ b :: l₂ ∧ (∀ c ∈ l₁, ¬ p c) ∧ p b := by
  induction l with
  | nil => cases ha
  | cons b l ih =>
      by_cases hb : p b
      · exact ⟨[], b, l, rfl, by simp, hb⟩
      · have hal : a ∈ l := by
          rcases List.mem_cons.mp ha with rfl | hal
          · exact absurd hp hb
          · exact hal
        obtain ⟨l₁, c, l₂, rfl, hbefore, hc⟩ := ih hal
        refine ⟨b :: l₁, c, l₂, rfl, ?_, hc⟩
        intro d hd
        rcases List.mem_cons.mp hd with rfl | hd
        · exact hb
        · exact hbefore d hd

/-! ### Editing a list -/

/-- Behind the node `p` a list may be given another end. -/
theorem IsList.splice {head : Option α} {l₀ l r : List α} {p : α}
    (h : IsList next head (l₀ ++ p :: r)) (hfront : ∀ b ∈ l₀, next' b = next b)
    (hend : IsList next' (next' p) l) : IsList next' head (l₀ ++ p :: l) := by
  induction l₀ generalizing head with
  | nil =>
      cases h with
      | cons h => exact .cons hend
  | cons b l₀ ih =>
      cases h with
      | cons h =>
          apply IsList.cons
          rw [hfront b List.mem_cons_self]
          apply ih h
          intro c hc
          exact hfront c (List.mem_cons_of_mem _ hc)

theorem not_mem_of_nodup {l₀ l : List α} {p : α} (h : (l₀ ++ p :: l).Nodup) :
    p ∉ l₀ ∧ p ∉ l := by
  simp only [List.nodup_append, List.nodup_cons, List.mem_cons] at h
  constructor
  · intro hp
    exact h.2.2 p hp p (.inl rfl) rfl
  · exact h.2.1.1

variable [DecidableEq α]

/-- Put the node `a`, which is not on the list, in front. -/
theorem IsList.push {head : Option α} {l : List α} {a : α} (h : IsList next head l)
    (ha : a ∉ l) : IsList (Function.update next a head) (some a) (a :: l) := by
  apply IsList.cons
  rw [Function.update_self]
  apply h.congr
  intro b hb
  have hne : b ≠ a := fun heq => ha (heq ▸ hb)
  rw [Function.update_of_ne hne]

/-- The links after node `n`, entered behind `prev` or at the front, comes before `rest`. -/
def linkBehind (next : α → Option α) (prev : Option α) (n : α) (rest : Option α) :
    α → Option α :=
  let next' := Function.update next n rest
  match prev with
  | some p => Function.update next' p (some n)
  | none => next'

/-- Put the node `n`, which is not on the list, between its two parts. -/
theorem IsList.insert {head rest : Option α} {l₁ l₂ : List α} {n : α}
    (h : IsList next head (l₁ ++ l₂)) (hrest : IsList next rest l₂) (hn : n ∉ l₁ ++ l₂)
    (hnodup : (l₁ ++ l₂).Nodup) :
    IsList (linkBehind next l₁.getLast? n rest)
      (if l₁ = [] then some n else head) (l₁ ++ n :: l₂) := by
  have hnl₂ : n ∉ l₂ := fun hn₂ => hn (List.mem_append_right _ hn₂)
  rcases l₁.eq_nil_or_concat' with rfl | ⟨l₀, p, rfl⟩
  · simpa [linkBehind] using hrest.push hnl₂
  · rw [List.append_assoc] at h hn hnodup
    obtain ⟨hpl₀, hpl₂⟩ := not_mem_of_nodup hnodup
    have hpn : p ≠ n := by
      rintro rfl
      simp at hn
    simp only [List.getLast?_concat, linkBehind, List.append_eq_nil_iff, List.cons_ne_nil,
      and_false, if_false, List.append_assoc]
    apply h.splice
    · intro b hb
      have hbp : b ≠ p := fun heq => hpl₀ (heq ▸ hb)
      have hbn : b ≠ n := fun heq => hn (heq ▸ List.mem_append_left _ hb)
      rw [Function.update_of_ne hbp, Function.update_of_ne hbn]
    · rw [Function.update_self]
      apply IsList.cons
      rw [Function.update_of_ne hpn.symm, Function.update_self]
      apply hrest.congr
      intro b hb
      have hbp : b ≠ p := fun heq => hpl₂ (heq ▸ hb)
      have hbn : b ≠ n := fun heq => hnl₂ (heq ▸ hb)
      rw [Function.update_of_ne hbp, Function.update_of_ne hbn]

/-- The links after the node behind `prev`, or the front node, is taken out; `rest` is
what came behind it. -/
def unlink (next : α → Option α) (prev : Option α) (rest : Option α) : α → Option α :=
  match prev with
  | some p => Function.update next p rest
  | none => next

/-- Take the node `n` out from between the two parts of a list. -/
theorem IsList.remove {head : Option α} {l₁ l₂ : List α} {n : α}
    (h : IsList next head (l₁ ++ n :: l₂)) (hnodup : (l₁ ++ n :: l₂).Nodup) :
    IsList (unlink next l₁.getLast? (next n)) (if l₁ = [] then next n else head) (l₁ ++ l₂) := by
  have hrest : IsList next (next n) l₂ := h.suffix
  rcases l₁.eq_nil_or_concat' with rfl | ⟨l₀, p, rfl⟩
  · simpa [unlink] using hrest
  · rw [List.append_assoc] at h hnodup
    obtain ⟨hpl₀, hpl₂⟩ := not_mem_of_nodup hnodup
    simp only [List.getLast?_concat, unlink, List.append_eq_nil_iff, List.cons_ne_nil,
      and_false, if_false, List.append_assoc]
    apply h.splice
    · intro b hb
      have hbp : b ≠ p := fun heq => hpl₀ (heq ▸ hb)
      rw [Function.update_of_ne hbp]
    · rw [Function.update_self]
      apply hrest.congr
      intro b hb
      have hbp : b ≠ p := fun heq => hpl₂ (heq ▸ List.mem_cons_of_mem _ hb)
      rw [Function.update_of_ne hbp]

/-- The link of a node that is taken out may be used for anything else. -/
theorem IsList.remove_reuse {head : Option α} {l₁ l₂ : List α} {n : α}
    (h : IsList next head (l₁ ++ n :: l₂)) (hnodup : (l₁ ++ n :: l₂).Nodup) (r : Option α) :
    IsList (Function.update (unlink next l₁.getLast? (next n)) n r)
      (if l₁ = [] then next n else head) (l₁ ++ l₂) := by
  obtain ⟨hnl₁, hnl₂⟩ := not_mem_of_nodup hnodup
  apply (h.remove hnodup).congr
  intro b hb
  have hbn : b ≠ n := by
    rintro rfl
    exact (List.mem_append.mp hb).elim hnl₁ hnl₂
  rw [Function.update_of_ne hbn]

/-- A list that shares no node with another one stays when a node of that is taken out. -/
theorem IsList.remove_other {head rest r : Option α} {l l₁ : List α} {n : α}
    (h : IsList next head l) (hn : n ∉ l) (hl₁ : ∀ p ∈ l₁, p ∉ l) :
    IsList (Function.update (unlink next l₁.getLast? rest) n r) head l := by
  apply h.congr
  intro b hb
  have hbn : b ≠ n := fun heq => hn (heq ▸ hb)
  rw [Function.update_of_ne hbn]
  cases hlast : l₁.getLast? with
  | none => rfl
  | some p =>
      have hbp : b ≠ p := by
        rintro rfl
        exact hl₁ b (List.mem_of_getLast? hlast) hb
      simp only [unlink, Function.update_of_ne hbp]

end GameScript.LinkedList
