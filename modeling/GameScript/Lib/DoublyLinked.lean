import Mathlib.Logic.Function.Basic
import Mathlib.Data.List.Nodup

/-!
Null-terminated lists of nodes that are linked in both directions, several of
them in one store. `Chain s head l` says that the list at `head` has the nodes
`l`, in that order, and that the links agree. Taking a node out of a list and
putting one in front of a list touch only nodes of that list.
-/

namespace GameScript.DoublyLinked

/-- The links of all nodes. -/
structure Links (α : Type) where
  next : α → Option α
  prev : α → Option α

variable {α : Type} {s s' : Links α}

/-- The nodes `l` behind `p` are linked in that order. -/
def Linked (s : Links α) : Option α → List α → Prop
  | _, [] => True
  | p, a :: l => s.prev a = p ∧ s.next a = l.head? ∧ Linked s (some a) l

/-- The list at `head` has the nodes `l`. -/
structure Chain (s : Links α) (head : Option α) (l : List α) : Prop where
  head : head = l.head?
  linked : Linked s none l

/-- A list depends on the links of its elements only. -/
theorem Linked.congr {p : Option α} {l : List α} (h : Linked s p l)
    (hnext : ∀ a ∈ l, s'.next a = s.next a) (hprev : ∀ a ∈ l, s'.prev a = s.prev a) :
    Linked s' p l := by
  induction l generalizing p with
  | nil => trivial
  | cons a l ih =>
      obtain ⟨hp, hn, htail⟩ := h
      refine ⟨(hprev a List.mem_cons_self).trans hp, (hnext a List.mem_cons_self).trans hn, ?_⟩
      exact ih htail (fun b hb => hnext b (List.mem_cons_of_mem a hb))
        fun b hb => hprev b (List.mem_cons_of_mem a hb)

theorem Chain.congr {head : Option α} {l : List α} (h : Chain s head l)
    (hnext : ∀ a ∈ l, s'.next a = s.next a) (hprev : ∀ a ∈ l, s'.prev a = s.prev a) :
    Chain s' head l :=
  ⟨h.head, h.linked.congr hnext hprev⟩

/-- The neighbours of a node. -/
theorem Linked.at {p : Option α} {l₁ l₂ : List α} {c : α} (h : Linked s p (l₁ ++ c :: l₂)) :
    s.prev c = l₁.getLast?.or p ∧ s.next c = l₂.head? := by
  induction l₁ generalizing p with
  | nil => exact ⟨h.1, h.2.1⟩
  | cons b l₁ ih =>
      obtain ⟨hprev, hnext⟩ := ih h.2.2
      refine ⟨hprev.trans ?_, hnext⟩
      cases l₁ <;> simp [List.getLast?_cons]

theorem chain_nil (s : Links α) : Chain s none [] := ⟨rfl, trivial⟩

variable [DecidableEq α]

/-! ### Taking a node out -/

/-- What `c` is taken out of: its neighbours are linked to each other. -/
def Links.unlink (s : Links α) (c : α) : Links α where
  next := Function.update
    (match s.prev c with
    | some p => Function.update s.next p (s.next c)
    | none => s.next) c none
  prev := Function.update
    (match s.next c with
    | some n => Function.update s.prev n (s.prev c)
    | none => s.prev) c none

/-- The head of the list that `c` was taken out of. -/
def Links.headWithout (s : Links α) (head : Option α) (c : α) : Option α :=
  match s.prev c with
  | some _ => head
  | none => s.next c

/-- Only the element before the one that is taken out gets another next one.
-/
theorem unlink_next {c a : α} (ha : a ≠ c) (hprev : s.prev c ≠ some a) :
    (s.unlink c).next a = s.next a := by
  simp only [Links.unlink, Function.update_of_ne ha]
  cases hp : s.prev c with
  | none => rfl
  | some p =>
      have hne : a ≠ p := by
        rintro rfl
        exact hprev hp
      exact Function.update_of_ne hne ..

/-- Only the element behind the one that is taken out gets another previous
one. -/
theorem unlink_prev {c a : α} (ha : a ≠ c) (hnext : s.next c ≠ some a) :
    (s.unlink c).prev a = s.prev a := by
  simp only [Links.unlink, Function.update_of_ne ha]
  cases hn : s.next c with
  | none => rfl
  | some n =>
      have hne : a ≠ n := by
        rintro rfl
        exact hnext hn
      exact Function.update_of_ne hne ..

theorem unlink_next_prev {c p : α} (hp : p ≠ c) (hprev : s.prev c = some p) :
    (s.unlink c).next p = s.next c := by
  simp only [Links.unlink, Function.update_of_ne hp, hprev, Function.update_self]

theorem unlink_prev_next {c n : α} (hn : n ≠ c) (hnext : s.next c = some n) :
    (s.unlink c).prev n = s.prev c := by
  simp only [Links.unlink, Function.update_of_ne hn, hnext, Function.update_self]

/-- An element is taken out of the list and the others stay linked. -/
theorem Linked.unlink {p : Option α} {l₁ l₂ : List α} {c : α}
    (h : Linked s p (l₁ ++ c :: l₂)) (hnodup : (l₁ ++ c :: l₂).Nodup)
    (hp : ∀ q, p = some q → q ∉ l₁ ++ c :: l₂) : Linked (s.unlink c) p (l₁ ++ l₂) := by
  induction l₁ generalizing p with
  | nil =>
      obtain ⟨hprev, hnext, htail⟩ := h
      rw [List.nil_append, List.nodup_cons] at hnodup
      have hnotprev : ∀ a ∈ l₂, s.prev c ≠ some a := fun a ha heq =>
        hp a (hprev.symm.trans heq) (List.mem_cons_of_mem c ha)
      cases l₂ with
      | nil => trivial
      | cons d l₃ =>
          have hcd : d ≠ c := by
            rintro rfl
            exact hnodup.1 List.mem_cons_self
          have hd := (List.nodup_cons.mp hnodup.2).1
          refine ⟨(unlink_prev_next hcd hnext).trans hprev,
            (unlink_next hcd (hnotprev d List.mem_cons_self)).trans htail.2.1,
            htail.2.2.congr (fun a ha => ?_) fun a ha => ?_⟩
          · have hac : a ≠ c := by
              rintro rfl
              exact hnodup.1 (List.mem_cons_of_mem d ha)
            exact unlink_next hac (hnotprev a (List.mem_cons_of_mem d ha))
          · have hac : a ≠ c := by
              rintro rfl
              exact hnodup.1 (List.mem_cons_of_mem d ha)
            refine unlink_prev hac ?_
            rw [hnext]
            rintro ⟨⟩
            exact hd ha
  | cons b l₁ ih =>
      have hat := h.at
      obtain ⟨hprev, hnext, htail⟩ := h
      rw [List.cons_append, List.nodup_cons] at hnodup
      have hbc : b ≠ c := by
        rintro rfl
        exact hnodup.1 (List.mem_append_right l₁ List.mem_cons_self)
      have htail' := ih htail hnodup.2 (by
        rintro q ⟨⟩
        exact hnodup.1)
      refine ⟨?_, ?_, htail'⟩
      · refine (unlink_prev hbc ?_).trans hprev
        rw [hat.2]
        intro heq
        exact hnodup.1 (List.mem_append_right l₁ (List.mem_cons_of_mem c (List.mem_of_head? heq)))
      · cases l₁ with
        | nil =>
            rw [unlink_next_prev hbc (by simpa using hat.1)]
            simpa using hat.2
        | cons e l₁ =>
            refine (unlink_next hbc ?_).trans hnext
            rw [hat.1, List.getLast?_cons_cons]
            intro heq
            cases hlast : (e :: l₁).getLast? with
            | none => simp at hlast
            | some z =>
                rw [hlast] at heq
                cases heq
                exact hnodup.1 (List.mem_append_left _ (List.mem_of_getLast? hlast))

theorem erase_append_cons {l₁ l₂ : List α} {c : α} (hnodup : (l₁ ++ c :: l₂).Nodup) :
    (l₁ ++ c :: l₂).erase c = l₁ ++ l₂ := by
  have hc : c ∉ l₁ := fun hmem => List.disjoint_of_nodup_append hnodup hmem List.mem_cons_self
  rw [List.erase_append_right _ hc, List.erase_cons_head]

/-- Without one of its nodes a list is a list. -/
theorem Chain.unlink {head : Option α} {l : List α} {c : α} (h : Chain s head l)
    (hnodup : l.Nodup) (hc : c ∈ l) :
    Chain (s.unlink c) (s.headWithout head c) (l.erase c) := by
  obtain ⟨l₁, l₂, rfl⟩ := List.append_of_mem hc
  rw [erase_append_cons hnodup]
  obtain ⟨hprev, hnext⟩ := h.linked.at
  refine ⟨?_, h.linked.unlink hnodup nofun⟩
  unfold Links.headWithout
  cases l₁ with
  | nil =>
      rw [hprev]
      simpa using hnext
  | cons b l₁ =>
      have hsome : (b :: l₁).getLast?.or none = (b :: l₁).getLast? := by simp
      rw [hsome, List.getLast?_cons] at hprev
      rw [hprev]
      exact h.head

/-- Another list does not change. -/
theorem Chain.unlink_other {head head' : Option α} {l m : List α} {c : α} (h : Chain s head l)
    (hc : c ∈ l) (hm : Chain s head' m) (hdisj : ∀ a ∈ m, a ∉ l) : Chain (s.unlink c) head' m := by
  obtain ⟨l₁, l₂, rfl⟩ := List.append_of_mem hc
  obtain ⟨hprev, hnext⟩ := h.linked.at
  have hne : ∀ a ∈ m, a ≠ c := by
    rintro a ha rfl
    exact hdisj a ha hc
  refine hm.congr (fun a ha => unlink_next (hne a ha) ?_) fun a ha => unlink_prev (hne a ha) ?_
  · rw [hprev]
    intro heq
    simp only [Option.or_none] at heq
    exact hdisj a ha (List.mem_append_left _ (List.mem_of_getLast? heq))
  · rw [hnext]
    intro heq
    exact hdisj a ha (List.mem_append_right _ (List.mem_cons_of_mem c (List.mem_of_head? heq)))

/-! ### Putting a node in front -/

/-- `c` in front of the list at `head`. -/
def Links.push (s : Links α) (head : Option α) (c : α) : Links α where
  next := Function.update s.next c head
  prev :=
    match head with
    | some h => Function.update (Function.update s.prev c none) h (some c)
    | none => Function.update s.prev c none

theorem push_prev {head : Option α} {c a : α} (ha : a ≠ c) (hhead : head ≠ some a) :
    (s.push head c).prev a = s.prev a := by
  unfold Links.push
  cases head with
  | none => exact Function.update_of_ne ha ..
  | some h =>
      have hne : a ≠ h := by
        rintro rfl
        exact hhead rfl
      exact (Function.update_of_ne hne ..).trans (Function.update_of_ne ha ..)

/-- An element is put in front of the chain. -/
theorem Chain.push {head : Option α} {l : List α} {c : α} (h : Chain s head l)
    (hnodup : l.Nodup) (hc : c ∉ l) : Chain (s.push head c) (some c) (c :: l) := by
  refine ⟨rfl, ?_⟩
  have hself : (s.push head c).prev c = none := by
    unfold Links.push
    cases head with
    | none => exact Function.update_self ..
    | some d =>
        have hne : c ≠ d := by
          rintro rfl
          exact hc (List.mem_of_head? h.head.symm)
        exact (Function.update_of_ne hne ..).trans (Function.update_self ..)
  refine ⟨hself, (Function.update_self ..).trans h.head, ?_⟩
  have hnext : ∀ a ∈ l, (s.push head c).next a = s.next a := by
    intro a ha
    have hne : a ≠ c := by
      rintro rfl
      exact hc ha
    exact Function.update_of_ne hne ..
  cases l with
  | nil => trivial
  | cons d l =>
      obtain rfl : head = some d := h.head
      obtain ⟨_, hd, htail⟩ := h.linked
      refine ⟨Function.update_self .., (hnext d List.mem_cons_self).trans hd,
        htail.congr (fun a ha => hnext a (List.mem_cons_of_mem d ha)) fun a ha => ?_⟩
      refine push_prev ?_ ?_
      · rintro rfl
        exact hc (List.mem_cons_of_mem d ha)
      · rintro ⟨⟩
        exact (List.nodup_cons.mp hnodup).1 ha

/-- Putting an element in front of one chain leaves the others as they are. -/
theorem Chain.push_other {head head' : Option α} {l m : List α} {c : α} (h : Chain s head l)
    (hm : Chain s head' m) (hc : c ∉ m) (hdisj : ∀ a ∈ m, a ∉ l) :
    Chain (s.push head c) head' m := by
  have hne : ∀ a ∈ m, a ≠ c := by
    rintro a ha rfl
    exact hc ha
  refine hm.congr (fun a ha => Function.update_of_ne (hne a ha) ..) fun a ha =>
    push_prev (hne a ha) ?_
  rw [h.head]
  intro heq
  exact hdisj a ha (List.mem_of_head? heq)

end GameScript.DoublyLinked
