import Mathlib.Data.Finset.Card
import Mathlib.Data.Finset.Filter
import Mathlib.Data.List.Nodup
import Mathlib.Logic.Relation
import Mathlib.Tactic.Tauto

/-!
Depth-first marking of a graph, as a collector does it. A node that has no flag gets one, its
successors are visited in turn, and the node goes from the list of all nodes to the list of those
that are kept. What has a flag in the end is what the roots reach.

`visit` is bounded by fuel, and one more than the number of nodes without a flag is enough.
-/

namespace GameScript.Marking

variable {α : Type} {next : α → List α}

/-- The nodes with a flag, those on the list of all nodes and those moved from it. -/
structure Marks (α : Type) where
  flagged : List α
  chain : List α
  kept : List α

/-- `b` is reached from `a`. -/
def Reach (next : α → List α) : α → α → Prop := Relation.ReflTransGen fun a b => b ∈ next a

/-- `b` is reached from one of `roots`. -/
def ReachFrom (next : α → List α) (roots : List α) (b : α) : Prop :=
  ∃ a ∈ roots, Reach next a b

theorem ReachFrom.root {roots : List α} {a : α} (h : a ∈ roots) : ReachFrom next roots a :=
  ⟨a, h, Relation.ReflTransGen.refl⟩

theorem ReachFrom.step {roots : List α} {b c : α} (h : ReachFrom next roots b)
    (hc : c ∈ next b) : ReachFrom next roots c := by
  obtain ⟨a, ha, hab⟩ := h
  exact ⟨a, ha, hab.tail hc⟩

/-- What is reached is a root or follows something that is reached. -/
theorem ReachFrom.root_or_next {roots : List α} {b : α} (h : ReachFrom next roots b) :
    b ∈ roots ∨ ∃ a, ReachFrom next roots a ∧ b ∈ next a := by
  obtain ⟨r, hr, hrb⟩ := h
  rcases Relation.ReflTransGen.cases_tail hrb with rfl | ⟨a, hra, hab⟩
  · exact .inl hr
  · exact .inr ⟨a, ⟨r, hr, hra⟩, hab⟩

/-- What holds of the roots and passes from a node to the next holds of all that is reached. -/
theorem ReachFrom.induct {roots : List α} {P : α → Prop} (hroot : ∀ a ∈ roots, P a)
    (hstep : ∀ a, P a → ∀ b ∈ next a, P b) {b : α} (h : ReachFrom next roots b) : P b := by
  obtain ⟨a, ha, hab⟩ := h
  induction hab with
  | refl => exact hroot a ha
  | tail _ hbc ih => exact hstep _ ih _ hbc

/-- What visiting the nodes `as` does. -/
structure Visited (next : α → List α) (as : List α) (s s' : Marks α) : Prop where
  mono : ∀ b ∈ s.flagged, b ∈ s'.flagged
  flagged : ∀ a ∈ as, a ∈ s'.flagged
  closed : ∀ b ∈ s'.flagged, b ∉ s.flagged → ∀ c ∈ next b, c ∈ s'.flagged
  reached : ∀ b ∈ s'.flagged, b ∉ s.flagged → ReachFrom next as b
  nodup : s'.chain.Nodup
  chain : ∀ b, b ∈ s'.chain ↔ b ∈ s.chain ∧ (b ∈ s'.flagged → b ∈ s.flagged)
  kept : ∀ b, b ∈ s'.kept ↔ b ∈ s.kept ∨ b ∈ s'.flagged ∧ b ∉ s.flagged

theorem Visited.refl {as : List α} {s : Marks α} (hnodup : s.chain.Nodup)
    (has : ∀ a ∈ as, a ∈ s.flagged) : Visited next as s s := by
  constructor
  · exact fun _ hb => hb
  · exact has
  · exact fun b hb hnot => absurd hb hnot
  · exact fun b hb hnot => absurd hb hnot
  · exact hnodup
  · intro b
    simp
  · intro b
    simp

theorem Visited.cons {a : α} {as : List α} {s s' s'' : Marks α} (h : Visited next [a] s s')
    (h' : Visited next as s' s'') : Visited next (a :: as) s s'' := by
  constructor
  · exact fun b hb => h'.mono b (h.mono b hb)
  · intro b hb
    rcases List.mem_cons.mp hb with rfl | hb
    · exact h'.mono b (h.flagged b (List.mem_singleton_self b))
    · exact h'.flagged b hb
  · intro b hb hnot c hc
    by_cases hmid : b ∈ s'.flagged
    · exact h'.mono c (h.closed b hmid hnot c hc)
    · exact h'.closed b hb hmid c hc
  · intro b hb hnot
    by_cases hmid : b ∈ s'.flagged
    · obtain ⟨r, hr, hreach⟩ := h.reached b hmid hnot
      obtain rfl := List.mem_singleton.mp hr
      exact ⟨r, List.mem_cons_self, hreach⟩
    · obtain ⟨r, hr, hreach⟩ := h'.reached b hb hmid
      exact ⟨r, List.mem_cons_of_mem a hr, hreach⟩
  · exact h'.nodup
  · intro b
    have hmono := h.mono b
    have hmono' := h'.mono b
    rw [h'.chain, h.chain]
    tauto
  · intro b
    have hmono := h.mono b
    have hmono' := h'.mono b
    rw [h'.kept, h.kept]
    tauto

section

variable [DecidableEq α]

/-- Visits a node, with what it leads to. -/
def visit (next : α → List α) : Nat → α → Marks α → Option (Marks α)
  | 0, _, _ => none
  | fuel + 1, a, s =>
      if a ∈ s.flagged then some s
      else do
        let s ← (next a).foldlM (fun s b => visit next fuel b s)
          { s with flagged := a :: s.flagged }
        return { s with chain := s.chain.erase a, kept := a :: s.kept }

/-- Visits nodes in turn. -/
def visitAll (next : α → List α) (fuel : Nat) (as : List α) (s : Marks α) : Option (Marks α) :=
  as.foldlM (fun s a => visit next fuel a s) s

/-- Flagging a node, visiting what it leads to and moving it. -/
theorem Visited.wrap {a : α} {s s' : Marks α} (ha : a ∉ s.flagged)
    (h : Visited next (next a) { s with flagged := a :: s.flagged } s') :
    Visited next [a] s { s' with chain := s'.chain.erase a, kept := a :: s'.kept } := by
  have hself : a ∈ s'.flagged := h.mono a List.mem_cons_self
  constructor
  · exact fun b hb => h.mono b (List.mem_cons_of_mem a hb)
  · intro b hb
    rw [List.mem_singleton.mp hb]
    exact hself
  · intro b hb hnot c hc
    by_cases hba : b = a
    · rw [hba] at hc
      exact h.flagged c hc
    · exact h.closed b hb (by simp [hba, hnot]) c hc
  · intro b hb hnot
    by_cases hba : b = a
    · exact .root (by simp [hba])
    · obtain ⟨c, hc, hreach⟩ := h.reached b hb (by simp [hba, hnot])
      exact ⟨a, List.mem_singleton_self a, Relation.ReflTransGen.head hc hreach⟩
  · exact h.nodup.erase a
  · intro b
    rw [h.nodup.mem_erase_iff, h.chain]
    by_cases hba : b = a
    · subst hba
      simp [hself, ha]
    · simp [hba]
  · intro b
    have hkept := h.kept b
    by_cases hba : b = a
    · subst hba
      simp [hself, ha]
    · simpa [hba] using hkept

/-- The nodes of `pool` without a flag. -/
def unflagged (pool : Finset α) (s : Marks α) : Nat := (pool.filter (· ∉ s.flagged)).card

theorem unflagged_le {pool : Finset α} {s s' : Marks α} (h : ∀ b ∈ s.flagged, b ∈ s'.flagged) :
    unflagged pool s' ≤ unflagged pool s := by
  apply Finset.card_le_card
  intro b hb
  rw [Finset.mem_filter] at hb ⊢
  exact ⟨hb.1, fun hflag => hb.2 (h b hflag)⟩

theorem unflagged_lt {pool : Finset α} {s : Marks α} {a : α} (hmem : a ∈ pool)
    (ha : a ∉ s.flagged) :
    unflagged pool { s with flagged := a :: s.flagged } < unflagged pool s := by
  apply Finset.card_lt_card
  rw [Finset.ssubset_iff_of_subset]
  · exact ⟨a, by simp [hmem, ha], by simp⟩
  · intro b hb
    rw [Finset.mem_filter] at hb ⊢
    exact ⟨hb.1, fun hflag => hb.2 (List.mem_cons_of_mem a hflag)⟩

theorem visitAll_of_visit {pool : Finset α} {fuel : Nat}
    (ih : ∀ a ∈ pool, ∀ s : Marks α, s.chain.Nodup → unflagged pool s < fuel →
      ∃ s', visit next fuel a s = some s' ∧ Visited next [a] s s') :
    ∀ {as : List α}, (∀ a ∈ as, a ∈ pool) → ∀ {s : Marks α}, s.chain.Nodup →
      unflagged pool s < fuel → ∃ s', visitAll next fuel as s = some s' ∧ Visited next as s s'
  | [], _, s, hnodup, _ => ⟨s, rfl, .refl hnodup fun _ h => absurd h List.not_mem_nil⟩
  | a :: as, has, s, hnodup, hfuel => by
      obtain ⟨s₁, heq, h₁⟩ := ih a (has a List.mem_cons_self) s hnodup hfuel
      have hfuel₁ : unflagged pool s₁ < fuel := Nat.lt_of_le_of_lt (unflagged_le h₁.mono) hfuel
      obtain ⟨s₂, heq', h₂⟩ := visitAll_of_visit ih
        (fun b hb => has b (List.mem_cons_of_mem a hb)) h₁.nodup hfuel₁
      refine ⟨s₂, ?_, h₁.cons h₂⟩
      rw [visitAll, List.foldlM_cons, heq]
      exact heq'

variable {pool : Finset α} (hpool : ∀ a ∈ pool, ∀ b ∈ next a, b ∈ pool)
include hpool

/-- A visit comes to an end. -/
theorem visit_spec {fuel : Nat} : ∀ a ∈ pool, ∀ s : Marks α, s.chain.Nodup →
    unflagged pool s < fuel → ∃ s', visit next fuel a s = some s' ∧ Visited next [a] s s' := by
  induction fuel with
  | zero =>
      intro a _ s _ hfuel
      exact absurd hfuel (Nat.not_lt_zero _)
  | succ fuel ih =>
      intro a ha s hnodup hfuel
      rw [visit]
      by_cases hflag : a ∈ s.flagged
      · rw [if_pos hflag]
        refine ⟨s, rfl, .refl hnodup ?_⟩
        intro b hb
        rw [List.mem_singleton.mp hb]
        exact hflag
      · rw [if_neg hflag]
        have hless := unflagged_lt ha hflag
        obtain ⟨s', heq, h⟩ := visitAll_of_visit ih (hpool a ha)
          (s := { s with flagged := a :: s.flagged }) hnodup (by omega)
        refine ⟨_, ?_, h.wrap hflag⟩
        rw [visitAll] at heq
        rw [heq]
        rfl

/-- Marking from the roots flags what they reach, and parts the list of all nodes. -/
theorem visitAll_spec {roots chain : List α} (hnodup : chain.Nodup)
    (hroots : ∀ a ∈ roots, a ∈ pool) {fuel : Nat} (hfuel : pool.card < fuel) :
    ∃ s, visitAll next fuel roots ⟨[], chain, []⟩ = some s ∧
      (∀ b, b ∈ s.flagged ↔ ReachFrom next roots b) ∧
      (∀ b, b ∈ s.chain ↔ b ∈ chain ∧ ¬ ReachFrom next roots b) ∧
      ∀ b, b ∈ s.kept ↔ ReachFrom next roots b := by
  have hcard : unflagged pool ⟨[], chain, []⟩ ≤ pool.card := Finset.card_filter_le _ _
  obtain ⟨s, heq, h⟩ := visitAll_of_visit (visit_spec hpool) hroots
    (s := ⟨[], chain, []⟩) hnodup (Nat.lt_of_le_of_lt hcard hfuel)
  have hflag : ∀ b, b ∈ s.flagged ↔ ReachFrom next roots b := by
    intro b
    constructor
    · intro hb
      exact h.reached b hb List.not_mem_nil
    · intro hb
      exact hb.induct h.flagged fun a ha c hc => h.closed a ha List.not_mem_nil c hc
  refine ⟨s, heq, hflag, ?_, ?_⟩
  · intro b
    rw [h.chain, hflag]
    simp
  · intro b
    rw [h.kept, hflag]
    simp

end

end GameScript.Marking
