import Mathlib.Data.List.Perm.Subperm
import GameScript.Lib.Linked

/-!
An array of linked lists over one store of nodes. Each node that is in use, one
of `live`, is on the list its key selects, and no list visits another node.
-/

namespace GameScript.LinkedList

variable {α : Type} {next next' : α → Option α} {heads heads' : Nat → Option α}
  {size : Nat} {key key' : α → Nat} {live : List α} {p : α → Bool} {a : α}

/-- The list in each bucket visits the nodes whose key is the bucket, each once. -/
def Buckets (next : α → Option α) (heads : Nat → Option α) (size : Nat) (key : α → Nat)
    (live : List α) : Prop :=
  ∀ i < size, ∃ l, IsList next (heads i) l ∧ l.Nodup ∧ ∀ a, a ∈ l ↔ a ∈ live ∧ key a = i

theorem Buckets.empty : Buckets next (fun _ => none) size key [] := by
  intro i _
  exact ⟨[], .nil, List.nodup_nil, by simp⟩

/-- The buckets know the nodes in use as a set. -/
theorem Buckets.mem_congr {live' : List α} (h : Buckets next heads size key live)
    (hlive : ∀ a, a ∈ live ↔ a ∈ live') : Buckets next heads size key live' := by
  intro i hi
  obtain ⟨l, hl, hnodup, hmem⟩ := h i hi
  refine ⟨l, hl, hnodup, ?_⟩
  intro a
  rw [hmem a, hlive a]

/-- What is off the lists does not matter. -/
theorem Buckets.congr (h : Buckets next heads size key live)
    (hheads : ∀ i < size, heads' i = heads i) (hnext : ∀ a ∈ live, next' a = next a)
    (hkey : ∀ a ∈ live, key' a = key a) :
    Buckets next' heads' size key' live := by
  intro i hi
  obtain ⟨l, hl, hnodup, hmem⟩ := h i hi
  refine ⟨l, ?_, hnodup, ?_⟩
  · rw [hheads i hi]
    apply hl.congr
    intro a ha
    exact hnext a ((hmem a).mp ha).1
  · intro a
    rw [hmem a]
    constructor
    · rintro ⟨ha, hai⟩
      exact ⟨ha, (hkey a ha).trans hai⟩
    · rintro ⟨ha, hai⟩
      exact ⟨ha, (hkey a ha).symm.trans hai⟩

/-- A node not yet in use goes in front of the bucket of its key. -/
theorem Buckets.push [DecidableEq α] (h : Buckets next heads size key live) (ha : a ∉ live) :
    Buckets (Function.update next a (heads (key a)))
      (Function.update heads (key a) (some a)) size key (a :: live) := by
  intro i hi
  obtain ⟨l, hl, hnodup, hmem⟩ := h i hi
  have hal : a ∉ l := fun hal => ha ((hmem a).mp hal).1
  by_cases hai : key a = i
  · subst hai
    refine ⟨a :: l, ?_, List.nodup_cons.mpr ⟨hal, hnodup⟩, ?_⟩
    · rw [Function.update_self]
      exact hl.push hal
    · intro b
      rw [List.mem_cons, List.mem_cons, hmem b]
      constructor
      · rintro (rfl | ⟨hb, hbi⟩)
        · exact ⟨.inl rfl, rfl⟩
        · exact ⟨.inr hb, hbi⟩
      · rintro ⟨rfl | hb, hbi⟩
        · exact .inl rfl
        · exact .inr ⟨hb, hbi⟩
  · refine ⟨l, ?_, hnodup, ?_⟩
    · rw [Function.update_of_ne (Ne.symm hai)]
      apply hl.congr
      intro b hb
      have hba : b ≠ a := fun heq => hal (heq ▸ hb)
      rw [Function.update_of_ne hba]
    · intro b
      rw [hmem b, List.mem_cons]
      constructor
      · rintro ⟨hb, hbi⟩
        exact ⟨.inr hb, hbi⟩
      · rintro ⟨rfl | hb, hbi⟩
        · exact absurd hbi hai
        · exact ⟨hb, hbi⟩

/-- Walking a bucket without a node that has the property. -/
theorem Buckets.find_none (h : Buckets next heads size key live) {i fuel : Nat} (hi : i < size)
    (hfuel : live.length ≤ fuel) (hnone : ∀ b ∈ live, key b = i → ¬ p b) :
    ∃ prev, find next p fuel none (heads i) = some (prev, none) := by
  obtain ⟨l, hl, hnodup, hmem⟩ := h i hi
  have hsub : l ⊆ live := fun b hb => ((hmem b).mp hb).1
  have hlen := (hnodup.subperm hsub).length_le
  refine ⟨_, find_of_not_mem none hl (by omega) ?_⟩
  intro b hb
  obtain ⟨hlive, hkey⟩ := (hmem b).mp hb
  exact hnone b hlive hkey

/-- Walking a bucket finds the one node with the property, with the node before it;
taking it out of the list leaves the other nodes where they were. -/
theorem Buckets.find_some [DecidableEq α] (h : Buckets next heads size key live) {fuel : Nat}
    (hi : key a < size) (hfuel : live.length ≤ fuel) (hlive : live.Nodup) (ha : a ∈ live)
    (hpa : p a) (hsole : ∀ b ∈ live, key b = key a → p b → b = a) :
    ∃ prev, find next p fuel none (heads (key a)) = some (prev, some a) ∧ prev ≠ some a ∧
      (∀ b, prev = some b → b ∈ live) ∧
      Buckets (unlink next prev (next a)) (Function.update heads (key a)
        (if prev = none then next a else heads (key a))) size key (live.erase a) := by
  obtain ⟨l, hl, hnodup, hmem⟩ := h _ hi
  obtain ⟨l₁, b, l₂, rfl, hbefore, hpb⟩ := exists_first p ((hmem a).mpr ⟨ha, rfl⟩) hpa
  obtain ⟨hblive, hbkey⟩ := (hmem b).mp (by simp)
  obtain rfl : b = a := hsole b hblive hbkey hpb
  have hsub : l₁ ++ b :: l₂ ⊆ live := fun c hc => ((hmem c).mp hc).1
  have hlen := (hnodup.subperm hsub).length_le
  obtain ⟨hb₁, hb₂⟩ := not_mem_of_nodup hnodup
  have hfirst : l₁.getLast? = none ↔ l₁ = [] := List.getLast?_eq_none_iff
  have hfuel : l₁.length < fuel := by
    simp at hlen
    omega
  have hfind := find_of_mem none hl hfuel hbefore hpa
  rw [Option.or_none] at hfind
  refine ⟨l₁.getLast?, hfind, fun heq => hb₁ (List.mem_of_getLast? heq), ?_, ?_⟩
  · intro c hc
    exact hsub (List.mem_append_left _ (List.mem_of_getLast? hc))
  · intro i hi'
    by_cases hbi : key b = i
    · subst hbi
      refine ⟨l₁ ++ l₂, ?_, ?_, ?_⟩
      · rw [Function.update_self]
        simp only [hfirst]
        exact hl.remove hnodup
      · exact hnodup.sublist (List.Sublist.append_left (List.sublist_cons_self b l₂) l₁)
      · intro c
        rw [hlive.mem_erase_iff, and_assoc, ← hmem c]
        constructor
        · intro hc
          have hcb : c ≠ b := by
            rintro rfl
            rcases List.mem_append.mp hc with hc | hc
            · exact hb₁ hc
            · exact hb₂ hc
          refine ⟨hcb, ?_⟩
          rcases List.mem_append.mp hc with hc | hc
          · exact List.mem_append_left _ hc
          · exact List.mem_append_right _ (List.mem_cons_of_mem _ hc)
        · rintro ⟨hcb, hc⟩
          simpa [hcb] using hc
    · obtain ⟨l', hl', hnodup', hmem'⟩ := h i hi'
      refine ⟨l', ?_, hnodup', ?_⟩
      · rw [Function.update_of_ne (Ne.symm hbi)]
        apply hl'.congr
        intro c hc
        cases hlast : l₁.getLast? with
        | none => rfl
        | some q =>
            -- the node before is in the other bucket
            have hqkey := ((hmem q).mp (List.mem_append_left _ (List.mem_of_getLast? hlast))).2
            have hcq : c ≠ q := by
              rintro rfl
              exact hbi (hqkey.symm.trans ((hmem' c).mp hc).2)
            simp only [unlink, Function.update_of_ne hcq]
      · intro c
        rw [hmem' c, hlive.mem_erase_iff]
        constructor
        · rintro ⟨hc, hci⟩
          have hcb : c ≠ b := fun heq => hbi (heq ▸ hci)
          exact ⟨⟨hcb, hc⟩, hci⟩
        · rintro ⟨⟨_, hc⟩, hci⟩
          exact ⟨hc, hci⟩

end GameScript.LinkedList
