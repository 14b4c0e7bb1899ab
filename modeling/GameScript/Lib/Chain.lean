import Mathlib.Logic.Relation
import Mathlib.Logic.Function.Basic
import Mathlib.Data.Finset.Card
import Mathlib.Data.Finset.Filter

/-!
Singly linked chains over a fixed pool of nodes, given by a partial successor
function. A chain may be entered at any node; several chains share the pool.

`search` walks a chain for a node with a property. It is bounded by fuel, and on
an acyclic pool the size of the pool is fuel enough. The two edits are the ones
a chained scatter table makes: `insertAfter` puts an unused node behind another,
and `relocate` lets an unused node take the place of a linked one.
-/

namespace GameScript.Chain

variable {α : Type} {next : α → Option α}

/-- `b` is on the chain entered at `a`. -/
def Reach (next : α → Option α) : α → α → Prop :=
  Relation.ReflTransGen fun a b => next a = some b

/-- No chain returns to itself: a rank falls along every link. -/
def Acyclic (next : α → Option α) : Prop :=
  ∃ rank : α → Nat, ∀ a b, next a = some b → rank b < rank a

/-- No two links lead to one node. -/
def Separate (next : α → Option α) : Prop :=
  ∀ a a' b, next a = some b → next a' = some b → a = a'

/-- Nothing leads to `n` and `n` leads nowhere. -/
structure Unlinked (next : α → Option α) (n : α) : Prop where
  next_eq : next n = none
  no_link : ∀ a, next a ≠ some n

theorem Reach.refl (a : α) : Reach next a a := Relation.ReflTransGen.refl

theorem Reach.step {a b c : α} (h : next a = some b) (hbc : Reach next b c) : Reach next a c :=
  Relation.ReflTransGen.head h hbc

theorem Reach.single {a b : α} (h : next a = some b) : Reach next a b :=
  Relation.ReflTransGen.single h

theorem Reach.trans {a b c : α} (h : Reach next a b) (h' : Reach next b c) : Reach next a c :=
  Relation.ReflTransGen.trans h h'

/-- A node that leads nowhere reaches itself only. -/
theorem Reach.eq_of_next_none {a b : α} (ha : next a = none) (h : Reach next a b) : a = b := by
  rcases Relation.ReflTransGen.cases_head h with heq | ⟨c, hac, _⟩
  · exact heq
  · rw [ha] at hac
    cases hac

/-- A node off the entry is entered through a link. -/
theorem Reach.exists_prev {a b : α} (h : Reach next a b) (hne : a ≠ b) :
    ∃ c, Reach next a c ∧ next c = some b := by
  rcases Relation.ReflTransGen.cases_tail h with heq | ⟨c, hac, hcb⟩
  · exact absurd heq.symm hne
  · exact ⟨c, hac, hcb⟩

/-- A map of nodes that sends links to paths sends paths to paths. -/
theorem Reach.map {next' : α → Option α} (σ : α → α)
    (hlink : ∀ a b, next a = some b → Reach next' (σ a) (σ b)) {a b : α}
    (h : Reach next a b) : Reach next' (σ a) (σ b) := by
  induction h with
  | refl => exact Reach.refl _
  | tail _ hbc ih => exact ih.trans (hlink _ _ hbc)

/-! ### Searching a chain -/

/-- Walk the chain from a node for the first one with property `p`. `none` is a
walk longer than the fuel, `some none` one that came to the end of the chain. -/
def search (next : α → Option α) (p : α → Bool) : Nat → α → Option (Option α)
  | 0, _ => none
  | fuel + 1, a =>
      if p a then some (some a)
      else
        match next a with
        | none => some none
        | some b => search next p fuel b

/-- What a search finds is on the chain and is what was looked for. -/
theorem search_found {p : α → Bool} {a b : α} {fuel : Nat}
    (h : search next p fuel a = some (some b)) : p b ∧ Reach next a b := by
  induction fuel generalizing a with
  | zero => cases h
  | succ fuel ih =>
      rw [search] at h
      split at h
      · next hp =>
          obtain rfl : a = b := by simpa using h
          exact ⟨hp, Reach.refl a⟩
      · split at h
        · cases h
        · next c hac =>
            obtain ⟨hp, hcb⟩ := ih h
            exact ⟨hp, Reach.step hac hcb⟩

/-- A search to the end of the chain has looked at all of it. -/
theorem search_missing {p : α → Bool} {a b : α} {fuel : Nat}
    (h : search next p fuel a = some none) (hab : Reach next a b) : ¬ p b := by
  induction fuel generalizing a with
  | zero => cases h
  | succ fuel ih =>
      rw [search] at h
      split at h
      · cases h
      · next hp =>
          rcases Relation.ReflTransGen.cases_head hab with rfl | ⟨c, hac, hcb⟩
          · exact hp
          · rw [hac] at h
            exact ih h hcb

/-- On an acyclic pool a walk visits every node of the pool at most once, so it
comes to an end within the size of any closed part of the pool. -/
theorem search_terminates [DecidableEq α] (p : α → Bool) (hacyclic : Acyclic next)
    {s : Finset α} {fuel : Nat} {a : α} (ha : a ∈ s) (hclosed : ∀ a ∈ s, ∀ b, next a = some b → b ∈ s)
    (hfuel : s.card ≤ fuel) : (search next p fuel a).isSome := by
  obtain ⟨rank, hrank⟩ := hacyclic
  induction fuel generalizing a s with
  | zero =>
      have hempty : s = ∅ := Finset.card_eq_zero.mp (Nat.le_zero.mp hfuel)
      rw [hempty] at ha
      exact absurd ha (Finset.notMem_empty a)
  | succ fuel ih =>
      rw [search]
      split
      · rfl
      · split
        · rfl
        · next b hab =>
            -- what the walk can still visit ranks below `a`
            have hsub : s.filter (fun c => rank c < rank a) ⊆ s.erase a := by
              intro c hc
              obtain ⟨hcs, hlt⟩ := Finset.mem_filter.mp hc
              refine Finset.mem_erase.mpr ⟨?_, hcs⟩
              rintro rfl
              exact Nat.lt_irrefl _ hlt
            have hcard : (s.filter fun c => rank c < rank a).card ≤ fuel := by
              have hle := Finset.card_le_card hsub
              rw [Finset.card_erase_of_mem ha] at hle
              omega
            refine ih (s := s.filter fun c => rank c < rank a) ?_ ?_ hcard
            · exact Finset.mem_filter.mpr ⟨hclosed a ha b hab, hrank a b hab⟩
            · intro c hc d hcd
              obtain ⟨hcs, hlt⟩ := Finset.mem_filter.mp hc
              exact Finset.mem_filter.mpr
                ⟨hclosed c hcs d hcd, Nat.lt_trans (hrank c d hcd) hlt⟩

/-! ### The nodes of a chain, in order -/

/-- The chain entered at `a`, cut off after as many nodes as the fuel allows. -/
def trail (next : α → Option α) : Nat → α → List α
  | 0, _ => []
  | fuel + 1, a => a :: (next a).elim [] (trail next fuel)

/-- A trail is no longer than its fuel. -/
theorem length_trail_le (next : α → Option α) (fuel : Nat) (a : α) :
    (trail next fuel a).length ≤ fuel := by
  induction fuel generalizing a with
  | zero => exact Nat.le_refl 0
  | succ fuel ih =>
      rw [trail, List.length_cons]
      apply Nat.succ_le_succ
      cases next a with
      | none => exact Nat.zero_le fuel
      | some b => exact ih b

/-- In a closed part of an acyclic pool a chain is no longer than the part is large. -/
theorem trail_fuel [DecidableEq α] (hacyclic : Acyclic next) {s : Finset α} {fuel : Nat} {a : α}
    (ha : a ∈ s) (hclosed : ∀ a ∈ s, ∀ b, next a = some b → b ∈ s) (hfuel : s.card ≤ fuel) :
    trail next (fuel + 1) a = trail next fuel a := by
  obtain ⟨rank, hrank⟩ := hacyclic
  induction fuel generalizing a s with
  | zero =>
      have hempty : s = ∅ := Finset.card_eq_zero.mp (Nat.le_zero.mp hfuel)
      rw [hempty] at ha
      exact absurd ha (Finset.notMem_empty a)
  | succ fuel ih =>
      rw [trail, trail]
      congr 1
      cases hab : next a with
      | none => rfl
      | some b =>
          -- what the rest of the chain can visit ranks below `a`
          have hsub : s.filter (fun c => rank c < rank a) ⊆ s.erase a := by
            intro c hc
            obtain ⟨hcs, hlt⟩ := Finset.mem_filter.mp hc
            apply Finset.mem_erase.mpr ⟨_, hcs⟩
            rintro rfl
            exact Nat.lt_irrefl _ hlt
          have hcard : (s.filter fun c => rank c < rank a).card ≤ fuel := by
            have hle := Finset.card_le_card hsub
            rw [Finset.card_erase_of_mem ha] at hle
            omega
          apply ih (s := s.filter fun c => rank c < rank a) _ _ hcard
          · exact Finset.mem_filter.mpr ⟨hclosed a ha b hab, hrank a b hab⟩
          · intro c hc d hcd
            obtain ⟨hcs, hlt⟩ := Finset.mem_filter.mp hc
            exact Finset.mem_filter.mpr
              ⟨hclosed c hcs d hcd, Nat.lt_trans (hrank c d hcd) hlt⟩

/-- What holds of a node when it holds of the next one holds of every node. -/
theorem Acyclic.induction (hacyclic : Acyclic next) {motive : α → Prop}
    (step : ∀ a, (∀ b, next a = some b → motive b) → motive a) (a : α) : motive a := by
  obtain ⟨rank, hrank⟩ := hacyclic
  induction hn : rank a using Nat.strong_induction_on generalizing a with
  | _ n ih =>
      apply step
      intro b hab
      exact ih (rank b) (hn ▸ hrank a b hab) b rfl

/-- A chain does not come back to where it was entered. -/
theorem Acyclic.not_reach_self (hacyclic : Acyclic next) {a b : α} (hab : next a = some b) :
    ¬ Reach next b a := by
  obtain ⟨rank, hrank⟩ := hacyclic
  intro hreach
  have hle : ∀ c, Reach next b c → rank c ≤ rank b := by
    intro c hbc
    induction hbc with
    | refl => exact Nat.le_refl _
    | tail _ hcd ih => exact Nat.le_trans (Nat.le_of_lt (hrank _ _ hcd)) ih
  exact Nat.not_lt_of_ge (hle a hreach) (hrank a b hab)

variable [DecidableEq α]

/-! ### Giving a node another successor -/

/-- A node may be led to any node whose chain does not pass it. -/
theorem Acyclic.link (hacyclic : Acyclic next) {n m : α} (hreach : ¬ Reach next m n) :
    Acyclic (Function.update next n (some m)) := by
  classical
  obtain ⟨rank, hrank⟩ := hacyclic
  -- all that leads to `n` is raised above `m`
  refine ⟨fun a => if Reach next a n then rank a + rank m + 1 else rank a, ?_⟩
  intro a b hab
  by_cases ha : a = n
  · subst ha
    rw [Function.update_self] at hab
    obtain rfl := Option.some.inj hab
    simp only [hreach, Reach.refl a, if_true, if_false]
    omega
  · rw [Function.update_of_ne ha] at hab
    have hlt := hrank a b hab
    beta_reduce
    by_cases hbn : Reach next b n
    · rw [if_pos hbn, if_pos (Reach.step hab hbn)]
      omega
    · rw [if_neg hbn]
      split <;> omega

/-- A node may be led nowhere. -/
theorem Acyclic.unlink (hacyclic : Acyclic next) (n : α) :
    Acyclic (Function.update next n none) := by
  obtain ⟨rank, hrank⟩ := hacyclic
  refine ⟨rank, ?_⟩
  intro a b hab
  by_cases ha : a = n
  · subst ha
    rw [Function.update_self] at hab
    cases hab
  · rw [Function.update_of_ne ha] at hab
    exact hrank a b hab

/-! ### Linking a node that nothing leads to -/

/-- A new end of the chain makes no cycle. -/
theorem Acyclic.update (hacyclic : Acyclic next) {n : α} {m : Option α}
    (hlink : ∀ a, next a ≠ some n) (hm : m ≠ some n) : Acyclic (Function.update next n m) := by
  obtain ⟨rank, hrank⟩ := hacyclic
  refine ⟨Function.update rank n ((m.elim 0 rank) + 1), ?_⟩
  intro a b hab
  by_cases ha : a = n
  · subst ha
    rw [Function.update_self] at hab
    subst hab
    have hba : b ≠ a := fun heq => hm (heq ▸ rfl)
    simp [hba]
  · rw [Function.update_of_ne ha] at hab
    have hbn : b ≠ n := fun heq => hlink a (heq ▸ hab)
    rw [Function.update_of_ne ha, Function.update_of_ne hbn]
    exact hrank a b hab

/-! ### Putting an unused node behind another -/

/-- Node `n` comes between `a` and what followed `a`. -/
def insertAfter (next : α → Option α) (a n : α) : α → Option α :=
  Function.update (Function.update next n (next a)) a (some n)

section InsertAfter

variable {a n : α}

theorem insertAfter_self : insertAfter next a n a = some n := by
  simp [insertAfter]

theorem insertAfter_new (hne : n ≠ a) : insertAfter next a n n = next a := by
  simp [insertAfter, hne]

theorem insertAfter_other {b : α} (ha : b ≠ a) (hn : b ≠ n) :
    insertAfter next a n b = next b := by
  simp [insertAfter, ha, hn]

/-- The links after the insertion: the new one, the two halves of the old one,
and those of the other nodes. -/
theorem insertAfter_link (hne : n ≠ a) {b c : α} (h : insertAfter next a n b = some c) :
    (b = a ∧ c = n) ∨ (b = n ∧ next a = some c) ∨ (b ≠ a ∧ b ≠ n ∧ next b = some c) := by
  by_cases hb : b = a
  · subst hb
    rw [insertAfter_self] at h
    exact .inl ⟨rfl, (Option.some.inj h).symm⟩
  · by_cases hn : b = n
    · subst hn
      rw [insertAfter_new hne] at h
      exact .inr (.inl ⟨rfl, h⟩)
    · rw [insertAfter_other hb hn] at h
      exact .inr (.inr ⟨hb, hn, h⟩)

/-- An unlinked element that is put behind another one makes no cycle. -/
theorem insertAfter_acyclic (hne : n ≠ a) (hn : Unlinked next n) (h : Acyclic next) :
    Acyclic (insertAfter next a n) := by
  obtain ⟨rank, hrank⟩ := h
  -- every rank is doubled, which leaves a rank for the new node just below `a`
  refine ⟨Function.update (fun b => 2 * rank b + 2) n (2 * rank a + 1), ?_⟩
  intro b c hbc
  rcases insertAfter_link hne hbc with ⟨rfl, rfl⟩ | ⟨rfl, hac⟩ | ⟨hba, hbn, hbc⟩
  · simp [hne.symm]
  · have hcn : c ≠ b := fun heq => hn.no_link a (heq ▸ hac)
    have hlt := hrank a c hac
    simp only [Function.update_self, Function.update_of_ne hcn]
    omega
  · have hcn : c ≠ n := fun heq => hn.no_link b (heq ▸ hbc)
    have hlt := hrank b c hbc
    simp only [Function.update_of_ne hcn, Function.update_of_ne hbn]
    omega

/-- An unlinked element that is put behind another one joins no chains. -/
theorem insertAfter_separate (hne : n ≠ a) (hn : Unlinked next n) (h : Separate next) :
    Separate (insertAfter next a n) := by
  intro b b' c hb hb'
  rcases insertAfter_link hne hb with ⟨rfl, rfl⟩ | ⟨rfl, hac⟩ | ⟨hba, hbn, hbc⟩ <;>
    rcases insertAfter_link hne hb' with ⟨rfl, hcn⟩ | ⟨rfl, hac'⟩ | ⟨hba', hbn', hbc'⟩
  · rfl
  · exact absurd hac' (hn.no_link _)
  · exact absurd hbc' (hn.no_link _)
  · exact absurd (hcn ▸ hac) (hn.no_link _)
  · rfl
  · exact absurd (h _ _ _ hac hbc').symm hba'
  · exact absurd (hcn ▸ hbc) (hn.no_link _)
  · exact absurd (h _ _ _ hbc hac') hba
  · exact h _ _ _ hbc hbc'

/-- Whatever was reached is reached past the new element. -/
theorem insertAfter_reach (hne : n ≠ a) (hn : Unlinked next n) {b c : α} (h : Reach next b c) :
    Reach (insertAfter next a n) b c := by
  refine h.map id ?_
  intro b c hbc
  by_cases hb : b = a
  · subst hb
    refine Reach.step insertAfter_self (Reach.single ?_)
    rw [insertAfter_new hne]
    exact hbc
  · have hbn : b ≠ n := by
      rintro rfl
      rw [hn.next_eq] at hbc
      cases hbc
    exact Reach.single ((insertAfter_other hb hbn).trans hbc)

end InsertAfter

/-! ### Moving a linked node to an unused one -/

/-- Node `n` takes the place of `m`, which followed `p`; `m` becomes unlinked. -/
def relocate (next : α → Option α) (p m n : α) : α → Option α :=
  Function.update (Function.update (Function.update next p (some n)) n (next m)) m none

section Relocate

variable {p m n : α}

theorem relocate_moved : relocate next p m n m = none := by
  simp [relocate]

theorem relocate_new (hnm : n ≠ m) : relocate next p m n n = next m := by
  simp [relocate, hnm]

theorem relocate_prev (hpm : p ≠ m) (hpn : p ≠ n) : relocate next p m n p = some n := by
  simp [relocate, hpm, hpn]

theorem relocate_other {b : α} (hm : b ≠ m) (hn : b ≠ n) (hp : b ≠ p) :
    relocate next p m n b = next b := by
  simp [relocate, hm, hn, hp]

/-- Moving an element changes the links of its neighbours and its own only. -/
theorem relocate_link (hpm : p ≠ m) (hnm : n ≠ m) (hpn : p ≠ n) {b c : α}
    (h : relocate next p m n b = some c) :
    (b = p ∧ c = n) ∨ (b = n ∧ next m = some c) ∨
      (b ≠ p ∧ b ≠ m ∧ b ≠ n ∧ next b = some c) := by
  by_cases hbm : b = m
  · subst hbm
    rw [relocate_moved] at h
    cases h
  · by_cases hbn : b = n
    · subst hbn
      rw [relocate_new hnm] at h
      exact .inr (.inl ⟨rfl, h⟩)
    · by_cases hbp : b = p
      · subst hbp
        rw [relocate_prev hpm hpn] at h
        exact .inl ⟨rfl, (Option.some.inj h).symm⟩
      · rw [relocate_other hbm hbn hbp] at h
        exact .inr (.inr ⟨hbp, hbm, hbn, h⟩)

/-- Moving an element makes no cycle. -/
theorem relocate_acyclic (hpm : p ≠ m) (hnm : n ≠ m) (hpn : p ≠ n) (hp : next p = some m)
    (hn : Unlinked next n) (h : Acyclic next) : Acyclic (relocate next p m n) := by
  obtain ⟨rank, hrank⟩ := h
  refine ⟨Function.update rank n (rank m), ?_⟩
  intro b c hbc
  rcases relocate_link hpm hnm hpn hbc with ⟨rfl, rfl⟩ | ⟨rfl, hmc⟩ | ⟨hbp, hbm, hbn, hbc⟩
  · simpa [hpn] using hrank _ _ hp
  · have hcn : c ≠ b := fun heq => hn.no_link m (heq ▸ hmc)
    simpa [hcn] using hrank _ _ hmc
  · have hcn : c ≠ n := fun heq => hn.no_link b (heq ▸ hbc)
    simpa [hcn, hbn] using hrank _ _ hbc

/-- Moving an element joins no chains. -/
theorem relocate_separate (hpm : p ≠ m) (hnm : n ≠ m) (hpn : p ≠ n)
    (hn : Unlinked next n) (h : Separate next) : Separate (relocate next p m n) := by
  intro b b' c hb hb'
  rcases relocate_link hpm hnm hpn hb with ⟨rfl, rfl⟩ | ⟨rfl, hmc⟩ | ⟨hbp, hbm, hbn, hbc⟩ <;>
    rcases relocate_link hpm hnm hpn hb' with
      ⟨rfl, hcn⟩ | ⟨rfl, hmc'⟩ | ⟨hbp', hbm', hbn', hbc'⟩
  · rfl
  · exact absurd hmc' (hn.no_link _)
  · exact absurd hbc' (hn.no_link _)
  · exact absurd (hcn ▸ hmc) (hn.no_link _)
  · rfl
  · exact absurd (h _ _ _ hmc hbc').symm hbm'
  · exact absurd (hcn ▸ hbc) (hn.no_link _)
  · exact absurd (h _ _ _ hbc hmc') hbm
  · exact h _ _ _ hbc hbc'

/-- Paths survive with `n` read for `m`. -/
theorem relocate_reach (hpm : p ≠ m) (hnm : n ≠ m) (hpn : p ≠ n) (hp : next p = some m)
    (hn : Unlinked next n) (hsep : Separate next) {b c : α} (h : Reach next b c) :
    Reach (relocate next p m n) (if b = m then n else b) (if c = m then n else c) := by
  refine h.map (fun b => if b = m then n else b) ?_
  intro b c hbc
  have hcn : c ≠ n := fun heq => hn.no_link b (heq ▸ hbc)
  have hbn : b ≠ n := by
    rintro rfl
    rw [hn.next_eq] at hbc
    cases hbc
  by_cases hcm : c = m
  · subst hcm
    obtain rfl : b = p := hsep _ _ _ hbc hp
    rw [if_neg hpm, if_pos rfl]
    exact Reach.single (relocate_prev hpm hpn)
  · rw [if_neg hcm]
    by_cases hbm : b = m
    · subst hbm
      rw [if_pos rfl]
      exact Reach.single ((relocate_new hnm).trans hbc)
    · rw [if_neg hbm]
      have hbp : b ≠ p := by
        rintro rfl
        rw [hp] at hbc
        exact hcm (Option.some.inj hbc).symm
      exact Reach.single ((relocate_other hbm hbn hbp).trans hbc)

end Relocate

end GameScript.Chain
