import GameScript.Lib.Chain

/-!
The wiring of a chained scatter table whose colliding entries are moved.

Keys and chains live in one pool of nodes numbered from zero; `null` marks a
free node. A key belongs to the chain entered at its main position, and a key in
its own main position is never displaced by another chain. Nodes are taken from
a bound downwards, so every link and every displaced key lies above it.

The lemmas are the edits such a table makes: a key put into its free main
position, a key put into an unused node behind its main position, a displaced
key moved away from another's main position, and a key erased with its node left
linked.
-/

namespace GameScript.Scatter

open GameScript.Chain

variable {κ : Type} {null : κ} {main : κ → Nat} {size bound : Nat} {key : Nat → κ}
  {next : Nat → Option Nat}

/-- The keys and links of a pool fit together. -/
structure Wired (null : κ) (main : κ → Nat) (size : Nat) (key : Nat → κ)
    (next : Nat → Option Nat) : Prop where
  key_lt : ∀ i, key i ≠ null → i < size
  link_lt : ∀ i j, next i = some j → i < size ∧ j < size
  acyclic : Acyclic next
  separate : Separate next
  nodup : ∀ i j, key i ≠ null → key i = key j → i = j
  reach : ∀ i, key i ≠ null → Reach next (main (key i)) i
  main_owned : ∀ i j, key i ≠ null → main (key i) ≠ i → key j ≠ null → main (key j) ≠ i

/-- What was taken from the pool for colliding keys lies above the bound. -/
structure Above (null : κ) (main : κ → Nat) (bound : Nat) (key : Nat → κ)
    (next : Nat → Option Nat) : Prop where
  link : ∀ i j, next i = some j → bound < j
  displaced : ∀ i, key i ≠ null → main (key i) ≠ i → bound < i

/-- An empty pool. -/
theorem wired_empty : Wired null main size (fun _ => null) fun _ => none where
  key_lt _ h := absurd rfl h
  link_lt _ _ h := by cases h
  acyclic := ⟨fun _ => 0, fun _ _ h => by cases h⟩
  separate _ _ _ h := by cases h
  nodup _ _ h := absurd rfl h
  reach _ h := absurd rfl h
  main_owned _ _ h := absurd rfl h

theorem above_empty : Above null main bound (fun _ => null) fun _ => none where
  link _ _ h := by cases h
  displaced _ h := absurd rfl h

namespace Above

theorem mono (h : Above null main bound key next) {bound' : Nat} (hle : bound' ≤ bound) :
    Above null main bound' key next where
  link i j hij := Nat.lt_of_le_of_lt hle (h.link i j hij)
  displaced i hi hne := Nat.lt_of_le_of_lt hle (h.displaced i hi hne)

/-- The node at the bound, when it leads nowhere, is on no chain but its own. -/
theorem unlinked (h : Above null main bound key next) (hnext : next bound = none) :
    Unlinked next bound where
  next_eq := hnext
  no_link a ha := Nat.lt_irrefl _ (h.link a bound ha)

theorem erase (h : Above null main bound key next) (n : Nat) :
    Above null main bound (Function.update key n null) next where
  link := h.link
  displaced i hi hne := by
    have hin : i ≠ n := by
      rintro rfl
      simp at hi
    rw [Function.update_of_ne hin] at hi hne
    exact h.displaced i hi hne

theorem insertMain (h : Above null main bound key next) {k : κ} {mp : Nat} (hmain : main k = mp) :
    Above null main bound (Function.update key mp k) next where
  link := h.link
  displaced i hi hne := by
    have him : i ≠ mp := by
      rintro rfl
      rw [Function.update_self] at hne
      exact hne hmain
    rw [Function.update_of_ne him] at hi hne
    exact h.displaced i hi hne

theorem insertBehind (h : Above null main bound key next) {k : κ} {mp bound' : Nat}
    (hne : bound ≠ mp) (hbound : bound' < bound) :
    Above null main bound' (Function.update key bound k) (insertAfter next mp bound) where
  link i j hij := by
    rcases insertAfter_link hne hij with ⟨rfl, rfl⟩ | ⟨rfl, hj⟩ | ⟨_, _, hij⟩
    · exact hbound
    · exact Nat.lt_trans hbound (h.link _ _ hj)
    · exact Nat.lt_trans hbound (h.link _ _ hij)
  displaced i hi hne' := by
    by_cases hib : i = bound
    · exact hib ▸ hbound
    · rw [Function.update_of_ne hib] at hi hne'
      exact Nat.lt_trans hbound (h.displaced i hi hne')

theorem insertMoved (h : Above null main bound key next) {k : κ} {mp prev bound' : Nat}
    (hmain : main k = mp) (hne : bound ≠ mp) (hpm : prev ≠ mp) (hpn : prev ≠ bound)
    (hbound : bound' < bound) :
    Above null main bound' (Function.update (Function.update key bound (key mp)) mp k)
      (relocate next prev mp bound) where
  link i j hij := by
    rcases relocate_link hpm hne hpn hij with ⟨rfl, rfl⟩ | ⟨rfl, hj⟩ | ⟨_, _, _, hij⟩
    · exact hbound
    · exact Nat.lt_trans hbound (h.link _ _ hj)
    · exact Nat.lt_trans hbound (h.link _ _ hij)
  displaced i hi hne' := by
    by_cases hib : i = bound
    · exact hib ▸ hbound
    · have him : i ≠ mp := by
        rintro rfl
        rw [Function.update_self] at hne'
        exact hne' hmain
      rw [Function.update_of_ne him, Function.update_of_ne hib] at hi hne'
      exact Nat.lt_trans hbound (h.displaced i hi hne')

end Above

namespace Wired

/-- No stored key has its main position in a free node that leads nowhere. -/
theorem main_ne (h : Wired null main size key next) {n : Nat} (hkey : key n = null)
    (hnext : next n = none) {i : Nat} (hi : key i ≠ null) : main (key i) ≠ n := by
  intro hmain
  have hreach : Reach next n i := hmain ▸ h.reach i hi
  have heq : n = i := hreach.eq_of_next_none hnext
  exact hi (heq ▸ hkey)

theorem link_ne (h : Wired null main size key next) {i j : Nat} (hij : next i = some j) :
    i ≠ j := by
  rintro rfl
  obtain ⟨rank, hrank⟩ := h.acyclic
  exact Nat.lt_irrefl _ (hrank _ _ hij)

/-- A walk from any node of the pool ends within its size. -/
theorem search_isSome (h : Wired null main size key next) (p : Nat → Bool) {i : Nat}
    (hi : i < size) : (search next p size i).isSome := by
  refine search_terminates p h.acyclic (s := Finset.range size) (Finset.mem_range.mpr hi) ?_ ?_
  · exact fun a _ b hab => Finset.mem_range.mpr (h.link_lt a b hab).2
  · exact (Finset.card_range size).le

/-- Erase the key of a node and leave its link. -/
theorem erase (h : Wired null main size key next) (n : Nat) :
    Wired null main size (Function.update key n null) next := by
  have hold : ∀ {i}, Function.update key n null i ≠ null →
      Function.update key n null i = key i := by
    intro i hi
    by_cases hin : i = n
    · subst hin
      simp at hi
    · exact Function.update_of_ne hin _ _
  constructor
  · intro i hi
    exact h.key_lt i (hold hi ▸ hi)
  · exact h.link_lt
  · exact h.acyclic
  · exact h.separate
  · intro i j hi hij
    have hj : Function.update key n null j ≠ null := hij ▸ hi
    rw [hold hi, hold hj] at hij
    exact h.nodup i j (hold hi ▸ hi) hij
  · intro i hi
    rw [hold hi]
    exact h.reach i (hold hi ▸ hi)
  · intro i j hi hne hj
    rw [hold hi] at hne
    rw [hold hj]
    exact h.main_owned i j (hold hi ▸ hi) hne (hold hj ▸ hj)

section Insert

variable {k : κ} (habsent : ∀ i, key i ≠ k)

include habsent

/-- Put a new key into its main position. -/
theorem insertMain (h : Wired null main size key next) {mp : Nat} (hmp : mp < size)
    (hmain : main k = mp) :
    Wired null main size (Function.update key mp k) next := by
  have hold : ∀ {i}, i ≠ mp → Function.update key mp k i = key i :=
    fun hi => Function.update_of_ne hi _ _
  constructor
  · intro i hi
    by_cases him : i = mp
    · exact him ▸ hmp
    · exact h.key_lt i (hold him ▸ hi)
  · exact h.link_lt
  · exact h.acyclic
  · exact h.separate
  · intro i j hi hij
    by_cases him : i = mp <;> by_cases hjm : j = mp
    · rw [him, hjm]
    · rw [him, Function.update_self, hold hjm] at hij
      exact absurd hij.symm (habsent j)
    · rw [hjm, Function.update_self, hold him] at hij
      exact absurd hij (habsent i)
    · rw [hold him, hold hjm] at hij
      exact h.nodup i j (hold him ▸ hi) hij
  · intro i hi
    by_cases him : i = mp
    · rw [him, Function.update_self, hmain]
      exact Reach.refl mp
    · rw [hold him]
      exact h.reach i (hold him ▸ hi)
  · intro i j hi hne hj
    by_cases him : i = mp
    · rw [him, Function.update_self] at hne
      exact absurd hmain hne
    · rw [hold him] at hi hne
      by_cases hjm : j = mp
      · rw [hjm, Function.update_self, hmain]
        exact Ne.symm him
      · rw [hold hjm] at hj ⊢
        exact h.main_owned i j hi hne hj

/-- Put a new key into an unused node, behind its main position, which holds a
key of its own chain. -/
theorem insertBehind (h : Wired null main size key next) {mp n : Nat} (hmp : key mp ≠ null)
    (hown : main (key mp) = mp) (hmain : main k = mp) (hlt : n < size)
    (hfree : key n = null) (hun : Unlinked next n) :
    Wired null main size (Function.update key n k) (insertAfter next mp n) := by
  have hne : n ≠ mp := by
    rintro rfl
    exact hmp hfree
  have hold : ∀ {i}, i ≠ n → Function.update key n k i = key i :=
    fun hi => Function.update_of_ne hi _ _
  constructor
  · intro i hi
    by_cases hin : i = n
    · exact hin ▸ hlt
    · exact h.key_lt i (hold hin ▸ hi)
  · intro i j hij
    rcases insertAfter_link hne hij with ⟨rfl, rfl⟩ | ⟨rfl, hj⟩ | ⟨_, _, hij⟩
    · exact ⟨h.key_lt _ hmp, hlt⟩
    · exact ⟨hlt, (h.link_lt _ _ hj).2⟩
    · exact h.link_lt i j hij
  · exact insertAfter_acyclic hne hun h.acyclic
  · exact insertAfter_separate hne hun h.separate
  · intro i j hi hij
    by_cases hin : i = n <;> by_cases hjn : j = n
    · rw [hin, hjn]
    · rw [hin, Function.update_self, hold hjn] at hij
      exact absurd hij.symm (habsent j)
    · rw [hjn, Function.update_self, hold hin] at hij
      exact absurd hij (habsent i)
    · rw [hold hin, hold hjn] at hij
      exact h.nodup i j (hold hin ▸ hi) hij
  · intro i hi
    by_cases hin : i = n
    · rw [hin, Function.update_self, hmain]
      exact Reach.single insertAfter_self
    · rw [hold hin]
      exact insertAfter_reach hne hun (h.reach i (hold hin ▸ hi))
  · intro i j hi hne' hj
    -- no key has its main position at `n`, and `mp` holds one of its own
    have hjmain : ∀ j, key j ≠ null → main (key j) ≠ n :=
      fun j hj => h.main_ne hfree hun.next_eq hj
    by_cases hin : i = n
    · rw [hin]
      by_cases hjn : j = n
      · rw [hjn, Function.update_self, hmain]
        exact hne.symm
      · rw [hold hjn] at hj ⊢
        exact hjmain j hj
    · rw [hold hin] at hi hne'
      by_cases hjn : j = n
      · rw [hjn, Function.update_self, hmain]
        rintro rfl
        exact hne' hown
      · rw [hold hjn] at hj ⊢
        exact h.main_owned i j hi hne' hj

/-- Put a new key into its main position after moving the displaced key there
to an unused node. -/
theorem insertMoved (h : Wired null main size key next) {mp prev n : Nat}
    (hmp : key mp ≠ null) (hdisplaced : main (key mp) ≠ mp) (hmain : main k = mp)
    (hprev : next prev = some mp) (hlt : n < size) (hfree : key n = null)
    (hun : Unlinked next n) :
    Wired null main size (Function.update (Function.update key n (key mp)) mp k)
      (relocate next prev mp n) := by
  have hne : n ≠ mp := by
    rintro rfl
    exact hmp hfree
  have hpn : prev ≠ n := by
    rintro rfl
    rw [hun.next_eq] at hprev
    cases hprev
  have hpm : prev ≠ mp := h.link_ne hprev
  have hself : Function.update (Function.update key n (key mp)) mp k mp = k :=
    Function.update_self ..
  have hnew : Function.update (Function.update key n (key mp)) mp k n = key mp := by
    rw [Function.update_of_ne hne, Function.update_self]
  have hold : ∀ {i}, i ≠ mp → i ≠ n →
      Function.update (Function.update key n (key mp)) mp k i = key i := by
    intro i him hin
    rw [Function.update_of_ne him, Function.update_of_ne hin]
  -- no stored key has its main position at `mp` or at `n`
  have hnomp : ∀ j, key j ≠ null → main (key j) ≠ mp :=
    fun j hj => h.main_owned mp j hmp hdisplaced hj
  have hnon : ∀ j, key j ≠ null → main (key j) ≠ n :=
    fun j hj => h.main_ne hfree hun.next_eq hj
  constructor
  · intro i hi
    by_cases him : i = mp
    · exact him ▸ h.key_lt mp hmp
    · by_cases hin : i = n
      · exact hin ▸ hlt
      · exact h.key_lt i (hold him hin ▸ hi)
  · intro i j hij
    rcases relocate_link hpm hne hpn hij with ⟨rfl, rfl⟩ | ⟨rfl, hj⟩ | ⟨_, _, _, hij⟩
    · exact ⟨(h.link_lt _ _ hprev).1, hlt⟩
    · exact ⟨hlt, (h.link_lt _ _ hj).2⟩
    · exact h.link_lt i j hij
  · exact relocate_acyclic hpm hne hpn hprev hun h.acyclic
  · exact relocate_separate hpm hne hpn hun h.separate
  · -- read the key of every node before the move: `mp` for the n, `k` for `mp`
    intro i j hi hij
    by_cases him : i = mp <;> by_cases hjm : j = mp
    · rw [him, hjm]
    · rw [him, hself] at hij
      by_cases hjn : j = n
      · rw [hjn, hnew] at hij
        exact absurd hij.symm (habsent mp)
      · rw [hold hjm hjn] at hij
        exact absurd hij.symm (habsent j)
    · rw [hjm, hself] at hij
      by_cases hin : i = n
      · rw [hin, hnew] at hij
        exact absurd hij (habsent mp)
      · rw [hold him hin] at hij
        exact absurd hij (habsent i)
    · by_cases hin : i = n <;> by_cases hjn : j = n
      · rw [hin, hjn]
      · rw [hin, hnew, hold hjm hjn] at hij
        exact absurd (h.nodup mp j hmp hij).symm hjm
      · rw [hjn, hnew, hold him hin] at hij
        exact absurd (h.nodup mp i hmp hij.symm).symm him
      · rw [hold him hin] at hi
        rw [hold him hin, hold hjm hjn] at hij
        exact h.nodup i j hi hij
  · intro i hi
    by_cases him : i = mp
    · rw [him, hself, hmain]
      exact Reach.refl mp
    · by_cases hin : i = n
      · rw [hin, hnew]
        have hpath := relocate_reach hpm hne hpn hprev hun h.separate (h.reach mp hmp)
        rwa [if_neg (hnomp mp hmp), if_pos rfl] at hpath
      · rw [hold him hin] at hi ⊢
        have hpath := relocate_reach hpm hne hpn hprev hun h.separate (h.reach i hi)
        rwa [if_neg (hnomp i hi), if_neg him] at hpath
  · intro i j hi hne' hj
    have him : i ≠ mp := by
      rintro rfl
      rw [hself] at hne'
      exact hne' hmain
    by_cases hjm : j = mp
    · rw [hjm, hself, hmain]
      exact him.symm
    · have hjmain : ∃ j', key j' ≠ null ∧
          Function.update (Function.update key n (key mp)) mp k j = key j' := by
        by_cases hjn : j = n
        · exact ⟨mp, hmp, hjn ▸ hnew⟩
        · exact ⟨j, hold hjm hjn ▸ hj, hold hjm hjn⟩
      obtain ⟨j', hj', heq⟩ := hjmain
      rw [heq]
      by_cases hin : i = n
      · rw [hin]
        exact hnon j' hj'
      · rw [hold him hin] at hi hne'
        exact h.main_owned i j' hi hne' hj'

end Insert

end Wired

end GameScript.Scatter
