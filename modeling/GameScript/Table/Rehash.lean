import GameScript.Table.NewSlot

/-!
What each public operation of `GSTable` does to the stored pairs. Every one ends,
keeps the table well formed and changes the pairs of the keys it names only;
`Rehash` changes none.
-/

namespace GameScript.Table

open GameScript.Chain GameScript.Scatter

variable {hash : Object → Nat} {t : Table}

/-! ### Rehash -/

theorem keyed_eq_occupied (t : Table) : keyed t.nodes t.numofnodes 0 = t.occupied := by
  ext i
  simp [mem_keyed, mem_occupied]

/-- The new node array has a node to spare, also when one key is not counted yet. -/
theorem rehashSize_room {force : Bool} {oldsize nSize card : Nat} {nelems : Int}
    (h : rehashSize force oldsize nelems = some nSize) (hsize : ∃ k, oldsize = 2 ^ (k + 2))
    (hcard : (card : Int) ≤ nelems + 1) (hle : card ≤ oldsize) :
    card < nSize ∧ ∃ k, nSize = 2 ^ (k + 2) := by
  obtain ⟨k, hk⟩ := hsize
  have hfour : oldsize = 4 * 2 ^ k := by rw [hk, Nat.pow_add, Nat.mul_comm]
  have hpos : 0 < 2 ^ k := Nat.two_pow_pos k
  unfold rehashSize at h
  split at h
  · obtain rfl : oldsize * 2 = nSize := Option.some.inj h
    exact ⟨by omega, k + 1, by rw [hk, ← Nat.pow_succ]⟩
  · split at h
    · next hsmall =>
        obtain rfl : oldsize / 2 = nSize := Option.some.inj h
        unfold MINPOWER2 at hsmall
        -- a table of more than four nodes has at least eight
        obtain ⟨l, rfl⟩ : ∃ l, k = l + 1 := by
          cases k with
          | zero => omega
          | succ l => exact ⟨l, rfl⟩
        have hpow : 2 ^ (l + 1) = 2 * 2 ^ l := by rw [Nat.pow_succ, Nat.mul_comm]
        have hposl : 0 < 2 ^ l := Nat.two_pow_pos l
        refine ⟨by omega, l, ?_⟩
        rw [Nat.pow_add]
        omega
    · split at h
      · obtain rfl : oldsize = nSize := Option.some.inj h
        exact ⟨by omega, k, hk⟩
      · cases h

variable (hash) in
/-- `Rehash` leaves the table alone or fills a fresh one with the same pairs. -/
theorem rehash_spec (hkeys : ∀ i, (t.nodes i).key ≠ .null → i < t.numofnodes)
    (hnodup : ∀ i j, (t.nodes i).key ≠ .null → (t.nodes i).key = (t.nodes j).key → i = j)
    (hsize : ∃ k, t.numofnodes = 2 ^ (k + 2)) (hused : (t.occupied.card : Int) ≤ t.usednodes + 1)
    (force : Bool) (fuel : Nat) :
    ∃ t', rehash (newSlot hash (fuel + 1)) force t = some t' ∧
      (force = false ∧ t' = t ∨ Fresh hash t') ∧ t'.delegate = t.delegate ∧
      ∀ k v, k ≠ .null → (t'.Stores k v ↔ t.Stores k v) := by
  have hfour : ¬ t.numofnodes < 4 := by
    obtain ⟨k, hk⟩ := hsize
    have hpos : 0 < 2 ^ k := Nat.two_pow_pos k
    rw [hk, Nat.pow_add]
    omega
  unfold rehash
  simp only [if_neg hfour]
  split
  · next hnone =>
      refine ⟨t, rfl, .inl ⟨?_, rfl⟩, rfl, fun _ _ _ => Iff.rfl⟩
      cases force with
      | false => rfl
      | true =>
          simp only [rehashSize, if_true] at hnone
          split at hnone
          · cases hnone
          · split at hnone <;> cases hnone
  · next nSize hsome =>
      have hle : t.occupied.card ≤ t.numofnodes := by
        have hcard := Finset.card_filter_le (Finset.range t.numofnodes)
          fun i => (t.nodes i).key ≠ .null
        rwa [Finset.card_range] at hcard
      obtain ⟨hroom, hpow⟩ := rehashSize_room hsome hsize hused hle
      have hempty : (t.allocNodes nSize).occupied.card = 0 := by simp [occupied, allocNodes]
      obtain ⟨t', hins, hfresh, hdelegate, hstores⟩ :=
        insertNodes_spec hnodup fuel t.numofnodes 0
          { t.allocNodes nSize with usednodes := 0 } (fresh_allocNodes hash t hpow)
          (fun j hj i hi => (mem_keyed.mp hj).2 hi.symm)
          (by
            rw [keyed_eq_occupied]
            show (t.allocNodes nSize).occupied.card + _ < nSize
            rw [hempty]
            omega)
      refine ⟨t', hins, .inr hfresh, hdelegate, fun k v hk => (hstores k v hk).trans ?_⟩
      constructor
      · rintro (⟨i, hi, _⟩ | ⟨j, _, hjk⟩)
        · exact absurd hi.symm hk
        · exact ⟨j, hjk⟩
      · rintro ⟨j, hjk, hjv⟩
        have hj : (t.nodes j).key ≠ .null := hjk ▸ hk
        refine .inr ⟨j, ?_, hjk, hjv⟩
        rw [keyed_eq_occupied]
        exact mem_occupied.mpr ⟨hkeys j hj, hj⟩

/-! ### NewSlot and Set -/

section

variable (h : WellFormed hash t) {key : Object} (hkey : key ≠ .null)
  (hget : t._get key (t.mainPosition hash key) = some none) {t₁ : Table} {mp : Nat}
  (hplace : t.place hash (t.mainPosition hash key) key = some (t₁, mp))

include hget hplace

/-- A place for the next key is left. -/
theorem newSlot_placed {firstfree : Nat}
    (hff : correctFirstfree t₁.nodes t₁.firstfree = some firstfree) (val : Object) (fuel : Nat) :
    newSlot hash (fuel + 1) t key val = some ({ t₁.setVal mp val with
      firstfree := firstfree, usednodes := t₁.usednodes + 1 }, true) := by
  simp [newSlot, hget, hplace, hff]

include h hkey

/-- No place is left: rehash with the key in place, then write its value. -/
theorem newSlot_rehashed (hplaced : Placed hash t key t₁ mp)
    (hff : correctFirstfree t₁.nodes t₁.firstfree = none) (val : Object) (fuel : Nat) :
    ∃ t', newSlot hash (fuel + 2) t key val = some (t', false) ∧ Stored hash t key val t' := by
  obtain ⟨x, hx, hocc⟩ := hplaced.occupied
  have hused : ((occupied { t₁ with firstfree := 0 }).card : Int) ≤ t₁.usednodes + 1 := by
    show (t₁.occupied.card : Int) ≤ _
    rw [hocc, Finset.card_insert_of_notMem hx, hplaced.usednodes, h.used]
    exact Int.le_refl _
  obtain ⟨t₂, hrehash, hfresh, hdelegate, hstores⟩ :=
    rehash_spec hash (t := { t₁ with firstfree := 0 }) hplaced.wired.key_lt
      hplaced.wired.nodup (hplaced.numofnodes.symm ▸ h.size) hused true fuel
  have hwf : WellFormed hash t₂ := by
    rcases hfresh with ⟨hforce, _⟩ | hfresh
    · cases hforce
    · exact hfresh.wellFormed
  obtain ⟨i, hi, _⟩ := (hstores key _ hkey).mpr ⟨mp, hplaced.key_at, rfl⟩
  have hset := Stored.of_setVal hwf hkey val hi
  refine ⟨t₂.setVal i val, ?_, hset.wellFormed, ?_, ?_⟩
  · rw [newSlot]
    simp only [hget, hplace, hff, hrehash, Option.bind_eq_bind, Option.bind_some]
    exact newSlot_found hwf hkey hi fuel
  · intro k v hk
    rw [hset.stores k v hk]
    split
    · rfl
    · next hne => exact (hstores k v hk).trans (hplaced.stores k v hk hne)
  · exact hset.delegate.trans (hdelegate.trans hplaced.delegate)

end

/-- `NewSlot` always ends and stores the pair, through a rehash or without. -/
theorem newSlot_spec (h : WellFormed hash t) {key : Object} (hkey : key ≠ .null) (val : Object)
    (fuel : Nat) :
    ∃ t' created, newSlot hash (fuel + 2) t key val = some (t', created) ∧
      Stored hash t key val t' := by
  rcases h.wired._get_eq h.pos hkey with ⟨i, _, hi⟩ | ⟨hget, habsent⟩
  · exact ⟨_, _, newSlot_found h hkey hi (fuel + 1), .of_setVal h hkey val hi⟩
  · obtain ⟨t₁, mp, hplace, hplaced⟩ := place_spec h hkey habsent
    cases hff : correctFirstfree t₁.nodes t₁.firstfree with
    | some firstfree =>
        exact ⟨_, true, newSlot_placed hget hplace hff val (fuel + 1),
          hplaced.stored h hkey val hff⟩
    | none =>
        obtain ⟨t', hnew, hstored⟩ := newSlot_rehashed h hkey hget hplace hplaced hff val fuel
        exact ⟨t', false, hnew, hstored⟩

/-! ### Remove and Clear -/

theorem remove_spec (h : WellFormed hash t) {key : Object} (hkey : key ≠ .null) (fuel : Nat) :
    ∃ t', remove hash (fuel + 1) t key = some t' ∧ WellFormed hash t' ∧
      t'.delegate = t.delegate ∧
      ∀ k v, k ≠ .null → (t'.Stores k v ↔ k ≠ key ∧ t.Stores k v) := by
  rcases h.wired._get_eq h.pos hkey with ⟨n, hget, hn⟩ | ⟨hget, habsent⟩
  · generalize ht₁ : ({ t.setNode n { t.nodes n with val := .null, key := .null } with
      usednodes := t.usednodes - 1 } : Table) = t₁
    have hself : (t₁.nodes n).key = .null ∧ (t₁.nodes n).next = (t.nodes n).next := by
      rw [← ht₁]
      simp
    have hother : ∀ i, i ≠ n → t₁.nodes i = t.nodes i := by
      intro i hi
      rw [← ht₁]
      exact setNode_nodes_of_ne hi _
    have hkeys : t₁.keys = Function.update t.keys n .null := by
      funext i
      by_cases hi : i = n
      · rw [hi, Function.update_self, keys, hself.1]
      · rw [Function.update_of_ne hi, keys, hother i hi, keys]
    have hlinks : t₁.links = t.links := by
      funext i
      by_cases hi : i = n
      · rw [hi, links, hself.2, links]
      · rw [links, hother i hi, links]
    have hsize : t₁.numofnodes = t.numofnodes := by
      rw [← ht₁]
      rfl
    have hmain : t₁.mainPosition hash = t.mainPosition hash := by
      rw [← ht₁]
      rfl
    have hff : t₁.firstfree = t.firstfree := by
      rw [← ht₁]
      rfl
    have hocc : t₁.occupied = t.occupied.erase n := by
      ext i
      rw [Finset.mem_erase, mem_occupied, mem_occupied, hsize]
      by_cases hi : i = n
      · simp [hi, hself.1]
      · simp [hi, hother i hi]
    have hnull : (t.nodes n).key ≠ .null := hn ▸ hkey
    have hmem : n ∈ t.occupied := mem_occupied.mpr ⟨h.wired.key_lt n hnull, hnull⟩
    have hused : t₁.usednodes = t₁.occupied.card := by
      have hpos : 0 < t.occupied.card := Finset.card_pos.mpr ⟨n, hmem⟩
      rw [hocc, Finset.card_erase_of_mem hmem, ← ht₁]
      show t.usednodes - 1 = _
      rw [h.used]
      omega
    have hffn : t.firstfree ≠ n := by
      rintro rfl
      exact hnull h.firstfree_key
    have hwf : WellFormed hash t₁ := by
      refine ⟨?_, ?_, ?_, ?_, ?_, hused, hsize ▸ h.size⟩
      · rw [IsWired, hsize, hmain, hkeys, hlinks]
        exact h.wired.erase n
      · rw [UsesAbove, hmain, hkeys, hlinks, hff]
        exact h.above.erase n
      · rw [hff, hsize]
        exact h.firstfree_lt
      · rw [hff, hother _ hffn]
        exact h.firstfree_key
      · rw [hff, hother _ hffn]
        exact h.firstfree_next
    have hstores₁ : ∀ k v, k ≠ .null → (t₁.Stores k v ↔ k ≠ key ∧ t.Stores k v) := by
      intro k v hk
      constructor
      · rintro ⟨i, hi, hv⟩
        have hin : i ≠ n := by
          rintro rfl
          exact hk (hi.symm.trans hself.1)
        rw [hother i hin] at hi hv
        refine ⟨?_, i, hi, hv⟩
        rintro rfl
        exact hin (h.wired.nodup i n (keys_ne_null hi hk) (hi.trans hn.symm))
      · rintro ⟨hne, i, hi, hv⟩
        have hin : i ≠ n := by
          rintro rfl
          exact hne (hi.symm.trans hn)
        exact ⟨i, by rw [hother i hin]; exact hi, by rw [hother i hin]; exact hv⟩
    obtain ⟨t', hrehash, hcase, hdelegate, hstores⟩ :=
      rehash_spec hash hwf.wired.key_lt hwf.wired.nodup hwf.size
        (by rw [hused]; omega) false fuel
    refine ⟨t', ?_, ?_, ?_, fun k v hk => (hstores k v hk).trans (hstores₁ k v hk)⟩
    · rw [remove]
      simp only [hget, Option.bind_eq_bind, Option.bind_some]
      rw [← hrehash, ← ht₁]
      rfl
    · rcases hcase with ⟨_, rfl⟩ | hfresh
      · exact hwf
      · exact hfresh.wellFormed
    · rw [hdelegate, ← ht₁]
      rfl
  · refine ⟨t, by simp [remove, hget], h, rfl, fun k v _ => ⟨fun hs => ⟨?_, hs⟩, And.right⟩⟩
    rintro rfl
    obtain ⟨i, hi, _⟩ := hs
    exact habsent i hi

theorem clear_spec (h : WellFormed hash t) (fuel : Nat) :
    ∃ t', clear hash (fuel + 1) t = some t' ∧ WellFormed hash t' ∧ t'.delegate = t.delegate ∧
      ∀ k v, k ≠ .null → ¬ t'.Stores k v := by
  have hkeys : ∀ i, (t._clearNodes.nodes i).key = .null := by
    intro i
    unfold _clearNodes
    by_cases hi : i < t.numofnodes
    · simp [hi]
    · by_contra hne
      simp only [hi, if_false] at hne
      exact hi (h.wired.key_lt i hne)
  have hocc : (occupied { t._clearNodes with usednodes := 0 }).card = 0 := by
    simp [occupied, hkeys]
  obtain ⟨t', hrehash, hcase, hdelegate, hstores⟩ :=
    rehash_spec hash (t := { t._clearNodes with usednodes := 0 })
      (fun i hi => absurd (hkeys i) hi) (fun i _ hi => absurd (hkeys i) hi) h.size
      (by rw [hocc]; exact Int.zero_le_ofNat 1) true fuel
  refine ⟨t', hrehash, ?_, hdelegate, fun k v hk hs => ?_⟩
  · rcases hcase with ⟨hforce, _⟩ | hfresh
    · cases hforce
    · exact hfresh.wellFormed
  · obtain ⟨i, hi, _⟩ := (hstores k v hk).mp hs
    exact hk (hi.symm.trans (hkeys i))

/-! ### Creation and Clone -/

theorem growPow2_eq (nInitialSize : Nat) (fuel k : Nat) :
    ∃ k', growPow2 nInitialSize fuel (2 ^ (k + 2)) = 2 ^ (k' + 2) := by
  induction fuel generalizing k with
  | zero => exact ⟨k, rfl⟩
  | succ fuel ih =>
      rw [growPow2]
      split
      · have hnext : 2 ^ (k + 2) * 2 = 2 ^ (k + 1 + 2) := by
          rw [← Nat.pow_succ]
        rw [hnext]
        exact ih (k + 1)
      · exact ⟨k, rfl⟩

variable (hash) in
theorem create_spec (nInitialSize : Nat) :
    WellFormed hash (create nInitialSize) ∧
      ∀ k v, k ≠ .null → ¬ (create nInitialSize).Stores k v := by
  refine ⟨?_, ?_⟩
  · exact (fresh_allocNodes hash
      { firstfree := 0, nodes := fun _ => {}, numofnodes := 0, usednodes := 0, delegate := none }
      (growPow2_eq nInitialSize nInitialSize 0)).wellFormed
  · rintro k v hk ⟨i, hi, _⟩
    exact hk hi.symm

/-- `Next` finds the first key from its position on. -/
theorem nextFrom_spec (referent : Ref → Object) (t : Table) (getweakrefs : Bool) (count idx : Nat) :
    (t.nextFrom referent getweakrefs count idx = none ∧
        ∀ j, idx ≤ j → j < idx + count → (t.nodes j).key = .null) ∨
      ∃ j, t.nextFrom referent getweakrefs count idx = some (j + 1, (t.nodes j).key,
          if getweakrefs then (t.nodes j).val else realval referent (t.nodes j).val) ∧
        (t.nodes j).key ≠ .null ∧ idx ≤ j ∧ j < idx + count ∧
        ∀ i, idx ≤ i → i < j → (t.nodes i).key = .null := by
  induction count generalizing idx with
  | zero => exact .inl ⟨rfl, fun j hle hlt => by omega⟩
  | succ count ih =>
      rw [nextFrom]
      by_cases hkey : (t.nodes idx).key = .null
      · simp only [hkey, ne_eq, not_true_eq_false, if_false]
        rcases ih (idx + 1) with ⟨hnone, hall⟩ | ⟨j, hsome, hj, hle, hlt, hall⟩
        · refine .inl ⟨hnone, fun j hle hlt => ?_⟩
          rcases Nat.eq_or_lt_of_le hle with rfl | hlt'
          · exact hkey
          · exact hall j hlt' (by omega)
        · refine .inr ⟨j, hsome, hj, by omega, by omega, fun i hle' hlt' => ?_⟩
          rcases Nat.eq_or_lt_of_le hle' with rfl | hlt''
          · exact hkey
          · exact hall i hlt'' hlt'
      · refine .inr ⟨idx, by simp [hkey], hkey, Nat.le_refl _, by omega, fun i hle hlt => ?_⟩
        omega

theorem cloneFrom_spec (h : WellFormed hash t) (fuel : Nat) :
    ∀ (count ridx : Nat) (nt : Table), WellFormed hash nt → t.numofnodes - ridx < count →
      ∃ nt', cloneFrom hash (fuel + 2) t count ridx nt = some nt' ∧ WellFormed hash nt' ∧
        ∀ k v, k ≠ .null → (nt'.Stores k v ↔
          (∃ j, ridx ≤ j ∧ (t.nodes j).key = k ∧ (t.nodes j).val = v) ∨
            (∀ j, ridx ≤ j → (t.nodes j).key ≠ k) ∧ nt.Stores k v)
  | 0, _, _, _, hcount => absurd hcount (Nat.not_lt_zero _)
  | count + 1, ridx, nt, hnt, hcount => by
      have hlt : ∀ j, (t.nodes j).key ≠ .null → j < t.numofnodes := h.wired.key_lt
      rcases nextFrom_spec (fun _ => .null) t true (t.numofnodes - ridx) ridx with
        ⟨hnone, hall⟩ | ⟨j, hsome, hj, hle, hjlt, hskip⟩
      · have hnokey : ∀ j, ridx ≤ j → (t.nodes j).key = .null := by
          intro j hle
          by_contra hne
          have hjlt := hlt j hne
          exact hne (hall j hle (by omega))
        refine ⟨nt, ?_, hnt, fun k v hk => ⟨fun hs => .inr ⟨fun j hle hjk => ?_, hs⟩, ?_⟩⟩
        · rw [cloneFrom, Table.next, hnone]
        · exact hk (hjk.symm.trans (hnokey j hle))
        · rintro (⟨j, hle, hjk, _⟩ | ⟨_, hs⟩)
          · exact absurd (hjk.symm.trans (hnokey j hle)) hk
          · exact hs
      · obtain ⟨nt₁, created, hnew, hstored⟩ := newSlot_spec hnt hj (t.nodes j).val fuel
        obtain ⟨nt', hclone, hwf, hstores⟩ :=
          cloneFrom_spec h fuel count (j + 1) nt₁ hstored.wellFormed (by omega)
        refine ⟨nt', ?_, hwf, fun k v hk => ?_⟩
        · rw [cloneFrom, Table.next, hsome]
          simp only [if_true, hnew, Option.bind_eq_bind, Option.bind_some]
          exact hclone
        · rw [hstores k v hk, hstored.stores k v hk]
          -- the only key between `ridx` and `j + 1` is the one at `j`
          have hmid : ∀ i, ridx ≤ i → (t.nodes i).key = k → i = j ∨ j + 1 ≤ i := by
            intro i hle' hik
            by_contra hne
            exact hk (hik.symm.trans (hskip i hle' (by omega)))
          constructor
          · rintro (⟨i, hle', hik, hiv⟩ | ⟨hno, hs⟩)
            · exact .inl ⟨i, by omega, hik, hiv⟩
            · by_cases hjk : k = (t.nodes j).key
              · rw [if_pos hjk] at hs
                exact .inl ⟨j, hle, hjk.symm, hs.symm⟩
              · rw [if_neg hjk] at hs
                refine .inr ⟨fun i hle' hik => ?_, hs⟩
                rcases hmid i hle' hik with rfl | hle''
                · exact hjk hik.symm
                · exact hno i hle'' hik
          · rintro (⟨i, hle', hik, hiv⟩ | ⟨hno, hs⟩)
            · rcases hmid i hle' hik with rfl | hle''
              · refine .inr ⟨fun l hl hlk => ?_, by rw [if_pos hik.symm]; exact hiv.symm⟩
                have heq := h.wired.nodup i l (keys_ne_null hik hk) (hik.trans hlk.symm)
                omega
              · exact .inl ⟨i, hle'', hik, hiv⟩
            · refine .inr ⟨fun i hi hik => hno i (by omega) hik, ?_⟩
              rw [if_neg fun hkj => hno j hle hkj.symm]
              exact hs

theorem clone_spec (h : WellFormed hash t) (fuel : Nat) :
    ∃ nt, clone hash (fuel + 2) t = some nt ∧ WellFormed hash nt ∧ nt.delegate = t.delegate ∧
      ∀ k v, k ≠ .null → (nt.Stores k v ↔ t.Stores k v) := by
  obtain ⟨hcreate, hempty⟩ := create_spec hash t.numofnodes
  obtain ⟨nt, hclone, hwf, hstores⟩ :=
    cloneFrom_spec h fuel (t.numofnodes + 1) 0 (create t.numofnodes) hcreate (by omega)
  refine ⟨{ nt with delegate := t.delegate }, ?_, ?_, rfl, fun k v hk => ?_⟩
  · rw [clone, hclone]
    rfl
  · exact ⟨hwf.wired, hwf.above, hwf.firstfree_lt, hwf.firstfree_key, hwf.firstfree_next,
      hwf.used, hwf.size⟩
  · refine (hstores k v hk).trans ⟨?_, fun ⟨j, hj⟩ => .inl ⟨j, Nat.zero_le j, hj⟩⟩
    rintro (⟨j, _, hj⟩ | ⟨_, hs⟩)
    · exact ⟨j, hj⟩
    · exact absurd hs (hempty k v hk)

end GameScript.Table
