import GameScript.Table.Invariant

/-!
Placing a new key. The three ways `NewSlot` finds a node for it, one lemma for
each, joined in `place_spec`.
-/

namespace GameScript.Table

open GameScript.Chain GameScript.Scatter

variable {hash : Object → Nat} {t : Table}

/-- Nothing is linked through a free node: no key has been removed since the
nodes were allocated. -/
def Unremoved (t : Table) : Prop :=
  ∀ i, (t.nodes i).key = .null → (t.nodes i).next = none

/-- What placing `key` makes of `t`: the key is in node `mp` of `t'`, whose
value is not written yet, and the other pairs are those of `t`. -/
structure Placed (hash : Object → Nat) (t : Table) (key : Object) (t' : Table) (mp : Nat) :
    Prop where
  numofnodes : t'.numofnodes = t.numofnodes
  firstfree : t'.firstfree = t.firstfree
  usednodes : t'.usednodes = t.usednodes
  delegate : t'.delegate = t.delegate
  key_at : (t'.nodes mp).key = key
  wired : IsWired hash t'
  above : ∀ bound ≤ t.firstfree, (t'.nodes bound).key = .null → UsesAbove hash t' bound
  stores : ∀ k v, k ≠ .null → k ≠ key → (t'.Stores k v ↔ t.Stores k v)
  occupied : ∃ i, i ∉ t.occupied ∧ t'.occupied = insert i t.occupied
  unremoved : t.Unremoved → t'.Unremoved

/-- Where every pair of `t` is in some node of `t'`, and every pair of `t'` but that of `key` in
some node of `t`, the two store the same under the other keys. -/
theorem stores_iff_of_pairs {t' : Table} {key : Object}
    (hkept : ∀ i, (t.nodes i).key ≠ .null →
      ∃ j, (t'.nodes j).key = (t.nodes i).key ∧ (t'.nodes j).val = (t.nodes i).val)
    (hold : ∀ j, (t'.nodes j).key ≠ .null → (t'.nodes j).key ≠ key →
      ∃ i, (t'.nodes j).key = (t.nodes i).key ∧ (t'.nodes j).val = (t.nodes i).val)
    (k v : Object) (hk : k ≠ .null) (hne : k ≠ key) : t'.Stores k v ↔ t.Stores k v := by
  constructor
  · rintro ⟨j, rfl, rfl⟩
    obtain ⟨i, hi, hv⟩ := hold j hk hne
    exact ⟨i, hi.symm, hv.symm⟩
  · rintro ⟨i, rfl, rfl⟩
    exact hkept i hk

/-- A key that is placed takes one node, which was free. -/
theorem occupied_insert {t' : Table} {n : Nat} (hsize : t'.numofnodes = t.numofnodes)
    (hlt : n < t.numofnodes) (hfree : (t.nodes n).key = .null)
    (hkeys : ∀ i, (t'.nodes i).key ≠ .null ↔ i = n ∨ (t.nodes i).key ≠ .null) :
    ∃ i, i ∉ t.occupied ∧ t'.occupied = insert i t.occupied := by
  refine ⟨n, fun hmem => (mem_occupied.mp hmem).2 hfree, ?_⟩
  ext i
  rw [Finset.mem_insert, mem_occupied, mem_occupied, hsize, hkeys]
  by_cases hi : i = n
  · simp [hi, hlt]
  · simp [hi]

/-- The nodes of `t'` are those of `t` with the key in `mp`, linked to from `prev`, moved to the
node `n` and `key` in its place. -/
structure Rehomed (t t' : Table) (key : Object) (mp prev n : Nat) : Prop where
  key_at : (t'.nodes mp).key = key
  next_at : (t'.nodes mp).next = none
  moved : t'.nodes n = t.nodes mp
  before : t'.nodes prev = { t.nodes prev with next := some n }
  other : ∀ i, i ≠ mp → i ≠ n → i ≠ prev → t'.nodes i = t.nodes i

namespace Rehomed

variable {t' : Table} {key : Object} {mp prev n : Nat} (hr : Rehomed t t' key mp prev n)

include hr

theorem pair {i : Nat} (him : i ≠ mp) (hin : i ≠ n) :
    (t'.nodes i).key = (t.nodes i).key ∧ (t'.nodes i).val = (t.nodes i).val := by
  by_cases hip : i = prev
  · simp [hip, hr.before]
  · simp [hr.other i him hin hip]

theorem keys_eq :
    t'.keys = Function.update (Function.update t.keys n (t.keys mp)) mp key := by
  funext i
  by_cases him : i = mp
  · rw [him, Function.update_self, keys, hr.key_at]
  · rw [Function.update_of_ne him]
    by_cases hin : i = n
    · rw [hin, Function.update_self, keys, hr.moved, keys]
    · rw [Function.update_of_ne hin, keys, (hr.pair him hin).1, keys]

theorem links_eq (hne : n ≠ mp) (hpm : prev ≠ mp) (hpn : prev ≠ n) :
    t'.links = relocate t.links prev mp n := by
  funext i
  by_cases him : i = mp
  · rw [him, relocate_moved, links, hr.next_at]
  · by_cases hin : i = n
    · rw [hin, relocate_new hne, links, hr.moved, links]
    · by_cases hip : i = prev
      · rw [hip, relocate_prev hpm hpn, links, hr.before]
      · rw [relocate_other him hin hip, links, links, hr.other i him hin hip]

/-- The other pairs are in their nodes, or moved with the key. -/
theorem stores (hfree : (t.nodes n).key = .null) (k v : Object) (hk : k ≠ .null)
    (hne : k ≠ key) : t'.Stores k v ↔ t.Stores k v := by
  refine stores_iff_of_pairs (fun i hi => ?_) (fun j _ hj => ?_) k v hk hne
  · have hin : i ≠ n := fun heq => hi (heq ▸ hfree)
    by_cases him : i = mp
    · exact ⟨n, by rw [hr.moved, him], by rw [hr.moved, him]⟩
    · exact ⟨i, hr.pair him hin⟩
  · have hjm : j ≠ mp := fun heq => hj (heq ▸ hr.key_at)
    by_cases hjn : j = n
    · exact ⟨mp, by rw [hjn, hr.moved], by rw [hjn, hr.moved]⟩
    · exact ⟨j, hr.pair hjm hjn⟩

theorem key_ne_null_iff (hkey : key ≠ .null) (hfull : (t.nodes mp).key ≠ .null) (i : Nat) :
    (t'.nodes i).key ≠ .null ↔ i = n ∨ (t.nodes i).key ≠ .null := by
  by_cases hin : i = n
  · simp [hin, hr.moved, hfull]
  · by_cases him : i = mp
    · simp [him, hr.key_at, hkey, hfull]
    · simp [hin, (hr.pair him hin).1]

theorem unremoved (hfull : (t.nodes mp).key ≠ .null) (hprev : t.links prev = some mp)
    (hun : t.Unremoved) : t'.Unremoved := by
  intro i hi
  by_cases him : i = mp
  · rw [him]
    exact hr.next_at
  · by_cases hin : i = n
    · rw [hin, hr.moved] at hi
      exact absurd hi hfull
    · have hip : i ≠ prev := by
        rintro rfl
        rw [(hr.pair him hin).1] at hi
        rw [links, hun _ hi] at hprev
        cases hprev
      rw [hr.other i him hin hip] at hi ⊢
      exact hun i hi

end Rehomed

section

variable (h : WellFormed hash t) {key : Object} (hkey : key ≠ .null)
  (habsent : ∀ i, (t.nodes i).key ≠ key)

include h hkey habsent

/-- The main position is free. -/
theorem placed_main (hfree : (t.nodes (t.mainPosition hash key)).key = .null) :
    Placed hash t key
      (t.setNode (t.mainPosition hash key) { t.nodes (t.mainPosition hash key) with key := key })
      (t.mainPosition hash key) := by
  generalize hmp : t.mainPosition hash key = mp at hfree ⊢
  have hlt : mp < t.numofnodes := hmp ▸ mainPosition_lt hash h.pos key
  generalize ht' : t.setNode mp { t.nodes mp with key := key } = t'
  have hself : t'.nodes mp = { t.nodes mp with key := key } := by
    rw [← ht']
    exact setNode_nodes_self ..
  have hother : ∀ i, i ≠ mp → t'.nodes i = t.nodes i := by
    intro i hi
    rw [← ht']
    exact setNode_nodes_of_ne hi _
  have hsize : t'.numofnodes = t.numofnodes := by
    rw [← ht']
    rfl
  have hkeys : t'.keys = Function.update t.keys mp key := by
    funext i
    by_cases hi : i = mp
    · rw [hi, Function.update_self, keys, hself]
    · rw [Function.update_of_ne hi, keys, hother i hi, keys]
  have hlinks : t'.links = t.links := by
    funext i
    by_cases hi : i = mp
    · rw [hi, links, links, hself]
    · rw [links, links, hother i hi]
  have hmain : t'.mainPosition hash = t.mainPosition hash := by
    rw [← ht']
    rfl
  have hwired : IsWired hash t' := by
    rw [IsWired, hsize, hmain, hkeys, hlinks]
    exact h.wired.insertMain habsent hlt hmp
  have habove : UsesAbove hash t' t.firstfree := by
    rw [UsesAbove, hmain, hkeys, hlinks]
    exact h.above.insertMain hmp
  have hkeyOther : ∀ i, i ≠ mp → (t'.nodes i).key = (t.nodes i).key :=
    fun i hi => by rw [hother i hi]
  refine ⟨hsize, by rw [← ht']; rfl, by rw [← ht']; rfl, by rw [← ht']; rfl, by rw [hself],
    hwired, fun bound hle _ => habove.mono hle, ?_, ?_, ?_⟩
  · refine stores_iff_of_pairs (fun i hi => ?_) fun j _ hj => ?_
    · have hmpi : i ≠ mp := fun heq => hi (heq ▸ hfree)
      exact ⟨i, by rw [hother i hmpi], by rw [hother i hmpi]⟩
    · have hmpj : j ≠ mp := fun heq => hj (by rw [heq, hself])
      exact ⟨j, by rw [hother j hmpj], by rw [hother j hmpj]⟩
  · refine occupied_insert hsize hlt hfree fun i => ?_
    by_cases hi : i = mp
    · simp [hi, hself, hkey]
    · simp [hi, hkeyOther i hi]
  · intro hun i hi
    by_cases hmpi : i = mp
    · rw [hmpi, hself] at hi
      exact absurd hi hkey
    · rw [hother i hmpi] at hi ⊢
      exact hun i hi

/-- The main position holds a key of its own: the new key goes behind it, into
the free node. -/
theorem placed_behind (hfull : (t.nodes (t.mainPosition hash key)).key ≠ .null)
    (hown : t.mainPosition hash (t.nodes (t.mainPosition hash key)).key =
      t.mainPosition hash key) :
    ∃ t', t.place hash (t.mainPosition hash key) key = some (t', t.firstfree) ∧
      Placed hash t key t' t.firstfree := by
  generalize hmp : t.mainPosition hash key = mp at hfull hown ⊢
  have hlt := h.firstfree_lt
  have hne : t.firstfree ≠ mp := by
    rintro rfl
    exact hfull h.firstfree_key
  rw [place, if_neg hfull, if_neg (fun hc => hc.2 hown)]
  refine ⟨_, rfl, ?_⟩
  generalize ht' : ((t.setNode t.firstfree _).setNode mp _).setNode t.firstfree _ = t'
  have hself : t'.nodes t.firstfree =
      { t.nodes t.firstfree with key := key, next := (t.nodes mp).next } := by
    rw [← ht']
    simp [setNode_nodes_of_ne hne]
  have hnode : t'.nodes mp = { t.nodes mp with next := some t.firstfree } := by
    rw [← ht']
    simp [setNode_nodes_of_ne hne.symm]
  have hother : ∀ i, i ≠ t.firstfree → i ≠ mp → t'.nodes i = t.nodes i := by
    intro i hi him
    rw [← ht']
    simp [setNode_nodes_of_ne hi, setNode_nodes_of_ne him]
  have hsize : t'.numofnodes = t.numofnodes := by
    rw [← ht']
    rfl
  have hpair : ∀ i, i ≠ t.firstfree →
      (t'.nodes i).key = (t.nodes i).key ∧ (t'.nodes i).val = (t.nodes i).val := by
    intro i hi
    by_cases him : i = mp
    · simp [him, hnode]
    · simp [hother i hi him]
  have hkeys : t'.keys = Function.update t.keys t.firstfree key := by
    funext i
    by_cases hi : i = t.firstfree
    · rw [hi, Function.update_self, keys, hself]
    · rw [Function.update_of_ne hi, keys, (hpair i hi).1, keys]
  have hlinks : t'.links = insertAfter t.links mp t.firstfree := by
    funext i
    by_cases him : i = mp
    · rw [him, insertAfter_self, links, hnode]
    · by_cases hi : i = t.firstfree
      · rw [hi, insertAfter_new hne, links, hself, links]
      · rw [insertAfter_other him hi, links, links, hother i hi him]
  have hmain : t'.mainPosition hash = t.mainPosition hash := by
    rw [← ht']
    rfl
  have hun := h.above.unlinked h.firstfree_next
  have hwired : IsWired hash t' := by
    rw [IsWired, hsize, hmain, hkeys, hlinks]
    exact h.wired.insertBehind habsent hfull hown hmp hlt h.firstfree_key hun
  refine ⟨hsize, by rw [← ht']; rfl, by rw [← ht']; rfl, by rw [← ht']; rfl, by rw [hself],
    hwired, ?_, ?_, ?_, ?_⟩
  · intro bound hle hnull
    have hlt' : bound < t.firstfree := by
      refine Nat.lt_of_le_of_ne hle ?_
      rintro rfl
      rw [hself] at hnull
      exact hkey hnull
    rw [UsesAbove, hmain, hkeys, hlinks]
    exact h.above.insertBehind hne hlt'
  · refine stores_iff_of_pairs (fun i hi => ?_) fun j _ hj => ?_
    · exact ⟨i, hpair i fun heq => hi (heq ▸ h.firstfree_key)⟩
    · exact ⟨j, hpair j fun heq => hj (by rw [heq, hself])⟩
  · refine occupied_insert hsize hlt h.firstfree_key fun i => ?_
    by_cases hi : i = t.firstfree
    · simp [hi, hself, hkey]
    · simp [hi, (hpair i hi).1]
  · intro hun i hi
    by_cases hin : i = t.firstfree
    · rw [hin, hself] at hi
      exact absurd hi hkey
    · by_cases him : i = mp
      · rw [him, hnode] at hi
        exact absurd hi hfull
      · rw [hother i hin him] at hi ⊢
        exact hun i hi

omit hkey habsent in
/-- The walk from the main position of a key that is displaced to `mp` meets the node before
`mp`. -/
theorem WellFormed.exists_prev {mp : Nat} (hfull : (t.nodes mp).key ≠ .null)
    (hdisplaced : t.mainPosition hash (t.nodes mp).key ≠ mp) :
    ∃ prev, Chain.search t.links (fun i => t.links i = some mp) t.numofnodes
        (t.mainPosition hash (t.nodes mp).key) = some (some prev) ∧
      t.links prev = some mp := by
  have hsome := h.wired.search_isSome (fun i => t.links i = some mp)
    (mainPosition_lt hash h.pos (t.nodes mp).key)
  obtain ⟨result, hresult⟩ := Option.isSome_iff_exists.mp hsome
  cases result with
  | some prev => exact ⟨prev, hresult, by simpa using (search_found hresult).1⟩
  | none =>
      obtain ⟨c, hreach, hc⟩ := (h.wired.reach mp hfull).exists_prev hdisplaced
      exact absurd (by simpa using hc) (search_missing hresult hreach)

/-- The main position holds a key of another chain: that key moves to the free
node, and the new key takes its place. -/
theorem placed_moved (hfull : (t.nodes (t.mainPosition hash key)).key ≠ .null)
    (hdisplaced : t.mainPosition hash (t.nodes (t.mainPosition hash key)).key ≠
      t.mainPosition hash key) :
    ∃ t', t.place hash (t.mainPosition hash key) key =
        some (t', t.mainPosition hash key) ∧
      Placed hash t key t' (t.mainPosition hash key) := by
  generalize hmp : t.mainPosition hash key = mp at hfull hdisplaced ⊢
  have hlt := h.firstfree_lt
  have habove : t.firstfree < mp := h.above.displaced mp hfull hdisplaced
  have hne : t.firstfree ≠ mp := Nat.ne_of_lt habove
  obtain ⟨prev, hsearch, hprev⟩ := h.exists_prev hfull hdisplaced
  have hpn : prev ≠ t.firstfree := by
    rintro rfl
    rw [links, h.firstfree_next] at hprev
    cases hprev
  have hpm : prev ≠ mp := h.wired.link_ne hprev
  rw [place, if_neg hfull]
  simp only [habove, hdisplaced, ne_eq, not_false_eq_true, and_self, if_true, hsearch,
    Option.bind_eq_bind, Option.bind_some]
  refine ⟨_, rfl, ?_⟩
  generalize ht' : ((((t.setNode prev _).setNode t.firstfree _).setNode mp _).setNode mp _) = t'
  have hr : Rehomed t t' key mp prev t.firstfree := by
    rw [← ht']
    constructor
    · simp
    · simp
    · simp [setNode_nodes_of_ne hne, setNode_nodes_of_ne hpm.symm]
    · simp [setNode_nodes_of_ne hpn, setNode_nodes_of_ne hpm]
    · intro i him hin hip
      simp [setNode_nodes_of_ne him, setNode_nodes_of_ne hin, setNode_nodes_of_ne hip]
  have hsize : t'.numofnodes = t.numofnodes := by
    rw [← ht']
    rfl
  have hmain : t'.mainPosition hash = t.mainPosition hash := by
    rw [← ht']
    rfl
  have hlinks := hr.links_eq hne hpm hpn
  have hun := h.above.unlinked h.firstfree_next
  have hwired : IsWired hash t' := by
    rw [IsWired, hsize, hmain, hr.keys_eq, hlinks]
    exact h.wired.insertMoved habsent hfull hdisplaced hmp hprev hlt h.firstfree_key hun
  refine ⟨hsize, by rw [← ht']; rfl, by rw [← ht']; rfl, by rw [← ht']; rfl, hr.key_at,
    hwired, ?_, hr.stores h.firstfree_key,
    occupied_insert hsize hlt h.firstfree_key (hr.key_ne_null_iff hkey hfull),
    hr.unremoved hfull hprev⟩
  intro bound hle hnull
  have hlt' : bound < t.firstfree := by
    refine Nat.lt_of_le_of_ne hle ?_
    rintro rfl
    rw [hr.moved] at hnull
    exact hfull hnull
  rw [UsesAbove, hmain, hr.keys_eq, hlinks]
  exact h.above.insertMoved hmp hne hpm hpn hlt'

end

end GameScript.Table
