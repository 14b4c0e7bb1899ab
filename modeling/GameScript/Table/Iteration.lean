import GameScript.Table.Refinement

/-!
Iteration over a table. The iterator of `Next` is an index into the node array,
null before the first step. Between two steps the body of a loop may write to
the keys that are stored and delete keys, as long as no rehash moves the nodes.
-/

namespace GameScript.Table

variable {hash : Object → Nat} {t t' t₀ : Table}

/-- `TranslateIndex`, of an iterator that is null or an index. -/
def translateIndex : Option Nat → Nat
  | none => 0
  | some idx => idx

/-- `Rehash` after the removal of `key` leaves the node array as it is. -/
def RemovesInPlace (t : Table) (key : Object) : Prop :=
  (∃ val, t.Stores key val) →
    rehashSize false (if t.numofnodes < 4 then 4 else t.numofnodes) (t.usednodes - 1) = none

/-- What the body of a loop over a table does to it in one operation. -/
inductive BodyStep (hash : Object → Nat) (t : Table) : Table → Prop where
  | newSlot {fuel : Nat} {key val : Object} {t' : Table} {created : Bool} :
      key ≠ .null → (∃ old, t.Stores key old) →
      newSlot hash fuel t key val = some (t', created) → BodyStep hash t t'
  | set {key val : Object} {t' : Table} {found : Bool} :
      key ≠ .null → t.set hash key val = some (t', found) → BodyStep hash t t'
  | remove {fuel : Nat} {key : Object} {t' : Table} :
      key ≠ .null → t.RemovesInPlace key → remove hash fuel t key = some t' → BodyStep hash t t'

/-- A loop over `t₀` that has visited the keys `visited`: the table is `t` now,
and the iterator is `refpos`. The heap may be another one at each step. -/
inductive Rounds (hash : Object → Nat) (t₀ : Table) : Table → Option Nat → List Object → Prop where
  | start : Rounds hash t₀ t₀ none []
  | body {t t' : Table} {refpos : Option Nat} {visited : List Object} :
      Rounds hash t₀ t refpos visited → BodyStep hash t t' → Rounds hash t₀ t' refpos visited
  | next {t : Table} {refpos : Option Nat} {visited : List Object} {referent : Ref → Object}
      {getweakrefs : Bool} {nrefidx : Nat} {key val : Object} :
      Rounds hash t₀ t refpos visited →
      t.next referent getweakrefs (translateIndex refpos) = some (nrefidx, key, val) →
      Rounds hash t₀ t (some nrefidx) (visited ++ [key])

/-! ### The body -/

/-- `t'` has the node array of `t`, with some keys gone. -/
structure Thins (hash : Object → Nat) (t t' : Table) : Prop where
  wellFormed : WellFormed hash t'
  numofnodes : t'.numofnodes = t.numofnodes
  keys : ∀ i, (t'.nodes i).key = (t.nodes i).key ∨ (t'.nodes i).key = .null

theorem Thins.refl (h : WellFormed hash t) : Thins hash t t :=
  ⟨h, rfl, fun _ => .inl rfl⟩

theorem Thins.setVal (h : WellFormed hash t) (i : Nat) (val : Object) :
    Thins hash t (t.setVal i val) :=
  ⟨h.setVal i val, rfl, fun j => .inl (setVal_nodes i j val).1⟩

/-- A node after its key is removed. -/
def erased (t : Table) (i : Nat) : Table :=
  { t.setNode i { t.nodes i with val := .null, key := .null } with usednodes := t.usednodes - 1 }

theorem erased_key (t : Table) (i j : Nat) :
    ((t.erased i).nodes j).key = (t.nodes j).key ∨ ((t.erased i).nodes j).key = .null := by
  unfold erased
  by_cases hj : j = i
  · subst hj
    right
    simp
  · left
    simp only [setNode_nodes_of_ne hj]

theorem rehash_none {insert : Table → Object → Object → Option (Table × Bool)}
    (h : rehashSize false (if t.numofnodes < 4 then 4 else t.numofnodes) t.usednodes = none) :
    rehash insert false t = some t := by
  unfold rehash
  simp only [h]

/-- Without a rehash a removal clears one node. -/
theorem remove_inPlace (h : WellFormed hash t) {key : Object} (hkey : key ≠ .null) {i : Nat}
    (hi : (t.nodes i).key = key) (hplace : t.RemovesInPlace key) (fuel : Nat) :
    remove hash fuel t key = some (t.erased i) := by
  have hnone := hplace ⟨_, i, hi, rfl⟩
  rcases h.wired._get_eq h.pos hkey with ⟨j, hget, hj⟩ | ⟨_, habsent⟩
  · obtain rfl : i = j := h.wired.nodup i j (keys_ne_null hi hkey) (hi.trans hj.symm)
    rw [Table.remove]
    simp only [hget, Option.bind_eq_bind, Option.bind_some]
    exact rehash_none (t := t.erased i) hnone
  · exact absurd hi (habsent i)

theorem remove_absent (h : WellFormed hash t) {key : Object} (hkey : key ≠ .null)
    (habsent : ∀ i, (t.nodes i).key ≠ key) (fuel : Nat) : remove hash fuel t key = some t := by
  rcases h.wired._get_eq h.pos hkey with ⟨i, _, hi⟩ | ⟨hget, _⟩
  · exact absurd hi (habsent i)
  · simp [Table.remove, hget]

theorem BodyStep.thins (hstep : BodyStep hash t t') (h : WellFormed hash t) :
    Thins hash t t' := by
  cases hstep with
  | @newSlot fuel key val t' created hkey hold hnew =>
      obtain ⟨old, i, hi, _⟩ := hold
      cases fuel with
      | zero => cases hnew
      | succ fuel =>
          rw [newSlot_found h hkey hi fuel] at hnew
          cases hnew
          exact .setVal h i val
  | @set key val t' found hkey hset =>
      rw [Table.set] at hset
      rcases h.wired._get_eq h.pos hkey with ⟨i, hget, _⟩ | ⟨hget, _⟩
      · simp only [hget, Option.bind_eq_bind, Option.bind_some] at hset
        cases hset
        exact .setVal h i val
      · simp only [hget, Option.bind_eq_bind, Option.bind_some] at hset
        cases hset
        exact .refl h
  | @remove fuel key t' hkey hplace hremove =>
      by_cases hstored : ∃ i, (t.nodes i).key = key
      · obtain ⟨i, hi⟩ := hstored
        obtain rfl : t.erased i = t' :=
          Option.some.inj ((remove_inPlace h hkey hi hplace fuel).symm.trans hremove)
        obtain ⟨t₁, hremove₁, hwf, _, _⟩ := remove_spec h hkey 0
        obtain rfl : t.erased i = t₁ :=
          Option.some.inj ((remove_inPlace h hkey hi hplace _).symm.trans hremove₁)
        exact ⟨hwf, rfl, erased_key t i⟩
      · have habsent : ∀ i, (t.nodes i).key ≠ key := fun i hi => hstored ⟨i, hi⟩
        obtain rfl : t = t' :=
          Option.some.inj ((remove_absent h hkey habsent fuel).symm.trans hremove)
        exact .refl h

/-! ### The rounds -/

/-- `Next` ends where no key is left, and else it is at the first key from its
position on. -/
theorem next_spec (h : WellFormed hash t) (referent : Ref → Object) (getweakrefs : Bool)
    (refpos : Nat) :
    (t.next referent getweakrefs refpos = none ∧
        ∀ j, refpos ≤ j → (t.nodes j).key = .null) ∨
      ∃ j, t.next referent getweakrefs refpos = some (j + 1, (t.nodes j).key,
          if getweakrefs then (t.nodes j).val else realval referent (t.nodes j).val) ∧
        (t.nodes j).key ≠ .null ∧ refpos ≤ j ∧
        ∀ i, refpos ≤ i → i < j → (t.nodes i).key = .null := by
  rcases nextFrom_spec referent t getweakrefs (t.numofnodes - refpos) refpos with
    ⟨hnone, hnull⟩ | ⟨j, hsome, hj, hle, _, hskip⟩
  · refine .inl ⟨hnone, fun j hle => ?_⟩
    by_contra hne
    have hlt := h.wired.key_lt j hne
    exact hne (hnull j hle (by omega))
  · exact .inr ⟨j, hsome, hj, hle, hskip⟩

/-- What holds of a loop that has visited `visited` and goes on from the node
`idx`: the keys behind it are visited, and only they. -/
structure Visited (hash : Object → Nat) (t₀ t : Table) (idx : Nat) (visited : List Object) :
    Prop where
  thins : Thins hash t₀ t
  nodup : visited.Nodup
  behind : ∀ key ∈ visited, key ≠ .null ∧ ∃ i, i < idx ∧ (t₀.nodes i).key = key
  complete : ∀ i, i < idx → (t.nodes i).key ≠ .null → (t.nodes i).key ∈ visited
  length : visited.length ≤ idx
  idx_le : idx ≤ t₀.numofnodes

theorem Visited.start (h : WellFormed hash t₀) : Visited hash t₀ t₀ 0 [] where
  thins := .refl h
  nodup := .nil
  behind _ hkey := absurd hkey List.not_mem_nil
  complete _ hi := absurd hi (Nat.not_lt_zero _)
  length := Nat.le_refl 0
  idx_le := Nat.zero_le _

/-- A key that the loop has still before it was not visited. -/
theorem Visited.ahead {idx : Nat} {visited : List Object} (h₀ : WellFormed hash t₀)
    (h : Visited hash t₀ t idx visited) {j : Nat} (hle : idx ≤ j)
    (hj : (t.nodes j).key ≠ .null) : (t.nodes j).key ∉ visited := by
  intro hmem
  obtain ⟨_, i, hi, hkey⟩ := h.behind _ hmem
  have hsame : (t.nodes j).key = (t₀.nodes j).key := by
    rcases h.thins.keys j with hsame | hnull
    · exact hsame
    · exact absurd hnull hj
  have heq : i = j :=
    h₀.wired.nodup i j (keys_ne_null hkey hj) (hkey.trans hsame)
  omega

theorem Visited.body {idx : Nat} {visited : List Object} (h : Visited hash t₀ t idx visited)
    (hstep : BodyStep hash t t') : Visited hash t₀ t' idx visited := by
  have hthins := hstep.thins h.thins.wellFormed
  refine ⟨⟨hthins.wellFormed, hthins.numofnodes.trans h.thins.numofnodes, fun i => ?_⟩,
    h.nodup, h.behind, fun i hi hkey => ?_, h.length, h.idx_le⟩
  · rcases hthins.keys i with hsame | hnull
    · rw [hsame]
      exact h.thins.keys i
    · exact .inr hnull
  · rcases hthins.keys i with hsame | hnull
    · rw [hsame] at hkey ⊢
      exact h.complete i hi hkey
    · exact absurd hnull hkey

theorem Visited.next {idx j : Nat} {visited : List Object} (h₀ : WellFormed hash t₀)
    (h : Visited hash t₀ t idx visited) (hj : (t.nodes j).key ≠ .null) (hle : idx ≤ j)
    (hskip : ∀ i, idx ≤ i → i < j → (t.nodes i).key = .null) :
    Visited hash t₀ t (j + 1) (visited ++ [(t.nodes j).key]) where
  thins := h.thins
  nodup := by
    refine List.nodup_append.mpr ⟨h.nodup, List.nodup_singleton _, ?_⟩
    intro key hkey key' hkey'
    rw [List.mem_singleton] at hkey'
    rintro rfl
    exact h.ahead h₀ hle hj (hkey' ▸ hkey)
  behind key hkey := by
    rcases List.mem_append.mp hkey with hkey | hkey
    · obtain ⟨hne, i, hi, hkeyi⟩ := h.behind key hkey
      exact ⟨hne, i, by omega, hkeyi⟩
    · rw [List.mem_singleton] at hkey
      subst hkey
      refine ⟨hj, j, Nat.lt_succ_self j, ?_⟩
      rcases h.thins.keys j with hsame | hnull
      · exact hsame.symm
      · exact absurd hnull hj
  complete i hi hkey := by
    refine List.mem_append.mpr ?_
    by_cases hlt : i < idx
    · exact .inl (h.complete i hlt hkey)
    · by_cases heq : i = j
      · exact .inr (by rw [heq, List.mem_singleton])
      · exact absurd (hskip i (by omega) (by omega)) hkey
  length := by
    rw [List.length_append, List.length_singleton]
    have hlength := h.length
    omega
  idx_le := by
    have hlt := h.thins.wellFormed.wired.key_lt j hj
    rw [h.thins.numofnodes] at hlt
    omega

theorem Rounds.visited (h₀ : WellFormed hash t₀) {refpos : Option Nat} {visited : List Object}
    (h : Rounds hash t₀ t refpos visited) :
    Visited hash t₀ t (translateIndex refpos) visited := by
  induction h with
  | start => exact .start h₀
  | body _ hstep ih => exact ih.body hstep
  | @next t refpos visited referent getweakrefs nrefidx key val _ hnext ih =>
      rcases next_spec ih.thins.wellFormed referent getweakrefs (translateIndex refpos) with
        ⟨hnone, _⟩ | ⟨j, hsome, hj, hle, hskip⟩
      · rw [hnone] at hnext
        cases hnext
      · rw [hsome] at hnext
        cases hnext
        exact ih.next h₀ hj hle hskip

/-- **Iteration is complete.** Over any table that a program of table operations
can make, a loop whose body writes to stored keys or deletes keys without a
rehash visits no key twice, and no more keys than there are nodes. `Next` gives a
stored key that was not visited, with its value at that time, and stops exactly
when every key that is still stored was visited. -/
theorem next_visitsEachOnce (hash : Object → Nat) {fuel : Nat} {ops : List Op}
    (hops : ∀ op ∈ ops, op.KeyNonNull) {ts : List Table} {answers : List Answer}
    (hrun : run hash (fuel + 2) [] ops = some (ts, answers)) {t₀ : Table} (ht₀ : t₀ ∈ ts)
    {t : Table} {refpos : Option Nat} {visited : List Object}
    (h : Rounds hash t₀ t refpos visited) (referent : Ref → Object) (getweakrefs : Bool) :
    visited.Nodup ∧ visited.length ≤ t₀.numofnodes ∧
      (∀ key ∈ visited, key ≠ .null ∧ ∃ val, t₀.Stores key val) ∧
      (∀ nrefidx key val,
        t.next referent getweakrefs (translateIndex refpos) = some (nrefidx, key, val) →
        key ≠ .null ∧ key ∉ visited ∧ ∃ stored, (∀ v, t.Stores key v ↔ v = stored) ∧
          val = if getweakrefs then stored else realval referent stored) ∧
      (t.next referent getweakrefs (translateIndex refpos) = none ↔
        ∀ key val, key ≠ .null → t.Stores key val → key ∈ visited) := by
  have h₀ := run_wellFormed hops hrun ht₀
  have hv := h.visited h₀
  have hwf := hv.thins.wellFormed
  refine ⟨hv.nodup, Nat.le_trans hv.length hv.idx_le, fun key hkey => ?_, ?_, ?_⟩
  · obtain ⟨hne, i, _, hi⟩ := hv.behind key hkey
    exact ⟨hne, _, i, hi, rfl⟩
  · intro nrefidx key val hnext
    rcases next_spec hwf referent getweakrefs (translateIndex refpos) with
      ⟨hnone, _⟩ | ⟨j, hsome, hj, hle, _⟩
    · rw [hnone] at hnext
      cases hnext
    · rw [hsome] at hnext
      cases hnext
      refine ⟨hj, hv.ahead h₀ hle hj, (t.nodes j).val, fun v => ?_, rfl⟩
      constructor
      · rintro ⟨i, hi, rfl⟩
        rw [hwf.wired.nodup i j (keys_ne_null hi hj) hi]
      · rintro rfl
        exact ⟨j, rfl, rfl⟩
  · rcases next_spec hwf referent getweakrefs (translateIndex refpos) with
      ⟨hnone, hnull⟩ | ⟨j, hsome, hj, hle, _⟩
    · refine ⟨fun _ key val hkey hstored => ?_, fun _ => hnone⟩
      obtain ⟨i, hi, _⟩ := hstored
      by_cases hlt : i < translateIndex refpos
      · rw [← hi] at hkey ⊢
        exact hv.complete i hlt hkey
      · exact absurd (hi.symm.trans (hnull i (by omega))) hkey
    · refine ⟨fun hnone => ?_, fun hall => ?_⟩
      · rw [hsome] at hnone
        cases hnone
      · exact absurd (hall _ _ hj ⟨j, rfl, rfl⟩) (hv.ahead h₀ hle hj)

/-- Three keys with one main position. -/
def clashingKeys : List Op :=
  [.create 4, .newSlot 0 (.integer 1) (.integer 10), .newSlot 0 (.integer 2) (.integer 20),
    .newSlot 0 (.integer 3) (.integer 30)]

def colliding : Table :=
  (((run (fun _ => 0) 2 [] clashingKeys).bind fun p => p.1.head?).getD (create 0))

/-- After the first round the body has written to its key. -/
def overwritten : Table := colliding.setVal 0 (.integer 11)

/-- It has also deleted the key that comes next. -/
def thinned : Table :=
  ((remove (fun _ => 0) 2 overwritten (.integer 3)).getD (create 0))

/-- The loop over the three keys, of which one is deleted before it is reached. -/
theorem rounds_thinned :
    Rounds (fun _ => 0) colliding thinned (some 4) [.integer 1, .integer 2] := by
  have hfirst : Rounds (fun _ => 0) colliding colliding (some 1) [.integer 1] :=
    Rounds.start.next (show colliding.next (fun _ => .null) false (translateIndex none) =
      some (1, .integer 1, .integer 10) from rfl)
  have hwrite : Rounds (fun _ => 0) colliding overwritten (some 1) [.integer 1] :=
    hfirst.body (.set (by decide : Object.integer 1 ≠ .null)
      (rfl : colliding.set (fun _ => 0) _ (.integer 11) = some (overwritten, true)))
  have hremove : Rounds (fun _ => 0) colliding thinned (some 1) [.integer 1] :=
    hwrite.body (.remove (by decide : Object.integer 3 ≠ .null) (fun _ => rfl)
      (rfl : remove (fun _ => 0) 2 overwritten _ = some thinned))
  exact hremove.next (show thinned.next (fun _ => .null) false (translateIndex (some 1)) =
    some (4, .integer 2, .integer 20) from rfl)

theorem next_visitsEachOnce_colliding :
    [Object.integer 1, .integer 2].Nodup ∧
      [Object.integer 1, .integer 2].length ≤ colliding.numofnodes ∧
      (∀ key ∈ [Object.integer 1, .integer 2], key ≠ .null ∧ ∃ val, colliding.Stores key val) ∧
      (∀ nrefidx key val,
        thinned.next (fun _ => .null) false (translateIndex (some 4)) = some (nrefidx, key, val) →
        key ≠ .null ∧ key ∉ [Object.integer 1, .integer 2] ∧
          ∃ stored, (∀ v, thinned.Stores key v ↔ v = stored) ∧
            val = if false then stored else realval (fun _ => .null) stored) ∧
      (thinned.next (fun _ => .null) false (translateIndex (some 4)) = none ↔
        ∀ key val, key ≠ .null → thinned.Stores key val →
          key ∈ [Object.integer 1, .integer 2]) := by
  have hrun : run (fun _ => 0) (0 + 2) [] clashingKeys =
      some ([colliding], [.done, .done, .done, .done]) := rfl
  exact next_visitsEachOnce (fun _ => 0) (by simp [clashingKeys, Op.KeyNonNull]) hrun
    (List.mem_singleton.mpr rfl) rounds_thinned (fun _ => .null) false

end GameScript.Table
