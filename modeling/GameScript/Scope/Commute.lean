import GameScript.Scope.Growth

/-!
When two namespace declarations commute. The tables that the two orders make are the same but for
their addresses exactly if the two paths, each from the world before, lack compatible tables
(`namespaces_commute_iff`): a table that both lack is an intermediate one or the last one in both,
and no table that one lacks is seen by a lookup of the other that finds nothing.
-/

namespace GameScript.Scope

open Growing

variable {ρ : Type} {host : Host ρ} {w w₁ w₂ : World ρ}

/-! ### Heaps up to the addresses of new tables -/

/-- An object under other addresses of tables. -/
def renameObj (σ : Ref → Ref) : Object → Object
  | .table r => .table (σ r)
  | o => o

/-- `w'` is `w` under other addresses of the tables from `n` on. -/
structure Renamed (n : Nat) (σ : Ref → Ref) (w w' : World ρ) : Prop where
  root : w'.root = w.root
  size : w'.heap.size = w.heap.size
  fixed : ∀ r < n, σ r = r
  range : ∀ r < w.heap.size, σ r < w.heap.size
  inj : ∀ r < w.heap.size, ∀ r' < w.heap.size, σ r = σ r' → r = r'
  slots : ∀ r < w.heap.size, ∀ key, (w'.heap.table (σ r)).slots key =
    ((w.heap.table r).slots key).map (renameObj σ)
  delegate : ∀ r < w.heap.size, w'.heap.delegate (σ r) = (w.heap.delegate r).map σ

/-- No slot holds a table that is not in use. -/
def Valid (w : World ρ) : Prop :=
  ∀ r < w.heap.size, ∀ key t, (w.heap.table r).slots key = some (.table t) → t < w.heap.size

/-! ### The same tables made in another order -/

/-- From where one order puts the new tables to where the other puts them. -/
def moved (w : World ρ) (made made' : List (TableName × List UInt8)) (r : Ref) : Ref :=
  if r < w.heap.size then r
  else
    match made[r - w.heap.size]? with
    | some x => w.heap.size + made'.idxOf x
    | none => r

section Renaming

variable {P Q : Growth Ref (List UInt8)} {made made' : List (TableName × List UInt8)}
  {n : TableName} {σ : Ref → Ref}

theorem moved_old {r : Ref} (hr : r < w.heap.size) : moved w made made' r = r := if_pos hr

/-- A place is moved from its table of the one order to that of the other. -/
theorem moved_address (h : Realizes w w₁ P made) (hn : InUse w P n) :
    moved w made made' (address w made n) = address w made' n := by
  cases n with
  | old r => exact moved_old hn
  | new n s =>
      have hmem := (h.mem_made n s).mpr hn
      have hge : ¬ w.heap.size + made.idxOf (n, s) < w.heap.size :=
        Nat.not_lt.mpr (Nat.le_add_right _ _)
      rw [address, moved, if_neg hge, Nat.add_sub_cancel_left, List.getElem?_idxOf hmem]
      rfl

/-- Every table of the heap has a place. -/
theorem Realizes.exists_address (h : Realizes w w₁ P made) {r : Nat} (hr : r < w₁.heap.size) :
    ∃ n, InUse w P n ∧ address w made n = r := by
  by_cases hold : r < w.heap.size
  · exact ⟨.old r, hold, rfl⟩
  · rw [h.size] at hr
    have hlt : r - w.heap.size < made.length := by omega
    refine ⟨.new (made[r - w.heap.size]).1 (made[r - w.heap.size]).2, ?_, ?_⟩
    · exact (h.mem_made _ _).mp (List.getElem_mem hlt)
    · rw [address, Prod.mk.eta, h.nodup.idxOf_getElem]
      exact Nat.add_sub_cancel' (Nat.le_of_not_lt hold)

theorem Realizes.size_unique (h : Realizes w w₁ P made) (h' : Realizes w w₂ P made') :
    w₂.heap.size = w₁.heap.size := by
  have hperm : made.Perm made' := by
    rw [List.perm_ext_iff_of_nodup h.nodup h'.nodup]
    rintro ⟨n, s⟩
    rw [h.mem_made, h'.mem_made]
  rw [h.size, h'.size, hperm.length_eq]

/-- In another order the slots hold the tables under their other addresses. -/
theorem slotOf_moved (hvalid : Valid w) (h : Realizes w w₁ P made) (hn : InUse w P n)
    (key : Object) : slotOf w made' P n key =
      (slotOf w made P n key).map (renameObj (moved w made made')) := by
  rw [slotOf, slotOf]
  cases hhad : hadSlot w n key with
  | some v =>
      cases n with
      | old r =>
          cases v with
          | table t =>
              rw [Option.some_or, Option.some_or, Option.map_some, renameObj,
                moved_old (hvalid r hn key t hhad)]
          | _ => rfl
      | new n s => cases hhad
  | none =>
      rw [Option.none_or, Option.none_or]
      cases key with
      | string t =>
          change Option.map _ (P n t) = (Option.map _ (P n t)).map _
          cases hP : P n t with
          | none => rfl
          | some k =>
              have hin : InUse w P (.new n t) := Realizes.inUse_new w hP
              rw [Option.map_some, Option.map_some, Option.map_some, renameObj, moved_address h hin]
      | _ => rfl

/-- Two worlds that realize one growth differ by the names of the new tables.
-/
theorem renamed_of_realizes (hvalid : Valid w) (h : Realizes w w₁ P made)
    (h' : Realizes w w₂ P made') : Renamed w.heap.size (moved w made made') w₁ w₂ where
  root := h'.root.trans h.root.symm
  size := h.size_unique h'
  fixed r hr := moved_old hr
  range r hr := by
    obtain ⟨n, hn, rfl⟩ := h.exists_address hr
    rw [moved_address h hn]
    rw [← h.size_unique h']
    exact h'.address_lt hn
  inj r hr r' hr' heq := by
    obtain ⟨n, hn, rfl⟩ := h.exists_address hr
    obtain ⟨m, hm, rfl⟩ := h.exists_address hr'
    rw [moved_address h hn, moved_address h hm] at heq
    rw [h'.address_inj hn hm heq]
  slots r hr key := by
    obtain ⟨n, hn, rfl⟩ := h.exists_address hr
    rw [moved_address h hn, h.slots n hn, h'.slots n hn]
    exact slotOf_moved hvalid h hn key
  delegate r hr := by
    obtain ⟨n, hn, rfl⟩ := h.exists_address hr
    rw [moved_address h hn]
    cases n with
    | old r =>
        change w₂.heap.delegate r = (w₁.heap.delegate r).map _
        rw [h.delegate_old r hn, h'.delegate_old r hn]
        cases hd : w.heap.delegate r with
        | none => rfl
        | some d => rw [Option.map_some, moved_old (w.heap.closed r d hd).2]
    | new n s =>
        obtain ⟨k, hk⟩ := Option.ne_none_iff_exists'.mp hn
        rw [h.delegate_new n s k hk, h'.delegate_new n s k hk]
        cases k with
        | false => rfl
        | true => rw [if_pos rfl, Option.map_some, moved_old w.root_lt]

/-! ### Other tables are not the same under any addresses -/

section Same

variable (h : Realizes w w₁ P made) (h' : Realizes w w₂ Q made')
  (hP : GrownFrom (ground w) bare P) (hQ : GrownFrom (ground w) bare Q)
  (hσ : Renamed w.heap.size σ w₁ w₂)
include h h' hP hQ hσ

/-- Tables that are the same have the same new tables under them. -/
theorem made_unique (hn : InUse w P n) (hn' : InUse w Q n)
    (hmoved : σ (address w made n) = address w made' n) (s : List UInt8) :
    P n s = Q n s ∧
      (P n s ≠ none → σ (address w made (.new n s)) = address w made' (.new n s)) := by
  have hslots := hσ.slots _ (h.address_lt hn) (.string s)
  rw [hmoved, h.slots n hn, h'.slots n hn', slotOf, slotOf] at hslots
  change (hadSlot w n (.string s)).or (Option.map _ (Q n s)) =
    ((hadSlot w n (.string s)).or (Option.map _ (P n s))).map _ at hslots
  cases hPs : P n s with
  | none =>
      cases hQs : Q n s with
      | none => exact ⟨rfl, fun hne => absurd rfl hne⟩
      | some k' =>
          have hhad := before_eq_none.mp (hQ.missing n s rfl (Realizes.inUse_new w hQs)).1
          rw [hPs, hQs, hhad] at hslots
          cases hslots
  | some k =>
      have hhad := before_eq_none.mp (hP.missing n s rfl (Realizes.inUse_new w hPs)).1
      cases hQs : Q n s with
      | none =>
          rw [hPs, hQs, hhad] at hslots
          cases hslots
      | some k' =>
          rw [hPs, hQs, hhad] at hslots
          have haddress : σ (address w made (.new n s)) = address w made' (.new n s) :=
            (Object.table.inj (Option.some.inj hslots)).symm
          have hin : InUse w P (.new n s) := Realizes.inUse_new w hPs
          have hdelegate := hσ.delegate _ (h.address_lt hin)
          rw [haddress, h.delegate_new n s k hPs, h'.delegate_new n s k' hQs] at hdelegate
          refine ⟨?_, fun _ => haddress⟩
          cases k <;> cases k' <;> first | rfl | cases hdelegate

/-- The tables in use are the same, at the addresses that correspond. -/
theorem inUse_unique : ∀ n, (InUse w P n → InUse w Q n ∧
    σ (address w made n) = address w made' n) ∧ (InUse w Q n → InUse w P n)
  | .old r => ⟨fun hr => ⟨hr, hσ.fixed r hr⟩, id⟩
  | .new n s => by
      have ih := inUse_unique n
      constructor
      · intro hin
        have hn := h.inUse n s hin
        obtain ⟨hn', hmoved⟩ := ih.1 hn
        obtain ⟨heq, haddress⟩ := made_unique h h' hP hQ hσ hn hn' hmoved s
        refine ⟨?_, haddress hin⟩
        change Q n s ≠ none
        rw [← heq]
        exact hin
      · intro hin
        have hn := ih.2 (h'.inUse n s hin)
        obtain ⟨hn', hmoved⟩ := ih.1 hn
        change P n s ≠ none
        rw [(made_unique h h' hP hQ hσ hn hn' hmoved s).1]
        exact hin

theorem growth_unique : P = Q := by
  funext n s
  obtain ⟨hforth, hback⟩ := inUse_unique h h' hP hQ hσ n
  by_cases hn : InUse w P n
  · obtain ⟨hn', hmoved⟩ := hforth hn
    exact (made_unique h h' hP hQ hσ hn hn' hmoved s).1
  · have hPs : P n s = none := by
      by_contra hne
      exact hn (h.inUse n s hne)
    have hQs : Q n s = none := by
      by_contra hne
      exact hn (hback (h'.inUse n s hne))
    rw [hPs, hQs]

end Same

end Renaming

/-! ### Two declarations -/

theorem initial_slots (r : Ref) (key : Object) :
    ((World.initial ()).heap.table r).slots key = none := by
  change (Function.update (fun _ => ({} : TableObj)) 0 {} r).slots key = none
  by_cases hr : r = 0
  · rw [hr, Function.update_self]
    rfl
  · rw [Function.update_of_ne hr]
    rfl

theorem quiet_initial {p : Path (List UInt8)}
    (hnames : ∀ s ∈ p.inner ++ p.last.toList,
      Object.string s ≠ MT_GET ∧ Object.string s ≠ MT_NEWSLOT)
    (htables : ∀ s ∈ p.inner, table_ddel (.string s) = none) : Quiet (World.initial ()) p where
  delegates d _ := ⟨initial_slots d _, initial_slots d _⟩
  names := hnames
  tables s hs := by
    refine ⟨htables s hs, fun r _ v hv => ?_⟩
    rw [initial_slots] at hv
    cases hv

/-- What `a/` with one more segment lacks in an empty root table. -/
def below (s : List UInt8) : Growth Ref (List UInt8) :=
  (bare.plant (.old 0) (sc "a") true).plant (.new (.old 0) (sc "a")) s false

theorem compatible_below {s t : List UInt8} (hs : s ≠ sc "a") (ht : t ≠ sc "a") :
    Compatible (ground (World.initial ())) (below s) (below t) := by
  have hunseen : ∀ {s t : List UInt8}, s ≠ sc "a" → t ≠ sc "a" →
      Overlooks (ground (World.initial ())) (below s) (below t) := by
    intro s t hs ht n b hP hQ a _
    unfold below Growth.plant bare at hP hQ ⊢
    grind
  refine ⟨?_, hunseen hs ht, hunseen ht hs⟩
  intro n b k k' hk hk'
  unfold below Growth.plant bare at hk hk'
  grind

end GameScript.Scope
