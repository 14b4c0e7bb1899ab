import GameScript.Lib.Growing
import GameScript.Scope.Namespaces

/-!
`BuildNamespaceTables` as a walk that grows places (`Growing`). A new table is named after the
table and the segment it was made for, so that its name does not depend on what was made before
it; its address does. `buildLoop_realizes` connects the two.
-/

namespace GameScript.Scope

open Growing

variable {ρ : Type} {host : Host ρ} {w w' : World ρ}

/-- A table by the segments it was made for. -/
abbrev TableName := Place Ref (List UInt8)

/-! ### What there is before -/

/-- The chain from a table on a chain is the rest of it. -/
theorem chain_append {h : Heap} {r d : Ref} {l l' : List Ref} (heq : h.chain r = l ++ d :: l') :
    h.chain d = d :: l' := by
  induction r using h.acyclic.induction generalizing l with
  | step r ih =>
      rw [h.chain_eq] at heq
      cases l with
      | nil =>
          obtain ⟨rfl, rfl⟩ := List.cons.inj heq
          exact h.chain_eq r
      | cons _ l =>
          have hrest := (List.cons.inj heq).2
          cases hd : h.delegate r with
          | none =>
              rw [hd] at hrest
              cases l <;> cases hrest
          | some d' =>
              rw [hd] at hrest
              exact ih d' hd hrest

theorem chain_cons (h : Heap) (r : Ref) : h.chain r = r :: (h.chain r).tail := by
  rw [h.chain_eq, List.tail_cons]

/-- What is behind a table in its chain is a delegate. -/
theorem delegate_of_mem_tail {h : Heap} {r d : Ref} (hd : d ∈ (h.chain r).tail) :
    ∃ r, h.delegate r = some d := by
  induction r using h.acyclic.induction with
  | step r ih =>
      rw [h.chain_eq, List.tail_cons] at hd
      cases hr : h.delegate r with
      | none =>
          rw [hr] at hd
          cases hd
      | some d' =>
          rw [hr, Option.elim_some, chain_cons] at hd
          rcases List.mem_cons.mp hd with rfl | hd
          · exact ⟨r, hr⟩
          · exact ih d' hr hd

/-- What a lookup of a segment makes of a value: only a table goes on. -/
def asTable : Object → Option Ref
  | .table t => some t
  | _ => none

/-- The tables of a world, as far as the lookups of segments go. -/
def ground (w : World ρ) : Ground Ref (List UInt8) where
  root := w.root
  entry r s := ((w.heap.table r).slots (.string s)).map asTable
  behind r := (w.heap.chain r).tail
  everywhere s := (table_ddel (.string s)).isSome
  behind_append {a b l l'} h := by
    have hchain : w.heap.chain a = (a :: l) ++ b :: l' := by
      rw [chain_cons, h]
      rfl
    rw [chain_append hchain, List.tail_cons]

/-- Under the segment only tables are found. -/
def Tabled (w : World ρ) (s : List UInt8) : Prop :=
  table_ddel (.string s) = none ∧ ∀ r < w.heap.size, ∀ v,
    (w.heap.table r).slots (.string s) = some v → ∃ t < w.heap.size, v = .table t

/-- Following the path meets only tables and calls no metamethod: no table that others delegate to,
or may come to, has one for a lookup or a new slot, and the path makes none. -/
structure Quiet (w : World ρ) (p : Path (List UInt8)) : Prop where
  delegates : ∀ d, (d = w.root ∨ ∃ r, w.heap.delegate r = some d) →
    (w.heap.table d).slots MT_GET = none ∧ (w.heap.table d).slots MT_NEWSLOT = none
  names : ∀ s ∈ p.inner ++ p.last.toList,
    Object.string s ≠ MT_GET ∧ Object.string s ≠ MT_NEWSLOT
  tables : ∀ s ∈ p.inner, Tabled w s

/-- The segments of the characters of a path, as the loop collects them. -/
def pathLoop : List UInt8 → List UInt8 → Path (List UInt8)
  | [], buf => { inner := [], last := if buf = [] then none else some buf }
  | c :: str, buf =>
      if c = slash then
        let p := pathLoop str []
        { p with inner := buf :: p.inner }
      else pathLoop str (if buf.length < 255 then buf ++ [c] else buf)

/-- The segments of a path. -/
def pathOf (namespace_str : List UInt8) : Path (List UInt8) := pathLoop (cstring namespace_str) []

/-- The tables that a namespace path lacks. -/
def lacking (w : World ρ) (namespace_str : List UInt8) : Growth Ref (List UInt8) :=
  grow (ground w) (pathOf namespace_str) bare

/-! ### Addresses -/

/-- Where a table is, the new ones in the order in which they were made. -/
def address (w : World ρ) (made : List (TableName × List UInt8)) : TableName → Ref
  | .old r => r
  | .new n s => w.heap.size + made.idxOf (n, s)

/-- A table of the world, or one that was made. -/
def InUse (w : World ρ) (G : Growth Ref (List UInt8)) : TableName → Prop
  | .old r => r < w.heap.size
  | .new n s => G n s ≠ none

/-- The table that was made for a table under a key. -/
def madeSlot (w : World ρ) (made : List (TableName × List UInt8)) (G : Growth Ref (List UInt8))
    (n : TableName) : Object → Option Object
  | .string s => (G n s).map fun _ => .table (address w made (.new n s))
  | _ => none

/-- What a table had under a key before. -/
def hadSlot (w : World ρ) : TableName → Object → Option Object
  | .old r, key => (w.heap.table r).slots key
  | .new _ _, _ => none

/-- What a table has under a key. -/
def slotOf (w : World ρ) (made : List (TableName × List UInt8)) (G : Growth Ref (List UInt8))
    (n : TableName) (key : Object) : Option Object :=
  (hadSlot w n key).or (madeSlot w made G n key)

/-- `w'` is `w` with the tables of `G`, made one after the other. -/
structure Realizes (w w' : World ρ) (G : Growth Ref (List UInt8))
    (made : List (TableName × List UInt8)) : Prop where
  root : w'.root = w.root
  rest : w'.rest = w.rest
  nodup : made.Nodup
  mem_made : ∀ n s, (n, s) ∈ made ↔ G n s ≠ none
  size : w'.heap.size = w.heap.size + made.length
  inUse : ∀ n s, G n s ≠ none → InUse w G n
  named : ∀ n s, G n s ≠ none → Object.string s ≠ MT_GET ∧ Object.string s ≠ MT_NEWSLOT
  delegate_old : ∀ r < w.heap.size, w'.heap.delegate r = w.heap.delegate r
  delegate_new : ∀ n s k, G n s = some k →
    w'.heap.delegate (address w made (.new n s)) = if k then some w.root else none
  slots : ∀ n, InUse w G n → ∀ key,
    (w'.heap.table (address w made n)).slots key = slotOf w made G n key

/-- Before anything is grown the world is as it was. -/
theorem realizes_bare (w : World ρ) : Realizes w w bare [] where
  root := rfl
  rest := rfl
  nodup := .nil
  mem_made _ _ := by simp [bare]
  size := rfl
  inUse _ _ hne := absurd rfl hne
  named _ _ hne := absurd rfl hne
  delegate_old _ _ := rfl
  delegate_new _ _ _ hk := by cases hk
  slots n hn key := by
    cases n with
    | old r =>
        have hnone : madeSlot w [] bare (.old r) key = none := by
          cases key <;> rfl
        rw [slotOf, hnone, Option.or_none]
        rfl
    | new n s => exact absurd rfl hn

/-- The ground has no slot exactly where the heap had none. -/
theorem before_eq_none {n : TableName} {s : List UInt8} :
    before (ground w) n s = none ↔ hadSlot w n (.string s) = none := by
  cases n with
  | old r =>
      change (((w.heap.table r).slots (.string s)).map asTable).map _ = none ↔ _
      rw [Option.map_eq_none_iff, Option.map_eq_none_iff]
      rfl
  | new n t => exact ⟨fun _ => rfl, fun _ => rfl⟩

namespace Realizes

variable {G : Growth Ref (List UInt8)} {made : List (TableName × List UInt8)} {n m : TableName}
  {s : List UInt8} {k : Bool}

/-- A place in use has a table of the heap. -/
theorem address_lt (h : Realizes w w' G made) (hn : InUse w G n) :
    address w made n < w'.heap.size := by
  rw [h.size]
  cases n with
  | old r => exact Nat.lt_add_right _ hn
  | new n s =>
      have hmem := (h.mem_made n s).mpr hn
      exact Nat.add_lt_add_left (List.idxOf_lt_length_of_mem hmem) _

/-- Two places in use have different tables. -/
theorem address_inj (h : Realizes w w' G made) (hn : InUse w G n) (hm : InUse w G m)
    (heq : address w made n = address w made m) : n = m := by
  cases n with
  | old r =>
      cases m with
      | old r' => exact congrArg Place.old heq
      | new m t =>
          change r = w.heap.size + made.idxOf (m, t) at heq
          rw [heq] at hn
          exact absurd hn (Nat.not_lt.mpr (Nat.le_add_right _ _))
  | new n s =>
      have hmem := (h.mem_made n s).mpr hn
      cases m with
      | old r' =>
          change w.heap.size + made.idxOf (n, s) = r' at heq
          rw [← heq] at hm
          exact absurd hm (Nat.not_lt.mpr (Nat.le_add_right _ _))
      | new m t =>
          have hidx : made.idxOf (n, s) = made.idxOf (m, t) := Nat.add_left_cancel heq
          cases (List.idxOf_inj hmem).mp hidx
          rfl

/-! ### One more table -/

theorem inUse_new (w : World ρ) (hk : G n s = some k) : InUse w G (.new n s) := by
  change G n s ≠ none
  rw [hk]
  exact Option.some_ne_none k

theorem inUse_plant (hnone : G n s = none) (hm : InUse w G m) : InUse w (G.plant n s k) m := by
  cases m with
  | old r => exact hm
  | new m t => exact (extends_plant hnone k).ne_none hm

theorem address_concat (h : Realizes w w' G made) (hm : InUse w G m)
    (x : TableName × List UInt8) : address w (made ++ [x]) m = address w made m := by
  cases m with
  | old r => rfl
  | new m t => rw [address, address, List.idxOf_append_of_mem ((h.mem_made m t).mpr hm)]

theorem address_new (h : Realizes w w' G made) (hnone : G n s = none) :
    address w (made ++ [(n, s)]) (.new n s) = w'.heap.size := by
  have hmem : (n, s) ∉ made := fun hmem => (h.mem_made n s).mp hmem hnone
  rw [address, List.idxOf_append_of_notMem hmem, List.idxOf_cons_self, Nat.add_zero, h.size]

/-- A further table adds its own slot to those that were made. -/
theorem madeSlot_concat (h : Realizes w w' G made) {key : Object}
    (hne : ¬ (m = n ∧ key = .string s)) (hnone : G n s = none) :
    madeSlot w (made ++ [(n, s)]) (G.plant n s k) m key = madeSlot w made G m key := by
  cases key with
  | string t =>
      have hnt : ¬ (m = n ∧ t = s) := by
        rintro ⟨rfl, rfl⟩
        exact hne ⟨rfl, rfl⟩
      change Option.map _ (G.plant n s k m t) = Option.map _ (G m t)
      rw [plant_of_ne hnt]
      cases hG : G m t with
      | none => rfl
      | some k' => rw [h.address_concat (inUse_new w hG)]
  | _ => rfl

/-- Nothing was made under a table that was not made. -/
theorem madeSlot_absent (h : Realizes w w' G made) (hnone : G n s = none) (key : Object) :
    madeSlot w made G (.new n s) key = none := by
  cases key with
  | string t =>
      have hG : G (.new n s) t = none := by
        by_contra hne
        exact h.inUse _ t hne hnone
      change Option.map _ (G (.new n s) t) = none
      rw [hG]
      rfl
  | _ => rfl

/-- A table that is made under a segment that is found nowhere. -/
theorem grow (h : Realizes w w' G made) (hn : InUse w G n) (hnone : G n s = none)
    (hbefore : before (ground w) n s = none)
    (hname : Object.string s ≠ MT_GET ∧ Object.string s ≠ MT_NEWSLOT) :
    Realizes w (w'.grow (address w made n) s k) (G.plant n s k) (made ++ [(n, s)]) where
  root := h.root
  rest := h.rest
  nodup := by
    rw [List.nodup_append]
    refine ⟨h.nodup, List.nodup_singleton _, ?_⟩
    intro x hx y hy hxy
    rw [List.mem_singleton] at hy
    rw [hxy, hy] at hx
    exact (h.mem_made n s).mp hx hnone
  mem_made m t := by
    rw [List.mem_append, h.mem_made, List.mem_singleton, Prod.mk.injEq]
    by_cases heq : m = n ∧ t = s
    · obtain ⟨rfl, rfl⟩ := heq
      simp [plant_self]
    · rw [plant_of_ne heq]
      exact ⟨fun hor => hor.resolve_right heq, .inl⟩
  size := by
    rw [World.grow_size, h.size, List.length_append, List.length_singleton, Nat.add_assoc]
  inUse m t hne := by
    apply inUse_plant hnone
    by_cases heq : m = n ∧ t = s
    · rw [heq.1]
      exact hn
    · rw [plant_of_ne heq] at hne
      exact h.inUse m t hne
  named m t hne := by
    by_cases heq : m = n ∧ t = s
    · rw [heq.2]
      exact hname
    · rw [plant_of_ne heq] at hne
      exact h.named m t hne
  delegate_old r hr := by
    rw [World.grow_delegate_old (by rw [h.size]; exact Nat.lt_add_right _ hr), h.delegate_old r hr]
  delegate_new m t k' hk' := by
    by_cases heq : m = n ∧ t = s
    · obtain ⟨rfl, rfl⟩ := heq
      rw [plant_self] at hk'
      rw [h.address_new hnone, World.grow_delegate_new, Option.some.inj hk', h.root]
    · rw [plant_of_ne heq] at hk'
      have hin : InUse w G (.new m t) := inUse_new w hk'
      rw [h.address_concat hin, World.grow_delegate_old (h.address_lt hin),
        h.delegate_new m t k' hk']
  slots m hm key := by
    by_cases hnew : m = .new n s
    · subst hnew
      -- nothing was made under the new table
      have hempty : madeSlot w (made ++ [(n, s)]) (G.plant n s k) (.new n s) key = none := by
        rw [h.madeSlot_concat (fun heq => Place.new_ne n s heq.1) hnone]
        exact h.madeSlot_absent hnone key
      rw [h.address_new hnone, World.grow_slots_new (h.address_lt hn), slotOf, hempty]
      rfl
    · have hold : InUse w G m := by
        cases m with
        | old r => exact hm
        | new m t =>
            have hne : ¬ (m = n ∧ t = s) := by
              rintro ⟨rfl, rfl⟩
              exact hnew rfl
            change G.plant n s k m t ≠ none at hm
            rw [plant_of_ne hne] at hm
            exact hm
      rw [h.address_concat hold, World.grow_slots_old (h.address_lt hold)]
      by_cases heq : m = n ∧ key = .string s
      · obtain ⟨rfl, rfl⟩ := heq
        have hmade : madeSlot w (made ++ [(m, s)]) (G.plant m s k) m (.string s) =
            some (.table w'.heap.size) := by
          change Option.map _ (G.plant m s k m s) = _
          rw [plant_self, Option.map_some, h.address_new hnone]
        rw [if_pos ⟨rfl, rfl⟩, slotOf, before_eq_none.mp hbefore, hmade, Option.none_or]
      · have hne : ¬ (address w made m = address w made n ∧ key = .string s) := fun hand =>
          heq ⟨h.address_inj hold hn hand.1, hand.2⟩
        rw [if_neg hne, h.slots m hold, slotOf, slotOf, h.madeSlot_concat heq hnone]

/-! ### What is found -/

/-- Nothing that is grown changes the chain of an old table. -/
theorem chain_old (h : Realizes w w' G made) {r : Ref} (hr : r < w.heap.size) :
    w'.heap.chain r = w.heap.chain r := by
  induction r using w.heap.acyclic.induction with
  | step r ih =>
      rw [w'.heap.chain_eq, w.heap.chain_eq, h.delegate_old r hr]
      cases hd : w.heap.delegate r with
      | none => rfl
      | some d => exact congrArg (r :: ·) (ih d hd (w.heap.closed r d hd).2)

theorem map_address_old (w : World ρ) (made : List (TableName × List UInt8)) (rs : List Ref) :
    (rs.map Place.old).map (address w made) = rs := by
  rw [List.map_map]
  exact List.map_id rs

/-- The chain of a place is the chain of its table. -/
theorem chain_address (h : Realizes w w' G made) (hn : InUse w G n) :
    w'.heap.chain (address w made n) = (chainOf (ground w) G n).map (address w made) := by
  cases n with
  | old r =>
      rw [chainOf, List.map_cons, map_address_old]
      exact (h.chain_old hn).trans (chain_cons w.heap r)
  | new n s =>
      obtain ⟨k, hk⟩ := Option.ne_none_iff_exists'.mp hn
      have hd := h.delegate_new n s k hk
      rw [chainOf, List.map_cons, hk]
      cases k with
      | false => exact w'.heap.chain_of_none hd
      | true =>
          rw [if_pos rfl, map_address_old, w'.heap.chain_of_some hd, h.chain_old w.root_lt,
            chain_cons]
          rfl

/-- The chain of a place in use leads through places in use. -/
theorem inUse_of_mem_chain (hn : InUse w G n) (hm : m ∈ chainOf (ground w) G n) : InUse w G m := by
  by_cases heq : m = n
  · rw [heq]
    exact hn
  · obtain ⟨a, ha, rfl⟩ := mem_fallback_of_mem hm heq
    cases n with
    | old r => exact Heap.lt_of_mem_chain hn (List.mem_of_mem_tail ha)
    | new n s =>
        have hroot : a ∈ w.heap.chain w.root := by
          rw [chain_cons]
          exact ha
        exact Heap.lt_of_mem_chain w.root_lt hroot

/-- A segment is found in the heap exactly where it is seen in the growth. -/
theorem lookup_none (h : Realizes w w' G made) (hn : InUse w G n) :
    lookup host w' (address w made n) (.string s) = none ↔ look (ground w) G n s = none := by
  rw [lookup_eq_none (by simp), look_eq_none, h.chain_address hn]
  have hslots : ∀ x ∈ chainOf (ground w) G n,
      (w'.heap.table (address w made x)).slots (.string s) = none ↔
        before (ground w) x s = none ∧ G x s = none := by
    intro x hx
    rw [h.slots x (inUse_of_mem_chain hn hx), slotOf, Option.or_eq_none_iff, before_eq_none]
    exact and_congr_right fun _ => Option.map_eq_none_iff
  have hdefault : table_ddel (.string s) = none ↔ (ground w).everywhere s = false := by
    change _ ↔ (table_ddel (.string s)).isSome = false
    rw [Option.isSome_eq_false_iff, Option.isNone_iff_eq_none]
  rw [hdefault]
  refine and_congr_left fun _ => ⟨fun hall x hx => ?_, fun hall d hd => ?_⟩
  · exact (hslots x hx).mp (hall _ (List.mem_map_of_mem hx))
  · obtain ⟨x, hx, rfl⟩ := List.mem_map.mp hd
    exact (hslots x hx).mpr (hall x hx)

/-- What a lookup gives for a table that is found. -/
def found (w : World ρ) (made : List (TableName × List UInt8)) : Option TableName → Object
  | some m => .table (address w made m)
  | none => .null

/-- Where only tables are found under a segment, they are found as they are by name. -/
theorem lookup_table (h : Realizes w w' G made) (hn : InUse w G n) (hs : Tabled w s) :
    lookup host w' (address w made n) (.string s) =
      (look (ground w) G n s).map (found w made) := by
  have hraw : ∀ x ∈ chainOf (ground w) G n, rawGet host w' (address w made x) (.string s) =
      (entryOf (ground w) G s x).map (found w made) := by
    intro x hx
    have hin := inUse_of_mem_chain hn hx
    rw [rawGet, if_neg (by simp), h.slots x hin, slotOf, entryOf]
    cases hhad : hadSlot w x (.string s) with
    | none =>
        rw [before_eq_none.mpr hhad, Option.none_or, Option.none_or]
        change Option.map _ (Option.map _ (G x s)) = _
        cases G x s <;> rfl
    | some v =>
        cases x with
        | old r =>
            obtain ⟨t, -, rfl⟩ := hs.2 r hin v hhad
            have hslot : (w.heap.table r).slots (.string s) = some (.table t) := hhad
            have hbefore : before (ground w) (.old r) s = some (some (.old t)) := by
              change Option.map _ (((w.heap.table r).slots (.string s)).map asTable) = _
              rw [hslot]
              rfl
            rw [hbefore]
            rfl
        | new _ _ => cases hhad
  have heverywhere : (ground w).everywhere s = false := by
    change (table_ddel (.string s)).isSome = false
    rw [hs.1]
    rfl
  rw [lookup, h.chain_address hn, List.findSome?_map, hs.1, Option.or_none, look, heverywhere,
    if_neg Bool.false_ne_true, Option.or_none, List.map_findSome?, ← List.head?_filterMap,
    ← List.head?_filterMap]
  exact congrArg List.head? (List.filterMap_congr hraw)

/-- What a segment leads to is in use. -/
theorem inUse_of_look (hn : InUse w G n) (hs : Tabled w s) {v : Option TableName}
    (hlook : look (ground w) G n s = some v) : ∃ m, v = some m ∧ InUse w G m := by
  have heverywhere : (ground w).everywhere s = false := by
    change (table_ddel (.string s)).isSome = false
    rw [hs.1]
    rfl
  rw [look, heverywhere, if_neg Bool.false_ne_true, Option.or_none] at hlook
  obtain ⟨x, hx, hentry⟩ := List.exists_of_findSome?_eq_some hlook
  have hin := inUse_of_mem_chain hn hx
  rw [entryOf, Option.or_eq_some_iff] at hentry
  rcases hentry with hbefore | ⟨-, hmade⟩
  · cases x with
    | old r =>
        obtain ⟨u, hu, rfl⟩ := Option.map_eq_some_iff.mp hbefore
        obtain ⟨o, hslot, rfl⟩ := Option.map_eq_some_iff.mp hu
        obtain ⟨t, ht, rfl⟩ := hs.2 r hin o hslot
        exact ⟨.old t, rfl, ht⟩
    | new _ _ => cases hbefore
  · obtain ⟨k, hk, rfl⟩ := Option.map_eq_some_iff.mp hmade
    exact ⟨.new x s, rfl, inUse_new w hk⟩

/-- What a table delegates to was there before. -/
theorem delegates_of_mem_tail (h : Realizes w w' G made) (hn : InUse w G n) {d : Ref}
    (hd : d ∈ (w'.heap.chain (address w made n)).tail) :
    d < w.heap.size ∧ (d = w.root ∨ ∃ r, w.heap.delegate r = some d) := by
  have hfallback : ∃ a ∈ fallback (ground w) n, d = a := by
    rw [h.chain_address hn] at hd
    rcases chainOf_eq (ground w) G n with heq | heq
    · rw [heq] at hd
      cases hd
    · rw [heq, List.map_cons, List.tail_cons, map_address_old] at hd
      exact ⟨d, hd, rfl⟩
  obtain ⟨a, ha, rfl⟩ := hfallback
  cases n with
  | old r =>
      exact ⟨Heap.lt_of_mem_chain hn (List.mem_of_mem_tail ha), .inr (delegate_of_mem_tail ha)⟩
  | new n s =>
      rcases List.mem_cons.mp ha with rfl | ha
      · exact ⟨w.root_lt, .inl rfl⟩
      · exact ⟨Heap.lt_of_mem_chain w.root_lt (List.mem_of_mem_tail ha),
          .inr (delegate_of_mem_tail ha)⟩

/-- No metamethod is asked. -/
theorem plain (h : Realizes w w' G made) (hn : InUse w G n)
    (hdelegates : ∀ d, (d = w.root ∨ ∃ r, w.heap.delegate r = some d) →
      (w.heap.table d).slots MT_GET = none ∧ (w.heap.table d).slots MT_NEWSLOT = none) :
    Plain w' MT_GET (address w made n) ∧ Plain w' MT_NEWSLOT (address w made n) := by
  have hslot : ∀ (t : List UInt8) (d : Ref), d < w.heap.size →
      (w.heap.table d).slots (.string t) = none → G (.old d) t = none →
      (w'.heap.table d).slots (.string t) = none := by
    intro t d hlt hhad hG
    have hslots := h.slots (.old d) hlt (.string t)
    have hmade : madeSlot w made G (.old d) (.string t) = none := Option.map_eq_none_iff.mpr hG
    rw [slotOf, hmade, Option.or_none] at hslots
    exact hslots.trans hhad
  constructor
  · intro d hd
    obtain ⟨hlt, hdelegate⟩ := h.delegates_of_mem_tail hn hd
    apply hslot _ d hlt (hdelegates d hdelegate).1
    by_contra hne
    exact (h.named _ _ hne).1 rfl
  · intro d hd
    obtain ⟨hlt, hdelegate⟩ := h.delegates_of_mem_tail hn hd
    apply hslot _ d hlt (hdelegates d hdelegate).2
    by_contra hne
    exact (h.named _ _ hne).2 rfl

end Realizes

/-! ### The walk -/

theorem Quiet.tail {buf : List UInt8} {p : Path (List UInt8)}
    (h : Quiet w { p with inner := buf :: p.inner }) : Quiet w p where
  delegates := h.delegates
  names s hs := h.names s (List.mem_cons_of_mem _ hs)
  tables s hs := h.tables s (List.mem_cons_of_mem _ hs)

variable {G : Growth Ref (List UInt8)} {made : List (TableName × List UInt8)} {n : TableName}

/-- The walk of `BuildNamespaceTables` makes the tables that the path lacks. -/
theorem buildLoop_realizes (str buf : List UInt8) (h : Realizes w w' G made) (hn : InUse w G n)
    (hquiet : Quiet w (pathLoop str buf)) :
    ∃ made', Realizes w (buildLoop host str buf (.table (address w made n)) w').2
      (finish (ground w) (pathLoop str buf).last
        (follow (ground w) (pathLoop str buf).inner n G).1
        (follow (ground w) (pathLoop str buf).inner n G).2) made' := by
  have hplain := h.plain hn hquiet.delegates
  have hlt := h.address_lt hn
  induction str generalizing buf n w' G made with
  | nil =>
      by_cases hbuf : buf = []
      · refine ⟨made, ?_⟩
        rw [buildLoop, if_pos hbuf, pathLoop, if_pos hbuf]
        exact h
      · rw [buildLoop, if_neg hbuf]
        rw [pathLoop, if_neg hbuf] at hquiet ⊢
        have hname := hquiet.names buf List.mem_cons_self
        change ∃ made', Realizes w _ (if look (ground w) G n buf = none then _ else _) made'
        cases hlook : look (ground w) G n buf with
        | none =>
            have hmiss : lookup host w' (address w made n) (.string buf) = none :=
              (h.lookup_none hn).mpr hlook
            refine ⟨made ++ [(n, buf)], ?_⟩
            rw [if_pos rfl, ensureTable_missing hlt hplain hmiss]
            exact h.grow hn (none_of_look hlook).2 (none_of_look hlook).1 hname
        | some v =>
            have hfound : lookup host w' (address w made n) (.string buf) ≠ none := by
              rw [Ne, h.lookup_none hn, hlook]
              exact Option.some_ne_none v
            obtain ⟨o, ho⟩ := Option.ne_none_iff_exists'.mp hfound
            refine ⟨made, ?_⟩
            rw [if_neg (Option.some_ne_none v), ensureTable_found ho]
            exact h
  | cons c str ih =>
      by_cases hc : c = slash
      · rw [buildLoop, if_pos hc]
        rw [pathLoop, if_pos hc] at hquiet ⊢
        have htabled := hquiet.tables buf List.mem_cons_self
        have hname := hquiet.names buf List.mem_cons_self
        dsimp only
        rw [follow]
        cases hlook : look (ground w) G n buf with
        | none =>
            have hmiss : lookup host w' (address w made n) (.string buf) = none :=
              (h.lookup_none hn).mpr hlook
            have hnone := none_of_look hlook
            have hgrown := h.grow (k := true) hn hnone.2 hnone.1 hname
            have hin : InUse w (G.plant n buf true) (.new n buf) :=
              Realizes.inUse_new w (plant_self G n buf true)
            have hrest := ih [] hgrown hin hquiet.tail (hgrown.plain hin hquiet.delegates)
              (hgrown.address_lt hin)
            rw [h.address_new hnone.2] at hrest
            rw [ensureTable_missing hlt hplain hmiss]
            exact hrest
        | some v =>
            obtain ⟨m, rfl, hm⟩ := Realizes.inUse_of_look hn htabled hlook
            have hfound : lookup host w' (address w made n) (.string buf) =
                some (.table (address w made m)) := by
              rw [h.lookup_table hn htabled, hlook]
              rfl
            rw [ensureTable_found hfound]
            exact ih [] h hm hquiet.tail (h.plain hm hquiet.delegates) (h.address_lt hm)
      · rw [buildLoop, if_neg hc]
        rw [pathLoop, if_neg hc] at hquiet ⊢
        exact ih _ h hn hquiet hplain hlt

/-- **Declaring a namespace** makes the tables that its path lacks. -/
theorem BuildNamespaceTables_realizes (h : Realizes w w' G made) {path : List UInt8}
    (hquiet : Quiet w (pathOf path)) :
    ∃ made', Realizes w (BuildNamespaceTables host w' path).2 (grow (ground w) (pathOf path) G)
      made' := by
  unfold BuildNamespaceTables
  rw [h.root]
  exact buildLoop_realizes (n := .old w.root) (cstring path) [] h w.root_lt hquiet

end GameScript.Scope
