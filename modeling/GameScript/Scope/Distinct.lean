import GameScript.Scope.Namespaces

/-!
Sequences of namespace declarations. While every segment of a declared path leads to the table
of an earlier declaration or is seen from nowhere, the declared paths have tables of their own,
which are found by raw lookups and by `ResolveNamespaceTable`.
-/

namespace GameScript.Scope

variable {ρ : Type} {host : Host ρ}

/-- `namespace path` in a closure whose unqualified names are looked up in `root_obj`. -/
structure Declaration where
  root_obj : Option Ref
  path : List (List UInt8)

/-- A world after some declarations, with the paths that were declared and the tables built for
them, the last one first. -/
structure Declared (ρ : Type) where
  world : World ρ
  built : List (List (List UInt8) × Object)

namespace Declared

def declare (host : Host ρ) (st : Declared ρ) (d : Declaration) : Declared ρ where
  world := opNamespace host st.world d.root_obj (namespaceString d.path)
  built := (d.path, (BuildNamespaceTables host st.world (namespaceString d.path)).1) :: st.built

def declareAll (host : Host ρ) (st : Declared ρ) (ds : List Declaration) : Declared ρ :=
  ds.foldl (declare host) st

end Declared

/-- A path that was declared, or one on the way to it. -/
def Known (built : List (List (List UInt8) × Object)) (q : List (List UInt8)) : Prop :=
  q = [] ∨ ∃ p o, (p, o) ∈ built ∧ q <+: p

/-- The table found by raw lookups of the segments. -/
def rawPath (w : World ρ) (r : Ref) : List (List UInt8) → Option Ref
  | [] => some r
  | s :: rest =>
      match (w.heap.table r).slots (.string s) with
      | some (.table t) => rawPath w t rest
      | _ => none

/-- The segment `s` behind `q` is found nowhere: not in the table at `q` nor where that table
looks further; where `q` has no table yet, not from the root table, and it is not the name that
the first new table gets there. -/
def Unseen (host : Host ρ) (w : World ρ) (head : Option (List UInt8)) (q : List (List UInt8))
    (s : List UInt8) : Prop :=
  match rawPath w w.root q with
  | some t => lookup host w t (.string s) = none
  | none => lookup host w w.root (.string s) = none ∧ head ≠ some s

/-- The condition under which a declaration gives the path, and each path on the way to it that
is new, a table of its own. -/
structure Fresh (host : Host ρ) (st : Declared ρ) (path : List (List UInt8)) : Prop where
  nonempty : path ≠ []
  /-- No segment is cut. -/
  segments : ∀ s ∈ path, IsSegment s ∧ s.length ≤ 255
  /-- Nor is the path. -/
  length : (joinPath path).length ≤ 1023
  /-- The machine itself gives this slot a value. -/
  notSelf : ∀ s ∈ path, Object.string s ≠ ns_key
  /-- The root table gets no metamethod. -/
  head : ∀ s ∈ path.head?, Object.string s ≠ MT_GET ∧ Object.string s ≠ MT_NEWSLOT
  bare : Bare st.world
  unseen : ∀ q s rest, path = q ++ s :: rest → ¬ Known st.built (q ++ [s]) →
    Unseen host st.world path.head? q s

/-- Every declaration meets the condition in the state it is made in. -/
def FreshRun (host : Host ρ) (st : Declared ρ) : List Declaration → Prop
  | [] => True
  | d :: ds => Fresh host st d.path ∧ FreshRun host (st.declare host d) ds

/-! ### The invariant -/

/-- `table` gives every known path a table of its own. -/
structure Mapped (st : Declared ρ) (table : List (List UInt8) → Ref) : Prop where
  root : table [] = st.world.root
  link : ∀ q s, Known st.built (q ++ [s]) →
    (st.world.heap.table (table q)).slots (.string s) = some (.table (table (q ++ [s])))
  lt : ∀ q, Known st.built q → table q < st.world.heap.size
  inj : ∀ q q', Known st.built q → Known st.built q' → table q = table q' → q = q'
  off : ∀ q, Known st.built q → q ≠ [] → table q ∉ st.world.heap.chain st.world.root
  delegate : ∀ q, Known st.built q → q ≠ [] →
    ∀ d, st.world.heap.delegate (table q) = some d → d = st.world.root
  built : ∀ p o, (p, o) ∈ st.built → o = .table (table p)
  whole : ∀ p o, (p, o) ∈ st.built →
    (∀ s ∈ p, (IsSegment s ∧ s.length ≤ 255) ∧ Object.string s ≠ ns_key) ∧
      (joinPath p).length ≤ 1023

section Known

variable {built : List (List (List UInt8) × Object)} {q : List (List UInt8)}

theorem known_nil : Known built [] := .inl rfl

theorem Known.of_prefix {q' : List (List UInt8)} (h : Known built q) (hle : q' <+: q) :
    Known built q' := by
  rcases h with rfl | ⟨p, o, hmem, hp⟩
  · exact .inl (List.prefix_nil.mp hle)
  · exact .inr ⟨p, o, hmem, hle.trans hp⟩

theorem Known.init {s : List UInt8} (h : Known built (q ++ [s])) : Known built q :=
  h.of_prefix (List.prefix_append q [s])

theorem known_of_built {p : List (List UInt8)} {o : Object} (h : (p, o) ∈ built) :
    Known built p := .inr ⟨p, o, h, List.prefix_refl p⟩

/-- A path that is not known parts from the known ones at some segment. -/
theorem exists_parting {p : List (List UInt8)} (h : ¬ Known built p) :
    ∃ q s rest, p = q ++ s :: rest ∧ Known built q ∧ ¬ Known built (q ++ [s]) := by
  have hpart : ∀ rest q, Known built q → p = q ++ rest → ∃ q s rest, p = q ++ s :: rest ∧
      Known built q ∧ ¬ Known built (q ++ [s]) := by
    intro rest
    induction rest with
    | nil =>
        intro q hq hp
        rw [List.append_nil] at hp
        exact absurd (hp ▸ hq) h
    | cons s rest ih =>
        intro q hq hp
        by_cases hs : Known built (q ++ [s])
        · exact ih (q ++ [s]) hs (by rw [hp, List.append_assoc, List.singleton_append])
        · exact ⟨q, s, rest, hp, hq, hs⟩
  exact hpart p [] known_nil rfl

end Known

theorem rawPath_append (w : World ρ) :
    ∀ (q : List (List UInt8)) (r t : Ref) (rest : List (List UInt8)),
      rawPath w r q = some t → rawPath w r (q ++ rest) = rawPath w t rest
  | [], r, t, rest, h => by
      obtain rfl := Option.some.inj h
      rfl
  | s :: q, r, t, rest, h => by
      rw [rawPath] at h
      rw [List.cons_append, rawPath]
      split at h
      · exact rawPath_append w q _ t rest h
      · cases h

namespace Mapped

variable {st : Declared ρ} {table : List (List UInt8) → Ref}

/-- A known path is walked from slot to slot. -/
theorem follow (hm : Mapped st table) {motive : List (List UInt8) → Ref → Prop}
    {p : List (List UInt8)} (hp : Known st.built p) (nil : motive [] (table p))
    (cons : ∀ s rest t t', (st.world.heap.table t).slots (.string s) = some (.table t') →
      motive rest t' → motive (s :: rest) t) : motive p st.world.root := by
  have hall : ∀ rest q, p = q ++ rest → motive rest (table q) := by
    intro rest
    induction rest with
    | nil =>
        intro q hq
        rw [List.append_nil] at hq
        exact hq ▸ nil
    | cons s rest ih =>
        intro q hq
        have hq' : p = (q ++ [s]) ++ rest := by
          rw [hq, List.append_assoc, List.singleton_append]
        apply cons s rest _ _ (hm.link q s _) (ih (q ++ [s]) hq')
        exact hp.of_prefix (hq' ▸ List.prefix_append _ _)
  exact hm.root ▸ hall p [] rfl

theorem rawPath_eq (hm : Mapped st table) {p : List (List UInt8)} (hp : Known st.built p) :
    rawPath st.world st.world.root p = some (table p) := by
  apply hm.follow hp (motive := fun rest t => rawPath st.world t rest = some (table p)) rfl
  intro s rest t t' hslot ih
  rw [rawPath, hslot]
  exact ih

theorem resolve_eq (hm : Mapped st table) {p : List (List UInt8)} (hp : Known st.built p) :
    resolve host p (.table st.world.root) st.world = (some (.table (table p)), st.world) := by
  apply hm.follow hp (motive := fun rest t =>
    resolve host rest (.table t) st.world = (some (.table (table p)), st.world)) rfl
  intro s rest t t' hslot ih
  rw [resolve, Get_slot hslot]
  exact ih

theorem ensureTable_found {w : World ρ} {t t' : Ref} {s : List UInt8} (toRoot : Bool)
    (hslot : (w.heap.table t).slots (.string s) = some (.table t')) :
    ensureTable host w (.table t) s toRoot = (.table t', w) := by
  rw [ensureTable, Get_slot hslot]

theorem walk_found {w : World ρ} {t t' : Ref} {s : List UInt8}
    (hslot : (w.heap.table t).slots (.string s) = some (.table t')) (rest : List (List UInt8)) :
    walk host (s :: rest) (.table t) w = walk host rest (.table t') w := by
  cases rest with
  | nil => exact ensureTable_found false hslot
  | cons s' rest => rw [walk, ensureTable_found _ hslot]

theorem walk_eq (hm : Mapped st table) {p : List (List UInt8)} (hp : Known st.built p) :
    walk host p (.table st.world.root) st.world = (.table (table p), st.world) := by
  apply hm.follow hp (motive := fun rest t =>
    walk host rest (.table t) st.world = (.table (table p), st.world)) rfl
  intro s rest t t' hslot ih
  rw [walk_found hslot]
  exact ih

theorem walk_append (hm : Mapped st table) {q : List (List UInt8)} (hq : Known st.built q)
    (rest : List (List UInt8)) :
    walk host (q ++ rest) (.table st.world.root) st.world =
      walk host rest (.table (table q)) st.world := by
  apply hm.follow hq (motive := fun qs t => walk host (qs ++ rest) (.table t) st.world =
    walk host rest (.table (table q)) st.world) rfl
  intro s qs t t' hslot ih
  rw [List.cons_append, walk_found hslot]
  exact ih

/-! ### A declaration keeps the invariant -/

/-- The machine's own slot is on no path. -/
theorem setSelf (hm : Mapped st table) (r : Ref) (v : Object) :
    Mapped { st with world := st.world.setSlot r ns_key v } table := by
  refine ⟨hm.root, ?_, hm.lt, hm.inj, ?_, ?_, hm.built, hm.whole⟩
  · intro q s hs
    have hne : Object.string s ≠ ns_key := by
      rcases hs with hnil | ⟨p, o, hmem, hle⟩
      · exact absurd hnil (by simp)
      · exact ((hm.whole p o hmem).1 s (hle.subset (by simp))).2
    rw [World.setSlot_slots, if_neg fun h => hne h.2]
    exact hm.link q s hs
  · simpa using hm.off
  · simpa using hm.delegate

section Plant

variable {p q : List (List UInt8)} {s : List UInt8} {rest : List (List UInt8)}

/-- The known paths after a path is declared that parts from them at `s`. -/
theorem known_cons (hp : p = q ++ s :: rest) (hq : Known st.built q) (o : Object)
    (x : List (List UInt8)) :
    Known ((p, o) :: st.built) x ↔
      Known st.built x ∨ ∃ j ≤ rest.length, x = q ++ (s :: rest).take (j + 1) := by
  constructor
  · rintro (rfl | ⟨p', o', hmem, t, ht⟩)
    · exact .inl known_nil
    · rcases List.mem_cons.mp hmem with heq | hmem
      · obtain ⟨rfl, rfl⟩ := Prod.mk.inj heq
        rw [hp] at ht
        rcases List.append_eq_append_iff.mp ht with ⟨a, rfl, _⟩ | ⟨a, rfl, ha⟩
        · exact .inl (hq.of_prefix (List.prefix_append x a))
        · cases a with
          | nil => exact .inl (by simpa using hq)
          | cons b a =>
              have hlen := congrArg List.length ha
              simp only [List.length_cons, List.length_append] at hlen
              refine .inr ⟨a.length, by omega, ?_⟩
              rw [ha, List.take_left' (by simp)]
      · exact .inl (.inr ⟨p', o', hmem, t, ht⟩)
  · rintro (hx | ⟨j, _, rfl⟩)
    · rcases hx with rfl | ⟨p', o', hmem, hle⟩
      · exact known_nil
      · exact .inr ⟨p', o', List.mem_cons_of_mem _ hmem, hle⟩
    · refine .inr ⟨p, o, List.mem_cons_self, ?_⟩
      rw [hp]
      exact (List.prefix_append_right_inj q).mpr (List.take_prefix _ _)

theorem not_known_take (hs : ¬ Known st.built (q ++ [s])) (j : Nat) :
    ¬ Known st.built (q ++ (s :: rest).take (j + 1)) := by
  intro h
  apply hs
  apply h.of_prefix
  rw [List.take_succ_cons]
  exact (List.prefix_append_right_inj q).mpr (List.prefix_append [s] _)

/-- The new tables take the places of the new paths, one after the other. -/
theorem plant (hm : Mapped st table) (hp : p = q ++ s :: rest) (hq : Known st.built q)
    (hs : ¬ Known st.built (q ++ [s]))
    (hwhole : (∀ s ∈ p, (IsSegment s ∧ s.length ≤ 255) ∧ Object.string s ≠ ns_key) ∧
      (joinPath p).length ≤ 1023) :
    ∃ table', Mapped
      { world := Scope.plant (s :: rest) (table q) st.world
        built := (p, .table (st.world.heap.size + rest.length)) :: st.built } table' := by
  classical
  let n := st.world.heap.size
  let table' : List (List UInt8) → Ref := fun x =>
    if Known st.built x then table x else n + (x.length - (q.length + 1))
  have hold : ∀ x, Known st.built x → table' x = table x := fun x hx => if_pos hx
  have hnew : ∀ j ≤ rest.length, table' (q ++ (s :: rest).take (j + 1)) = n + j := by
    intro j hj
    have hlen : (q ++ (s :: rest).take (j + 1)).length - (q.length + 1) = j := by
      rw [List.length_append, List.length_take, List.length_cons]
      omega
    rw [show table' _ = _ from if_neg (not_known_take hs j), hlen]
  have hqn : table q < n := hm.lt q hq
  have hroot : st.world.root < n := st.world.root_lt
  have hchain : (Scope.plant (s :: rest) (table q) st.world).heap.chain st.world.root =
      st.world.heap.chain st.world.root := plant_chain_old _ _ hroot
  refine ⟨table', ?_, ?_, ?_, ?_, ?_, ?_, ?_, ?_⟩
  · rw [plant_root, hold [] known_nil]
    exact hm.root
  · intro x t hx
    rcases (known_cons hp hq _ _).mp hx with hx | ⟨j, hj, hxj⟩
    · have hinit := hx.init
      rw [hold _ hx, hold _ hinit, plant_slots_old _ _ (hm.lt x hinit), if_neg]
      · exact hm.link x t hx
      · rintro ⟨heq, hkey⟩
        -- the slot for `s` is new
        obtain rfl : s = t := by simpa using hkey
        rw [hm.inj x q hinit hq heq] at hx
        exact hs hx
    · have ht : (s :: rest)[j]? = some t ∧ x = q ++ (s :: rest).take j := by
        have hget : (s :: rest)[j]? = some ((s :: rest).get ⟨j, Nat.lt_succ_of_le hj⟩) :=
          List.getElem?_eq_getElem _
        rw [List.take_add_one, hget, Option.toList_some, ← List.append_assoc] at hxj
        obtain ⟨hx', ht⟩ := List.append_inj' hxj rfl
        exact ⟨hget.trans (congrArg some (List.singleton_inj.mp ht).symm), hx'⟩
      rw [hxj, hnew j hj]
      cases j with
      | zero =>
          obtain rfl : s = t := by simpa using ht.1
          rw [ht.2, List.take_zero, List.append_nil, hold q hq, plant_slots_old _ _ hqn,
            if_pos ⟨rfl, rfl⟩]
          rfl
      | succ i =>
          rw [ht.2, hnew i (by omega), plant_slots_new _ _ _ _ _ hqn (by simp; omega), ht.1,
            Option.map_some, if_pos rfl]
          rfl
  · intro x hx
    rw [plant_size]
    rcases (known_cons hp hq _ _).mp hx with hx | ⟨j, hj, rfl⟩
    · rw [hold x hx]
      exact Nat.lt_of_lt_of_le (hm.lt x hx) (Nat.le_add_right _ _)
    · rw [hnew j hj, List.length_cons]
      exact Nat.add_lt_add_left (Nat.lt_succ_of_le hj) n
  · intro x x' hx hx' heq
    rcases (known_cons hp hq _ _).mp hx with hx | ⟨j, hj, rfl⟩ <;>
      rcases (known_cons hp hq _ _).mp hx' with hx' | ⟨j', hj', rfl⟩
    · rw [hold x hx, hold x' hx'] at heq
      exact hm.inj x x' hx hx' heq
    · have hlt := hm.lt x hx
      rw [hold x hx, hnew j' hj'] at heq
      exact absurd (heq ▸ hlt) (Nat.not_lt_of_le (Nat.le_add_right n j'))
    · have hlt := hm.lt x' hx'
      rw [hold x' hx', hnew j hj] at heq
      exact absurd (heq.symm ▸ hlt) (Nat.not_lt_of_le (Nat.le_add_right n j))
    · rw [hnew j hj, hnew j' hj'] at heq
      rw [Nat.add_left_cancel heq]
  · intro x hx hne
    rw [plant_root, hchain]
    rcases (known_cons hp hq _ _).mp hx with hx | ⟨j, hj, rfl⟩
    · rw [hold x hx]
      exact hm.off x hx hne
    · rw [hnew j hj]
      intro hmem
      exact Nat.not_lt_of_le (Nat.le_add_right n j) (Heap.lt_of_mem_chain hroot hmem)
  · intro x hx hne d hd
    rw [plant_root]
    rcases (known_cons hp hq _ _).mp hx with hx | ⟨j, hj, rfl⟩
    · rw [hold x hx, plant_delegate_old _ _ (hm.lt x hx)] at hd
      exact hm.delegate x hx hne d hd
    · rw [hnew j hj, plant_delegate_new _ _ _ _ (Nat.lt_succ_of_le hj)] at hd
      split at hd
      · exact (Option.some.inj hd).symm
      · cases hd
  · intro p' o hmem
    rcases List.mem_cons.mp hmem with heq | hmem
    · obtain ⟨rfl, rfl⟩ := Prod.mk.inj heq
      have hall := hnew rest.length (Nat.le_refl _)
      rw [← List.length_cons (a := s), List.take_length, ← hp] at hall
      rw [hall]
    · rw [hold p' (known_of_built hmem)]
      exact hm.built p' o hmem
  · intro p' o hmem
    rcases List.mem_cons.mp hmem with heq | hmem
    · obtain ⟨rfl, rfl⟩ := Prod.mk.inj heq
      exact hwhole
    · exact hm.whole p' o hmem

end Plant

/-- A declaration under the condition keeps the invariant. -/
theorem declare (hm : Mapped st table) {d : Declaration} (hf : Fresh host st d.path) :
    ∃ table', Mapped (st.declare host d) table' := by
  have hwhole : (∀ s ∈ d.path, (IsSegment s ∧ s.length ≤ 255) ∧ Object.string s ≠ ns_key) ∧
      (joinPath d.path).length ≤ 1023 :=
    ⟨fun s hs => ⟨hf.segments s hs, hf.notSelf s hs⟩, hf.length⟩
  have hbuild := @BuildNamespaceTables_eq _ host _ hf.segments hf.length st.world
  suffices h : ∃ table', Mapped
      { world := (BuildNamespaceTables host st.world (namespaceString d.path)).2
        built := (d.path, (BuildNamespaceTables host st.world (namespaceString d.path)).1) ::
          st.built } table' by
    obtain ⟨table', h⟩ := h
    rw [Declared.declare, opNamespace]
    cases d.root_obj with
    | none => exact ⟨table', h⟩
    | some r => exact ⟨table', h.setSelf r _⟩
  rw [hbuild]
  by_cases hknown : Known st.built d.path
  · rw [hm.walk_eq hknown]
    have hsame : ∀ x, Known ((d.path, Object.table (table d.path)) :: st.built) x ↔
        Known st.built x := by
      intro x
      constructor
      · rintro (rfl | ⟨p, o, hmem, hle⟩)
        · exact known_nil
        · rcases List.mem_cons.mp hmem with heq | hmem
          · obtain ⟨rfl, _⟩ := Prod.mk.inj heq
            exact hknown.of_prefix hle
          · exact .inr ⟨p, o, hmem, hle⟩
      · rintro (rfl | ⟨p, o, hmem, hle⟩)
        · exact known_nil
        · exact .inr ⟨p, o, List.mem_cons_of_mem _ hmem, hle⟩
    refine ⟨table, hm.root, ?_, ?_, ?_, ?_, ?_, ?_, ?_⟩
    · exact fun q s hs => hm.link q s ((hsame _).mp hs)
    · exact fun q hq => hm.lt q ((hsame _).mp hq)
    · exact fun q q' hq hq' => hm.inj q q' ((hsame _).mp hq) ((hsame _).mp hq')
    · exact fun q hq => hm.off q ((hsame _).mp hq)
    · exact fun q hq => hm.delegate q ((hsame _).mp hq)
    · intro p o hmem
      rcases List.mem_cons.mp hmem with heq | hmem
      · obtain ⟨rfl, rfl⟩ := Prod.mk.inj heq
        rfl
      · exact hm.built p o hmem
    · intro p o hmem
      rcases List.mem_cons.mp hmem with heq | hmem
      · obtain ⟨rfl, rfl⟩ := Prod.mk.inj heq
        exact hwhole
      · exact hm.whole p o hmem
  · obtain ⟨q, s, rest, hp, hq, hs⟩ := exists_parting hknown
    have hat : rawPath st.world st.world.root q = some (table q) := hm.rawPath_eq hq
    have hmiss : lookup host st.world (table q) (.string s) = none := by
      have h := hf.unseen q s rest hp hs
      rwa [Unseen, hat] at h
    have hnil : table q ∈ st.world.heap.chain st.world.root → q = [] := fun hmem =>
      Decidable.byContradiction fun hne => hm.off q hq hne hmem
    have hplain : Plain st.world MT_GET (table q) ∧ Plain st.world MT_NEWSLOT (table q) := by
      by_cases hne : q = []
      · rw [hne, hm.root]
        exact hf.bare.plain_root
      · exact hf.bare.plain (hm.delegate q hq hne)
    have hnone : (st.world.heap.table (table q)).slots (.string s) = none :=
      ((lookup_eq_none (by simp)).mp hmiss).1 _ (Heap.mem_chain_self _)
    have hwalk : walk host d.path (.table st.world.root) st.world =
        (.table (st.world.heap.size + rest.length),
          Scope.plant (s :: rest) (table q) st.world) := by
      rw [hp, hm.walk_append hq]
      apply Clear.walk_eq
      refine ⟨hm.lt q hq, hf.bare, hplain, hmiss, ?_, ?_⟩
      · intro hmem
        apply hf.head s
        rw [hp, hnil hmem]
        rfl
      · intro t ht
        obtain ⟨a, b, rfl⟩ := List.append_of_mem ht
        have hp' : d.path = (q ++ s :: a) ++ t :: b := by rw [hp, List.append_assoc]; rfl
        have hnew : ¬ Known st.built ((q ++ s :: a) ++ [t]) := by
          intro h
          apply hs
          apply h.of_prefix
          rw [List.append_assoc]
          exact (List.prefix_append_right_inj q).mpr ⟨a ++ [t], rfl⟩
        have h := hf.unseen _ t b hp' hnew
        have hoff : rawPath st.world st.world.root (q ++ s :: a) = none := by
          rw [rawPath_append _ _ _ _ _ hat, rawPath, hnone]
        rw [Unseen, hoff] at h
        refine ⟨h.1, fun hmem heq => h.2 ?_⟩
        rw [hp, hnil hmem, heq]
        rfl
    rw [hwalk]
    exact hm.plant hp hq hs hwhole

end Mapped

/-! ### Sequences of declarations -/

theorem Mapped.declareAll :
    ∀ {ds : List Declaration} {st : Declared ρ} {table : List (List UInt8) → Ref},
      Mapped st table → FreshRun host st ds → ∃ table', Mapped (st.declareAll host ds) table'
  | [], _, table, hm, _ => ⟨table, hm⟩
  | d :: ds, _, _, hm, hf => by
      obtain ⟨table', hm'⟩ := hm.declare (d := d) hf.1
      exact hm'.declareAll hf.2

theorem mapped_start (w : World ρ) :
    Mapped { world := w, built := [] : Declared ρ } fun _ => w.root := by
  have hknown : ∀ q, Known ([] : List (List (List UInt8) × Object)) q → q = [] := by
    rintro q (hq | ⟨p, o, hmem, _⟩)
    · exact hq
    · cases hmem
  refine ⟨rfl, ?_, fun _ _ => w.root_lt, ?_, ?_, ?_, ?_, ?_⟩
  · intro q s hs
    exact absurd (hknown _ hs) (by simp)
  · intro q q' hq hq' _
    rw [hknown q hq, hknown q' hq']
  · exact fun q hq hne => absurd (hknown q hq) hne
  · exact fun q hq hne => absurd (hknown q hq) hne
  · intro p o hmem
    cases hmem
  · intro p o hmem
    cases hmem

/-- After declarations that each meet the condition, the table built for a path is the one that
raw lookups of its segments find from the root table and the one the path resolves to, and
different paths have different tables. -/
theorem declared_distinct (w : World ρ) (ds : List Declaration)
    (hfresh : FreshRun host { world := w, built := [] } ds) :
    ∀ p o, (p, o) ∈ (Declared.declareAll host { world := w, built := [] } ds).built →
      (∃ t, o = .table t ∧
        rawPath (Declared.declareAll host { world := w, built := [] } ds).world
          (Declared.declareAll host { world := w, built := [] } ds).world.root p = some t) ∧
      ResolveNamespaceTable host (Declared.declareAll host { world := w, built := [] } ds).world
          (namespaceString p) =
        (some o, (Declared.declareAll host { world := w, built := [] } ds).world) ∧
      ∀ p' o', (p', o') ∈ (Declared.declareAll host { world := w, built := [] } ds).built →
        p ≠ p' → o ≠ o' := by
  obtain ⟨table, hm⟩ := @Mapped.declareAll _ host _ _ _ (mapped_start w) hfresh
  generalize Declared.declareAll host { world := w, built := [] } ds = st at hm
  intro p o hmem
  have hknown := known_of_built hmem
  obtain ⟨hwhole, hlen⟩ := hm.whole p o hmem
  refine ⟨⟨table p, hm.built p o hmem, hm.rawPath_eq hknown⟩, ?_, ?_⟩
  · rw [ResolveNamespaceTable_eq (fun s hs => (hwhole s hs).1) hlen, hm.resolve_eq hknown,
      hm.built p o hmem]
  · intro p' o' hmem' hne heq
    rw [hm.built p o hmem, hm.built p' o' hmem'] at heq
    exact hne (hm.inj p p' hknown (known_of_built hmem') (Object.table.inj heq))

/-- `a/b` and its parent `a`, in one file. -/
theorem declared_distinct_nested :
    ∃ o o', ([sc "a", sc "b"], o) ∈ (Declared.declareAll (Host.inert Unit)
        { world := .initial (), built := [] }
        [⟨some 0, [sc "a", sc "b"]⟩, ⟨some 0, [sc "a"]⟩]).built ∧
      ([sc "a"], o') ∈ (Declared.declareAll (Host.inert Unit)
        { world := .initial (), built := [] }
        [⟨some 0, [sc "a", sc "b"]⟩, ⟨some 0, [sc "a"]⟩]).built ∧ o ≠ o' := by
  have ha : IsSegment (sc "a") := ⟨by decide, by decide, by decide⟩
  have hb : IsSegment (sc "b") := ⟨by decide, by decide, by decide⟩
  have hfresh : FreshRun (Host.inert Unit) { world := .initial (), built := [] }
      [⟨some 0, [sc "a", sc "b"]⟩, ⟨some 0, [sc "a"]⟩] := by
    refine ⟨?_, ?_, trivial⟩
    · refine ⟨by decide, ?_, by decide, by decide, ?_, .of_root rfl rfl rfl, ?_⟩
      · intro s hs
        rcases List.mem_cons.mp hs with rfl | hs
        · exact ⟨ha, by decide⟩
        · rw [List.mem_singleton.mp hs]
          exact ⟨hb, by decide⟩
      · intro s hs
        rw [← Option.some.inj hs]
        decide
      · intro q s rest hp _
        match q, hp with
        | [], hp =>
            obtain ⟨rfl, _⟩ := List.cons.inj hp
            show lookup _ _ _ _ = none
            decide +kernel
        | [a], hp =>
            obtain ⟨rfl, hb'⟩ := List.cons.inj hp
            obtain ⟨rfl, _⟩ := List.cons.inj hb'
            show lookup _ _ _ _ = none ∧ _
            decide +kernel
        | _ :: _ :: q, hp => simp at hp
    · refine ⟨by decide, ?_, by decide, by decide, ?_, .of_root rfl rfl rfl, ?_⟩
      · intro s hs
        rw [List.mem_singleton.mp hs]
        exact ⟨ha, by decide⟩
      · intro s hs
        rw [← Option.some.inj hs]
        decide
      · intro q s rest hp hnew
        match q, hp with
        | [], hp =>
            obtain ⟨rfl, _⟩ := List.cons.inj hp
            exact absurd (.inr ⟨_, _, List.mem_cons_self, List.prefix_append _ _⟩) hnew
        | _ :: q, hp => simp at hp
  have hab : ([sc "a", sc "b"], .table 2) ∈ (Declared.declareAll (Host.inert Unit)
      { world := .initial (), built := [] }
      [⟨some 0, [sc "a", sc "b"]⟩, ⟨some 0, [sc "a"]⟩]).built := by
    decide +kernel
  have ha' : ([sc "a"], .table 1) ∈ (Declared.declareAll (Host.inert Unit)
      { world := .initial (), built := [] }
      [⟨some 0, [sc "a", sc "b"]⟩, ⟨some 0, [sc "a"]⟩]).built := by
    decide +kernel
  refine ⟨_, _, hab, ha', ?_⟩
  exact (declared_distinct (.initial ()) _ hfresh _ _ hab).2.2 _ _ ha' (by decide)

/-- The second segment of `a/a` is found from the root table, so the path has no table. -/
theorem not_declared_distinct :
    ¬ ∀ p o, (p, o) ∈ (Declared.declareAll (Host.inert Unit)
        { world := .initial (), built := [] } [⟨some 0, [sc "a", sc "a"]⟩]).built →
      ∃ t, o = .table t ∧ rawPath (Declared.declareAll (Host.inert Unit)
        { world := .initial (), built := [] } [⟨some 0, [sc "a", sc "a"]⟩]).world 0 p =
          some t := by
  intro h
  obtain ⟨t, _, ht⟩ := h [sc "a", sc "a"] (.table 1) (by decide +kernel)
  have hnone : rawPath (Declared.declareAll (Host.inert Unit)
      { world := .initial (), built := [] } [⟨some 0, [sc "a", sc "a"]⟩]).world 0
      [sc "a", sc "a"] = none := by
    decide +kernel
  rw [hnone] at ht
  cases ht

end GameScript.Scope
