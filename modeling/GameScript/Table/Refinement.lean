import GameScript.Table.Rehash
import Mathlib.Data.List.Forall2

/-!
`GSTable` refines a finite map. A program works on any number of tables, made
by `Create` and `Clone`; the specification keeps a map for each. `Get` reads
through a weak reference, so what it returns is the referent of the value last
written, at the time of the read.
-/

namespace GameScript.Table

open GameScript.Chain

variable {hash : Object → Nat} {t : Table}

/-! ### One table, one map -/

/-- What a table is for. -/
abbrev Contents := Object → Option Object

def Contents.empty : Contents := fun _ => none

/-- The pairs stored in `t` are those of `m`. -/
structure Represents (hash : Object → Nat) (t : Table) (m : Contents) : Prop where
  wellFormed : WellFormed hash t
  stores : ∀ k v, k ≠ .null → (t.Stores k v ↔ m k = some v)

/-- What is seen of the node array: no key is in two nodes, the nodes with a
key are counted, every search ends, and every key is on the chain of its main
position. -/
structure Consistent (hash : Object → Nat) (t : Table) : Prop where
  nodup : ∀ i j, (t.nodes i).key ≠ .null → (t.nodes i).key = (t.nodes j).key → i = j
  used : t.usednodes = t.occupied.card
  search : ∀ key i, i < t.numofnodes → (t._get key i).isSome
  reachable : ∀ i, (t.nodes i).key ≠ .null →
    Reach t.links (t.mainPosition hash (t.nodes i).key) i

theorem WellFormed.consistent (h : WellFormed hash t) : Consistent hash t where
  nodup := h.wired.nodup
  used := h.used
  search _ _ hi := h.wired.search_isSome _ hi
  reachable := h.wired.reach

theorem create_represents (nInitialSize : Nat) :
    Represents hash (create nInitialSize) .empty := by
  obtain ⟨hwf, hempty⟩ := create_spec hash nInitialSize
  refine ⟨hwf, fun k v hk => ⟨fun hs => absurd hs (hempty k v hk), ?_⟩⟩
  intro h
  cases h

/-- The search for a key ends at the node of its pair, or nowhere. -/
theorem Represents._get_eq {m : Contents} (h : Represents hash t m) {key : Object}
    (hkey : key ≠ .null) :
    (∃ i, t._get key (t.mainPosition hash key) = some (some i) ∧ (t.nodes i).key = key ∧
        m key = some (t.nodes i).val) ∨
      (t._get key (t.mainPosition hash key) = some none ∧ m key = none) := by
  rcases h.wellFormed.wired._get_eq h.wellFormed.pos hkey with ⟨i, hget, hi⟩ | ⟨hget, habsent⟩
  · exact .inl ⟨i, hget, hi, (h.stores key _ hkey).mp ⟨i, hi, rfl⟩⟩
  · refine .inr ⟨hget, ?_⟩
    cases hm : m key with
    | none => rfl
    | some v =>
        obtain ⟨i, hi, _⟩ := (h.stores key v hkey).mpr hm
        exact absurd hi (habsent i)

/-- What is stored in a table is stored in its map. -/
theorem Represents.of_stored {m : Contents} (h : Represents hash t m) {key val : Object}
    {t' : Table} (hstored : Stored hash t key val t') :
    Represents hash t' (Function.update m key (some val)) where
  wellFormed := hstored.wellFormed
  stores k v hk := by
    rw [hstored.stores k v hk]
    by_cases heq : k = key
    · subst heq
      rw [if_pos rfl, Function.update_self, Option.some.injEq, eq_comm]
    · rw [if_neg heq, Function.update_of_ne heq]
      exact h.stores k v hk

theorem get_represents {m : Contents} (h : Represents hash t m) {key : Object}
    (hkey : key ≠ .null) (referent : Ref → Object) :
    t.get hash referent key = some ((m key).map (realval referent)) := by
  rw [get, if_neg hkey]
  rcases h._get_eq hkey with ⟨i, hget, _, hm⟩ | ⟨hget, hm⟩
  · simp [hget, hm]
  · simp [hget, hm]

theorem newSlot_represents {m : Contents} (h : Represents hash t m) {key : Object}
    (hkey : key ≠ .null) (val : Object) (fuel : Nat) :
    ∃ t' created, newSlot hash (fuel + 2) t key val = some (t', created) ∧
      Represents hash t' (Function.update m key (some val)) := by
  obtain ⟨t', created, hnew, hstored⟩ := newSlot_spec h.wellFormed hkey val fuel
  exact ⟨t', created, hnew, h.of_stored hstored⟩

/-- `Set` changes the value of a key that is there, and nothing else. -/
theorem set_represents {m : Contents} (h : Represents hash t m) {key : Object}
    (hkey : key ≠ .null) (val : Object) :
    ∃ t', t.set hash key val = some (t', (m key).isSome) ∧
      Represents hash t' (if (m key).isSome then Function.update m key (some val) else m) := by
  rw [set]
  rcases h._get_eq hkey with ⟨i, hget, hi, hm⟩ | ⟨hget, hm⟩
  · refine ⟨t.setVal i val, by simp [hget, hm], ?_⟩
    rw [hm, Option.isSome_some, if_pos rfl]
    exact h.of_stored (.of_setVal h.wellFormed hkey val hi)
  · exact ⟨t, by simp [hget, hm], by simpa [hm] using h⟩

/-- `Remove` takes the key out of the map. -/
theorem remove_represents {m : Contents} (h : Represents hash t m) {key : Object}
    (hkey : key ≠ .null) (fuel : Nat) :
    ∃ t', remove hash (fuel + 1) t key = some t' ∧
      Represents hash t' (Function.update m key none) := by
  obtain ⟨t', hremove, hwf, _, hstores⟩ := remove_spec h.wellFormed hkey fuel
  refine ⟨t', hremove, hwf, fun k v hk => (hstores k v hk).trans ?_⟩
  by_cases heq : k = key
  · subst heq
    simp
  · rw [Function.update_of_ne heq, ← h.stores k v hk]
    exact ⟨And.right, fun hs => ⟨heq, hs⟩⟩

theorem clear_represents {m : Contents} (h : Represents hash t m) (fuel : Nat) :
    ∃ t', clear hash (fuel + 1) t = some t' ∧ Represents hash t' .empty := by
  obtain ⟨t', hclear, hwf, _, hempty⟩ := clear_spec h.wellFormed fuel
  refine ⟨t', hclear, hwf, fun k v hk => ⟨fun hs => absurd hs (hempty k v hk), ?_⟩⟩
  intro hnone
  cases hnone

theorem clone_represents {m : Contents} (h : Represents hash t m) (fuel : Nat) :
    ∃ nt, clone hash (fuel + 2) t = some nt ∧ Represents hash nt m := by
  obtain ⟨nt, hclone, hwf, _, hstores⟩ := clone_spec h.wellFormed fuel
  exact ⟨nt, hclone, hwf, fun k v hk => (hstores k v hk).trans (h.stores k v hk)⟩

/-! ### Programs on tables -/

/-- A call of a public operation. A table is named by the order of creation, and
a name that stands for none makes no call. `referent` is the heap at the time of
the call. -/
inductive Op where
  | create (nInitialSize : Nat)
  | newSlot (i : Nat) (key val : Object)
  | set (i : Nat) (key val : Object)
  | remove (i : Nat) (key : Object)
  | get (i : Nat) (key : Object) (referent : Ref → Object)
  | clear (i : Nat)
  | clone (i : Nat)

/-- The result of `Set` and `Get`. -/
inductive Answer where
  | done
  | flag (b : Bool)
  | value (val : Option Object)
deriving DecidableEq, Repr

/-- The operation names no null key. -/
def Op.KeyNonNull : Op → Prop
  | .newSlot _ key _ | .set _ key _ | .remove _ key | .get _ key _ => key ≠ .null
  | .create _ | .clear _ | .clone _ => True

/-- Run an operation on table `i`. -/
def onTable (ts : List Table) (i : Nat) (f : Table → Option (Table × Answer)) :
    Option (List Table × Answer) :=
  match ts[i]? with
  | none => some (ts, .done)
  | some t => do
      let (t, answer) ← f t
      some (ts.set i t, answer)

def step (hash : Object → Nat) (fuel : Nat) (ts : List Table) :
    Op → Option (List Table × Answer)
  | .create nInitialSize => some (ts ++ [create nInitialSize], .done)
  | .newSlot i key val => onTable ts i fun t => do
      let (t, _) ← newSlot hash fuel t key val
      some (t, .done)
  | .set i key val => onTable ts i fun t => do
      let (t, found) ← t.set hash key val
      some (t, .flag found)
  | .remove i key => onTable ts i fun t => do
      let t ← remove hash fuel t key
      some (t, .done)
  | .get i key referent => onTable ts i fun t => do
      let val ← t.get hash referent key
      some (t, .value val)
  | .clear i => onTable ts i fun t => do
      let t ← clear hash fuel t
      some (t, .done)
  | .clone i =>
      match ts[i]? with
      | none => some (ts, .done)
      | some t => do
          let nt ← clone hash fuel t
          some (ts ++ [nt], .done)

def run (hash : Object → Nat) (fuel : Nat) : List Table → List Op →
    Option (List Table × List Answer)
  | ts, [] => some (ts, [])
  | ts, op :: ops => do
      let (ts, answer) ← step hash fuel ts op
      let (ts, answers) ← run hash fuel ts ops
      some (ts, answer :: answers)

/-! ### The specification -/

def onContents (ms : List Contents) (i : Nat) (f : Contents → Contents × Answer) :
    List Contents × Answer :=
  match ms[i]? with
  | none => (ms, .done)
  | some m => (ms.set i (f m).1, (f m).2)

/-- The operations on finite maps. -/
def specStep (ms : List Contents) : Op → List Contents × Answer
  | .create _ => (ms ++ [.empty], .done)
  | .newSlot i key val => onContents ms i fun m => (Function.update m key (some val), .done)
  | .set i key val => onContents ms i fun m =>
      (if (m key).isSome then Function.update m key (some val) else m, .flag (m key).isSome)
  | .remove i key => onContents ms i fun m => (Function.update m key none, .done)
  | .get i key referent => onContents ms i fun m => (m, .value ((m key).map (realval referent)))
  | .clear i => onContents ms i fun _ => (.empty, .done)
  | .clone i =>
      match ms[i]? with
      | none => (ms, .done)
      | some m => (ms ++ [m], .done)

def specRun : List Contents → List Op → List Contents × List Answer
  | ms, [] => (ms, [])
  | ms, op :: ops =>
      let (ms, answer) := specStep ms op
      let (ms, answers) := specRun ms ops
      (ms, answer :: answers)

/-! ### Refinement -/

/-- Every table represents the map of the same name. -/
abbrev Refines (hash : Object → Nat) : List Table → List Contents → Prop :=
  List.Forall₂ (Represents hash)

/-- The tables and their maps are the same in number. -/
theorem Refines.getElem? {ts : List Table} {ms : List Contents} (h : Refines hash ts ms)
    (i : Nat) :
    (ts[i]? = none ∧ ms[i]? = none) ∨
      ∃ t m, ts[i]? = some t ∧ ms[i]? = some m ∧ Represents hash t m := by
  induction h generalizing i with
  | nil => exact .inl ⟨rfl, rfl⟩
  | cons hr _ ih =>
      cases i with
      | zero => exact .inr ⟨_, _, rfl, rfl, hr⟩
      | succ i => simpa using ih i

theorem Refines.set {ts : List Table} {ms : List Contents} (h : Refines hash ts ms) {t : Table}
    {m : Contents} (hr : Represents hash t m) (i : Nat) :
    Refines hash (ts.set i t) (ms.set i m) := by
  induction h generalizing i with
  | nil => exact .nil
  | cons hr' htail ih =>
      cases i with
      | zero => exact .cons hr htail
      | succ i => exact .cons hr' (ih i)

theorem Refines.append {ts : List Table} {ms : List Contents} (h : Refines hash ts ms)
    {t : Table} {m : Contents} (hr : Represents hash t m) :
    Refines hash (ts ++ [t]) (ms ++ [m]) :=
  List.rel_append h (.cons hr .nil)

/-- A table operation that refines a map operation still does in a program. -/
theorem onTable_refines {ts : List Table} {ms : List Contents} (h : Refines hash ts ms) (i : Nat)
    {f : Table → Option (Table × Answer)} {g : Contents → Contents × Answer}
    (hfg : ∀ t m, Represents hash t m →
      ∃ t', f t = some (t', (g m).2) ∧ Represents hash t' (g m).1) :
    ∃ ts', onTable ts i f = some (ts', (onContents ms i g).2) ∧
      Refines hash ts' (onContents ms i g).1 := by
  unfold onTable onContents
  rcases h.getElem? i with ⟨ht, hm⟩ | ⟨t, m, ht, hm, hr⟩
  · rw [ht, hm]
    exact ⟨ts, rfl, h⟩
  · obtain ⟨t', hf, hr'⟩ := hfg t m hr
    rw [ht, hm]
    exact ⟨ts.set i t', by simp [hf], h.set hr' i⟩

/-- **An operation on tables is the operation on maps.** -/
theorem step_refines {ts : List Table} {ms : List Contents} (h : Refines hash ts ms) {op : Op}
    (hop : op.KeyNonNull) (fuel : Nat) :
    ∃ ts', step hash (fuel + 2) ts op = some (ts', (specStep ms op).2) ∧
      Refines hash ts' (specStep ms op).1 := by
  cases op with
  | create nInitialSize => exact ⟨_, rfl, h.append (create_represents nInitialSize)⟩
  | newSlot i key val =>
      refine onTable_refines h i fun t m hr => ?_
      obtain ⟨t', created, hnew, hr'⟩ := newSlot_represents hr hop val fuel
      exact ⟨t', by simp [hnew], hr'⟩
  | set i key val =>
      refine onTable_refines h i fun t m hr => ?_
      obtain ⟨t', hset, hr'⟩ := set_represents hr hop val
      exact ⟨t', by simp [hset], hr'⟩
  | remove i key =>
      refine onTable_refines h i fun t m hr => ?_
      obtain ⟨t', hremove, hr'⟩ := remove_represents hr hop (fuel + 1)
      exact ⟨t', by simp [hremove], hr'⟩
  | get i key referent =>
      refine onTable_refines h i fun t m hr => ?_
      exact ⟨t, by simp [get_represents hr hop referent], hr⟩
  | clear i =>
      refine onTable_refines h i fun t m hr => ?_
      obtain ⟨t', hclear, hr'⟩ := clear_represents hr (fuel + 1)
      exact ⟨t', by simp [hclear], hr'⟩
  | clone i =>
      simp only [step, specStep]
      rcases h.getElem? i with ⟨ht, hm⟩ | ⟨t, m, ht, hm, hr⟩
      · rw [ht, hm]
        exact ⟨ts, rfl, h⟩
      · obtain ⟨nt, hclone, hr'⟩ := clone_represents hr fuel
        rw [ht, hm]
        exact ⟨ts ++ [nt], by simp [hclone], h.append hr'⟩

variable (hash) in
/-- **A program of operations on tables gives the answers of the one on
maps.** -/
theorem run_refines (fuel : Nat) :
    ∀ (ops : List Op) (ts : List Table) (ms : List Contents), Refines hash ts ms →
      (∀ op ∈ ops, op.KeyNonNull) →
      ∃ ts', run hash (fuel + 2) ts ops = some (ts', (specRun ms ops).2) ∧
        Refines hash ts' (specRun ms ops).1
  | [], ts, _, h, _ => ⟨ts, rfl, h⟩
  | op :: ops, ts, ms, h, hops => by
      obtain ⟨ts₁, hstep, h₁⟩ := step_refines h (hops op List.mem_cons_self) fuel
      obtain ⟨ts', hrun, h'⟩ := run_refines fuel ops ts₁ (specStep ms op).1 h₁
        fun op hop => hops op (List.mem_cons_of_mem _ hop)
      exact ⟨ts', by simp [run, specRun, hstep, hrun], h'⟩

/-- A program of operations leaves well-formed tables. -/
theorem run_wellFormed {fuel : Nat} {ops : List Op} (hops : ∀ op ∈ ops, op.KeyNonNull)
    {ts : List Table} {answers : List Answer}
    (hrun : run hash (fuel + 2) [] ops = some (ts, answers)) (ht : t ∈ ts) : WellFormed hash t := by
  obtain ⟨ts', hrun', hrefines⟩ := run_refines hash fuel ops [] [] .nil hops
  rw [hrun'] at hrun
  cases hrun
  obtain ⟨i, hi⟩ := List.mem_iff_getElem?.mp ht
  rcases Refines.getElem? hrefines i with ⟨hnone, _⟩ | ⟨t, m, ht, _, hr⟩
  · rw [hnone] at hi
    cases hi
  · rw [ht] at hi
    cases hi
    exact hr.wellFormed

/-- **`GSTable` refines a finite map.** A program of table operations with
non-null keys always ends, for every hash function; its answers are those of the
maps, and every table is consistent and holds the pairs of its map. -/
theorem tables_refine_maps (hash : Object → Nat) (fuel : Nat) (ops : List Op)
    (hops : ∀ op ∈ ops, op.KeyNonNull) :
    ∃ ts, run hash (fuel + 2) [] ops = some (ts, (specRun [] ops).2) ∧
      List.Forall₂ (fun t m => Consistent hash t ∧ ∀ k v, k ≠ .null →
        (t.Stores k v ↔ m k = some v)) ts (specRun [] ops).1 := by
  obtain ⟨ts, hrun, h⟩ := run_refines hash fuel ops [] [] .nil hops
  exact ⟨ts, hrun, h.imp fun _ _ hr => ⟨hr.wellFormed.consistent, hr.stores⟩⟩

theorem tables_refine_maps_three :
    ∃ ts, run (fun _ => 0) (0 + 2) []
        [.create 0, .newSlot 0 (.integer 1) (.integer 2), .get 0 (.integer 1) fun _ => .null] =
          some (ts, [.done, .done, .value (some (.integer 2))]) ∧
      List.Forall₂ (fun t m => Consistent (fun _ => 0) t ∧ ∀ k v, k ≠ .null →
        (t.Stores k v ↔ m k = some v)) ts
        (specRun [] [.create 0, .newSlot 0 (.integer 1) (.integer 2),
          .get 0 (.integer 1) fun _ => .null]).1 :=
  tables_refine_maps (fun _ => 0) 0
    [.create 0, .newSlot 0 (.integer 1) (.integer 2), .get 0 (.integer 1) fun _ => .null]
    (by simp [Op.KeyNonNull])

/-- A weak reference is not read back: `Get` gives what it refers to. -/
theorem not_get_newSlot :
    ¬ ∀ (hash : Object → Nat) (referent : Ref → Object) (t t' : Table) (key val : Object)
      (created : Bool), WellFormed hash t → key ≠ .null →
      newSlot hash 2 t key val = some (t', created) →
      t'.get hash referent key = some (some val) := by
  intro h
  have hget := h (fun _ => 0) (fun _ => .null) (create 0) _ (.integer 1) (.weakref 7) true
    (create_spec _ 0).1 (by decide) rfl
  cases hget

end GameScript.Table
