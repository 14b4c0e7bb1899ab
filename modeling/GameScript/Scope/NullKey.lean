import GameScript.Scope.Access

/-!
The null key. A node without a key has the null one, and stays in the chain it was in when its
key was removed, so `_Get` of null ends at such a node where it passes one. `GSTable::Get` and
`NewSlot` of the machine refuse null before that; `GSTable::Set` does not.

The tables are those of `GStable.cpp`, node by node. A metamethod ends an access of this
model with the closure that is to be called.
-/

namespace GameScript.NullKey

open Chain Table
open GameScript.Scope (MT_GET MT_SET MT_NEWSLOT acceptsDelegate acyclic_of_accepted)

def MT_DELSLOT : Object := .string (sc "_delslot")

/-! ### The tables of a machine -/

/-- The tables by address; those from `size` on are not in use. -/
structure Store where
  table : Ref → Table
  size : Nat

namespace Store

variable (s : Store)

/-- `_delegate`. -/
def delegate (r : Ref) : Option Ref := (s.table r).delegate

def put (r : Ref) (t : Table) : Store :=
  { s with table := Function.update s.table r t }

/-- A new table, at `size`. -/
def add (t : Table) : Store := { s.put s.size t with size := s.size + 1 }

/-- `SetDelegate`. -/
def SetDelegate (self : Ref) (mt : Option Ref) : Option Store := do
  if ← acceptsDelegate s.delegate s.size self mt then
    return s.put self { s.table self with delegate := mt }
  else return s

/-- One root table. -/
def init : Store where
  table _ := Table.create 0
  size := 1

end Store

/-- What is done to tables. -/
inductive Action where
  | create (nInitialSize : Nat)
  | clone (r : Ref)
  | newSlot (r : Ref) (key val : Object)
  | set (r : Ref) (key val : Object)
  | remove (r : Ref) (key : Object)
  | clear (r : Ref)
  | setDelegate (r : Ref) (mt : Option Ref)

/-- The objects exist. Whoever calls `NewSlot` or `Remove` has seen that the key is not null. -/
def Action.Valid (s : Store) : Action → Prop
  | .create _ => True
  | .clone r | .set r _ _ | .clear r => r < s.size
  | .newSlot r key _ | .remove r key => r < s.size ∧ key ≠ .null
  | .setDelegate r mt => r < s.size ∧ ∀ d ∈ mt, d < s.size

def Store.act (hash : Object → Nat) (fuel : Nat) (s : Store) : Action → Option Store
  | .create nInitialSize => some (s.add (Table.create nInitialSize))
  | .clone r => do return s.add (← (s.table r).clone hash fuel)
  | .newSlot r key val => do return s.put r (← newSlot hash fuel (s.table r) key val).1
  | .set r key val => do return s.put r (← (s.table r).set hash key val).1
  | .remove r key => do return s.put r (← Table.remove hash fuel (s.table r) key)
  | .clear r => do return s.put r (← Table.clear hash fuel (s.table r))
  | .setDelegate r mt => s.SetDelegate r mt

/-- The stores that programs come to. -/
inductive Reachable (hash : Object → Nat) : Store → Prop
  | init : Reachable hash Store.init
  | act {s s' : Store} {a : Action} {fuel : Nat} : Reachable hash s → a.Valid s →
      s.act hash (fuel + 2) a = some s' → Reachable hash s'

/-! ### Access through the machine -/

/-- What an access sees of the machine besides the tables. -/
structure Machine where
  hash : Object → Nat
  referent : Ref → Object
  _table_ddel : Table
  _roottable : Ref
  /-- The table that `_root` of the running closure refers to, unless it is gone. -/
  _root : Option Ref

/-- `Raise_IdxError` and the message for a null index. -/
inductive Error where
  | index (key : Object)
  | nullIndex
deriving DecidableEq, Repr

/-- How an access ends: `true`, `false` with the error that it raised, or in the call of a
metamethod. -/
inductive Outcome (α : Type) where
  | ok (a : α)
  | fails (e : Option Error)
  | calls (closure : Object)
deriving DecidableEq, Repr

/-- `GET_FLAG_RAW` and `GET_FLAG_DO_NOT_RAISE_ERROR`. -/
structure GetFlags where
  raw : Bool := false
  doNotRaise : Bool := false

/-- A `selfidx` that is not the register of `this`. -/
def DONT_FALL_BACK : Nat := 666

namespace Machine

variable (m : Machine) (s : Store)

/-- `GetMetaMethod`. -/
def GetMetaMethod (self : Ref) (mm : Object) : Option (Option Object) :=
  match s.delegate self with
  | none => some none
  | some d => (s.table d).get m.hash m.referent mm

/-- The end of a fallback: the metamethod, or `FALLBACK_NO_MATCH`. -/
def fallBackTo {α : Type} (self : Ref) (mm : Object) : Option (Outcome α) := do
  match ← m.GetMetaMethod s self mm with
  | some closure => return .calls closure
  | none => return .fails none

/-- `FallBackGet`, given `Get`. -/
def FallBackGet (get : Ref → Option (Outcome Object)) (self : Ref) : Option (Outcome Object) :=
  match s.delegate self with
  | none => some (.fails none)
  | some d => do
      match ← get d with
      | .fails _ => m.fallBackTo s self MT_GET
      | outcome => return outcome

/-- `Get`. -/
def Get : Nat → Ref → Object → GetFlags → Nat → Option (Outcome Object)
  | 0, _, _, _, _ => none
  | fuel + 1, self, key, getflags, selfidx => do
      let failed := Outcome.fails (if getflags.doNotRaise then none else some (.index key))
      match ← (s.table self).get m.hash m.referent key with
      | some val => return .ok val
      | none =>
          let fallBack : Outcome Object ←
            if getflags.raw then some (.fails none)
            else m.FallBackGet s (Get fuel · key { doNotRaise := true } DONT_FALL_BACK) self
          match fallBack with
          | .ok val => return .ok val
          | .calls closure => return .calls closure
          | .fails _ =>
              let default : Option Object ←
                if getflags.raw then some none else m._table_ddel.get m.hash m.referent key
              match default with
              | some val => return .ok val
              | none =>
                  if selfidx = 0 then
                    match m._root with
                    | none => return failed
                    | some root =>
                        match ← Get fuel root key {} DONT_FALL_BACK with
                        | .fails _ => return failed
                        | outcome => return outcome
                  else return failed

/-- `_OP_EXISTS`. -/
def opExists (fuel : Nat) (self : Ref) (key : Object) : Option Bool := do
  match ← m.Get s fuel self key { raw := true, doNotRaise := true } DONT_FALL_BACK with
  | .ok _ => return true
  | _ => return false

/-- `FallBackSet`, given `Set`. -/
def FallBackSet (set : Ref → Option (Store × Outcome Unit)) (self : Ref) :
    Option (Store × Outcome Unit) :=
  match s.delegate self with
  | none => do return (s, ← m.fallBackTo s self MT_SET)
  | some d => do
      match ← set d with
      | (s, .fails _) => return (s, ← m.fallBackTo s self MT_SET)
      | outcome => return outcome

/-- `Set`. -/
def Set : Nat → Store → Ref → Object → Object → Nat → Option (Store × Outcome Unit)
  | 0, _, _, _, _, _ => none
  | fuel + 1, s, self, key, val, selfidx => do
      let (t, found) ← (s.table self).set m.hash key val
      if found then return (s.put self t, .ok ())
      else
        match ← m.FallBackSet s (Set fuel s · key val DONT_FALL_BACK) self with
        | (s, .fails _) =>
            if selfidx = 0 then
              let (t, found) ← (s.table m._roottable).set m.hash key val
              if found then return (s.put m._roottable t, .ok ())
              else return (s, .fails (some (.index key)))
            else return (s, .fails (some (.index key)))
        | outcome => return outcome

/-- `NewSlot`. -/
def NewSlot (fuel : Nat) (self : Ref) (key val : Object) : Option (Store × Outcome Unit) :=
  if key = .null then some (s, .fails (some .nullIndex))
  else do
    match ← (s.table self).get m.hash m.referent key, ← m.GetMetaMethod s self MT_NEWSLOT with
    | none, some closure => return (s, .calls closure)
    | _, _ =>
        let (t, _) ← newSlot m.hash fuel (s.table self) key val
        return (s.put self t, .ok ())

/-- `DeleteSlot`. -/
def DeleteSlot (fuel : Nat) (self : Ref) (key : Object) : Option (Store × Outcome Object) := do
  match ← m.GetMetaMethod s self MT_DELSLOT with
  | some closure => return (s, .calls closure)
  | none =>
      match ← (s.table self).get m.hash m.referent key with
      | some val =>
          let t ← Table.remove m.hash fuel (s.table self) key
          return (s.put self t, .ok val)
      | none => return (s, .fails (some (.index key)))

end Machine

/-! ### What holds of every store -/

/-- Every table is in order, a delegate is a table in use, and no chain of delegates closes. -/
structure Sound (hash : Object → Nat) (s : Store) : Prop where
  wellFormed : ∀ r, WellFormed hash (s.table r)
  closed : ∀ r d, s.delegate r = some d → r < s.size ∧ d < s.size
  acyclic : Acyclic s.delegate

variable {hash : Object → Nat} {m : Machine} {s s' : Store} {t : Table}

namespace Store

@[simp] theorem put_size (r : Ref) (t : Table) : (s.put r t).size = s.size := rfl

theorem put_table (r : Ref) (t : Table) (r' : Ref) :
    (s.put r t).table r' = if r' = r then t else s.table r' := by
  simp [put, Function.update_apply]

theorem put_delegate (r : Ref) (t : Table) :
    (s.put r t).delegate = Function.update s.delegate r t.delegate := by
  funext r'
  rw [delegate, put_table, Function.update_apply]
  split <;> rfl

theorem put_delegate_of_eq {r : Ref} (ht : t.delegate = s.delegate r) :
    (s.put r t).delegate = s.delegate := by
  rw [put_delegate, ht, Function.update_eq_self]

end Store

namespace Sound

/-- A well-formed table in the place of another one keeps the store sound. -/
theorem put (h : Sound hash s) {r : Ref} (ht : WellFormed hash t)
    (hdelegate : t.delegate = s.delegate r) : Sound hash (s.put r t) where
  wellFormed r' := by
    rw [Store.put_table]
    split
    · exact ht
    · exact h.wellFormed r'
  closed := by
    rw [Store.put_delegate_of_eq hdelegate]
    exact h.closed
  acyclic := by
    rw [Store.put_delegate_of_eq hdelegate]
    exact h.acyclic

/-- A new table whose delegate is there keeps the store sound. -/
theorem add (h : Sound hash s) (ht : WellFormed hash t)
    (hdelegate : ∀ d, t.delegate = some d → d < s.size) : Sound hash (s.add t) where
  wellFormed r' := by
    change WellFormed hash ((s.put s.size t).table r')
    rw [Store.put_table]
    split
    · exact ht
    · exact h.wellFormed r'
  closed r d hd := by
    change (s.put s.size t).delegate r = some d at hd
    change r < s.size + 1 ∧ d < s.size + 1
    rw [Store.put_delegate, Function.update_apply] at hd
    split at hd
    · next hr => exact ⟨hr ▸ Nat.lt_succ_self _, Nat.lt_succ_of_lt (hdelegate d hd)⟩
    · exact ⟨Nat.lt_succ_of_lt (h.closed r d hd).1, Nat.lt_succ_of_lt (h.closed r d hd).2⟩
  acyclic := by
    change Acyclic (s.put s.size t).delegate
    rw [Store.put_delegate]
    apply h.acyclic.update
    · intro a ha
      exact Nat.lt_irrefl _ (h.closed a _ ha).2
    · intro heq
      exact Nat.lt_irrefl _ (hdelegate _ heq)

/-- A delegate that is accepted keeps the store sound. -/
theorem setDelegate (h : Sound hash s) {self : Ref} {mt : Option Ref} (hself : self < s.size)
    (hmt : ∀ d ∈ mt, d < s.size) (hact : s.SetDelegate self mt = some s') : Sound hash s' := by
  obtain ⟨ok, hok, hact⟩ := Option.bind_eq_some_iff.mp hact
  cases ok with
  | false => exact Option.some.inj hact ▸ h
  | true =>
      obtain rfl := Option.some.inj hact
      have hdelegate : (s.put self { s.table self with delegate := mt }).delegate =
          Function.update s.delegate self mt := Store.put_delegate ..
      constructor
      · intro r
        rw [Store.put_table]
        split
        · have hwf := h.wellFormed self
          exact ⟨hwf.wired, hwf.above, hwf.firstfree_lt, hwf.firstfree_key, hwf.firstfree_next,
            hwf.used, hwf.size⟩
        · exact h.wellFormed r
      · intro r d hd
        rw [hdelegate, Function.update_apply] at hd
        split at hd
        · next hr => exact ⟨hr ▸ hself, hmt d hd⟩
        · exact h.closed r d hd
      · rw [hdelegate]
        exact acyclic_of_accepted h.acyclic hok

theorem init : Sound hash Store.init where
  wellFormed _ := (create_spec hash 0).1
  closed r d hd := by cases hd
  acyclic := ⟨fun _ => 0, fun a b hab => by cases hab⟩

/-- Writing the value of a node keeps a table in order, whatever the key of the node. -/
theorem set (h : Sound hash s) {r : Ref} {key val : Object} {found : Bool}
    (hset : (s.table r).set hash key val = some (t, found)) : Sound hash (s.put r t) := by
  obtain ⟨n, _, hset⟩ := Option.bind_eq_some_iff.mp hset
  cases n with
  | none =>
      obtain ⟨rfl, _⟩ := Prod.mk.inj (Option.some.inj hset)
      exact h.put (h.wellFormed r) rfl
  | some n =>
      obtain ⟨rfl, _⟩ := Prod.mk.inj (Option.some.inj hset)
      exact h.put ((h.wellFormed r).setVal n val) rfl

/-- **Every action keeps the store sound.** -/
theorem act (h : Sound hash s) {a : Action} {fuel : Nat} (hvalid : a.Valid s)
    (hact : s.act hash (fuel + 2) a = some s') : Sound hash s' := by
  cases a with
  | create nInitialSize =>
      obtain rfl := Option.some.inj hact
      exact h.add (create_spec hash nInitialSize).1 (by intro d hd; cases hd)
  | clone r =>
      obtain ⟨nt, hclone, hwf, hdelegate, _⟩ := clone_spec (h.wellFormed r) fuel
      simp only [Store.act, hclone] at hact
      obtain rfl := Option.some.inj hact
      apply h.add hwf
      intro d hd
      exact (h.closed r d (hdelegate.symm.trans hd)).2
  | newSlot r key val =>
      obtain ⟨t', created, hnew, hstored⟩ := newSlot_spec (h.wellFormed r) hvalid.2 val fuel
      simp only [Store.act, hnew] at hact
      obtain rfl := Option.some.inj hact
      exact h.put hstored.wellFormed hstored.delegate
  | set r key val =>
      obtain ⟨⟨t', found⟩, hset, hact⟩ := Option.bind_eq_some_iff.mp hact
      obtain rfl := Option.some.inj hact
      exact h.set hset
  | remove r key =>
      obtain ⟨t', hremove, hwf, hdelegate, _⟩ := remove_spec (h.wellFormed r) hvalid.2 (fuel + 1)
      simp only [Store.act, hremove] at hact
      obtain rfl := Option.some.inj hact
      exact h.put hwf hdelegate
  | clear r =>
      obtain ⟨t', hclear, hwf, hdelegate, _⟩ := clear_spec (h.wellFormed r) (fuel + 1)
      simp only [Store.act, hclear] at hact
      obtain rfl := Option.some.inj hact
      exact h.put hwf hdelegate
  | setDelegate r mt => exact h.setDelegate hvalid.1 hvalid.2 hact

end Sound

theorem Reachable.sound (h : Reachable hash s) : Sound hash s := by
  induction h with
  | init => exact .init
  | act _ hvalid hact ih => exact ih.act hvalid hact

/-! ### Enough fuel -/

/-- `P` holds from some amount of fuel on. -/
def WithFuel (P : Nat → Prop) : Prop := ∃ N, ∀ fuel, N ≤ fuel → P fuel

namespace WithFuel

variable {P Q : Nat → Prop}

theorem and (hP : WithFuel P) (hQ : WithFuel Q) : WithFuel fun fuel => P fuel ∧ Q fuel := by
  obtain ⟨N, hN⟩ := hP
  obtain ⟨N', hN'⟩ := hQ
  exact ⟨N + N', fun fuel hfuel => ⟨hN fuel (by omega), hN' fuel (by omega)⟩⟩

theorem imp (hP : WithFuel P) (h : ∀ fuel, P fuel → Q fuel) : WithFuel Q :=
  Exists.imp (fun _ hN fuel hfuel => h fuel (hN fuel hfuel)) hP

theorem succ (hP : WithFuel P) (h : ∀ fuel, P fuel → Q (fuel + 1)) : WithFuel Q := by
  obtain ⟨N, hN⟩ := hP
  refine ⟨N + 1, fun fuel hfuel => ?_⟩
  obtain ⟨fuel, rfl⟩ := Nat.exists_eq_add_of_le' (Nat.le_of_add_left_le hfuel)
  exact h fuel (hN fuel (by omega))

/-- There may be a next table, and then it needs fuel of its own. -/
theorem next {P : Ref → Nat → Prop} (o : Option Ref) (h : ∀ d, o = some d → WithFuel (P d)) :
    WithFuel fun fuel => ∀ d, o = some d → P d fuel := by
  cases o with
  | none => exact ⟨0, fun _ _ d hd => by cases hd⟩
  | some d =>
      obtain ⟨N, hN⟩ := h d rfl
      refine ⟨N, fun fuel hfuel d' hd => ?_⟩
      obtain rfl := Option.some.inj hd
      exact hN fuel hfuel

theorem exists_fuel (h : WithFuel P) : ∃ fuel, P (fuel + 1) := by
  obtain ⟨N, hN⟩ := h
  exact ⟨N, hN (N + 1) (Nat.le_succ N)⟩

end WithFuel

/-! ### Null in one table -/

/-- No node without a key is on the chain of the main position of null. -/
def NullFree (hash : Object → Nat) (t : Table) : Prop :=
  ∀ i, Reach t.links (t.mainPosition hash .null) i → (t.nodes i).key ≠ .null

theorem get_null (referent : Ref → Object) : t.get hash referent .null = some none := by
  rw [Table.get, if_pos rfl]

theorem set_nullFree (h : WellFormed hash t) (hfree : NullFree hash t) (val : Object) :
    t.set hash .null val = some (t, false) := by
  obtain ⟨result, hresult⟩ := Option.isSome_iff_exists.mp
    (h.wired.search_isSome (fun i => (t.nodes i).key = .null) (mainPosition_lt hash h.pos .null))
  cases result with
  | none => simp [Table.set, _get, hresult]
  | some n =>
      obtain ⟨hkey, hreach⟩ := search_found hresult
      exact absurd (by simpa using hkey) (hfree n hreach)

/-- Where a node is free, `Set` finds it for the key null. -/
theorem set_not_nullFree (h : WellFormed hash t) (hfree : ¬ NullFree hash t) (val : Object) :
    ∃ t', t.set hash .null val = some (t', true) := by
  obtain ⟨result, hresult⟩ := Option.isSome_iff_exists.mp
    (h.wired.search_isSome (fun i => (t.nodes i).key = .null) (mainPosition_lt hash h.pos .null))
  cases result with
  | some n => exact ⟨t.setVal n val, by simp [Table.set, _get, hresult]⟩
  | none =>
      apply absurd _ hfree
      intro i hreach hkey
      exact search_missing hresult hreach (by simpa using hkey)

/-! ### Null through delegates -/

/-- The metamethods that an access asks for. -/
def metamethods : List Object := [MT_GET, MT_SET, MT_NEWSLOT, MT_DELSLOT]

/-- The delegates of `r` have no metamethods. -/
def Plain (m : Machine) (s : Store) (r : Ref) : Prop :=
  ∀ a d mm, Reach s.delegate r a → s.delegate a = some d → mm ∈ metamethods →
    (s.table d).get m.hash m.referent mm = some none

theorem Plain.delegate {r d : Ref} (h : Plain m s r) (hd : s.delegate r = some d) :
    Plain m s d :=
  fun a d' mm hreach => h a d' mm (.step hd hreach)

theorem Plain.getMetaMethod {r : Ref} (h : Plain m s r) {mm : Object} (hmm : mm ∈ metamethods) :
    m.GetMetaMethod s r mm = some none := by
  unfold Machine.GetMetaMethod
  split
  · rfl
  · next d hd => exact h r d mm (.refl r) hd hmm

theorem Plain.fallBackTo {α : Type} {r : Ref} (h : Plain m s r) {mm : Object}
    (hmm : mm ∈ metamethods) : m.fallBackTo (α := α) s r mm = some (.fails none) := by
  simp [Machine.fallBackTo, h.getMetaMethod hmm]

/-- The error of a read that finds nothing. -/
def notFound (getflags : GetFlags) : Outcome Object :=
  .fails (if getflags.doNotRaise then none else some (.index .null))

theorem FallBackGet_null {r : Ref} (hplain : Plain m s r) {get : Ref → Option (Outcome Object)}
    (hget : ∀ d, s.delegate r = some d → get d = some (.fails none)) :
    m.FallBackGet s get r = some (.fails none) := by
  unfold Machine.FallBackGet
  split
  · rfl
  · next d hd =>
      rw [hget d hd]
      exact hplain.fallBackTo (by simp [metamethods])

/-- One table of a read: it goes on to the delegate and the root. -/
theorem Get_null_succ {r : Ref} (hplain : Plain m s r) {fuel selfidx : Nat} {getflags : GetFlags}
    (hdelegate : ∀ d, s.delegate r = some d →
      m.Get s fuel d .null { doNotRaise := true } DONT_FALL_BACK = some (.fails none))
    (hroot : selfidx = 0 → ∀ root ∈ m._root,
      ∃ e, m.Get s fuel root .null {} DONT_FALL_BACK = some (.fails e)) :
    m.Get s (fuel + 1) r .null getflags selfidx = some (notFound getflags) := by
  have hfallBack := FallBackGet_null hplain hdelegate
  have htail : (if selfidx = 0 then
      match m._root with
      | none => some (notFound getflags)
      | some root => do
          match ← m.Get s fuel root .null {} DONT_FALL_BACK with
          | .fails _ => return notFound getflags
          | outcome => return outcome
      else some (notFound getflags)) = some (notFound getflags) := by
    split
    · next hself =>
        split
        · rfl
        · next root hr =>
            obtain ⟨e, he⟩ := hroot hself root hr
            rw [he]
            rfl
    · rfl
  cases hraw : getflags.raw with
  | false => simpa [Machine.Get, get_null, hraw, hfallBack, notFound] using htail
  | true => simpa [Machine.Get, get_null, hraw, notFound] using htail

/-- No table along plain delegates has the key null. -/
theorem Get_null_delegates (hacyclic : Acyclic s.delegate) (r : Ref) :
    Plain m s r → WithFuel fun fuel => ∀ getflags,
      m.Get s fuel r .null getflags DONT_FALL_BACK = some (notFound getflags) := by
  induction r using hacyclic.induction with
  | step r ih =>
      intro hplain
      apply (WithFuel.next _ fun d hd => ih d hd (hplain.delegate hd)).succ
      intro fuel hdelegate getflags
      apply Get_null_succ hplain
      · exact fun d hd => hdelegate d hd _
      · intro hself
        cases hself

/-- A read of null finds nothing and calls nothing. -/
theorem Get_null (hacyclic : Acyclic s.delegate) {r : Ref} {selfidx : Nat} (hplain : Plain m s r)
    (hroot : ∀ root, selfidx = 0 → m._root = some root → Plain m s root) : WithFuel fun fuel =>
      ∀ getflags, m.Get s fuel r .null getflags selfidx = some (notFound getflags) := by
  have hdelegate := WithFuel.next (s.delegate r) fun d hd =>
    Get_null_delegates hacyclic d (hplain.delegate hd)
  have hrootGet := WithFuel.next (if selfidx = 0 then m._root else none) fun root hr =>
    Get_null_delegates hacyclic root (by
      split at hr
      · next hself => exact hroot root hself hr
      · cases hr)
  apply (hdelegate.and hrootGet).succ
  rintro fuel ⟨hdelegate, hrootGet⟩ getflags
  apply Get_null_succ hplain
  · exact fun d hd => hdelegate d hd _
  · exact fun hself root hr => ⟨_, hrootGet root (by rw [if_pos hself]; exact hr) _⟩

/-- Every table that `r` comes to through delegates is free of null. -/
def ChainFree (hash : Object → Nat) (s : Store) (r : Ref) : Prop :=
  ∀ a, Reach s.delegate r a → NullFree hash (s.table a)

theorem chainFree_iff {r : Ref} : ChainFree hash s r ↔
    NullFree hash (s.table r) ∧ ∀ d, s.delegate r = some d → ChainFree hash s d := by
  constructor
  · intro h
    exact ⟨h r (.refl r), fun d hd a ha => h a (.step hd ha)⟩
  · rintro ⟨hself, hnext⟩ a ha
    rcases Relation.ReflTransGen.cases_head ha with rfl | ⟨d, hd, hda⟩
    · exact hself
    · exact hnext d hd a hda

/-- What an assignment does after the table and its delegates. -/
theorem Set_null_free {r : Ref} (hplain : Plain m s r) (h : Sound m.hash s)
    (hself : NullFree m.hash (s.table r)) {fuel : Nat} {val : Object} (selfidx : Nat)
    (hdelegate : ∀ d, s.delegate r = some d →
      ∃ e, m.Set fuel s d .null val DONT_FALL_BACK = some (s, .fails e)) :
    m.Set (fuel + 1) s r .null val selfidx =
      if selfidx = 0 then
        ((s.table m._roottable).set m.hash .null val).map fun (t, found) =>
          if found then (s.put m._roottable t, .ok ()) else (s, .fails (some (.index .null)))
      else some (s, .fails (some (.index .null))) := by
  have hfallBack : m.FallBackSet s (m.Set fuel s · .null val DONT_FALL_BACK) r =
      some (s, .fails none) := by
    unfold Machine.FallBackSet
    split
    · simp [hplain.fallBackTo (show MT_SET ∈ metamethods by simp [metamethods])]
    · next d hd =>
        obtain ⟨e, he⟩ := hdelegate d hd
        simp [he, hplain.fallBackTo (show MT_SET ∈ metamethods by simp [metamethods])]
  simp only [Machine.Set, set_nullFree (h.wellFormed r) hself val, hfallBack, Option.bind_eq_bind,
    Option.bind_some, Bool.false_eq_true, if_false]
  split
  · cases (s.table m._roottable).set m.hash .null val with
    | none => rfl
    | some result =>
        simp only [Option.bind_some, Option.map_some]
        split <;> rfl
  · rfl

/-- An assignment that meets a node without a key in a delegate writes it. -/
theorem Set_null_delegate {r d : Ref} (h : Sound m.hash s)
    (hself : NullFree m.hash (s.table r)) {fuel : Nat} {val : Object} (selfidx : Nat)
    (hd : s.delegate r = some d) (hset : m.Set fuel s d .null val DONT_FALL_BACK = some (s', .ok ())) :
    m.Set (fuel + 1) s r .null val selfidx = some (s', .ok ()) := by
  have hfallBack : m.FallBackSet s (m.Set fuel s · .null val DONT_FALL_BACK) r =
      some (s', .ok ()) := by
    simp [Machine.FallBackSet, hd, hset]
  simp [Machine.Set, set_nullFree (h.wellFormed r) hself val, hfallBack]

/-- An assignment to null fails without a change, or ends at the first node without a key. -/
def Assigns (m : Machine) (s : Store) (r : Ref) (selfidx : Nat) (free : Prop) (fuel : Nat) :
    Prop :=
  ∀ val, (free → m.Set fuel s r .null val selfidx = some (s, .fails (some (.index .null)))) ∧
    (¬ free → ∃ s', m.Set fuel s r .null val selfidx = some (s', .ok ()))

/-- One table of an assignment: it goes on to the delegate and the root table. -/
theorem Assigns.succ {r : Ref} (hplain : Plain m s r) (h : Sound m.hash s) {fuel : Nat}
    (selfidx : Nat) (hdelegate : ∀ d, s.delegate r = some d →
      Assigns m s d DONT_FALL_BACK (ChainFree m.hash s d) fuel) :
    Assigns m s r selfidx
      (ChainFree m.hash s r ∧ (selfidx = 0 → NullFree m.hash (s.table m._roottable)))
      (fuel + 1) := by
  intro val
  by_cases hself : NullFree m.hash (s.table r)
  · by_cases hnext : ∀ d, s.delegate r = some d → ChainFree m.hash s d
    · have hset := Set_null_free hplain h hself selfidx fun d hd =>
        ⟨_, ((hdelegate d hd) val).1 (hnext d hd)⟩
      have hchain : ChainFree m.hash s r := chainFree_iff.mpr ⟨hself, hnext⟩
      rw [hset]
      by_cases hidx : selfidx = 0
      · rw [if_pos hidx]
        constructor
        · rintro ⟨_, hroot⟩
          rw [set_nullFree (h.wellFormed _) (hroot hidx) val]
          rfl
        · intro hfree
          have hroot : ¬ NullFree m.hash (s.table m._roottable) :=
            fun hroot => hfree ⟨hchain, fun _ => hroot⟩
          obtain ⟨t', ht'⟩ := set_not_nullFree (h.wellFormed _) hroot val
          rw [ht']
          exact ⟨_, rfl⟩
      · rw [if_neg hidx]
        exact ⟨fun _ => rfl, fun hfree => absurd ⟨hchain, fun h0 => absurd h0 hidx⟩ hfree⟩
    · simp only [not_forall] at hnext
      obtain ⟨d, hd, hmeets⟩ := hnext
      obtain ⟨s', hset⟩ := ((hdelegate d hd) val).2 hmeets
      constructor
      · intro hfree
        exact absurd ((chainFree_iff.mp hfree.1).2 d hd) hmeets
      · exact fun _ => ⟨s', Set_null_delegate h hself selfidx hd hset⟩
  · obtain ⟨t', ht'⟩ := set_not_nullFree (h.wellFormed r) hself val
    constructor
    · intro hfree
      exact absurd (chainFree_iff.mp hfree.1).1 hself
    · exact fun _ => ⟨s.put r t', by simp [Machine.Set, ht']⟩

theorem Set_null_delegates (h : Sound m.hash s) (r : Ref) : Plain m s r →
    WithFuel (Assigns m s r DONT_FALL_BACK (ChainFree m.hash s r)) := by
  induction r using h.acyclic.induction with
  | step r ih =>
      intro hplain
      apply (WithFuel.next _ fun d hd => ih d hd (hplain.delegate hd)).succ
      intro fuel hdelegate
      simpa [DONT_FALL_BACK] using Assigns.succ hplain h DONT_FALL_BACK hdelegate

theorem Set_null (h : Sound m.hash s) {r : Ref} (hplain : Plain m s r) (selfidx : Nat) :
    WithFuel (Assigns m s r selfidx
      (ChainFree m.hash s r ∧ (selfidx = 0 → NullFree m.hash (s.table m._roottable)))) :=
  (WithFuel.next _ fun d hd => Set_null_delegates h d (hplain.delegate hd)).succ
    fun _ hdelegate => Assigns.succ hplain h selfidx hdelegate

/-! ### Null as an absent key -/

/-- With null as a key, a read, a declaration, an assignment and a deletion raise, a test says
no, and no table is touched. -/
structure Absent (m : Machine) (s : Store) (r : Ref) (selfidx fuel : Nat) : Prop where
  read : m.Get s fuel r .null {} selfidx = some (.fails (some (.index .null)))
  test : m.opExists s fuel r .null = some false
  declare : ∀ val, m.NewSlot s fuel r .null val = some (s, .fails (some .nullIndex))
  assign : ∀ val, m.Set fuel s r .null val selfidx = some (s, .fails (some (.index .null)))
  delete : m.DeleteSlot s fuel r .null = some (s, .fails (some (.index .null)))

/-- **Null is an absent key when no assignment meets a node without a key.** In every store that
a program comes to, for a table whose delegates have no metamethods: reading, testing, declaring
and deleting null is refused; assigning is, if and only if no node without a key is on the
chain of null in the table, in a delegate, or in the root table when the table is `this`. -/
theorem null_absent_iff (hreachable : Reachable m.hash s) {r : Ref} {selfidx : Nat}
    (hplain : Plain m s r)
    (hroot : ∀ root, selfidx = 0 → m._root = some root → Plain m s root) :
    WithFuel (Absent m s r selfidx) ↔ ChainFree m.hash s r ∧
      (selfidx = 0 → NullFree m.hash (s.table m._roottable)) := by
  have h := hreachable.sound
  have hset := Set_null h hplain selfidx
  constructor
  · intro habsent
    obtain ⟨fuel, habsent, hassigns⟩ := (habsent.and hset).exists_fuel
    by_contra hfree
    obtain ⟨s', hok⟩ := (hassigns .null).2 hfree
    rw [habsent.assign .null] at hok
    cases hok
  · intro hfree
    apply ((Get_null h.acyclic hplain hroot).and ((Get_null_delegates h.acyclic r hplain).and
      hset)).imp
    rintro fuel ⟨hget, htest, hassigns⟩
    have hdelete : m.DeleteSlot s fuel r .null = some (s, .fails (some (.index .null))) := by
      simp [Machine.DeleteSlot, hplain.getMetaMethod (show MT_DELSLOT ∈ metamethods by
        simp [metamethods]), get_null]
    exact {
      read := hget {}
      test := by simp [Machine.opExists, htest, notFound]
      declare := fun val => by rw [Machine.NewSlot, if_pos rfl]
      assign := fun val => (hassigns val).1 hfree
      delete := hdelete }

/-- A machine of one table, with every key in one chain. -/
def oneTable : Machine where
  hash _ := 0
  referent _ := .null
  _table_ddel := Table.create 0
  _roottable := 0
  _root := some 0

theorem plain_init (r : Ref) : Plain oneTable Store.init r := by
  intro a d mm _ hd
  cases hd

/-- The main position of null is free in a new table. -/
theorem set_null_init (fuel : Nat) (val : Object) :
    ∃ s', oneTable.Set (fuel + 1) Store.init 0 .null val 0 = some (s', .ok ()) :=
  ⟨_, rfl⟩

/-- The store with one pair in the root table. -/
def onePair : Store :=
  Store.init.put 0
    ((newSlot oneTable.hash 2 (Table.create 0) (.integer 1) (.integer 2)).getD
      (Table.create 0, false)).1

theorem plain_onePair (r : Ref) : Plain oneTable onePair r := by
  intro a d mm _ hd
  have hnone : onePair.delegate a = none := by
    rw [onePair, Store.delegate, Store.put_table]
    split <;> rfl
  rw [hnone] at hd
  cases hd

theorem reachable_onePair : Reachable oneTable.hash onePair := by
  have hvalid : (Action.newSlot 0 (.integer 1) (.integer 2)).Valid Store.init :=
    ⟨by decide, by decide⟩
  have hact : Store.init.act oneTable.hash (0 + 2) (.newSlot 0 (.integer 1) (.integer 2)) =
      some onePair := rfl
  exact .act .init hvalid hact

theorem null_absent_one : WithFuel (Absent oneTable onePair 0 0) ↔
    ChainFree oneTable.hash onePair 0 ∧
      ((0 : Nat) = 0 → NullFree oneTable.hash (onePair.table oneTable._roottable)) :=
  null_absent_iff reachable_onePair (plain_onePair 0) fun root _ _ => plain_onePair root

/-- Assigning to null in a new table is no error. -/
theorem not_null_absent : ¬ ∀ (m : Machine) (s : Store) (r : Ref) (selfidx : Nat),
    Reachable m.hash s → Plain m s r →
    (∀ root, selfidx = 0 → m._root = some root → Plain m s root) →
    WithFuel (Absent m s r selfidx) := by
  intro h
  obtain ⟨fuel, habsent⟩ := (h oneTable Store.init 0 0 .init (plain_init 0)
    fun root _ _ => plain_init root).exists_fuel
  obtain ⟨s', hok⟩ := set_null_init fuel (.integer 1)
  rw [habsent.assign] at hok
  cases hok

end GameScript.NullKey
