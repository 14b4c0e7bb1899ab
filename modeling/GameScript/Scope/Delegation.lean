import GameScript.Scope.Access

/-!
Delegation over a whole run: `SetDelegate` and everything that installs a delegate.

An object with a delegate is a table, a userdata or an instance. What a script or
the host does to delegates is a sequence of the actions below; namespace declarations and
imports are those they consist of, with whatever their lookups call in between. A
loop that follows delegates is bounded by fuel and gives `none` when it runs out.
-/

namespace GameScript.Delegation

open Chain Scope

inductive Kind where
  | table | userdata | «instance»
deriving DecidableEq, Repr

/-- `GSDelegable`; `slots` are those of a table. -/
structure Delegable where
  kind : Kind
  slots : Table.Contents := .empty
  delegate : Option Ref := none

/-- The objects by address, those from `size` on not in use, and `_roottable`. -/
structure Store where
  obj : Ref → Delegable
  size : Nat
  root : Option Ref

namespace Store

/-- `_delegate`. -/
def delegate (s : Store) (r : Ref) : Option Ref := (s.obj r).delegate

/-- A new object, at `size`. -/
def create (s : Store) (o : Delegable) : Store :=
  { s with obj := Function.update s.obj s.size o, size := s.size + 1 }

/-- `_delegate = mt`. -/
def assign (s : Store) (self : Ref) (mt : Option Ref) : Store :=
  { s with obj := Function.update s.obj self { (s.obj self) with delegate := mt } }

/-- `GSTable::NewSlot`, and `GSTable::Set` of a slot that exists. -/
def setSlot (s : Store) (r : Ref) (key val : Object) : Store :=
  let slots := Function.update (s.obj r).slots key (some val)
  { s with obj := Function.update s.obj r { s.obj r with slots := slots } }

/-- `SetDelegate`. -/
def SetDelegate (s : Store) (self : Ref) (mt : Option Ref) : Option (Bool × Store) := do
  let ok ← acceptsDelegate s.delegate s.size self mt
  if ok then return (true, s.assign self mt) else return (false, s)

/-- `GS_setdelegate`, which `setdelegate` of a script calls too. A cycle is an error for a table;
for a userdata the answer of `SetDelegate` is dropped. -/
def GS_setdelegate (s : Store) (self mt : Object) : Option (Bool × Store) :=
  match self, mt with
  | .table r, .table m => s.SetDelegate r (some m)
  | .table r, .null => do
      let (_, s) ← s.SetDelegate r none
      return (true, s)
  | .userdata r, .table m => do
      let (_, s) ← s.SetDelegate r (some m)
      return (true, s)
  | .userdata r, .null => do
      let (_, s) ← s.SetDelegate r none
      return (true, s)
  | _, _ => some (false, s)

/-- A new table that delegates to the root table, as a namespace declaration makes for a
segment that another follows, and an import for the module. -/
def createUnderRoot (s : Store) : Option Store := do
  let (_, s') ← (s.create { kind := .table }).SetDelegate s.size s.root
  return s'

/-- `GSTable::Clone`. -/
def cloneTable (s : Store) (r : Ref) : Option Store := do
  let (_, s') ← (s.create { kind := .table, slots := (s.obj r).slots }).SetDelegate s.size
    (s.delegate r)
  return s'

end Store

/-- What is done to delegates. -/
inductive Action where
  /-- `GSTable::Create`: a table constructor, the members of a class, the last segment of a
  namespace, the table of the modules. -/
  | newTable
  /-- `GSUserData::Create`. -/
  | newUserData
  /-- `GSInstance`, new or cloned: it delegates to the members of its class. -/
  | newInstance (members : Ref)
  /-- `GSTable::Clone`. -/
  | clone (r : Ref)
  /-- `GS_setdelegate`. -/
  | setDelegate (self mt : Object)
  /-- `GS_setroottable`. -/
  | setRootTable (root : Option Ref)
  /-- `BuildNamespaceTables` at a segment that `Get` does not find in `current`. -/
  | namespaceSegment (current : Ref) (key : Object) (more : Bool)
  /-- `_OP_IMPORT`: the scope of a module. -/
  | sandbox
  /-- `GSTable::NewSlot` and `GSTable::Set`. -/
  | setSlot (r : Ref) (key val : Object)
  /-- `Finalize` of an object that is released or collected. -/
  | finalize (r : Ref)

/-- A table of the machine. -/
def Store.IsTable (s : Store) (r : Ref) : Prop := r < s.size ∧ (s.obj r).kind = .table

/-- A script or the host has values of objects that exist only. -/
def Store.Holds (s : Store) : Object → Prop
  | .table r => s.IsTable r
  | .userdata r => r < s.size ∧ (s.obj r).kind = .userdata
  | _ => True

def Action.Valid (s : Store) : Action → Prop
  | .newTable | .newUserData | .sandbox => True
  | .newInstance members => s.IsTable members
  | .clone r | .setSlot r _ _ | .namespaceSegment r _ _ => s.IsTable r
  | .setDelegate self mt => s.Holds self ∧ s.Holds mt
  | .setRootTable root => ∀ r ∈ root, s.IsTable r
  | .finalize r => r < s.size

/-- `__namespace`. -/
def ns_key : Object := .string (sc "__namespace")

def Store.act (s : Store) : Action → Option Store
  | .newTable => some (s.create { kind := .table })
  | .newUserData => some (s.create { kind := .userdata })
  | .newInstance members => some (s.create { kind := .instance, delegate := some members })
  | .clone r => s.cloneTable r
  | .setDelegate self mt => (s.GS_setdelegate self mt).map (·.2)
  | .setRootTable root => some { s with root := root }
  | .namespaceSegment current key more => do
      let s' ← if more then s.createUnderRoot else some (s.create { kind := .table })
      return s'.setSlot current key (.table s.size)
  | .sandbox => do
      let s' ← s.createUnderRoot
      return s'.setSlot s.size ns_key (.table s.size)
  | .setSlot r key val => some (s.setSlot r key val)
  | .finalize r => (s.SetDelegate r none).map (·.2)

/-- A machine whose root table is empty and delegates to nothing. -/
def Store.init : Store where
  obj _ := { kind := .table }
  size := 1
  root := some 0

/-- The states a machine can come to. -/
inductive Reachable : Store → Prop
  | init : Reachable Store.init
  | act {s s' : Store} {a : Action} : Reachable s → a.Valid s → s.act a = some s' → Reachable s'

/-! ### Reading and writing through delegates -/

/-- What an object says of a key before it falls back. -/
inductive Own where
  | found (v : Object)
  | missing
  | fail

/-- What is outside this model: values that are not tables, the default delegates and the functions
that metamethods are. -/
structure Host where
  realval : Store → Object → Object
  /-- `GSArray::Get`, `GSInstance::Get`, `GSClass::Get` and the characters of a string. -/
  get : Store → Object → Object → Own
  /-- `GSInstance::Set` and `GSArray::Set`. -/
  set : Store → Object → Object → Object → Own × Store
  /-- `GSInstance::GetMetaMethod`. -/
  instanceMetaMethod : Store → Ref → Object → Option Object
  /-- `InvokeDefaultDelegate`. -/
  defaultDelegate : Store → Object → Object → Option Object
  /-- `Call` of a metamethod, which comes back. -/
  call : Object → List Object → Store → FallBack × Store

section

variable (host : Host)

/-- `GSTable::Get`. -/
def rawGet (s : Store) (r : Ref) (key : Object) : Option Object :=
  if key = .null then none else ((s.obj r).slots key).map (host.realval s)

/-- `GetMetaMethod`. -/
def getMetaMethod (s : Store) (self : Object) (mm : Object) : Option Object :=
  match self with
  | .table r | .userdata r => (s.delegate r).bind fun d => rawGet host s d mm
  | .instance r => host.instanceMetaMethod s r mm
  | _ => none

/-- The metamethod of a fallback, when there is one. -/
def callMetaMethod (s : Store) (self mm : Object) (args : List Object) : FallBack × Store :=
  match getMetaMethod host s self mm with
  | some closure => host.call closure (self :: args) s
  | none => (.noMatch, s)

/-- `FallBackGet`; `get` is `Get` without a fallback to the root table. -/
def FallBackGet (get : Store → Object → Object → Option (Option Object × Store)) (s : Store)
    (self key : Object) : Option (FallBack × Store) :=
  match self with
  | .table r | .userdata r =>
      match s.delegate r with
      | none => some (.noMatch, s)
      | some d => do
          let (v, s) ← get s (.table d) key
          match v with
          | some v => return (.ok v, s)
          | none => return callMetaMethod host s self MT_GET [key]
  | .instance _ => some (callMetaMethod host s self MT_GET [key])
  | _ => some (.noMatch, s)

/-- What a value itself has for a key. -/
def ownGet (s : Store) (self key : Object) : Own :=
  match self with
  | .table r =>
      match rawGet host s r key with
      | some v => .found v
      | none => .missing
  | self => host.get s self key

/-- `Get` without `GET_FLAG_RAW`, on any value. -/
def Get : Nat → Store → Object → Object → Option (Option Object × Store)
  | 0, _, _, _ => none
  | fuel + 1, s, self, key =>
      match ownGet host s self key with
      | .found v => some (some v, s)
      | .fail => some (none, s)
      | .missing => do
          let (fallBack, s) ← FallBackGet host (Get fuel) s self key
          match fallBack with
          | .ok v => return (some v, s)
          | .noMatch => return (host.defaultDelegate s self key, s)
          | .error => return (none, s)

/-- `FallBackSet`; only a table goes on to its delegate. -/
def FallBackSet (set : Store → Object → Object → Object → Option (Bool × Store)) (s : Store)
    (self key val : Object) : Option (FallBack × Store) :=
  match self with
  | .table r =>
      match s.delegate r with
      | none => some (callMetaMethod host s self MT_SET [key, val])
      | some d => do
          let (ok, s) ← set s (.table d) key val
          if ok then return (.ok .null, s)
          else return callMetaMethod host s self MT_SET [key, val]
  | .instance _ | .userdata _ => some (callMetaMethod host s self MT_SET [key, val])
  | _ => some (.noMatch, s)

/-- The assignment to what a value itself has. -/
def ownSet (s : Store) (self key val : Object) : Own × Store :=
  match self with
  | .table r =>
      if ((s.obj r).slots key).isSome then (.found val, s.setSlot r key val) else (.missing, s)
  | .userdata _ => (.missing, s)
  | self => host.set s self key val

/-- `Set` with `DONT_FALL_BACK`. -/
def Set : Nat → Store → Object → Object → Object → Option (Bool × Store)
  | 0, _, _, _, _ => none
  | fuel + 1, s, self, key, val =>
      match ownSet host s self key val with
      | (.found _, s) => some (true, s)
      | (.fail, s) => some (false, s)
      | (.missing, s) => do
          let (fallBack, s) ← FallBackSet host (Set fuel) s self key val
          match fallBack with
          | .ok _ => return (true, s)
          | _ => return (false, s)

end

/-! ### The invariant -/

variable {s s' : Store}

/-- No delegation closes a cycle, and delegates exist. -/
structure Store.WellFounded (s : Store) : Prop where
  acyclic : Acyclic s.delegate
  closed : ∀ r d, s.delegate r = some d → r < s.size ∧ d < s.size
  root_lt : ∀ r ∈ s.root, r < s.size

theorem delegate_create (s : Store) (o : Delegable) :
    (s.create o).delegate = Function.update s.delegate s.size o.delegate := by
  funext r
  by_cases hr : r = s.size
  · subst hr
    simp [Store.delegate, Store.create]
  · simp [Store.delegate, Store.create, hr]

theorem delegate_assign (s : Store) (self : Ref) (mt : Option Ref) :
    (s.assign self mt).delegate = Function.update s.delegate self mt := by
  funext r
  by_cases hr : r = self
  · subst hr
    simp [Store.delegate, Store.assign]
  · simp [Store.delegate, Store.assign, hr]

theorem delegate_setSlot (s : Store) (r : Ref) (key val : Object) :
    (s.setSlot r key val).delegate = s.delegate := by
  funext r'
  by_cases hr : r' = r
  · subst hr
    simp [Store.delegate, Store.setSlot]
  · simp [Store.delegate, Store.setSlot, hr]

theorem Store.WellFounded.setSlot (h : s.WellFounded) (r : Ref) (key val : Object) :
    (s.setSlot r key val).WellFounded := by
  constructor
  · rw [delegate_setSlot]
    exact h.acyclic
  · rw [delegate_setSlot]
    exact h.closed
  · exact h.root_lt

/-- Nothing delegates to a new object. -/
theorem Store.WellFounded.create (h : s.WellFounded) {o : Delegable}
    (ho : ∀ d ∈ o.delegate, d < s.size) : (s.create o).WellFounded := by
  have hfresh : ∀ a, s.delegate a ≠ some s.size := by
    intro a ha
    exact Nat.lt_irrefl _ (h.closed a _ ha).2
  constructor
  · rw [delegate_create]
    apply h.acyclic.update hfresh
    intro heq
    exact Nat.lt_irrefl _ (ho _ heq)
  · intro r d hd
    rw [delegate_create] at hd
    simp only [Store.create]
    by_cases hr : r = s.size
    · subst hr
      rw [Function.update_self] at hd
      exact ⟨Nat.lt_succ_self _, Nat.lt_succ_of_lt (ho d hd)⟩
    · rw [Function.update_of_ne hr] at hd
      obtain ⟨hr', hd'⟩ := h.closed r d hd
      exact ⟨Nat.lt_succ_of_lt hr', Nat.lt_succ_of_lt hd'⟩
  · intro r hr
    exact Nat.lt_succ_of_lt (h.root_lt r hr)

/-- `SetDelegate` comes back, and what it installs closes no cycle. -/
theorem Store.WellFounded.SetDelegate_eq (h : s.WellFounded) {self : Ref} (hself : self < s.size)
    {mt : Option Ref} (hmt : ∀ m ∈ mt, m < s.size) :
    ∃ ok s', s.SetDelegate self mt = some (ok, s') ∧ s'.WellFounded ∧ s'.size = s.size := by
  have hassign : Acyclic (Function.update s.delegate self mt) → (s.assign self mt).WellFounded := by
    intro hacyclic
    constructor
    · rw [delegate_assign]
      exact hacyclic
    · intro r d hd
      rw [delegate_assign] at hd
      by_cases hr : r = self
      · subst hr
        rw [Function.update_self] at hd
        exact ⟨hself, hmt d hd⟩
      · rw [Function.update_of_ne hr] at hd
        exact h.closed r d hd
    · exact h.root_lt
  have hsome : (acceptsDelegate s.delegate s.size self mt).isSome :=
    acceptsDelegate_isSome h.acyclic (fun r d hd => (h.closed r d hd).2) hmt
  obtain ⟨ok, hok⟩ := Option.isSome_iff_exists.mp hsome
  cases ok with
  | false => exact ⟨false, s, by simp [Store.SetDelegate, hok], h, rfl⟩
  | true =>
      exact ⟨true, s.assign self mt, by simp [Store.SetDelegate, hok],
        hassign (acyclic_of_accepted h.acyclic hok), rfl⟩

theorem Store.WellFounded.createUnderRoot_eq (h : s.WellFounded) :
    ∃ s', s.createUnderRoot = some s' ∧ s'.WellFounded ∧ s'.size = s.size + 1 := by
  have hnew : (s.create { kind := .table }).WellFounded := h.create fun d hd => by cases hd
  obtain ⟨ok, s', heq, hs', hsize⟩ := hnew.SetDelegate_eq (Nat.lt_succ_self s.size)
    fun m hm => Nat.lt_succ_of_lt (h.root_lt m hm)
  exact ⟨s', by simp [Store.createUnderRoot, heq], hs', hsize⟩

/-- Every valid action comes back and keeps the invariant. -/
theorem Store.WellFounded.act_eq (h : s.WellFounded) {a : Action} (ha : a.Valid s) :
    ∃ s', s.act a = some s' ∧ s'.WellFounded := by
  have htable : ∀ {slots}, (s.create { kind := .table, slots := slots }).WellFounded :=
    h.create fun d hd => by cases hd
  cases a with
  | newTable => exact ⟨_, rfl, htable⟩
  | newUserData => exact ⟨_, rfl, h.create fun d hd => by cases hd⟩
  | newInstance members =>
      refine ⟨_, rfl, h.create ?_⟩
      intro d hd
      obtain rfl := Option.some.inj hd
      exact ha.1
  | clone r =>
      have hnew := @htable (s.obj r).slots
      obtain ⟨ok, s', heq, hs', -⟩ := hnew.SetDelegate_eq (Nat.lt_succ_self s.size)
        fun m hm => Nat.lt_succ_of_lt (h.closed r m hm).2
      exact ⟨s', by simp [Store.act, Store.cloneTable, heq], hs'⟩
  | setDelegate self mt =>
      obtain ⟨hself, hmt⟩ := ha
      have hset : ∀ r m, r < s.size → (∀ d ∈ m, d < s.size) →
          ∃ ok s', s.SetDelegate r m = some (ok, s') ∧ s'.WellFounded := by
        intro r m hr hm
        obtain ⟨ok, s', heq, hs', -⟩ := h.SetDelegate_eq hr hm
        exact ⟨ok, s', heq, hs'⟩
      simp only [Store.act, Store.GS_setdelegate]
      split
      · next r m =>
          obtain ⟨ok, s', heq, hs'⟩ := hset r (some m) hself.1 fun d hd => by
            obtain rfl := Option.some.inj hd
            exact hmt.1
          exact ⟨s', by simp [heq], hs'⟩
      · next r =>
          obtain ⟨ok, s', heq, hs'⟩ := hset r none hself.1 fun d hd => by cases hd
          exact ⟨s', by simp [heq], hs'⟩
      · next r m =>
          obtain ⟨ok, s', heq, hs'⟩ := hset r (some m) hself.1 fun d hd => by
            obtain rfl := Option.some.inj hd
            exact hmt.1
          exact ⟨s', by simp [heq], hs'⟩
      · next r =>
          obtain ⟨ok, s', heq, hs'⟩ := hset r none hself.1 fun d hd => by cases hd
          exact ⟨s', by simp [heq], hs'⟩
      · exact ⟨s, rfl, h⟩
  | setRootTable root =>
      refine ⟨_, rfl, h.acyclic, h.closed, ?_⟩
      intro r hr
      exact (ha r hr).1
  | namespaceSegment current key more =>
      cases more with
      | true =>
          obtain ⟨s', heq, hs', -⟩ := h.createUnderRoot_eq
          exact ⟨s'.setSlot current key (.table s.size), by simp [Store.act, heq],
            hs'.setSlot _ _ _⟩
      | false =>
          exact ⟨(s.create { kind := .table }).setSlot current key (.table s.size),
            by simp [Store.act], Store.WellFounded.setSlot htable _ _ _⟩
  | sandbox =>
      obtain ⟨s', heq, hs', -⟩ := h.createUnderRoot_eq
      exact ⟨s'.setSlot s.size ns_key (.table s.size), by simp [Store.act, heq],
        hs'.setSlot _ _ _⟩
  | setSlot r key val => exact ⟨_, rfl, h.setSlot r key val⟩
  | finalize r =>
      obtain ⟨ok, s', heq, hs', -⟩ := h.SetDelegate_eq ha
        fun d (hd : d ∈ (none : Option Ref)) => by cases hd
      exact ⟨s', by simp [Store.act, heq], hs'⟩

theorem Store.init_wellFounded : Store.init.WellFounded := by
  constructor
  · exact ⟨fun _ => 0, fun a b hab => by cases hab⟩
  · intro r d hd
    cases hd
  · intro r hr
    obtain rfl := Option.some.inj hr
    exact Nat.zero_lt_one

theorem Reachable.wellFounded (h : Reachable s) : s.WellFounded := by
  induction h with
  | init => exact Store.init_wellFounded
  | act _ ha hact ih =>
      obtain ⟨s', heq, hs'⟩ := ih.act_eq ha
      rw [heq] at hact
      exact Option.some.inj hact ▸ hs'

/-! ### The walks of `Get` and `Set` -/

/-- Where the chain of a delegate ends within the fuel, so does `Get`. -/
theorem FallBackGet_isSome {host : Host}
    {get : Store → Object → Object → Option (Option Object × Store)} {self : Object} (key : Object)
    (hget : ∀ r d, self = .table r ∨ self = .userdata r → s.delegate r = some d →
      (get s (.table d) key).isSome) : (FallBackGet host get s self key).isSome := by
  have hdelegate : ∀ r, self = .table r ∨ self = .userdata r →
      (match s.delegate r with
        | none => some (FallBack.noMatch, s)
        | some d => do
            let (v, s) ← get s (.table d) key
            match v with
            | some v => return (.ok v, s)
            | none => return callMetaMethod host s self MT_GET [key]).isSome := by
    intro r hr
    cases hd : s.delegate r with
    | none => rfl
    | some d =>
        obtain ⟨⟨v, s'⟩, heq⟩ := Option.isSome_iff_exists.mp (hget r d hr hd)
        cases v <;> simp [heq]
  unfold FallBackGet
  split
  · next r => exact hdelegate r (.inl rfl)
  · next r => exact hdelegate r (.inr rfl)
  · rfl
  · rfl

theorem FallBackSet_isSome {host : Host}
    {set : Store → Object → Object → Object → Option (Bool × Store)} {self : Object}
    (key val : Object)
    (hset : ∀ r d, self = .table r → s.delegate r = some d →
      (set s (.table d) key val).isSome) : (FallBackSet host set s self key val).isSome := by
  unfold FallBackSet
  split
  · next r =>
      cases hd : s.delegate r with
      | none => rfl
      | some d =>
          obtain ⟨⟨ok, s'⟩, heq⟩ := Option.isSome_iff_exists.mp (hset r d rfl hd)
          cases ok <;> simp [heq]
  · rfl
  · rfl
  · rfl

/-- `Get` comes back when what it falls back on does. -/
theorem Get_succ_isSome {host : Host} {fuel : Nat} {self : Object} (key : Object)
    (h : (FallBackGet host (Get host fuel) s self key).isSome) :
    (Get host (fuel + 1) s self key).isSome := by
  rw [Get]
  cases ownGet host s self key with
  | found v => rfl
  | fail => rfl
  | missing =>
      obtain ⟨⟨fallBack, s'⟩, heq⟩ := Option.isSome_iff_exists.mp h
      cases fallBack <;> simp [heq]

theorem Set_succ_isSome {host : Host} {fuel : Nat} {self : Object} (key val : Object)
    (h : (FallBackSet host (Set host fuel) (ownSet host s self key val).2 self key val).isSome) :
    (Set host (fuel + 1) s self key val).isSome := by
  rw [Set]
  generalize ownSet host s self key val = out at h
  obtain ⟨own, s'⟩ := out
  cases own with
  | found v => rfl
  | fail => rfl
  | missing =>
      obtain ⟨⟨fallBack, s''⟩, heq⟩ := Option.isSome_iff_exists.mp h
      cases fallBack <;> simp [heq]

/-- Where a chain ends within the fuel, so does `Get` along it. -/
theorem Get_table_isSome (host : Host) {fuel : Nat} {r : Ref} (key : Object)
    (h : (search s.delegate (fun _ => false) fuel r).isSome) :
    (Get host fuel s (.table r) key).isSome := by
  induction fuel generalizing r with
  | zero => cases h
  | succ fuel ih =>
      apply Get_succ_isSome
      apply FallBackGet_isSome
      intro r' d hr' hd
      obtain rfl : r = r' := by simpa using hr'
      apply ih
      rw [search, if_neg (by simp), hd] at h
      exact h

theorem Set_table_isSome (host : Host) {fuel : Nat} {r : Ref} (key val : Object)
    (h : (search s.delegate (fun _ => false) fuel r).isSome) :
    (Set host fuel s (.table r) key val).isSome := by
  induction fuel generalizing r s with
  | zero => cases h
  | succ fuel ih =>
      have hdelegate : (ownSet host s (.table r) key val).2.delegate = s.delegate := by
        simp only [ownSet]
        split
        · exact delegate_setSlot s r key val
        · rfl
      apply Set_succ_isSome
      apply FallBackSet_isSome
      intro r' d hr' hd
      obtain rfl : r = r' := by simpa using hr'
      apply ih
      rw [hdelegate] at hd ⊢
      rw [search, if_neg (by simp), hd] at h
      exact h

/-- The walk from any address ends. -/
theorem Store.WellFounded.search_isSome (h : s.WellFounded) (r : Ref) :
    (search s.delegate (fun _ => false) (s.size + 1) r).isSome := by
  rw [search, if_neg (by simp)]
  cases hd : s.delegate r with
  | none => rfl
  | some d =>
      apply search_terminates _ h.acyclic (Finset.mem_range.mpr (h.closed r d hd).2)
      · intro a _ b hab
        exact Finset.mem_range.mpr (h.closed a b hab).2
      · simp

/-- In every state a machine can come to, no object delegates to itself over any number of others;
what is done to delegates next comes back, so the walk of `SetDelegate` ends; and so do
`Get` and `Set` of any value, which follow delegates. -/
theorem delegation_acyclic (h : Reachable s) :
    (∀ r, ¬ Relation.TransGen (fun a b => s.delegate a = some b) r r) ∧
      (∀ a : Action, a.Valid s → ∃ s', s.act a = some s') ∧
      ∀ host self key val, (Get host (s.size + 2) s self key).isSome ∧
        (Set host (s.size + 2) s self key val).isSome := by
  have hs := h.wellFounded
  refine ⟨?_, ?_, ?_⟩
  · intro r hr
    obtain ⟨d, hd, hreach⟩ := Relation.TransGen.head'_iff.mp hr
    exact hs.acyclic.not_reach_self hd hreach
  · intro a ha
    obtain ⟨s', heq, -⟩ := hs.act_eq ha
    exact ⟨s', heq⟩
  · intro host self key val
    constructor
    · apply Get_succ_isSome
      apply FallBackGet_isSome
      intro _ d _ _
      exact Get_table_isSome host key (hs.search_isSome d)
    · apply Set_succ_isSome
      apply FallBackSet_isSome
      intro r d hr hd
      -- `Set` of a table changes no delegate before it falls back
      subst hr
      have hdelegate : (ownSet host s (.table r) key val).2.delegate = s.delegate := by
        simp only [ownSet]
        split
        · exact delegate_setSlot s r key val
        · rfl
      apply Set_table_isSome
      rw [hdelegate]
      exact hs.search_isSome d

/-- A second table that delegates to the root table. -/
theorem delegation_acyclic_two :
    ∃ s, ((Store.init.create { kind := .table }).GS_setdelegate (.table 1) (.table 0)).map (·.2) =
        some s ∧
      ∀ r, ¬ Relation.TransGen (fun a b => s.delegate a = some b) r r := by
  have hnew : Reachable (Store.init.create { kind := .table }) :=
    Reachable.init.act (a := .newTable) trivial rfl
  have hvalid : (Action.setDelegate (.table 1) (.table 0)).Valid
      (Store.init.create { kind := .table }) :=
    ⟨⟨by decide, rfl⟩, by decide, rfl⟩
  refine ⟨_, rfl, (delegation_acyclic (hnew.act hvalid rfl)).1⟩

end GameScript.Delegation
