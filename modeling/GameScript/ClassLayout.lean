import Mathlib.Data.List.Nodup
import GameScript.Object

/-!
Classes and instances (`GSclass.cpp`, `GSclass.h`). The member table of a class maps a name to an
index packed with its kind: into the methods of the class, or into its default values and
the values of each instance. The table is the finite map a `GSTable` is, with its number
of keys.

An access gives `none` where the source would index past the end of a vector.
-/

namespace GameScript.ClassLayout

/-! ### Member indices -/

def MEMBER_TYPE_METHOD : Nat := 0x01000000
def MEMBER_TYPE_FIELD : Nat := 0x02000000
def MEMBER_MAX_COUNT : Nat := 0x00FFFFFF

def _ismethod (o : Nat) : Bool := o &&& MEMBER_TYPE_METHOD ≠ 0
def _isfield (o : Nat) : Bool := o &&& MEMBER_TYPE_FIELD ≠ 0
def _make_method_idx (i : Nat) : Nat := MEMBER_TYPE_METHOD ||| i
def _make_field_idx (i : Nat) : Nat := MEMBER_TYPE_FIELD ||| i
def _member_idx (o : Nat) : Nat := o &&& 0x00FFFFFF

/-! ### Classes -/

/-- `GSClassMember`. -/
structure ClassMember where
  val : Object
  attrs : Object := .null

/-- `GSClass`. -/
structure GSClass where
  base : Option Ref
  members : List (Object × Nat)
  defaultvalues : List ClassMember
  methods : List ClassMember
  /-- `_metamethods`, by the name of the metamethod. -/
  metamethods : List UInt8 → Object
  locked : Bool
  /-- `_constructoridx`; -1 is `none`. -/
  constructoridx : Option Nat

/-- The names `GetMetaMethodIdxByName` knows. -/
def metaMethodNames : List String :=
  ["_add", "_sub", "_mul", "_div", "_unm", "_modulo", "_set", "_get", "_typeof", "_nexti", "_cmp",
    "_call", "_cloned", "_newslot", "_delslot", "_tostring", "_newmember", "_inherited"]

/-- The name of a metamethod, when `key` is one. -/
def metaMethodName (key : Object) : Option (List UInt8) :=
  match key with
  | .string s => if s ∈ metaMethodNames.map sc then some s else none
  | _ => none

/-- `_members->Get` of a name. -/
def getMember (members : List (Object × Nat)) (key : Object) : Option Nat := members.lookup key

/-- `_members->NewSlot`. -/
def newMember (members : List (Object × Nat)) (key : Object) (idx : Nat) : List (Object × Nat) :=
  if (members.lookup key).isSome then members.map fun m => if m.1 = key then (key, idx) else m
  else members ++ [(key, idx)]

/-- `v[i].val = val`. -/
def setVal (v : List ClassMember) (i : Nat) (val : Object) : Option (List ClassMember) :=
  v[i]?.map fun m => v.set i { m with val := val }

/-- `v[i].attrs = attrs`. -/
def setAttrs (v : List ClassMember) (i : Nat) (attrs : Object) : Option (List ClassMember) :=
  v[i]?.map fun m => v.set i { m with attrs := attrs }

def isClosure (val : Object) : Bool := val.type = .closure || val.type = .nativeclosure

namespace GSClass

/-- The constructor. -/
def create (base : Option (Ref × GSClass)) : GSClass :=
  match base with
  | some (r, b) =>
      { base := some r, members := b.members, defaultvalues := b.defaultvalues, methods := b.methods,
        metamethods := b.metamethods, locked := false, constructoridx := b.constructoridx }
  | none =>
      { base := none, members := [], defaultvalues := [], methods := [],
        metamethods := fun _ => .null, locked := false, constructoridx := none }

/-- `_members->CountUsed()`. -/
def countUsed (c : GSClass) : Nat := c.members.length

/-- `NewSlot`. `cloned` is the closure `val`, cloned for a base. -/
def newSlot (c : GSClass) (cloned : Object → Object) (key val : Object) (bstatic : Bool) :
    Option (GSClass × Bool) :=
  let belongs_to_static_table := isClosure val || bstatic
  if c.locked && !belongs_to_static_table then some (c, false)
  else
    let temp := getMember c.members key
    match temp.filter _isfield with
    | some n => do
        let defaultvalues ← setVal c.defaultvalues (_member_idx n) val
        return ({ c with defaultvalues := defaultvalues }, true)
    | none =>
        if c.countUsed ≥ MEMBER_MAX_COUNT then some (c, false)
        else if belongs_to_static_table then
          match if isClosure val then metaMethodName key else none with
          | some mm => some ({ c with metamethods := Function.update c.metamethods mm val }, true)
          | none =>
              let theval := if c.base.isSome && val.type = .closure then cloned val else val
              match temp with
              | none =>
                  let isconstructor := key = .string (sc "constructor")
                  some ({ c with
                    constructoridx := if isconstructor then some c.methods.length
                      else c.constructoridx
                    members := newMember c.members key (_make_method_idx c.methods.length)
                    methods := c.methods ++ [{ val := theval }] }, true)
              | some n => do
                  let methods ← setVal c.methods (_member_idx n) theval
                  return ({ c with methods := methods }, true)
        else
          some ({ c with
            members := newMember c.members key (_make_field_idx c.defaultvalues.length)
            defaultvalues := c.defaultvalues ++ [{ val := val }] }, true)

/-- `Get`. `realval` is `_realval`. -/
def get (c : GSClass) (realval : Object → Object) (key : Object) : Option (Option Object) :=
  match getMember c.members key with
  | some n =>
      if _isfield n then do
        let m ← c.defaultvalues[_member_idx n]?
        return some (realval m.val)
      else do
        let m ← c.methods[_member_idx n]?
        return some m.val
  | none => some none

/-- `GetConstructor`. -/
def getConstructor (c : GSClass) : Option (Option Object) :=
  match c.constructoridx with
  | some i => do
      let m ← c.methods[i]?
      return some m.val
  | none => some none

/-- `SetAttributes`. -/
def setAttributes (c : GSClass) (key val : Object) : Option (GSClass × Bool) :=
  match getMember c.members key with
  | some n =>
      if _isfield n then do
        let defaultvalues ← setAttrs c.defaultvalues (_member_idx n) val
        return ({ c with defaultvalues := defaultvalues }, true)
      else do
        let methods ← setAttrs c.methods (_member_idx n) val
        return ({ c with methods := methods }, true)
  | none => some (c, false)

/-- `GetAttributes`. -/
def getAttributes (c : GSClass) (key : Object) : Option (Option Object) :=
  match getMember c.members key with
  | some n => do
      let m ← if _isfield n then c.defaultvalues[_member_idx n]? else c.methods[_member_idx n]?
      return some m.attrs
  | none => some none

/-- `Next`, at the entry `i` of the member table. -/
def next (c : GSClass) (realval : Object → Object) (i : Nat) :
    Option (Option (Object × Object)) :=
  match c.members[i]? with
  | some (key, n) =>
      if _ismethod n then do
        let m ← c.methods[_member_idx n]?
        return some (key, m.val)
      else do
        let m ← c.defaultvalues[_member_idx n]?
        return some (key, realval m.val)
  | none => some none

end GSClass

/-! ### Instances -/

/-- `GSInstance`. -/
structure GSInstance where
  cls : Ref
  values : List Object

/-- The classes and instances of a machine by address; those from `classes` and `instances` on
are in no use. -/
structure World where
  cls : Ref → GSClass
  classes : Nat
  inst : Ref → GSInstance
  instances : Nat

namespace World

variable (w : World)

def setClass (r : Ref) (c : GSClass) : World := { w with cls := Function.update w.cls r c }

def setInstance (r : Ref) (i : GSInstance) : World := { w with inst := Function.update w.inst r i }

/-- `GSClass::Create`. -/
def createClass (base : Option Ref) : World :=
  { w.setClass w.classes (GSClass.create (base.map fun r => (r, w.cls r))) with
    classes := w.classes + 1 }

/-- `Lock`, up the bases. -/
def lock : Nat → Ref → World → Option World
  | 0, _, _ => none
  | fuel + 1, r, w =>
      let w := w.setClass r { w.cls r with locked := true }
      match (w.cls r).base with
      | some b => lock fuel b w
      | none => some w

/-- `CreateInstance`: the values are the default values. -/
def createInstance (r : Ref) : Option World := do
  let w ← (if (w.cls r).locked then some w else w.lock w.classes r)
  let i : GSInstance := { cls := r, values := (w.cls r).defaultvalues.map (·.val) }
  return { w.setInstance w.instances i with instances := w.instances + 1 }

/-- `GSInstance::Clone`: as many values as the class has default values. -/
def cloneInstance (r : Ref) : Option World := do
  let i := w.inst r
  let nvalues := (w.cls i.cls).defaultvalues.length
  let values ← (List.range nvalues).mapM fun n => i.values[n]?
  return { w.setInstance w.instances { i with values := values } with instances := w.instances + 1 }

/-- `GSInstance::Get`. -/
def instanceGet (realval : Object → Object) (r : Ref) (key : Object) : Option (Option Object) :=
  let i := w.inst r
  let c := w.cls i.cls
  match getMember c.members key with
  | some n =>
      if _isfield n then do
        let v ← i.values[_member_idx n]?
        return some (realval v)
      else do
        let m ← c.methods[_member_idx n]?
        return some m.val
  | none => some none

/-- `GSInstance::Set`. -/
def instanceSet (r : Ref) (key val : Object) : Option (World × Bool) :=
  let i := w.inst r
  match (getMember (w.cls i.cls).members key).filter _isfield with
  | some n => do
      let _ ← i.values[_member_idx n]?
      return (w.setInstance r { i with values := i.values.set (_member_idx n) val }, true)
  | none => some (w, false)

/-- `NewSlotA`, and `NewSlot` of a class, without metamethods. -/
def newSlotA (cloned : Object → Object) (r : Ref) (key val attrs : Object) (bstatic : Bool) :
    Option (World × Bool) :=
  if key = .null then some (w, false)
  else do
    let (c, ok) ← (w.cls r).newSlot cloned key val bstatic
    let w := w.setClass r c
    if !ok then return (w, false)
    else if attrs = .null then return (w, true)
    else
      let (c, _) ← (w.cls r).setAttributes key attrs
      return (w.setClass r c, true)

end World

/-! ### Runs -/

/-- What is done to the classes and instances of a machine. -/
inductive Op where
  | createClass (base : Option Ref)
  | newSlot (cloned : Object → Object) (r : Ref) (key val attrs : Object) (bstatic : Bool)
  | setAttributes (r : Ref) (key val : Object)
  | createInstance (r : Ref)
  | cloneInstance (r : Ref)
  | instanceSet (r : Ref) (key val : Object)

def World.step (w : World) : Op → Option World
  | .createClass base => some (w.createClass base)
  | .newSlot cloned r key val attrs bstatic => (w.newSlotA cloned r key val attrs bstatic).map (·.1)
  | .setAttributes r key val =>
      ((w.cls r).setAttributes key val).map fun (c, _) => w.setClass r c
  | .createInstance r => w.createInstance r
  | .cloneInstance r => w.cloneInstance r
  | .instanceSet r key val => (w.instanceSet r key val).map (·.1)

/-- An operation is about a class or an instance there is. -/
def Op.Valid (w : World) : Op → Prop
  | .createClass base => ∀ r ∈ base, r < w.classes
  | .newSlot _ r _ _ _ _ | .setAttributes r _ _ | .createInstance r => r < w.classes
  | .cloneInstance r | .instanceSet r _ _ => r < w.instances

/-- No classes yet. -/
def World.init : World where
  cls _ := GSClass.create none
  classes := 0
  inst _ := { cls := 0, values := [] }
  instances := 0

/-- The states a machine can come to. -/
inductive Reachable : World → Prop
  | init : Reachable World.init
  | step {w w' : World} {o : Op} : Reachable w → o.Valid w → w.step o = some w' → Reachable w'

/-! ### Packing -/

/-- Indices that leave the kind bits alone. -/
theorem and_two_pow_of_lt {i k : Nat} (hk : 24 ≤ k) (hi : i ≤ MEMBER_MAX_COUNT) :
    i &&& 2 ^ k = 0 := by
  have hlt : i < 2 ^ k := by
    have h24 : 2 ^ 24 ≤ 2 ^ k := Nat.pow_le_pow_right (by decide) hk
    simp only [MEMBER_MAX_COUNT] at hi
    omega
  apply Nat.eq_of_testBit_eq
  intro j
  rw [Nat.testBit_and, Nat.testBit_two_pow, Nat.zero_testBit]
  by_cases hj : k = j
  · subst hj
    rw [Nat.testBit_lt_two_pow hlt, Bool.false_and]
  · simp [hj]

theorem isfield_make_field {i : Nat} (hi : i ≤ MEMBER_MAX_COUNT) : _isfield (_make_field_idx i) := by
  have hand : i &&& MEMBER_TYPE_FIELD = 0 := and_two_pow_of_lt (by decide : 24 ≤ 25) hi
  simp only [_isfield, _make_field_idx, Nat.and_or_distrib_right, hand]
  decide

theorem isfield_make_method {i : Nat} (hi : i ≤ MEMBER_MAX_COUNT) :
    _isfield (_make_method_idx i) = false := by
  have hand : i &&& MEMBER_TYPE_FIELD = 0 := and_two_pow_of_lt (by decide : 24 ≤ 25) hi
  simp only [_isfield, _make_method_idx, Nat.and_or_distrib_right, hand]
  decide

theorem ismethod_make_method {i : Nat} (hi : i ≤ MEMBER_MAX_COUNT) :
    _ismethod (_make_method_idx i) := by
  have hand : i &&& MEMBER_TYPE_METHOD = 0 := and_two_pow_of_lt (by decide : 24 ≤ 24) hi
  simp only [_ismethod, _make_method_idx, Nat.and_or_distrib_right, hand]
  decide

theorem ismethod_make_field {i : Nat} (hi : i ≤ MEMBER_MAX_COUNT) :
    _ismethod (_make_field_idx i) = false := by
  have hand : i &&& MEMBER_TYPE_METHOD = 0 := and_two_pow_of_lt (by decide : 24 ≤ 24) hi
  simp only [_ismethod, _make_field_idx, Nat.and_or_distrib_right, hand]
  decide

theorem and_mask_of_le {i : Nat} (hi : i ≤ MEMBER_MAX_COUNT) : i &&& 0x00FFFFFF = i := by
  have hmod : i &&& (2 ^ 24 - 1) = i % 2 ^ 24 := Nat.and_two_pow_sub_one_eq_mod i 24
  have hlt : i % 2 ^ 24 = i := by
    apply Nat.mod_eq_of_lt
    simp only [MEMBER_MAX_COUNT] at hi
    omega
  exact hmod.trans hlt

theorem idx_make_field {i : Nat} (hi : i ≤ MEMBER_MAX_COUNT) :
    _member_idx (_make_field_idx i) = i := by
  have hzero : MEMBER_TYPE_FIELD &&& 0x00FFFFFF = 0 := by decide
  rw [_member_idx, _make_field_idx, Nat.and_or_distrib_right, and_mask_of_le hi, hzero,
    Nat.zero_or]

theorem idx_make_method {i : Nat} (hi : i ≤ MEMBER_MAX_COUNT) :
    _member_idx (_make_method_idx i) = i := by
  have hzero : MEMBER_TYPE_METHOD &&& 0x00FFFFFF = 0 := by decide
  rw [_member_idx, _make_method_idx, Nat.and_or_distrib_right, and_mask_of_le hi, hzero,
    Nat.zero_or]

/-! ### The member table -/

variable {members : List (Object × Nat)} {key : Object} {n idx : Nat}

/-- Entries differ in name and index. -/
def Distinct (members : List (Object × Nat)) : Prop :=
  members.Pairwise fun m m' => m.1 ≠ m'.1 ∧ m.2 ≠ m'.2

theorem mem_of_getMember (h : getMember members key = some n) : (key, n) ∈ members := by
  induction members with
  | nil => cases h
  | cons m members ih =>
      obtain ⟨k, i⟩ := m
      simp only [getMember, List.lookup_cons] at h ih
      by_cases hk : key = k
      · subst hk
        simp only [BEq.rfl, Option.some.injEq] at h
        rw [h]
        exact List.mem_cons_self
      · have hne : (key == k) = false := by simpa using hk
        rw [hne] at h
        exact List.mem_cons_of_mem _ (ih h)

theorem not_mem_of_getMember (h : getMember members key = none) (i : Nat) :
    (key, i) ∉ members := by
  intro hmem
  have hnone := List.lookup_eq_none_iff.mp h (key, i) hmem
  simp at hnone

/-- A name gets a new index. -/
theorem distinct_newMember (h : Distinct members) (hfresh : ∀ m ∈ members, m.2 ≠ idx) :
    Distinct (newMember members key idx) := by
  rw [newMember]
  split
  · apply List.pairwise_map.mpr
    apply h.imp_of_mem
    intro m m' hm hm' hne
    by_cases hmk : m.1 = key <;> by_cases hmk' : m'.1 = key
    · exact absurd (hmk.trans hmk'.symm) hne.1
    · rw [if_pos hmk, if_neg hmk']
      exact ⟨fun heq => hmk' heq.symm, fun heq => hfresh m' hm' heq.symm⟩
    · rw [if_neg hmk, if_pos hmk']
      exact ⟨hmk, hfresh m hm⟩
    · rw [if_neg hmk, if_neg hmk']
      exact hne
  · next hnone =>
      apply List.pairwise_append.mpr ⟨h, List.pairwise_singleton _ _, _⟩
      intro m hm m' hm'
      obtain rfl := List.mem_singleton.mp hm'
      refine ⟨?_, hfresh m hm⟩
      rintro rfl
      have hlookup : getMember members m.1 = none := Option.not_isSome_iff_eq_none.mp hnone
      exact not_mem_of_getMember hlookup m.2 hm

theorem mem_newMember {m : Object × Nat} (hm : m ∈ newMember members key idx) :
    m = (key, idx) ∨ m ∈ members := by
  rw [newMember] at hm
  split at hm
  · obtain ⟨m', hm', rfl⟩ := List.mem_map.mp hm
    split
    · exact .inl rfl
    · exact .inr hm'
  · rcases List.mem_append.mp hm with hm | hm
    · exact .inr hm
    · exact .inl (List.mem_singleton.mp hm)

theorem length_newMember_of_none (h : getMember members key = none) :
    newMember members key idx = members ++ [(key, idx)] := by
  rw [newMember, if_neg]
  exact Option.not_isSome_iff_eq_none.mpr h

/-- The fields of a member table. -/
def countFields (members : List (Object × Nat)) : Nat := members.countP fun m => _isfield m.2

/-- Making a method's name a field's makes one field more. -/
theorem countFields_replace (h : Distinct members) (hn : (key, n) ∈ members)
    (hmethod : _isfield n = false) (hidx : _isfield idx) :
    countFields (members.map fun m => if m.1 = key then (key, idx) else m) =
      countFields members + 1 := by
  induction members with
  | nil => cases hn
  | cons m members ih =>
      obtain ⟨hm, htail⟩ := List.pairwise_cons.mp h
      rw [List.map_cons, countFields, countFields, List.countP_cons, List.countP_cons]
      rcases List.mem_cons.mp hn with rfl | hn
      · -- the other names are kept
        have hkeep : (members.map fun m => if m.1 = key then (key, idx) else m) = members := by
          have hsame : ∀ m' ∈ members, (if m'.1 = key then (key, idx) else m') = m' := by
            intro m' hm'
            rw [if_neg]
            intro heq
            exact (hm m' hm').1 heq.symm
          exact (List.map_congr_left hsame).trans (List.map_id' members)
        rw [hkeep, if_pos rfl]
        simp [hidx, hmethod]
      · have hne : m.1 ≠ key := (hm _ hn).1
        have htail' := ih htail hn
        rw [countFields, countFields] at htail'
        rw [if_neg hne, htail']
        omega

/-! ### The layout of a class -/

/-- Each name stands for a default value or a method there is, and no two for one. There are
as many default values as names of fields, so the indices leave the kind bits alone. -/
structure Laid (c : GSClass) : Prop where
  member : ∀ m ∈ c.members, (∃ i < c.defaultvalues.length, m.2 = _make_field_idx i) ∨
    ∃ i < c.methods.length, m.2 = _make_method_idx i
  distinct : Distinct c.members
  fields : countFields c.members = c.defaultvalues.length
  methods_le : c.methods.length ≤ c.members.length
  members_le : c.members.length ≤ MEMBER_MAX_COUNT
  ctor : ∀ i, c.constructoridx = some i → i < c.methods.length

variable {c : GSClass}

theorem Laid.defaultvalues_le (h : Laid c) : c.defaultvalues.length ≤ c.members.length := by
  rw [← h.fields]
  exact List.countP_le_length

/-- The name of a field has an index below the number of default values. -/
theorem Laid.field (h : Laid c) (hn : getMember c.members key = some n) (hfield : _isfield n) :
    _member_idx n < c.defaultvalues.length := by
  have hmax := Nat.le_trans h.methods_le h.members_le
  have hmax' := Nat.le_trans h.defaultvalues_le h.members_le
  rcases h.member _ (mem_of_getMember hn) with ⟨i, hi, rfl⟩ | ⟨i, hi, rfl⟩
  · rw [idx_make_field (by omega)]
    exact hi
  · rw [isfield_make_method (by omega)] at hfield
    cases hfield

/-- The name of a method has an index below the number of methods. -/
theorem Laid.method (h : Laid c) (hn : getMember c.members key = some n)
    (hmethod : _isfield n = false) : _member_idx n < c.methods.length := by
  have hmax := Nat.le_trans h.methods_le h.members_le
  have hmax' := Nat.le_trans h.defaultvalues_le h.members_le
  rcases h.member _ (mem_of_getMember hn) with ⟨i, hi, rfl⟩ | ⟨i, hi, rfl⟩
  · rw [isfield_make_field (by omega)] at hmethod
    cases hmethod
  · rw [idx_make_method (by omega)]
    exact hi

/-- No name stands for the next default value. -/
theorem Laid.fresh_field (h : Laid c) (hroom : c.members.length < MEMBER_MAX_COUNT) :
    ∀ m ∈ c.members, m.2 ≠ _make_field_idx c.defaultvalues.length := by
  intro m hm heq
  have hmethods := h.methods_le
  have hdefaults := h.defaultvalues_le
  rcases h.member m hm with ⟨i, hi, hm'⟩ | ⟨i, hi, hm'⟩
  · have hidx := congrArg _member_idx (hm'.symm.trans heq)
    rw [idx_make_field (by omega), idx_make_field (by omega)] at hidx
    omega
  · have hkind := congrArg _isfield (hm'.symm.trans heq)
    rw [isfield_make_method (by omega), isfield_make_field (by omega)] at hkind
    cases hkind

/-- No name stands for the next method. -/
theorem Laid.fresh_method (h : Laid c) (hroom : c.members.length < MEMBER_MAX_COUNT) :
    ∀ m ∈ c.members, m.2 ≠ _make_method_idx c.methods.length := by
  intro m hm heq
  have hmethods := h.methods_le
  have hdefaults := h.defaultvalues_le
  rcases h.member m hm with ⟨i, hi, hm'⟩ | ⟨i, hi, hm'⟩
  · have hkind := congrArg _isfield (hm'.symm.trans heq)
    rw [isfield_make_field (by omega), isfield_make_method (by omega)] at hkind
    cases hkind
  · have hidx := congrArg _member_idx (hm'.symm.trans heq)
    rw [idx_make_method (by omega), idx_make_method (by omega)] at hidx
    omega

/-- The layout is a matter of the names and of how many members there are. -/
theorem Laid.congr {c' : GSClass} (h : Laid c) (hmembers : c'.members = c.members)
    (hdefaults : c'.defaultvalues.length = c.defaultvalues.length)
    (hmethods : c'.methods.length = c.methods.length)
    (hctor : c'.constructoridx = c.constructoridx) : Laid c' := by
  constructor
  · rw [hmembers, hdefaults, hmethods]
    exact h.member
  · rw [hmembers]
    exact h.distinct
  · rw [hmembers, hdefaults]
    exact h.fields
  · rw [hmethods, hmembers]
    exact h.methods_le
  · rw [hmembers]
    exact h.members_le
  · rw [hctor, hmethods]
    exact h.ctor

theorem setVal_eq {v : List ClassMember} {i : Nat} (hi : i < v.length) (val : Object) :
    ∃ v', setVal v i val = some v' ∧ v'.length = v.length := by
  refine ⟨v.set i { v[i] with val := val }, ?_, List.length_set⟩
  simp [setVal, hi]

theorem setAttrs_eq {v : List ClassMember} {i : Nat} (hi : i < v.length) (attrs : Object) :
    ∃ v', setAttrs v i attrs = some v' ∧ v'.length = v.length := by
  refine ⟨v.set i { v[i] with attrs := attrs }, ?_, List.length_set⟩
  simp [setAttrs, hi]

/-- What an operation on a class keeps: the layout, the base, and the number of default values
once the class is locked. -/
structure Kept (c c' : GSClass) : Prop where
  laid : Laid c'
  base : c'.base = c.base
  locked : c'.locked = c.locked
  size : c.locked → c'.defaultvalues.length = c.defaultvalues.length

/-- A new method. -/
theorem Laid.newMethod (h : Laid c) (hnone : getMember c.members key = none)
    (hroom : c.members.length < MEMBER_MAX_COUNT) (m : ClassMember) (ctor : Option Nat)
    (hctor : ctor = some c.methods.length ∨ ctor = c.constructoridx) :
    Laid { c with
      constructoridx := ctor
      members := newMember c.members key (_make_method_idx c.methods.length)
      methods := c.methods ++ [m] } := by
  have hmethods := h.methods_le
  have hnew : newMember c.members key (_make_method_idx c.methods.length) = _ :=
    length_newMember_of_none hnone
  constructor
  · intro m' hm'
    rcases mem_newMember hm' with rfl | hm'
    · right
      exact ⟨c.methods.length, by simp, rfl⟩
    · rcases h.member m' hm' with ⟨i, hi, heq⟩ | ⟨i, hi, heq⟩
      · exact .inl ⟨i, hi, heq⟩
      · right
        exact ⟨i, by simp; omega, heq⟩
  · exact distinct_newMember h.distinct (h.fresh_method hroom)
  · have hfields := h.fields
    simp only [hnew, countFields, List.countP_append] at hfields ⊢
    have hkind := isfield_make_method (i := c.methods.length) (by omega)
    simp [hkind, hfields]
  · simp only [hnew, List.length_append, List.length_singleton]
    omega
  · simp only [hnew, List.length_append, List.length_singleton]
    omega
  · intro i hi
    simp only [List.length_append, List.length_singleton]
    rcases hctor with hc | hc
    · have heq : i = c.methods.length := Option.some.inj (hi.symm.trans hc)
      omega
    · have hlt := h.ctor i (hc.symm.trans hi)
      omega

/-- A new field, which may take the name of a method. -/
theorem Laid.newField (h : Laid c)
    (hmethod : ∀ n, getMember c.members key = some n → _isfield n = false)
    (hroom : c.members.length < MEMBER_MAX_COUNT) (m : ClassMember) :
    Laid { c with
      members := newMember c.members key (_make_field_idx c.defaultvalues.length)
      defaultvalues := c.defaultvalues ++ [m] } := by
  have hmethods := h.methods_le
  have hdefaults := h.defaultvalues_le
  have hkind := isfield_make_field (i := c.defaultvalues.length) (by omega)
  have hlen : c.members.length ≤
      (newMember c.members key (_make_field_idx c.defaultvalues.length)).length ∧
      (newMember c.members key (_make_field_idx c.defaultvalues.length)).length ≤
        c.members.length + 1 := by
    rw [newMember]
    split <;> simp
  constructor
  · intro m' hm'
    rcases mem_newMember hm' with rfl | hm'
    · left
      exact ⟨c.defaultvalues.length, by simp, rfl⟩
    · rcases h.member m' hm' with ⟨i, hi, heq⟩ | ⟨i, hi, heq⟩
      · left
        exact ⟨i, by simp; omega, heq⟩
      · exact .inr ⟨i, hi, heq⟩
  · exact distinct_newMember h.distinct (h.fresh_field hroom)
  · simp only [List.length_append, List.length_singleton, ← h.fields]
    cases hn : getMember c.members key with
    | none =>
        rw [length_newMember_of_none hn]
        simp only [countFields, List.countP_append]
        rw [h.fields.symm] at hkind
        simpa [countFields] using hkind
    | some n =>
        have hsome : (c.members.lookup key).isSome := Option.isSome_iff_exists.mpr ⟨n, hn⟩
        rw [newMember, if_pos hsome]
        apply countFields_replace h.distinct (mem_of_getMember hn) (hmethod n hn)
        rw [h.fields]
        exact hkind
  · exact Nat.le_trans hmethods hlen.1
  · exact Nat.le_trans hlen.2 hroom
  · exact h.ctor

/-- `NewSlot` indexes within bounds and keeps the layout. -/
theorem Laid.newSlot_eq (h : Laid c) (cloned : Object → Object) (key val : Object)
    (bstatic : Bool) : ∃ c' ok, c.newSlot cloned key val bstatic = some (c', ok) ∧ Kept c c' := by
  have hrefl : Kept c c := ⟨h, rfl, rfl, fun _ => rfl⟩
  simp only [GSClass.newSlot]
  split
  · exact ⟨c, false, rfl, hrefl⟩
  · next hopen =>
      split
      · next n hn =>
          -- the default value of a field is overridden
          obtain ⟨hmem, hfield⟩ := Option.filter_eq_some_iff.mp hn
          obtain ⟨v', hv', hlen⟩ := setVal_eq (h.field hmem hfield) val
          refine ⟨{ c with defaultvalues := v' }, true, by simp [hv'], ?_⟩
          exact ⟨h.congr rfl hlen rfl rfl, rfl, rfl, fun _ => hlen⟩
      · next hnone =>
          have hmethod : ∀ n, getMember c.members key = some n → _isfield n = false := by
            intro n hn
            rw [hn] at hnone
            simpa using hnone
          split
          · exact ⟨c, false, rfl, hrefl⟩
          · next hroom =>
              have hroom' : c.members.length < MEMBER_MAX_COUNT := Nat.lt_of_not_le hroom
              split
              · split
                · exact ⟨_, true, rfl, h.congr rfl rfl rfl rfl, rfl, rfl, fun _ => rfl⟩
                · split
                  · next hn =>
                      refine ⟨_, true, rfl, h.newMethod hn hroom' _ _ ?_, rfl, rfl, fun _ => rfl⟩
                      split
                      · exact .inl rfl
                      · exact .inr rfl
                  · next n hn =>
                      generalize hthe : (if c.base.isSome && val.type = .closure then cloned val
                        else val) = theval
                      obtain ⟨v', hv', hlen⟩ := setVal_eq (h.method hn (hmethod n hn)) theval
                      refine ⟨{ c with methods := v' }, true, by simp [hv'], ?_⟩
                      exact ⟨h.congr rfl rfl hlen rfl, rfl, rfl, fun _ => rfl⟩
              · next hfield =>
                  refine ⟨_, true, rfl, h.newField hmethod hroom' _, rfl, rfl, ?_⟩
                  intro hlocked
                  simp [hlocked, hfield] at hopen

/-- `SetAttributes` indexes within bounds. -/
theorem Laid.setAttributes_eq (h : Laid c) (key val : Object) :
    ∃ c' ok, c.setAttributes key val = some (c', ok) ∧ Kept c c' := by
  simp only [GSClass.setAttributes]
  split
  · next n hn =>
      split
      · next hfield =>
          obtain ⟨v', hv', hlen⟩ := setAttrs_eq (h.field hn hfield) val
          refine ⟨{ c with defaultvalues := v' }, true, by simp [hv'], ?_⟩
          exact ⟨h.congr rfl hlen rfl rfl, rfl, rfl, fun _ => hlen⟩
      · next hfield =>
          obtain ⟨v', hv', hlen⟩ := setAttrs_eq (h.method hn (by simpa using hfield)) val
          refine ⟨{ c with methods := v' }, true, by simp [hv'], ?_⟩
          exact ⟨h.congr rfl rfl hlen rfl, rfl, rfl, fun _ => rfl⟩
  · exact ⟨c, false, rfl, h, rfl, rfl, fun _ => rfl⟩

/-! ### Classes and instances -/

variable {w w' : World} {r : Ref} {realval : Object → Object}

/-- Every class is laid out and was made after its base; the class of an instance is locked and has
as many default values as the instance has values. -/
structure Sound (w : World) : Prop where
  laid : ∀ r < w.classes, Laid (w.cls r)
  base : ∀ r < w.classes, ∀ b, (w.cls r).base = some b → b < r
  cls : ∀ i < w.instances, (w.inst i).cls < w.classes
  locked : ∀ i < w.instances, (w.cls (w.inst i).cls).locked
  values : ∀ i < w.instances,
    (w.inst i).values.length = (w.cls (w.inst i).cls).defaultvalues.length

/-- A class changes as its operations change it. -/
theorem Sound.setClass (h : Sound w) {c : GSClass} (hc : Kept (w.cls r) c) :
    Sound (w.setClass r c) := by
  have hself : (w.setClass r c).cls r = c := by simp [World.setClass]
  have hother : ∀ r', r' ≠ r → (w.setClass r c).cls r' = w.cls r' := by
    intro r' hr'
    simp [World.setClass, hr']
  constructor
  · intro r' hr'
    by_cases heq : r' = r
    · subst heq
      rw [hself]
      exact hc.laid
    · rw [hother r' heq]
      exact h.laid r' hr'
  · intro r' hr' b hb
    by_cases heq : r' = r
    · subst heq
      rw [hself, hc.base] at hb
      exact h.base r' hr' b hb
    · rw [hother r' heq] at hb
      exact h.base r' hr' b hb
  · exact h.cls
  · intro i hi
    have hlocked := h.locked i hi
    change ((w.setClass r c).cls (w.inst i).cls).locked
    by_cases heq : (w.inst i).cls = r
    · rw [heq] at hlocked ⊢
      rw [hself, hc.locked]
      exact hlocked
    · rw [hother _ heq]
      exact hlocked
  · intro i hi
    have hlocked := h.locked i hi
    have hvalues := h.values i hi
    change (w.inst i).values.length = ((w.setClass r c).cls (w.inst i).cls).defaultvalues.length
    by_cases heq : (w.inst i).cls = r
    · rw [heq] at hlocked hvalues ⊢
      rw [hself, hc.size hlocked]
      exact hvalues
    · rw [hother _ heq]
      exact hvalues

/-- Nothing but locks has changed. -/
structure LockedFrom (w w' : World) : Prop where
  cls : ∀ r, ∃ locked, w'.cls r = { w.cls r with locked := locked } ∧
    ((w.cls r).locked → locked)
  classes : w'.classes = w.classes
  inst : w'.inst = w.inst
  instances : w'.instances = w.instances

/-- Locking a class keeps the layout. -/
theorem LockedFrom.sound (h : LockedFrom w w') (hw : Sound w) : Sound w' := by
  constructor
  · intro r hr
    obtain ⟨locked, heq, -⟩ := h.cls r
    rw [heq]
    exact (hw.laid r (h.classes ▸ hr)).congr rfl rfl rfl rfl
  · intro r hr b hb
    obtain ⟨locked, heq, -⟩ := h.cls r
    rw [heq] at hb
    exact hw.base r (h.classes ▸ hr) b hb
  · intro i hi
    rw [h.inst, h.classes]
    exact hw.cls i (h.instances ▸ hi)
  · intro i hi
    obtain ⟨locked, heq, himp⟩ := h.cls (w.inst i).cls
    rw [h.inst, heq]
    exact himp (hw.locked i (h.instances ▸ hi))
  · intro i hi
    obtain ⟨locked, heq, -⟩ := h.cls (w.inst i).cls
    rw [h.inst, heq]
    exact hw.values i (h.instances ▸ hi)

/-- `Lock` comes to the last base and changes nothing but locks. -/
theorem lock_eq {fuel : Nat} (hfuel : r < fuel)
    (hbase : ∀ r' ≤ r, ∀ b, (w.cls r').base = some b → b < r') :
    ∃ w', World.lock fuel r w = some w' ∧ LockedFrom w w' ∧ (w'.cls r).locked := by
  induction fuel generalizing r w with
  | zero => exact absurd hfuel (Nat.not_lt_zero r)
  | succ fuel ih =>
      let w₁ := w.setClass r { w.cls r with locked := true }
      have hself : w₁.cls r = { w.cls r with locked := true } := by simp [w₁, World.setClass]
      have hother : ∀ r', r' ≠ r → w₁.cls r' = w.cls r' := by
        intro r' hr'
        simp [w₁, World.setClass, hr']
      have hfrom : LockedFrom w w₁ := by
        refine ⟨?_, rfl, rfl, rfl⟩
        intro r'
        by_cases heq : r' = r
        · subst heq
          exact ⟨true, hself, fun _ => rfl⟩
        · exact ⟨_, hother r' heq, id⟩
      cases hb : (w.cls r).base with
      | none =>
          refine ⟨w₁, ?_, hfrom, by rw [hself]⟩
          have hb' : (w₁.cls r).base = none := by rw [hself]; exact hb
          rw [World.lock]
          simp only [w₁] at hb' ⊢
          rw [hb']
      | some b =>
          have hbr : b < r := hbase r (Nat.le_refl r) b hb
          have hbase₁ : ∀ r' ≤ b, ∀ b', (w₁.cls r').base = some b' → b' < r' := by
            intro r' hr' b' hb'
            have hne : r' ≠ r := Nat.ne_of_lt (Nat.lt_of_le_of_lt hr' hbr)
            rw [hother r' hne] at hb'
            exact hbase r' (Nat.le_of_lt (Nat.lt_of_le_of_lt hr' hbr)) b' hb'
          obtain ⟨w', heq, hfrom', -⟩ := ih (Nat.lt_of_lt_of_le hbr (Nat.le_of_lt_succ hfuel)) hbase₁
          refine ⟨w', ?_, ?_, ?_⟩
          · have hb' : (w₁.cls r).base = some b := by rw [hself]; exact hb
            rw [World.lock]
            simp only [w₁] at hb' heq ⊢
            rw [hb']
            exact heq
          · refine ⟨?_, hfrom'.classes, hfrom'.inst, hfrom'.instances⟩
            intro r'
            obtain ⟨locked, h₁, himp⟩ := hfrom.cls r'
            obtain ⟨locked', h₂, himp'⟩ := hfrom'.cls r'
            refine ⟨locked', ?_, ?_⟩
            · rw [h₂, h₁]
            · intro hlocked
              apply himp'
              rw [h₁]
              exact himp hlocked
          · obtain ⟨locked', h₂, himp'⟩ := hfrom'.cls r
            rw [h₂]
            apply himp'
            rw [hself]

/-- A new instance of a class that is locked, with a value for each of its default values. -/
theorem Sound.newInstance (h : Sound w) {i : GSInstance} (hcls : i.cls < w.classes)
    (hlocked : (w.cls i.cls).locked)
    (hvalues : i.values.length = (w.cls i.cls).defaultvalues.length) :
    Sound { w.setInstance w.instances i with instances := w.instances + 1 } := by
  have hcase : ∀ {P : GSInstance → Prop}, (∀ j < w.instances, P (w.inst j)) → P i →
      ∀ j < w.instances + 1, P (Function.update w.inst w.instances i j) := by
    intro P hold hnew j hj
    by_cases heq : j = w.instances
    · subst heq
      rw [Function.update_self]
      exact hnew
    · rw [Function.update_of_ne heq]
      exact hold j (Nat.lt_of_le_of_ne (Nat.le_of_lt_succ hj) heq)
  exact ⟨h.laid, h.base, hcase (P := fun x => x.cls < w.classes) h.cls hcls,
    hcase (P := fun x => (w.cls x.cls).locked) h.locked hlocked,
    hcase (P := fun x => x.values.length = (w.cls x.cls).defaultvalues.length) h.values hvalues⟩

/-- A new class takes over the layout of its base. -/
theorem Sound.createClass (h : Sound w) {base : Option Ref} (hbase : ∀ b ∈ base, b < w.classes) :
    Sound (w.createClass base) := by
  have hself : (w.createClass base).cls w.classes =
      GSClass.create (base.map fun r => (r, w.cls r)) := by
    simp [World.createClass, World.setClass]
  have hother : ∀ r, r < w.classes → (w.createClass base).cls r = w.cls r := by
    intro r hr
    simp [World.createClass, World.setClass, Nat.ne_of_lt hr]
  have hnew : Laid (GSClass.create (base.map fun r => (r, w.cls r))) := by
    cases base with
    | none =>
        refine ⟨?_, List.Pairwise.nil, rfl, Nat.le_refl 0, Nat.zero_le _, ?_⟩
        · intro m hm
          cases hm
        · intro i hi
          cases hi
    | some b => exact (h.laid b (hbase b rfl)).congr rfl rfl rfl rfl
  have hlt : ∀ r, r < w.classes + 1 → r ≠ w.classes → r < w.classes :=
    fun r hr hne => Nat.lt_of_le_of_ne (Nat.le_of_lt_succ hr) hne
  constructor
  · intro r hr
    by_cases heq : r = w.classes
    · rw [heq, hself]
      exact hnew
    · rw [hother r (hlt r hr heq)]
      exact h.laid r (hlt r hr heq)
  · intro r hr b hb
    by_cases heq : r = w.classes
    · rw [heq, hself] at hb
      cases base with
      | none => cases hb
      | some b' =>
          obtain rfl := Option.some.inj hb
          rw [heq]
          exact hbase b' rfl
    · rw [hother r (hlt r hr heq)] at hb
      exact h.base r (hlt r hr heq) b hb
  · intro i hi
    exact Nat.lt_succ_of_lt (h.cls i hi)
  · intro i hi
    change ((w.createClass base).cls (w.inst i).cls).locked
    rw [hother _ (h.cls i hi)]
    exact h.locked i hi
  · intro i hi
    change (w.inst i).values.length = ((w.createClass base).cls (w.inst i).cls).defaultvalues.length
    rw [hother _ (h.cls i hi)]
    exact h.values i hi

/-- An instance of a sound class is made, and is sound. -/
theorem Sound.createInstance_eq (h : Sound w) (hr : r < w.classes) :
    ∃ w', w.createInstance r = some w' ∧ Sound w' := by
  obtain ⟨w₁, heq, hfrom, hlocked⟩ : ∃ w₁,
      (if (w.cls r).locked then some w else w.lock w.classes r) = some w₁ ∧ LockedFrom w w₁ ∧
        (w₁.cls r).locked := by
    split
    · next hlocked =>
        exact ⟨w, rfl, ⟨fun r' => ⟨_, rfl, id⟩, rfl, rfl, rfl⟩, hlocked⟩
    · apply lock_eq hr
      intro r' hr'
      exact h.base r' (Nat.lt_of_le_of_lt hr' hr)
  have h₁ := hfrom.sound h
  refine ⟨_, by simp only [World.createInstance, heq]; rfl, h₁.newInstance ?_ hlocked ?_⟩
  · change r < w₁.classes
    rw [hfrom.classes]
    exact hr
  · simp

/-- Reading as many values as there are. -/
theorem mapM_getElem {α : Type} (v : List α) :
    (List.range v.length).mapM (fun n => v[n]?) = some v := by
  have htake : ∀ k ≤ v.length, (List.range k).mapM (fun n => v[n]?) = some (v.take k) := by
    intro k
    induction k with
    | zero =>
        intro _
        rfl
    | succ k ih =>
        intro hk
        rw [List.range_succ, List.mapM_append, ih (by omega)]
        have hget : v[k]? = some v[k] := List.getElem?_eq_getElem (by omega)
        rw [List.mapM_cons, hget, List.mapM_nil, List.take_add_one, hget]
        rfl
  have hall := htake v.length (Nat.le_refl _)
  rwa [List.take_length] at hall

theorem Sound.cloneInstance_eq (h : Sound w) (hr : r < w.instances) :
    ∃ w', w.cloneInstance r = some w' ∧ Sound w' := by
  have hvalues := h.values r hr
  have hread := mapM_getElem (w.inst r).values
  rw [hvalues] at hread
  refine ⟨_, by simp only [World.cloneInstance, hread]; rfl, ?_⟩
  exact h.newInstance (h.cls r hr) (h.locked r hr) hvalues

/-- An assignment to a member of an instance keeps the layout. -/
theorem Sound.instanceSet_eq (h : Sound w) (hr : r < w.instances) (key val : Object) :
    ∃ w' ok, w.instanceSet r key val = some (w', ok) ∧ Sound w' := by
  simp only [World.instanceSet]
  split
  · next n hn =>
      obtain ⟨hmem, hfield⟩ := Option.filter_eq_some_iff.mp hn
      have hlt := (h.laid _ (h.cls r hr)).field hmem hfield
      rw [← h.values r hr] at hlt
      have hset : ∀ j, (Function.update w.inst r
          { w.inst r with values := (w.inst r).values.set (_member_idx n) val } j).cls =
            (w.inst j).cls ∧
          (Function.update w.inst r
          { w.inst r with values := (w.inst r).values.set (_member_idx n) val } j).values.length =
            (w.inst j).values.length := by
        intro j
        by_cases hj : j = r
        · subst hj
          simp
        · simp [hj]
      let w' := w.setInstance r
        { w.inst r with values := (w.inst r).values.set (_member_idx n) val }
      refine ⟨w', true, by simp only [List.getElem?_eq_getElem hlt]; rfl, h.laid, h.base, ?_, ?_, ?_⟩
      · intro j hj
        simp only [w', World.setInstance, (hset j).1]
        exact h.cls j hj
      · intro j hj
        simp only [w', World.setInstance, (hset j).1]
        exact h.locked j hj
      · intro j hj
        simp only [w', World.setInstance, (hset j).1, (hset j).2]
        exact h.values j hj
  · exact ⟨w, false, rfl, h⟩

/-- A declared member keeps the layout, also where it is declared again. -/
theorem Sound.newSlotA_eq (h : Sound w) (hr : r < w.classes) (cloned : Object → Object)
    (key val attrs : Object) (bstatic : Bool) :
    ∃ w' ok, w.newSlotA cloned r key val attrs bstatic = some (w', ok) ∧ Sound w' := by
  simp only [World.newSlotA]
  split
  · exact ⟨w, false, rfl, h⟩
  · obtain ⟨c, ok, heq, hkept⟩ := (h.laid r hr).newSlot_eq cloned key val bstatic
    have h₁ := h.setClass hkept
    have hlaid : Laid ((w.setClass r c).cls r) := h₁.laid r hr
    obtain ⟨c', ok', heq', hkept'⟩ := hlaid.setAttributes_eq key attrs
    cases ok with
    | false => exact ⟨_, false, by simp [heq], h₁⟩
    | true =>
        by_cases hattrs : attrs = .null
        · exact ⟨_, true, by simp [heq, hattrs], h₁⟩
        · exact ⟨_, true, by simp [heq, hattrs, heq'], h₁.setClass hkept'⟩

/-- Every operation on what there is indexes within bounds. -/
theorem Sound.step_eq (h : Sound w) {o : Op} (ho : o.Valid w) :
    ∃ w', w.step o = some w' ∧ Sound w' := by
  cases o with
  | createClass base => exact ⟨_, rfl, h.createClass ho⟩
  | newSlot cloned r key val attrs bstatic =>
      obtain ⟨w', ok, heq, hw'⟩ := h.newSlotA_eq ho cloned key val attrs bstatic
      exact ⟨w', by simp [World.step, heq], hw'⟩
  | setAttributes r key val =>
      obtain ⟨c, ok, heq, hkept⟩ := (h.laid r ho).setAttributes_eq key val
      exact ⟨w.setClass r c, by simp [World.step, heq], h.setClass hkept⟩
  | createInstance r => exact h.createInstance_eq ho
  | cloneInstance r => exact h.cloneInstance_eq ho
  | instanceSet r key val =>
      obtain ⟨w', ok, heq, hw'⟩ := h.instanceSet_eq ho key val
      exact ⟨w', by simp [World.step, heq], hw'⟩

/-- **Every reachable world is sound.** -/
theorem Reachable.sound (h : Reachable w) : Sound w := by
  induction h with
  | init =>
      refine ⟨?_, ?_, ?_, ?_, ?_⟩
      all_goals
        intro r hr
        exact absurd hr (Nat.not_lt_zero r)
  | step _ ho hstep ih =>
      obtain ⟨w', heq, hw'⟩ := ih.step_eq ho
      rw [heq] at hstep
      exact Option.some.inj hstep ▸ hw'

/-- Each entry of the member table is the index of a member there is, and no two of one. -/
structure Decodes (c : GSClass) : Prop where
  field : ∀ m ∈ c.members, _isfield m.2 → _member_idx m.2 < c.defaultvalues.length
  method : ∀ m ∈ c.members, _isfield m.2 = false →
    _ismethod m.2 ∧ _member_idx m.2 < c.methods.length
  distinct : c.members.Pairwise fun m m' =>
    m.1 ≠ m'.1 ∧ (_isfield m.2 = _isfield m'.2 → _member_idx m.2 ≠ _member_idx m'.2)

/-- In a sound layout every member index leads to a slot of its kind. -/
theorem Laid.decodes (h : Laid c) : Decodes c := by
  have hmax := Nat.le_trans h.methods_le h.members_le
  have hmax' := Nat.le_trans h.defaultvalues_le h.members_le
  constructor
  · intro m hm hfield
    rcases h.member m hm with ⟨i, hi, heq⟩ | ⟨i, hi, heq⟩
    · rw [heq, idx_make_field (by omega)]
      exact hi
    · rw [heq, isfield_make_method (by omega)] at hfield
      cases hfield
  · intro m hm hmethod
    rcases h.member m hm with ⟨i, hi, heq⟩ | ⟨i, hi, heq⟩
    · rw [heq, isfield_make_field (by omega)] at hmethod
      cases hmethod
    · rw [heq, idx_make_method (by omega)]
      exact ⟨ismethod_make_method (by omega), hi⟩
  · apply h.distinct.imp_of_mem
    intro m m' hm hm' hne
    refine ⟨hne.1, ?_⟩
    intro hkind hidx
    apply hne.2
    rcases h.member m hm with ⟨i, hi, heq⟩ | ⟨i, hi, heq⟩ <;>
      rcases h.member m' hm' with ⟨j, hj, heq'⟩ | ⟨j, hj, heq'⟩
    · rw [heq, heq', idx_make_field (by omega), idx_make_field (by omega)] at hidx
      rw [heq, heq', hidx]
    · rw [heq, heq', isfield_make_field (by omega), isfield_make_method (by omega)] at hkind
      cases hkind
    · rw [heq, heq', isfield_make_field (by omega), isfield_make_method (by omega)] at hkind
      cases hkind
    · rw [heq, heq', idx_make_method (by omega), idx_make_method (by omega)] at hidx
      rw [heq, heq', hidx]

/-- Every access to a class is in bounds. -/
structure InBounds (c : GSClass) : Prop where
  get : ∀ realval key, (c.get realval key).isSome
  getConstructor : c.getConstructor.isSome
  getAttributes : ∀ key, (c.getAttributes key).isSome
  setAttributes : ∀ key val, (c.setAttributes key val).isSome
  newSlot : ∀ cloned key val bstatic, (c.newSlot cloned key val bstatic).isSome
  next : ∀ realval i, (c.next realval i).isSome

/-- In a sound layout no member index leads outside. -/
theorem Laid.inBounds (h : Laid c) : InBounds c := by
  have hd := h.decodes
  constructor
  · intro realval key
    simp only [GSClass.get]
    split
    · next n hn =>
        split
        · next hfield =>
            have hlt := h.field hn hfield
            simp [hlt]
        · next hmethod =>
            have hlt := h.method hn (by simpa using hmethod)
            simp [hlt]
    · rfl
  · simp only [GSClass.getConstructor]
    split
    · next i hi =>
        have hlt := h.ctor i hi
        simp [hlt]
    · rfl
  · intro key
    simp only [GSClass.getAttributes]
    split
    · next n hn =>
        cases hkind : _isfield n with
        | true =>
            have hlt := h.field hn hkind
            simp [hlt]
        | false =>
            have hlt := h.method hn hkind
            simp [hlt]
    · rfl
  · intro key val
    obtain ⟨c', ok, heq, -⟩ := h.setAttributes_eq key val
    simp [heq]
  · intro cloned key val bstatic
    obtain ⟨c', ok, heq, -⟩ := h.newSlot_eq cloned key val bstatic
    simp [heq]
  · intro realval i
    simp only [GSClass.next]
    split
    · next key n hm =>
        have hmem : (key, n) ∈ c.members := List.mem_of_getElem? hm
        split
        · next hmethod =>
            -- the kind `Next` tests is the other one
            have hkind : _isfield n = false := by
              rcases h.member _ hmem with ⟨j, hj, heq⟩ | ⟨j, hj, heq⟩
              · have hle := Nat.le_trans h.defaultvalues_le h.members_le
                simp only at heq
                rw [heq, ismethod_make_field (by omega)] at hmethod
                cases hmethod
              · have hle := Nat.le_trans h.methods_le h.members_le
                simp only at heq
                rw [heq, isfield_make_method (by omega)]
            have hlt := (hd.method _ hmem hkind).2
            simp only at hlt
            simp [hlt]
        · next hmethod =>
            have hkind : _isfield n := by
              by_contra hfield
              exact hmethod (hd.method _ hmem (by simpa using hfield)).1
            have hlt := hd.field _ hmem hkind
            simp only at hlt
            simp [hlt]
    · rfl

/-- A read of a member of an instance stays inside its values. -/
theorem Sound.instanceGet_isSome (h : Sound w) (hr : r < w.instances)
    (realval : Object → Object) (key : Object) : (w.instanceGet realval r key).isSome := by
  have hlaid := h.laid _ (h.cls r hr)
  simp only [World.instanceGet]
  split
  · next n hn =>
      split
      · next hfield =>
          have hlt := hlaid.field hn hfield
          rw [← h.values r hr] at hlt
          simp [hlt]
      · next hmethod =>
          have hlt := hlaid.method hn (by simpa using hmethod)
          simp [hlt]
  · rfl

/-- Classes and instances in every state: the member tables decode, an instance has a value for
each default value of its class, and no access is out of bounds. -/
theorem class_layout (h : Reachable w) :
    (∀ r < w.classes, Decodes (w.cls r) ∧ InBounds (w.cls r)) ∧
    (∀ i < w.instances,
      (w.inst i).values.length = (w.cls (w.inst i).cls).defaultvalues.length ∧
      ∀ realval key, (w.instanceGet realval i key).isSome) ∧
    ∀ o : Op, o.Valid w → (w.step o).isSome := by
  have hs := h.sound
  refine ⟨?_, ?_, ?_⟩
  · intro r hr
    exact ⟨(hs.laid r hr).decodes, (hs.laid r hr).inBounds⟩
  · intro i hi
    exact ⟨hs.values i hi, fun realval key => hs.instanceGet_isSome hi realval key⟩
  · intro o ho
    obtain ⟨w', heq, -⟩ := hs.step_eq ho
    simp [heq]

/-- A class with a field, derived from, and an instance of the derived class. -/
def derivedWorld : Option World := do
  let w ← World.init.step (.createClass none)
  let w ← w.step (.newSlot id 0 (.string (sc "x")) (.integer 1) .null false)
  let w ← w.step (.createClass (some 0))
  w.step (.createInstance 1)

theorem class_layout_derived : ∃ w, derivedWorld = some w ∧
    (w.inst 0).values.length = (w.cls (w.inst 0).cls).defaultvalues.length := by
  refine ⟨_, rfl, ?_⟩
  have hreach : Reachable _ := .step (o := .createInstance 1) (.step (o := .createClass (some 0))
    (.step (o := .newSlot id 0 (.string (sc "x")) (.integer 1) .null false)
      (.step (o := .createClass none) .init (by rintro _ ⟨⟩) rfl) Nat.zero_lt_one rfl)
    (by rintro _ ⟨⟩; decide) rfl) Nat.one_lt_two rfl
  exact ((class_layout hreach).2.1 0 (by decide)).1

end GameScript.ClassLayout
