import GameScript.Scope.Heap

/-!
Reading and writing through delegates: `Get`, `Set` and `NewSlot` of `GSvm.cpp` with their
fallbacks.

Tables are modelled; `Host` stands for the other kinds of object and for the functions a
metamethod calls, which may leave any world behind.
-/

namespace GameScript.Scope

/-- A machine as the accesses see it. `rest` is what they do not touch. -/
structure World (ρ : Type) where
  heap : Heap
  /-- `_roottable`. -/
  root : Ref
  root_lt : root < heap.size
  rest : ρ

/-- `FALLBACK_OK`, `FALLBACK_NO_MATCH` and `FALLBACK_ERROR`; also how the call of a metamethod
ends, where a failure that leaves `_lasterror` null is no match. -/
inductive FallBack where
  | ok (v : Object)
  | noMatch
  | error
deriving DecidableEq, Repr

/-- What is outside this model. -/
structure Host (ρ : Type) where
  /-- The referent of a weak reference. -/
  referent : ρ → Ref → Object
  /-- `Call` of a metamethod. -/
  call : Object → List Object → World ρ → FallBack × World ρ
  /-- `Get`, `NewSlot` and `Set` of what is not a table, `Set` up to the root table. -/
  get : Object → Object → World ρ → Option Object × World ρ
  newSlot : Object → Object → Object → World ρ → Bool × World ρ
  set : Object → Object → Object → World ρ → FallBack × World ρ

/-- A host without metamethods and without other objects than tables. -/
def Host.inert (ρ : Type) : Host ρ where
  referent _ _ := .null
  call _ _ w := (.noMatch, w)
  get _ _ w := (none, w)
  newSlot _ _ _ w := (false, w)
  set _ _ _ w := (.noMatch, w)

/-- `_table_default_delegate_funcz`. -/
def tableDefaultDelegate : List String :=
  ["len", "rawget", "rawset", "rawdelete", "rawin", "weakref", "tostring", "clear", "setdelegate",
    "getdelegate", "filter", "map", "keys", "values"]

/-- `_table_ddel`: each name with its native function. -/
def table_ddel : Table.Contents := fun key =>
  (tableDefaultDelegate.findIdx? fun name => key = .string (sc name)).map .nativeclosure

def MT_SET : Object := .string (sc "_set")
def MT_GET : Object := .string (sc "_get")
def MT_NEWSLOT : Object := .string (sc "_newslot")

variable {ρ : Type}

namespace World

variable (w : World ρ)

/-- A world with an empty root table that delegates to nothing. -/
def initial (rest : ρ) : World ρ where
  heap := Heap.empty.create .empty none Heap.no_delegate
  root := 0
  root_lt := Nat.zero_lt_one
  rest := rest

/-- `GSTable::NewSlot` and the `GSTable::Set` of a slot that exists. -/
def setSlot (r : Ref) (key val : Object) : World ρ :=
  { w with heap := w.heap.setSlot r key val }

def withRest (rest : ρ) : World ρ := { w with rest := rest }

theorem delegate_lt (toRoot : Bool) :
    ∀ d ∈ (if toRoot then some w.root else none), d < w.heap.size := by
  intro d hd
  cases toRoot with
  | true => exact Option.some.inj hd ▸ w.root_lt
  | false => cases hd

/-- A new table at `w.heap.size`, which delegates to the root table or to nothing. -/
def create (slots : Table.Contents) (toRoot : Bool) : World ρ where
  heap := w.heap.create slots (if toRoot then some w.root else none) (w.delegate_lt toRoot)
  root := w.root
  root_lt := Nat.lt_succ_of_lt w.root_lt
  rest := w.rest

variable {w}

@[simp] theorem setSlot_root (r : Ref) (key val : Object) :
    (w.setSlot r key val).root = w.root := rfl

@[simp] theorem setSlot_size (r : Ref) (key val : Object) :
    (w.setSlot r key val).heap.size = w.heap.size := rfl

@[simp] theorem setSlot_delegate (r : Ref) (key val : Object) :
    (w.setSlot r key val).heap.delegate = w.heap.delegate := Heap.setSlot_delegate r key val

@[simp] theorem setSlot_chain (r : Ref) (key val : Object) :
    (w.setSlot r key val).heap.chain = w.heap.chain := Heap.setSlot_chain r key val

theorem setSlot_slots (r : Ref) (key val : Object) (r' : Ref) (key' : Object) :
    ((w.setSlot r key val).heap.table r').slots key' =
      if r' = r ∧ key' = key then some val else (w.heap.table r').slots key' := by
  change ((w.heap.setSlot r key val).table r').slots key' = _
  by_cases hr : r' = r
  · subst hr
    rw [Heap.setSlot_slots_self]
    by_cases hk : key' = key <;> simp [hk]
  · rw [Heap.setSlot_slots_other key val hr, if_neg (fun h => hr h.1)]

@[simp] theorem create_root (slots : Table.Contents) (toRoot : Bool) :
    (w.create slots toRoot).root = w.root := rfl

@[simp] theorem create_size (slots : Table.Contents) (toRoot : Bool) :
    (w.create slots toRoot).heap.size = w.heap.size + 1 := rfl

theorem create_old {r : Ref} (slots : Table.Contents) (toRoot : Bool) (hr : r < w.heap.size) :
    (w.create slots toRoot).heap.table r = w.heap.table r :=
  Heap.create_old slots _ (w.delegate_lt toRoot) hr

@[simp] theorem create_new (slots : Table.Contents) (toRoot : Bool) :
    (w.create slots toRoot).heap.table w.heap.size =
      { slots := slots, delegate := if toRoot then some w.root else none } :=
  Heap.create_new slots _ (w.delegate_lt toRoot)

theorem create_chain_old {r : Ref} (slots : Table.Contents) (toRoot : Bool)
    (hr : r < w.heap.size) : (w.create slots toRoot).heap.chain r = w.heap.chain r :=
  Heap.create_chain_old slots _ (w.delegate_lt toRoot) hr

end World

/-! ### The accesses -/

section

variable (host : Host ρ)

/-- `GSTable::Get`. -/
def rawGet (w : World ρ) (r : Ref) (key : Object) : Option Object :=
  if key = .null then none
  else ((w.heap.table r).slots key).map (Table.realval (host.referent w.rest))

/-- `GSDelegable::GetMetaMethod`. -/
def getMetaMethod (w : World ρ) (r : Ref) (mm : Object) : Option Object :=
  (w.heap.delegate r).bind fun d => rawGet host w d mm

/-- `FallBackGet` of a table; `delegateGet` is `Get` on its delegate. -/
def FallBackGet (delegateGet : Option (World ρ → Option Object × World ρ)) (r : Ref)
    (key : Object) (w : World ρ) : FallBack × World ρ :=
  match delegateGet with
  | none => (.noMatch, w)
  | some get =>
      match get w with
      | (some v, w) => (.ok v, w)
      | (none, w) =>
          match getMetaMethod host w r MT_GET with
          | none => (.noMatch, w)
          | some closure => host.call closure [.table r, key] w

/-- `Get` without `GET_FLAG_RAW`, on the first table of a chain. The rest of the chain is its
delegate's. -/
def getChain (key : Object) : List Ref → World ρ → Option Object × World ρ
  | [], w => (none, w)
  | r :: ds, w =>
      match rawGet host w r key with
      | some v => (some v, w)
      | none =>
          match FallBackGet host (if ds = [] then none else some (getChain key ds)) r key w with
          | (.ok v, w) => (some v, w)
          | (.noMatch, w) => (table_ddel key, w)
          | (.error, w) => (none, w)

/-- `Get` with `DONT_FALL_BACK`. -/
def Get (w : World ρ) (self key : Object) : Option Object × World ρ :=
  match self with
  | .table r => getChain host key (w.heap.chain r) w
  | self => host.get self key w

/-- `FallBackSet` of a table; `delegateSet` is `Set` on its delegate. -/
def FallBackSet (delegateSet : Option (World ρ → Bool × World ρ)) (r : Ref) (key val : Object)
    (w : World ρ) : FallBack × World ρ :=
  match delegateSet with
  | none => (.noMatch, w)
  | some set =>
      match set w with
      | (true, w) => (.ok .null, w)
      | (false, w) =>
          match getMetaMethod host w r MT_SET with
          | none => (.noMatch, w)
          | some closure => host.call closure [.table r, key, val] w

/-- `Set` with `DONT_FALL_BACK`, on the first table of a chain, up to the error. -/
def setChain (key val : Object) : List Ref → World ρ → FallBack × World ρ
  | [], w => (.noMatch, w)
  | r :: ds, w =>
      if ((w.heap.table r).slots key).isSome then (.ok .null, w.setSlot r key val)
      else
        FallBackSet host (if ds = [] then none else some fun w =>
          match setChain key val ds w with
          | (.ok _, w) => (true, w)
          | (_, w) => (false, w)) r key val w

/-- `Set`. An access through `this` (`selfidx == 0`) goes on to the root table. -/
def Set (w : World ρ) (self key val : Object) (selfidx : Nat) : Bool × World ρ :=
  let fallBack :=
    match self with
    | .table r => setChain host key val (w.heap.chain r) w
    | self => host.set self key val w
  match fallBack with
  | (.ok _, w) => (true, w)
  | (.error, w) => (false, w)
  | (.noMatch, w) =>
      if selfidx = 0 ∧ ((w.heap.table w.root).slots key).isSome then
        (true, w.setSlot w.root key val)
      else (false, w)

/-- `NewSlot` of a table whose delegate has the metamethod `_newslot`, or none. -/
def NewSlot (w : World ρ) (self key val : Object) : Bool × World ρ :=
  if key = .null then (false, w)
  else
    match self with
    | .table r =>
        match rawGet host w r key, getMetaMethod host w r MT_NEWSLOT with
        | none, some closure =>
            match host.call closure [self, key, val] w with
            | (.ok _, w) => (true, w)
            | (_, w) => (false, w)
        | _, _ => (true, w.setSlot r key val)
    | self => host.newSlot self key val w

/-! ### Accesses that call nothing -/

/-- What `Get` finds where no metamethod is asked: the slot of the nearest table of the chain
that has one, else the native function of that name. -/
def lookup (w : World ρ) (r : Ref) (key : Object) : Option Object :=
  ((w.heap.chain r).findSome? fun r => rawGet host w r key).or (table_ddel key)

end

/-- No table that `r` delegates to has the metamethod. -/
def Plain (w : World ρ) (mm : Object) (r : Ref) : Prop :=
  ∀ d ∈ (w.heap.chain r).tail, (w.heap.table d).slots mm = none

/-- The root table and those it delegates to have no metamethod for a lookup or a new slot. -/
def Bare (w : World ρ) : Prop :=
  ∀ d ∈ w.heap.chain w.root,
    (w.heap.table d).slots MT_GET = none ∧ (w.heap.table d).slots MT_NEWSLOT = none

variable {host : Host ρ} {w : World ρ}

theorem rawGet_eq_none {r : Ref} {key : Object} (hkey : key ≠ .null) :
    rawGet host w r key = none ↔ (w.heap.table r).slots key = none := by
  simp [rawGet, hkey]

theorem getMetaMethod_eq_none {mm : Object} {r : Ref} (hplain : Plain w mm r) :
    getMetaMethod host w r mm = none := by
  rw [getMetaMethod]
  cases hd : w.heap.delegate r with
  | none => rfl
  | some d =>
      have hnone : (w.heap.table d).slots mm = none := by
        apply hplain
        rw [w.heap.chain_of_some hd]
        exact Heap.mem_chain_self d
      simp [rawGet, hnone]

theorem Plain.delegate {mm : Object} {r d : Ref} (hplain : Plain w mm r)
    (hd : w.heap.delegate r = some d) : Plain w mm d := by
  intro a ha
  apply hplain
  rw [w.heap.chain_of_some hd]
  exact List.mem_of_mem_tail ha

theorem lookup_eq_none {r : Ref} {key : Object} (hkey : key ≠ .null) :
    lookup host w r key = none ↔
      (∀ d ∈ w.heap.chain r, (w.heap.table d).slots key = none) ∧ table_ddel key = none := by
  rw [lookup, Option.or_eq_none_iff, List.findSome?_eq_none_iff]
  simp only [rawGet_eq_none hkey]

theorem lookup_step (r : Ref) (key : Object) :
    lookup host w r key = (rawGet host w r key).or
      ((w.heap.delegate r).elim (table_ddel key) fun d => lookup host w d key) := by
  rw [lookup, Heap.chain_eq, List.findSome?_cons]
  cases hraw : rawGet host w r key with
  | some v => rfl
  | none => cases w.heap.delegate r <;> rfl

/-- A table that delegates to the root table or to nothing. -/
theorem Bare.plain (h : Bare w) {r : Ref} (hdel : ∀ d, w.heap.delegate r = some d → d = w.root) :
    Plain w MT_GET r ∧ Plain w MT_NEWSLOT r := by
  have htail : ∀ d ∈ (w.heap.chain r).tail, d ∈ w.heap.chain w.root := by
    intro d hd
    rw [Heap.chain_eq] at hd
    cases hr : w.heap.delegate r with
    | none => simp [hr] at hd
    | some d' =>
        rw [hr, hdel d' hr] at hd
        exact hd
  exact ⟨fun d hd => (h d (htail d hd)).1, fun d hd => (h d (htail d hd)).2⟩

theorem Bare.plain_root (h : Bare w) : Plain w MT_GET w.root ∧ Plain w MT_NEWSLOT w.root :=
  ⟨fun d hd => (h d (List.mem_of_mem_tail hd)).1, fun d hd => (h d (List.mem_of_mem_tail hd)).2⟩

theorem Bare.of_root (hdel : w.heap.delegate w.root = none)
    (hget : (w.heap.table w.root).slots MT_GET = none)
    (hnew : (w.heap.table w.root).slots MT_NEWSLOT = none) : Bare w := by
  intro d hd
  rw [w.heap.chain_of_none hdel] at hd
  rw [List.mem_singleton.mp hd]
  exact ⟨hget, hnew⟩

theorem Bare.create (h : Bare w) (slots : Table.Contents) (toRoot : Bool) :
    Bare (w.create slots toRoot) := by
  intro d hd
  rw [World.create_root, World.create_chain_old slots toRoot w.root_lt] at hd
  rw [World.create_old slots toRoot (Heap.lt_of_mem_chain w.root_lt hd)]
  exact h d hd

theorem Bare.setSlot (h : Bare w) {r : Ref} {key : Object} (val : Object)
    (hkey : r ∈ w.heap.chain w.root → key ≠ MT_GET ∧ key ≠ MT_NEWSLOT) :
    Bare (w.setSlot r key val) := by
  intro d hd
  rw [World.setSlot_chain] at hd
  rw [World.setSlot_slots, World.setSlot_slots, if_neg, if_neg]
  · exact h d hd
  · rintro ⟨rfl, heq⟩
    exact (hkey hd).2 heq.symm
  · rintro ⟨rfl, heq⟩
    exact (hkey hd).1 heq.symm

theorem getChain_plain {key : Object} {r : Ref} (hplain : Plain w MT_GET r) :
    getChain host key (w.heap.chain r) w = (lookup host w r key, w) := by
  induction r using w.heap.acyclic.induction with
  | step r ih =>
      rw [lookup, w.heap.chain_eq, getChain, List.findSome?_cons]
      cases hraw : rawGet host w r key with
      | some v => rfl
      | none =>
          cases hd : w.heap.delegate r with
          | none => rfl
          | some d =>
              have hget := ih d hd (hplain.delegate hd)
              have hne : w.heap.chain d ≠ [] := List.ne_nil_of_mem (Heap.mem_chain_self d)
              have hmm : getMetaMethod host w r MT_GET = none := getMetaMethod_eq_none hplain
              rw [Option.elim_some, ← lookup, if_neg hne, FallBackGet, hget]
              cases hlook : lookup host w d key with
              | some v => rfl
              | none =>
                  rw [lookup, Option.or_eq_none_iff] at hlook
                  simp [hmm, hlook.2]

/-- Without a `_get` behind it a table answers with the nearest slot. -/
theorem Get_table {key : Object} {r : Ref} (hplain : Plain w MT_GET r) :
    Get host w (.table r) key = (lookup host w r key, w) := getChain_plain hplain

theorem NewSlot_table {key val : Object} {r : Ref} (hkey : key ≠ .null)
    (hplain : Plain w MT_NEWSLOT r) :
    NewSlot host w (.table r) key val = (true, w.setSlot r key val) := by
  simp [NewSlot, hkey, getMetaMethod_eq_none hplain]

/-- A lookup that finds something asks no metamethod. -/
theorem Get_lookup {r : Ref} {key v : Object} (h : lookup host w r key = some v) :
    Get host w (.table r) key = (some v, w) := by
  change getChain host key (w.heap.chain r) w = _
  induction r using w.heap.acyclic.induction with
  | step r ih =>
      rw [lookup_step] at h
      rw [w.heap.chain_eq, getChain]
      cases hraw : rawGet host w r key with
      | some v' =>
          rw [hraw] at h
          exact congrArg (·, w) h
      | none =>
          rw [hraw] at h
          cases hd : w.heap.delegate r with
          | none =>
              rw [hd] at h
              exact congrArg (·, w) h
          | some d =>
              rw [hd] at h
              have hne : w.heap.chain d ≠ [] := List.ne_nil_of_mem (Heap.mem_chain_self d)
              rw [Option.elim_some, if_neg hne, FallBackGet, ih d hd h]

/-- `Get` finds nothing only where there is no slot. -/
theorem Get_none {w' : World ρ} {r : Ref} {key : Object} (hkey : key ≠ .null)
    (h : Get host w (.table r) key = (none, w')) : (w.heap.table r).slots key = none := by
  rw [Get, Heap.chain_eq, getChain] at h
  cases hraw : rawGet host w r key with
  | some v =>
      rw [hraw] at h
      cases h
  | none => exact (rawGet_eq_none hkey).mp hraw

theorem Get_some {r : Ref} {key v : Object} (hraw : rawGet host w r key = some v) :
    Get host w (.table r) key = (some v, w) := by
  rw [Get, Heap.chain_eq, getChain, hraw]

/-- A slot with a table is found. -/
theorem Get_slot {r t : Ref} {s : List UInt8}
    (hslot : (w.heap.table r).slots (.string s) = some (.table t)) :
    Get host w (.table r) (.string s) = (some (.table t), w) := by
  apply Get_some
  rw [rawGet, if_neg (by simp), hslot]
  rfl

/-! ### What accesses do -/

section Effect

variable {R : World ρ → World ρ → Prop} (hrefl : ∀ w, R w w)
  (htrans : ∀ w w' w'', R w w' → R w' w'' → R w w'')
  (hcall : ∀ f args w, R w (host.call f args w).2)
include hrefl htrans hcall

theorem FallBackGet_effect {get : Option (World ρ → Option Object × World ρ)}
    (hget : ∀ g ∈ get, ∀ w, R w (g w).2) (r : Ref) (key : Object) (w : World ρ) :
    R w (FallBackGet host get r key w).2 := by
  cases get with
  | none => exact hrefl w
  | some g =>
      rw [FallBackGet]
      have hg := hget g rfl w
      rcases hgw : g w with ⟨_ | v, w'⟩
      · rw [hgw] at hg
        simp only
        split
        · exact hg
        · exact htrans _ _ _ hg (hcall _ _ _)
      · rw [hgw] at hg
        exact hg

theorem getChain_effect (key : Object) :
    ∀ (rs : List Ref) (w : World ρ), R w (getChain host key rs w).2
  | [], w => hrefl w
  | r :: ds, w => by
      have ih := getChain_effect key ds
      rw [getChain]
      cases rawGet host w r key with
      | some v => exact hrefl w
      | none =>
          have hget : ∀ g ∈ if ds = [] then none else some (getChain host key ds),
              ∀ w, R w (g w).2 := by
            intro g hg
            split at hg
            · cases hg
            · obtain rfl := Option.some.inj hg
              exact ih
          have hfall := FallBackGet_effect hrefl htrans hcall hget r key w
          rcases hf : FallBackGet host (if ds = [] then none else some (getChain host key ds))
            r key w with ⟨_ | _ | _, w'⟩ <;> rw [hf] at hfall <;> exact hfall

/-- All a lookup does is what the metamethods it calls do. -/
theorem Get_effect (hget : ∀ self key w, R w (host.get self key w).2) (w : World ρ)
    (self key : Object) : R w (Get host w self key).2 := by
  unfold Get
  split
  · exact getChain_effect hrefl htrans hcall key _ w
  · exact hget _ _ _

omit htrans in
/-- A new slot is one of the table itself, or what a metamethod makes of it. -/
theorem NewSlot_effect (hnew : ∀ self key val w, R w (host.newSlot self key val w).2)
    {w : World ρ} {self key val : Object}
    (hset : ∀ r, self = .table r → R w (w.setSlot r key val)) :
    R w (NewSlot host w self key val).2 := by
  unfold NewSlot
  split
  · exact hrefl w
  · split
    · next r =>
        split
        · next closure _ _ =>
            have h := hcall closure [.table r, key, val] w
            rcases hc : host.call closure [.table r, key, val] w with ⟨_ | _ | _, w'⟩ <;>
              rw [hc] at h <;> exact h
        · exact hset r rfl
    · exact hnew _ _ _ _

end Effect

end GameScript.Scope
