import GameScript.Scope.NullKey

/-!
The accesses of the machine on hash tables, and the same accesses on maps. `NullKey.Machine` looks
into the node arrays of `GStable.cpp`, `Scope.World` into the maps that they stand for. The two
agree on every key but null, which `GSTable::Set` may find at a node without a key. Main results:

* `Get_refines`, `Set_refines`, `NewSlot_refines`: one access through delegates and metamethods;
* `accesses_refine`: programs of accesses, on every store that programs come to.
-/

namespace GameScript.NullKey

open Chain Table
open GameScript.Scope (World Host FallBack MT_GET MT_SET MT_NEWSLOT table_ddel rawGet getChain
  setChain)

variable {m : Machine} {s s' : Store} {w w' : World (Option Object)} {r d : Ref}
  {key val mm : Object}

/-! ### Two machines -/

/-- A machine on maps that calls no metamethod. It keeps the first one that it would call, and the
access fails there. -/
def recorder (referent : Ref → Object) : Host (Option Object) where
  referent _ := referent
  call closure _ w := (.error, w.withRest (w.rest.or (some closure)))
  get _ _ w := (none, w)
  newSlot _ _ _ w := (false, w)
  set _ _ _ w := (.noMatch, w)

abbrev Machine.recorder (m : Machine) : Host (Option Object) := NullKey.recorder m.referent

/-- The tables of `s` represent the maps of `w`, and no metamethod was called. -/
structure Abstracts (m : Machine) (s : Store) (w : World (Option Object)) : Prop where
  table : ∀ r, Represents m.hash (s.table r) (w.heap.table r).slots
  delegate : s.delegate = w.heap.delegate
  root : m._roottable = w.root
  defaults : Represents m.hash m._table_ddel table_ddel
  called : w.rest = none

theorem Abstracts.acyclic (h : Abstracts m s w) : Acyclic s.delegate :=
  h.delegate ▸ w.heap.acyclic

theorem Abstracts.get (h : Abstracts m s w) (hkey : key ≠ .null) (r : Ref) :
    (s.table r).get m.hash m.referent key = some (rawGet m.recorder w r key) := by
  rw [get_represents (h.table r) hkey, rawGet, if_neg hkey]
  rfl

theorem Abstracts.getMetaMethod (h : Abstracts m s w) (hmm : mm ≠ .null) (r : Ref) :
    m.GetMetaMethod s r mm = some (Scope.getMetaMethod m.recorder w r mm) := by
  unfold Machine.GetMetaMethod Scope.getMetaMethod
  rw [h.delegate]
  cases w.heap.delegate r with
  | none => rfl
  | some d => exact h.get hmm d

theorem Abstracts.fallBackTo {α : Type} (h : Abstracts m s w) (hmm : mm ≠ .null) (r : Ref) :
    m.fallBackTo (α := α) s r mm = some (match Scope.getMetaMethod m.recorder w r mm with
      | some closure => .calls closure
      | none => .fails none) := by
  rw [Machine.fallBackTo, h.getMetaMethod hmm]
  cases Scope.getMetaMethod m.recorder w r mm <;> rfl

/-- The default delegate has native functions only. -/
theorem Abstracts.get_default (h : Abstracts m s w) (hkey : key ≠ .null) :
    m._table_ddel.get m.hash m.referent key = some (table_ddel key) := by
  rw [get_represents h.defaults hkey, table_ddel, Option.map_map]
  rfl

/-! ### Reading -/

/-- A read on maps that ends as the one on tables: with the same value, with none, or asking for the
same metamethod. -/
def Reads (o : Outcome Object) (w : World (Option Object))
    (result : Option Object × World (Option Object)) : Prop :=
  match o with
  | .ok v => result = (some v, w)
  | .fails _ => result = (none, w)
  | .calls closure => result.2 = w.withRest (some closure)

/-- The same for a fallback. -/
def FallsBack {α : Type} (o : Outcome α) (value : α → Object) (w : World (Option Object))
    (result : FallBack × World (Option Object)) : Prop :=
  match o with
  | .ok a => result = (.ok (value a), w)
  | .fails _ => result = (.noMatch, w)
  | .calls closure => result.2 = w.withRest (some closure)

/-- Once a metamethod is asked for, the fallbacks of the tables around keep it. -/
theorem FallBackGet_called {get : World (Option Object) → Option Object × World (Option Object)}
    {closure : Object} (h : (get w).2 = w.withRest (some closure)) :
    (Scope.FallBackGet m.recorder (some get) r key w).2 = w.withRest (some closure) := by
  unfold Scope.FallBackGet
  dsimp only
  generalize get w = result at h
  obtain ⟨v, w₁⟩ := result
  obtain rfl : w₁ = w.withRest (some closure) := h
  cases v with
  | some v => rfl
  | none =>
      dsimp only
      cases Scope.getMetaMethod m.recorder (w.withRest (some closure)) r MT_GET <;> rfl

theorem FallBackGet_refines (h : Abstracts m s w) {get : Ref → Option (Outcome Object)}
    (hget : ∀ d, s.delegate r = some d →
      ∃ o, get d = some o ∧ Reads o w (getChain m.recorder key (w.heap.chain d) w)) :
    ∃ o, m.FallBackGet s get r = some o ∧ FallsBack o id w (Scope.FallBackGet m.recorder
      (if (w.heap.delegate r).elim [] w.heap.chain = [] then none
        else some (getChain m.recorder key ((w.heap.delegate r).elim [] w.heap.chain)))
      r key w) := by
  have hmm : MT_GET ≠ .null := by decide
  unfold Machine.FallBackGet
  cases hd : s.delegate r with
  | none =>
      have hd' : w.heap.delegate r = none := h.delegate ▸ hd
      refine ⟨.fails none, rfl, ?_⟩
      rw [hd', Option.elim_none, if_pos rfl]
      rfl
  | some d =>
      have hd' : w.heap.delegate r = some d := h.delegate ▸ hd
      obtain ⟨o, ho, hreads⟩ := hget d hd
      have hne : w.heap.chain d ≠ [] := by
        rw [Scope.Heap.chain_eq]
        exact List.cons_ne_nil _ _
      rw [hd', Option.elim_some, if_neg hne]
      dsimp only
      rw [ho]
      cases o with
      | ok v =>
          have hresult : getChain m.recorder key (w.heap.chain d) w = (some v, w) := hreads
          refine ⟨.ok v, rfl, ?_⟩
          unfold Scope.FallBackGet
          dsimp only
          rw [hresult]
          rfl
      | fails e =>
          have hresult : getChain m.recorder key (w.heap.chain d) w = (none, w) := hreads
          refine ⟨_, h.fallBackTo hmm r, ?_⟩
          unfold Scope.FallBackGet
          dsimp only
          rw [hresult]
          dsimp only
          cases Scope.getMetaMethod m.recorder w r MT_GET with
          | none => rfl
          | some closure =>
              change w.withRest (w.rest.or (some closure)) = _
              rw [h.called]
              rfl
      | calls closure => exact ⟨.calls closure, rfl, FallBackGet_called hreads⟩

theorem length_chain (r : Ref) : (w.heap.chain r).length =
    ((w.heap.delegate r).elim [] w.heap.chain).length + 1 := by
  rw [Scope.Heap.chain_eq, List.length_cons]

/-- The chain of a delegate is shorter. -/
theorem Abstracts.length_delegate (h : Abstracts m s w) {fuel : Nat}
    (hfuel : (w.heap.chain r).length ≤ fuel + 1) (hd : s.delegate r = some d) :
    (w.heap.chain d).length ≤ fuel := by
  rw [h.delegate] at hd
  rw [length_chain, hd, Option.elim_some] at hfuel
  omega

/-- `Get` looks at the maps of a table and its delegates. -/
theorem Get_refines (h : Abstracts m s w) (hkey : key ≠ .null) {fuel : Nat}
    (hfuel : (w.heap.chain r).length ≤ fuel) {getflags : GetFlags} (hraw : getflags.raw = false) :
    ∃ o, m.Get s fuel r key getflags DONT_FALL_BACK = some o ∧
      Reads o w (getChain m.recorder key (w.heap.chain r) w) := by
  induction fuel generalizing r getflags with
  | zero =>
      rw [length_chain] at hfuel
      omega
  | succ fuel ih =>
      obtain ⟨o, ho, hfallsBack⟩ := FallBackGet_refines h fun d hd =>
        ih (h.length_delegate hfuel hd)
          (show ({ doNotRaise := true } : GetFlags).raw = false from rfl)
      have hdefault := h.get_default hkey
      rw [Scope.Heap.chain_eq, getChain]
      simp only [Machine.Get, h.get hkey r, Option.bind_eq_bind, Option.bind_some]
      cases rawGet m.recorder w r key with
      | some v => exact ⟨.ok v, rfl, rfl⟩
      | none =>
          dsimp only
          rw [hraw, if_neg Bool.false_ne_true, ho]
          cases o with
          | ok v =>
              rw [show Scope.FallBackGet _ _ _ _ _ = (FallBack.ok v, w) from hfallsBack]
              exact ⟨.ok v, rfl, rfl⟩
          | calls closure =>
              refine ⟨.calls closure, rfl, ?_⟩
              generalize Scope.FallBackGet _ _ _ _ _ = result at hfallsBack ⊢
              obtain ⟨fallBack, w₁⟩ := result
              obtain rfl : w₁ = w.withRest (some closure) := hfallsBack
              cases fallBack <;> rfl
          | fails e =>
              rw [show Scope.FallBackGet _ _ _ _ _ = (FallBack.noMatch, w) from hfallsBack]
              simp only [Option.bind_some, Bool.false_eq_true, if_false, hdefault,
                show DONT_FALL_BACK ≠ 0 by decide]
              cases table_ddel key with
              | some v => exact ⟨.ok v, rfl, rfl⟩
              | none => exact ⟨_, rfl, rfl⟩

/-! ### Writing -/

/-- A slot of the table `r` gets a value. -/
theorem Abstracts.put (h : Abstracts m s w) {t : Table}
    (ht : Represents m.hash t (Function.update (w.heap.table r).slots key (some val)))
    (hdelegate : t.delegate = s.delegate r) : Abstracts m (s.put r t) (w.setSlot r key val) where
  table r' := by
    have hslots : ((w.setSlot r key val).heap.table r').slots =
        if r' = r then Function.update (w.heap.table r).slots key (some val)
        else (w.heap.table r').slots := by
      funext key'
      rw [Scope.World.setSlot_slots]
      by_cases hr : r' = r
      · subst hr
        by_cases hk : key' = key <;> simp [hk]
      · simp [hr]
    rw [Store.put_table, hslots]
    split
    · exact ht
    · exact h.table r'
  delegate := by rw [Store.put_delegate_of_eq hdelegate, Scope.World.setSlot_delegate, h.delegate]
  root := h.root
  defaults := h.defaults
  called := h.called

theorem set_delegate {hash : Object → Nat} {t t' : Table} {found : Bool}
    (h : t.set hash key val = some (t', found)) : t'.delegate = t.delegate := by
  obtain ⟨n, -, hset⟩ := Option.bind_eq_some_iff.mp h
  cases n with
  | none =>
      cases hset
      rfl
  | some n =>
      cases hset
      rfl

/-- `GSTable::Set` finds the key where the map has it, and gives it the value. -/
theorem Abstracts.set (h : Abstracts m s w) (hkey : key ≠ .null) (r : Ref) (val : Object) :
    ∃ t, (s.table r).set m.hash key val = some (t, ((w.heap.table r).slots key).isSome) ∧
      (((w.heap.table r).slots key).isSome → Abstracts m (s.put r t) (w.setSlot r key val)) := by
  obtain ⟨t, hset, hrepresents⟩ := set_represents (h.table r) hkey val
  refine ⟨t, hset, fun hfound => ?_⟩
  rw [if_pos hfound] at hrepresents
  exact h.put hrepresents (set_delegate hset)

/-- A write on maps that ends as the one on tables. -/
def Writes (m : Machine) (s : Store) (w : World (Option Object)) (o : Store × Outcome Unit)
    (result : FallBack × World (Option Object)) : Prop :=
  match o with
  | (s', .ok _) => ∃ w', result = (.ok .null, w') ∧ Abstracts m s' w' ∧ w'.heap.size = w.heap.size
  | (s', .fails _) => s' = s ∧ result = (.noMatch, w)
  | (_, .calls closure) => result.2.rest = some closure ∧ ∀ v, result.1 ≠ .ok v

/-- What `FallBackSet` asks the delegate. -/
def delegateSet (m : Machine) (key val : Object) (rs : List Ref) (w : World (Option Object)) :
    Bool × World (Option Object) :=
  match setChain m.recorder key val rs w with
  | (.ok _, w) => (true, w)
  | (_, w) => (false, w)

theorem setChain_cons (ds : List Ref) : setChain m.recorder key val (r :: ds) w =
    if ((w.heap.table r).slots key).isSome then (.ok .null, w.setSlot r key val)
    else Scope.FallBackSet m.recorder (if ds = [] then none else some (delegateSet m key val ds)) r
      key val w := by
  have hdelegateSet : (fun w => match setChain m.recorder key val ds w with
      | (.ok _, w) => (true, w)
      | (_, w) => (false, w)) = delegateSet m key val ds := by
    funext w
    unfold delegateSet
    obtain ⟨_ | _ | _, w₁⟩ := setChain m.recorder key val ds w <;> rfl
  rw [setChain, ← hdelegateSet]
  split
  · rfl
  · congr 1
    split
    · rfl
    · congr 1
      funext w
      obtain ⟨_ | _ | _, w₁⟩ := setChain m.recorder key val ds w <;> rfl

/-- Once a metamethod is asked for, the fallbacks of the tables around keep it. -/
theorem FallBackSet_called {closure : Object} {rs : List Ref}
    (h : (setChain m.recorder key val rs w).2.rest = some closure ∧
      ∀ v, (setChain m.recorder key val rs w).1 ≠ .ok v) :
    (Scope.FallBackSet m.recorder (some (delegateSet m key val rs)) r key val w).2.rest =
        some closure ∧
      ∀ v, (Scope.FallBackSet m.recorder (some (delegateSet m key val rs)) r key val w).1 ≠
        .ok v := by
  obtain ⟨w₁, hdelegate, hrest⟩ :
      ∃ w₁, delegateSet m key val rs w = (false, w₁) ∧ w₁.rest = some closure := by
    unfold delegateSet
    obtain ⟨hrest, hne⟩ := h
    generalize setChain m.recorder key val rs w = result at hrest hne ⊢
    obtain ⟨v | _ | _, w₁⟩ := result
    · exact absurd rfl (hne v)
    · exact ⟨w₁, rfl, hrest⟩
    · exact ⟨w₁, rfl, hrest⟩
  unfold Scope.FallBackSet
  dsimp only
  rw [hdelegate]
  dsimp only
  cases Scope.getMetaMethod m.recorder w₁ r MT_SET with
  | none => exact ⟨hrest, fun v hv => by cases hv⟩
  | some c =>
      refine ⟨?_, fun v hv => by cases hv⟩
      change w₁.rest.or (some c) = some closure
      rw [hrest]
      rfl

theorem FallBackSet_refines (h : Abstracts m s w) {set : Ref → Option (Store × Outcome Unit)}
    (hset : ∀ d, s.delegate r = some d →
      ∃ o, set d = some o ∧ Writes m s w o (setChain m.recorder key val (w.heap.chain d) w)) :
    ∃ o, m.FallBackSet s set r = some o ∧ Writes m s w o (Scope.FallBackSet m.recorder
      (if (w.heap.delegate r).elim [] w.heap.chain = [] then none
        else some (delegateSet m key val ((w.heap.delegate r).elim [] w.heap.chain)))
      r key val w) := by
  have hmm : MT_SET ≠ .null := by decide
  unfold Machine.FallBackSet
  cases hd : s.delegate r with
  | none =>
      have hd' : w.heap.delegate r = none := h.delegate ▸ hd
      have hnone : Scope.getMetaMethod m.recorder w r MT_SET = none := by
        rw [Scope.getMetaMethod, hd']
        rfl
      refine ⟨(s, .fails none), by simp [h.fallBackTo hmm r, hnone], ?_⟩
      rw [hd', Option.elim_none, if_pos rfl]
      exact ⟨rfl, rfl⟩
  | some d =>
      have hd' : w.heap.delegate r = some d := h.delegate ▸ hd
      obtain ⟨⟨s', o⟩, ho, hwrites⟩ := hset d hd
      have hne : w.heap.chain d ≠ [] := by
        rw [Scope.Heap.chain_eq]
        exact List.cons_ne_nil _ _
      rw [hd', Option.elim_some, if_neg hne]
      dsimp only
      rw [ho]
      cases o with
      | ok a =>
          obtain ⟨w', hresult, habstracts⟩ := hwrites
          refine ⟨(s', .ok a), rfl, w', ?_, habstracts⟩
          unfold Scope.FallBackSet delegateSet
          dsimp only
          rw [hresult]
      | fails e =>
          obtain ⟨rfl, hresult⟩ := hwrites
          refine ⟨_, by simp [h.fallBackTo hmm r]; rfl, ?_⟩
          unfold Scope.FallBackSet delegateSet
          dsimp only
          rw [hresult]
          dsimp only
          cases Scope.getMetaMethod m.recorder w r MT_SET with
          | none => exact ⟨rfl, rfl⟩
          | some closure =>
              refine ⟨?_, fun v hv => by cases hv⟩
              change w.rest.or (some closure) = _
              rw [h.called]
              rfl
      | calls closure => exact ⟨(s', .calls closure), rfl, FallBackSet_called hwrites⟩

/-- One table of a write: it goes on to the delegate. -/
theorem Set_succ {fuel : Nat} (h : Abstracts m s w) (hkey : key ≠ .null)
    (hset : ∀ d, s.delegate r = some d → ∃ o, m.Set fuel s d key val DONT_FALL_BACK = some o ∧
      Writes m s w o (setChain m.recorder key val (w.heap.chain d) w)) :
    (∃ o, m.Set (fuel + 1) s r key val DONT_FALL_BACK = some o ∧
      Writes m s w o (setChain m.recorder key val (w.heap.chain r) w)) := by
  obtain ⟨t, ht, habstracts⟩ := h.set hkey r val
  obtain ⟨⟨s', o⟩, ho, hwrites⟩ := FallBackSet_refines (r := r) h hset
  rw [Scope.Heap.chain_eq, setChain_cons]
  simp only [Machine.Set, ht, Option.bind_eq_bind, Option.bind_some]
  by_cases hfound : ((w.heap.table r).slots key).isSome
  · rw [if_pos hfound, if_pos hfound]
    exact ⟨_, rfl, _, rfl, habstracts hfound, rfl⟩
  · rw [if_neg hfound, if_neg hfound, ho]
    cases o with
    | ok a => exact ⟨_, rfl, hwrites⟩
    | fails e => exact ⟨_, rfl, hwrites⟩
    | calls closure => exact ⟨_, rfl, hwrites⟩

/-- `Set` writes to the maps of a table and its delegates. -/
theorem Set_chain (h : Abstracts m s w) (hkey : key ≠ .null) (val : Object) {fuel : Nat}
    (hfuel : (w.heap.chain r).length ≤ fuel) :
    ∃ o, m.Set fuel s r key val DONT_FALL_BACK = some o ∧
      Writes m s w o (setChain m.recorder key val (w.heap.chain r) w) := by
  induction fuel generalizing r with
  | zero =>
      rw [length_chain] at hfuel
      omega
  | succ fuel ih => exact Set_succ h hkey fun d hd => ih (h.length_delegate hfuel hd)

/-- An assignment on maps that ends as the one on tables. -/
def Assigned (m : Machine) (s : Store) (w : World (Option Object)) (o : Store × Outcome Unit)
    (result : Bool × World (Option Object)) : Prop :=
  match o with
  | (s', .ok _) => ∃ w', result = (true, w') ∧ Abstracts m s' w' ∧ w'.heap.size = w.heap.size
  | (s', .fails _) => s' = s ∧ result = (false, w)
  | (_, .calls closure) => result.2.rest = some closure

theorem Set_refines (h : Abstracts m s w) (hkey : key ≠ .null) (val : Object) (selfidx : Nat)
    {fuel : Nat} (hfuel : (w.heap.chain r).length ≤ fuel + 1) :
    ∃ o, m.Set (fuel + 1) s r key val selfidx = some o ∧
      Assigned m s w o (Scope.Set m.recorder w (.table r) key val selfidx) := by
  obtain ⟨t, ht, habstracts⟩ := h.set hkey r val
  obtain ⟨t₀, ht₀, habstracts₀⟩ := h.set hkey m._roottable val
  obtain ⟨⟨s', o⟩, ho, hwrites⟩ := FallBackSet_refines h fun d hd =>
    Set_chain h hkey val (h.length_delegate hfuel hd)
  unfold Scope.Set
  dsimp only
  rw [Scope.Heap.chain_eq, setChain_cons]
  simp only [Machine.Set, ht, Option.bind_eq_bind, Option.bind_some]
  by_cases hfound : ((w.heap.table r).slots key).isSome
  · rw [if_pos hfound, if_pos hfound]
    exact ⟨_, rfl, _, rfl, habstracts hfound, rfl⟩
  · rw [if_neg hfound, if_neg hfound, ho]
    cases o with
    | ok a =>
        obtain ⟨w', hresult, habstracts'⟩ := hwrites
        rw [hresult]
        exact ⟨_, rfl, w', rfl, habstracts'⟩
    | fails e =>
        obtain ⟨rfl, hresult⟩ := hwrites
        rw [hresult]
        dsimp only
        rw [← h.root]
        simp only [Option.bind_some, ht₀]
        by_cases hidx : selfidx = 0
        · by_cases hroot : ((w.heap.table m._roottable).slots key).isSome
          · rw [if_pos hidx, if_pos hroot, if_pos ⟨hidx, hroot⟩]
            exact ⟨_, rfl, _, rfl, habstracts₀ hroot, rfl⟩
          · rw [if_pos hidx, if_neg hroot, if_neg fun hboth => hroot hboth.2]
            exact ⟨_, rfl, rfl, rfl⟩
        · rw [if_neg hidx, if_neg fun hboth => hidx hboth.1]
          exact ⟨_, rfl, rfl, rfl⟩
    | calls closure =>
        refine ⟨(s', .calls closure), rfl, ?_⟩
        obtain ⟨hrest, -⟩ := hwrites
        generalize Scope.FallBackSet _ _ _ _ _ _ = result at hrest ⊢
        obtain ⟨v | _ | _, w₁⟩ := result
        · exact hrest
        · dsimp only
          split <;> exact hrest
        · exact hrest

theorem NewSlot_refines (h : Abstracts m s w) (hkey : key ≠ .null) (val : Object) (r : Ref)
    (fuel : Nat) : ∃ o, m.NewSlot s (fuel + 2) r key val = some o ∧
      Assigned m s w o (Scope.NewSlot m.recorder w (.table r) key val) := by
  have hmm : MT_NEWSLOT ≠ .null := by decide
  obtain ⟨t, created, hnew, hstored⟩ := newSlot_spec (h.table r).wellFormed hkey val fuel
  have habstracts := h.put ((h.table r).of_stored hstored) hstored.delegate
  unfold Machine.NewSlot Scope.NewSlot
  rw [if_neg hkey, if_neg hkey]
  simp only [h.get hkey r, h.getMetaMethod hmm r, hnew, Option.bind_eq_bind, Option.bind_some]
  cases rawGet m.recorder w r key with
  | some v => exact ⟨_, rfl, _, rfl, habstracts, rfl⟩
  | none =>
      cases Scope.getMetaMethod m.recorder w r MT_NEWSLOT with
      | none => exact ⟨_, rfl, _, rfl, habstracts, rfl⟩
      | some closure =>
          refine ⟨(s, .calls closure), rfl, ?_⟩
          change w.rest.or (some closure) = some closure
          rw [h.called]
          rfl

/-! ### Programs of accesses -/

inductive Access where
  | get (r : Ref) (key : Object)
  | set (r : Ref) (key val : Object) (selfidx : Nat)
  | newSlot (r : Ref) (key val : Object)

def Access.KeyNonNull : Access → Prop
  | .get _ key | .set _ key _ _ | .newSlot _ key _ => key ≠ .null

/-- What an access comes to: a value or none, whether it was done, or the metamethod to call. -/
inductive Answer where
  | value (v : Option Object)
  | flag (done : Bool)
  | called (closure : Object)
deriving DecidableEq, Repr

def Outcome.answer {α : Type} (o : Outcome α) (ok : α → Answer) (fails : Answer) : Answer :=
  match o with
  | .ok a => ok a
  | .fails _ => fails
  | .calls closure => .called closure

/-- An access to hash tables. -/
def Machine.access (m : Machine) (fuel : Nat) (s : Store) : Access → Option (Store × Answer)
  | .get r key => do
      let o ← m.Get s fuel r key {} DONT_FALL_BACK
      return (s, o.answer (fun v => .value (some v)) (.value none))
  | .set r key val selfidx => do
      let (s, o) ← m.Set fuel s r key val selfidx
      return (s, o.answer (fun _ => .flag true) (.flag false))
  | .newSlot r key val => do
      let (s, o) ← m.NewSlot s fuel r key val
      return (s, o.answer (fun _ => .flag true) (.flag false))

/-- Accesses up to the first that calls a metamethod. -/
def Machine.accesses (m : Machine) (fuel : Nat) : Store → List Access → Option (List Answer)
  | _, [] => some []
  | s, a :: as => do
      let (s, answer) ← m.access fuel s a
      match answer with
      | .called closure => return [.called closure]
      | answer => return answer :: (← m.accesses fuel s as)

/-- The answer, unless a metamethod was asked for. -/
def answered (w : World (Option Object)) (answer : Answer) : Answer := w.rest.elim answer .called

/-- An access to maps. -/
def accessMaps (referent : Ref → Object) (w : World (Option Object)) :
    Access → World (Option Object) × Answer
  | .get r key =>
      let (v, w) := Scope.Get (recorder referent) w (.table r) key
      (w, answered w (.value v))
  | .set r key val selfidx =>
      let (done, w) := Scope.Set (recorder referent) w (.table r) key val selfidx
      (w, answered w (.flag done))
  | .newSlot r key val =>
      let (done, w) := Scope.NewSlot (recorder referent) w (.table r) key val
      (w, answered w (.flag done))

def accessesMaps (referent : Ref → Object) : World (Option Object) → List Access → List Answer
  | _, [] => []
  | w, a :: as =>
      match accessMaps referent w a with
      | (_, .called closure) => [.called closure]
      | (w, answer) => answer :: accessesMaps referent w as

theorem Abstracts.answered (h : Abstracts m s w) (answer : Answer) :
    NullKey.answered w answer = answer := by
  rw [NullKey.answered, h.called]
  rfl

theorem answered_called {closure : Object} (h : w.rest = some closure) (answer : Answer) :
    answered w answer = .called closure := by
  rw [answered, h]
  rfl

/-- The answers of a read agree. -/
theorem Reads.answer {o : Outcome Object} {result : Option Object × World (Option Object)}
    (h : Abstracts m s w) (hreads : Reads o w result) :
    o.answer (fun v => .value (some v)) (.value none) = answered result.2 (.value result.1) ∧
      ((∀ closure, answered result.2 (.value result.1) ≠ .called closure) →
        Abstracts m s result.2 ∧ result.2.heap.size = w.heap.size) := by
  cases o with
  | ok v =>
      obtain rfl : result = (some v, w) := hreads
      exact ⟨(h.answered _).symm, fun _ => ⟨h, rfl⟩⟩
  | fails e =>
      obtain rfl : result = (none, w) := hreads
      exact ⟨(h.answered _).symm, fun _ => ⟨h, rfl⟩⟩
  | calls closure =>
      have hrest : result.2.rest = some closure := congrArg World.rest hreads
      have hcalled := answered_called hrest (.value result.1)
      exact ⟨hcalled.symm, fun hne => absurd hcalled (hne closure)⟩

/-- The answers of an assignment agree. -/
theorem Assigned.answer {o : Store × Outcome Unit} {result : Bool × World (Option Object)}
    (h : Abstracts m s w) (hassigned : Assigned m s w o result) :
    o.2.answer (fun _ => .flag true) (.flag false) = answered result.2 (.flag result.1) ∧
      ((∀ closure, answered result.2 (.flag result.1) ≠ .called closure) →
        Abstracts m o.1 result.2 ∧ result.2.heap.size = w.heap.size) := by
  obtain ⟨s', o⟩ := o
  cases o with
  | ok a =>
      obtain ⟨w', rfl, habstracts, hsize⟩ := hassigned
      exact ⟨(habstracts.answered _).symm, fun _ => ⟨habstracts, hsize⟩⟩
  | fails e =>
      obtain ⟨rfl, rfl⟩ := hassigned
      exact ⟨(h.answered _).symm, fun _ => ⟨h, rfl⟩⟩
  | calls closure =>
      have hcalled := answered_called hassigned (.flag result.1)
      exact ⟨hcalled.symm, fun hne => absurd hcalled (hne closure)⟩

theorem length_chain_le (r : Ref) : (w.heap.chain r).length ≤ w.heap.size + 1 :=
  length_trail_le ..

/-- An access to maps answers as the one to hash tables, which goes on from the tables that
represent them. -/
theorem access_refines (h : Abstracts m s w) {a : Access} (hkey : a.KeyNonNull) {fuel : Nat}
    (hfuel : w.heap.size + 2 ≤ fuel) :
    ∃ s', m.access fuel s a = some (s', (accessMaps m.referent w a).2) ∧
      ((∀ closure, (accessMaps m.referent w a).2 ≠ .called closure) →
        Abstracts m s' (accessMaps m.referent w a).1 ∧
          (accessMaps m.referent w a).1.heap.size = w.heap.size) := by
  obtain ⟨fuel, rfl⟩ := Nat.exists_eq_add_of_le' (Nat.le_of_add_left_le hfuel)
  cases a with
  | get r key =>
      have hchain := Nat.le_trans (length_chain_le (w := w) r) (Nat.le_of_succ_le hfuel)
      obtain ⟨o, ho, hreads⟩ :=
        Get_refines h hkey hchain (show ({} : GetFlags).raw = false from rfl)
      obtain ⟨hanswer, hafter⟩ := hreads.answer h
      refine ⟨s, ?_, hafter⟩
      simp only [Machine.access, ho, Option.bind_eq_bind, Option.bind_some, hanswer]
      rfl
  | set r key val selfidx =>
      have hchain := Nat.le_trans (length_chain_le (w := w) r) (Nat.le_of_succ_le hfuel)
      obtain ⟨o, ho, hassigned⟩ := Set_refines h hkey val selfidx hchain
      obtain ⟨hanswer, hafter⟩ := hassigned.answer h
      refine ⟨o.1, ?_, hafter⟩
      simp only [Machine.access, ho, Option.bind_eq_bind, Option.bind_some, hanswer]
      rfl
  | newSlot r key val =>
      obtain ⟨o, ho, hassigned⟩ := NewSlot_refines h hkey val r fuel
      obtain ⟨hanswer, hafter⟩ := hassigned.answer h
      refine ⟨o.1, ?_, hafter⟩
      simp only [Machine.access, ho, Option.bind_eq_bind, Option.bind_some, hanswer]
      rfl

/-- So do all accesses of a program. -/
theorem Abstracts.accesses (h : Abstracts m s w) {as : List Access}
    (hkeys : ∀ a ∈ as, a.KeyNonNull) {fuel : Nat} (hfuel : w.heap.size + 2 ≤ fuel) :
    m.accesses fuel s as = some (accessesMaps m.referent w as) := by
  induction as generalizing s w with
  | nil => rfl
  | cons a as ih =>
      obtain ⟨s', haccess, hafter⟩ := access_refines h (hkeys a List.mem_cons_self) hfuel
      unfold Machine.accesses accessesMaps
      rw [haccess]
      generalize accessMaps m.referent w a = result at hafter
      obtain ⟨w', answer⟩ := result
      have hrest (hnot : ∀ closure, answer ≠ .called closure) :
          m.accesses fuel s' as = some (accessesMaps m.referent w' as) := by
        obtain ⟨habstracts, hsize⟩ := hafter hnot
        exact ih habstracts (fun a ha => hkeys a (List.mem_cons_of_mem _ ha)) (hsize ▸ hfuel)
      cases answer with
      | called closure => rfl
      | value v => simp [hrest fun closure heq => by cases heq]
      | flag done => simp [hrest fun closure heq => by cases heq]

/-! ### The maps of a machine -/

/-- The map that a table stands for. -/
def contents (hash : Object → Nat) (t : Table) : Contents := fun key =>
  ((t._get key (t.mainPosition hash key)).bind id).map fun i => (t.nodes i).val

theorem represents_contents {hash : Object → Nat} {t : Table} (h : WellFormed hash t) :
    Represents hash t (contents hash t) where
  wellFormed := h
  stores key val hkey := by
    unfold contents
    rcases h.wired._get_eq h.pos hkey with ⟨i, hget, hi⟩ | ⟨hget, habsent⟩
    · rw [hget]
      constructor
      · rintro ⟨j, hj, rfl⟩
        have hij : i = j :=
          h.wired.nodup i j (fun hnull => hkey (hi.symm.trans hnull)) (hi.trans hj.symm)
        simp [hij]
      · intro hval
        exact ⟨i, hi, by simpa using hval⟩
    · rw [hget]
      constructor
      · rintro ⟨j, hj, -⟩
        exact absurd hj (habsent j)
      · intro hval
        cases hval

/-- The machine on maps for a machine on hash tables. -/
def Sound.world {hash : Object → Nat} (h : Sound hash s) {root : Ref} (hroot : root < s.size) :
    World (Option Object) where
  heap := {
    table r := { slots := contents hash (s.table r), delegate := s.delegate r }
    size := s.size
    closed := h.closed
    acyclic := h.acyclic }
  root := root
  root_lt := hroot
  rest := none

/-- **Reads, assignments and new slots do on hash tables what they do on maps.** In every store that
programs come to, a program of accesses with keys other than null ends, with the answers that it has
on the maps of the tables, up to the first access that calls a metamethod, which is the same. -/
theorem accesses_refine (hreachable : Reachable m.hash s) (hroot : m._roottable < s.size)
    (hdefaults : Represents m.hash m._table_ddel table_ddel) {as : List Access}
    (hkeys : ∀ a ∈ as, a.KeyNonNull) {fuel : Nat} (hfuel : s.size + 2 ≤ fuel) :
    m.accesses fuel s as = some (accessesMaps m.referent (hreachable.sound.world hroot) as) := by
  have habstracts : Abstracts m s (hreachable.sound.world hroot) :=
    { table := fun r => represents_contents (hreachable.sound.wellFormed r)
      delegate := rfl
      root := rfl
      defaults := hdefaults
      called := rfl }
  exact habstracts.accesses hkeys hfuel

/-- A table with native functions under some names. -/
theorem exists_represents (hash : Object → Nat) (names : List String) (n : Nat) :
    ∃ t, Represents hash t fun key =>
      (names.findIdx? fun name => key = .string (sc name)).map fun i => .nativeclosure (i + n) := by
  induction names generalizing n with
  | nil => exact ⟨_, create_represents 0⟩
  | cons name names ih =>
      obtain ⟨t, ht⟩ := ih (n + 1)
      obtain ⟨t', -, -, ht'⟩ := newSlot_represents ht
        (show Object.string (sc name) ≠ .null by simp) (.nativeclosure n) 0
      refine ⟨t', ht'.wellFormed, fun key v hkey => (ht'.stores key v hkey).trans ?_⟩
      rw [Function.update_apply, List.findIdx?_cons]
      by_cases heq : key = .string (sc name)
      · simp [heq]
      · simp only [heq, if_false, decide_false, Option.map_map, Bool.false_eq_true]
        simp [Function.comp_def, Nat.add_assoc, Nat.add_comm 1]

/-- Two tables, the second of which delegates to the first, where 1 stands for 10. -/
def twoTables : Store :=
  ([Action.create 0, .newSlot 0 (.integer 1) (.integer 10), .setDelegate 1 (some 0)].foldlM
    (fun (s : Store) a => s.act oneTable.hash 2 a) Store.init).getD Store.init

theorem reachable_twoTables : Reachable oneTable.hash twoTables := by
  have hcreate : Reachable oneTable.hash (Store.init.add (Table.create 0)) :=
    .act (a := .create 0) .init trivial (rfl : Store.init.act _ (0 + 2) _ = some _)
  have hnewSlot := Reachable.act (a := .newSlot 0 (.integer 1) (.integer 10)) hcreate
    ⟨by decide, by decide⟩ (rfl : Store.act oneTable.hash (0 + 2) _ _ = some _)
  exact .act (a := .setDelegate 1 (some 0)) hnewSlot ⟨by decide, by decide⟩
    (rfl : Store.act oneTable.hash (0 + 2) _ _ = some twoTables)

def someAccesses : List Access :=
  [.get 1 (.integer 1), .set 1 (.integer 1) (.integer 11) 1, .newSlot 1 (.integer 1) (.integer 12),
    .get 0 (.integer 1), .get 1 (.integer 1), .get 1 (.string (sc "rawget")), .get 1 (.integer 2)]

theorem accesses_refine_twoTables : ∃ ddel : Table,
    Represents oneTable.hash ddel table_ddel ∧
      { oneTable with _table_ddel := ddel }.accesses 4 twoTables someAccesses =
        some [.value (some (.integer 10)), .flag true, .flag true, .value (some (.integer 11)),
          .value (some (.integer 12)), .value (some (.nativeclosure 1)), .value none] := by
  obtain ⟨ddel, hddel⟩ := exists_represents oneTable.hash Scope.tableDefaultDelegate 0
  refine ⟨ddel, hddel, ?_⟩
  have hanswers := accesses_refine (m := { oneTable with _table_ddel := ddel }) reachable_twoTables
    (show 0 < twoTables.size by decide) hddel
    (show ∀ a ∈ someAccesses, a.KeyNonNull by simp [someAccesses, Access.KeyNonNull])
    (show twoTables.size + 2 ≤ 4 by decide)
  have hmaps : accessesMaps oneTable.referent
      (reachable_twoTables.sound.world (show 0 < twoTables.size by decide)) someAccesses =
        [.value (some (.integer 10)), .flag true, .flag true, .value (some (.integer 11)),
          .value (some (.integer 12)), .value (some (.nativeclosure 1)), .value none] := by
    decide +kernel
  exact hanswers.trans (congrArg some hmaps)

end GameScript.NullKey
