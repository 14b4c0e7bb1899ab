import Mathlib.Data.Set.Finite.Lattice
import GameScript.Scope.Modules
import GameScript.Lib.Counting

/-!
Who refers to what. A reference that is counted has a place: the slots, the keys and the delegate
of a table, the fields of another object, and outside of the objects the stack, the frames and
what native code holds. A closure's `_root` has none, it is a weak reference.

* `Spares.anchored`: what hangs on places that a step leaves alone is held after it as well.
* `anchored_drop`: what is held from the roots or from a cycle is not dropped.
* `freed_of_loose`: everything else is, once nothing is left to drop.
-/

namespace GameScript.Scope.Lifetime

open Relation Chain

/-! ### Objects -/

/-- A frame, with what `LeaveFrame` reads of it. -/
structure CallInfo where
  closure : Object
  prevstkbase : Nat
  prevtop : Nat

/-- The objects of a machine other than its tables, and what has been freed. -/
structure Objects where
  /-- What an object that is no table refers to: a closure to the variables it captured, an array
  to its elements, a thread to its stack. -/
  links : Object → List Object
  /-- `_stack`, with null where a slot is empty. -/
  stack : Nat → Object
  top : Nat
  stackbase : Nat
  /-- `_callsstack`, the outermost frame first. -/
  callsstack : List CallInfo
  /-- The registry, `_lasterror` and what else of the machine or the host holds an object. -/
  held : Nat → Object
  /-- The variables of the C++ functions that run; a collection does not mark them. -/
  locals : List Object
  closures : Nat
  /-- Objects that are neither tables nor closures. -/
  others : List Object
  /-- The table that the `_root` of a closure is a weak reference to. -/
  closureRoot : Ref → Ref
  /-- The scope of the module a closure has its code from. -/
  module : Ref → Option Ref
  /-- The scope of the module whose code made a closure; the body of a module is made by none. -/
  origin : Ref → Option Ref
  freed : List Object

namespace Objects

variable (o : Objects)

/-- A variable of a C++ function gets the object. -/
def keep (x : Object) : Objects := { o with locals := o.locals ++ [x] }

/-- `GSClosure::Create`. -/
def newClosure (root : Ref) (module origin : Option Ref) (links : List Object) : Objects :=
  { o with
    closures := o.closures + 1
    links := Function.update o.links (.closure o.closures) links
    closureRoot := Function.update o.closureRoot o.closures root
    module := Function.update o.module o.closures module
    origin := Function.update o.origin o.closures origin
    locals := o.locals ++ [.closure o.closures] }

/-- `EnterFrame`. -/
def EnterFrame (closure : Object) (newbase newtop : Nat) : Objects :=
  { o with
    callsstack := o.callsstack ++ [⟨closure, newbase - o.stackbase, o.top - o.stackbase⟩]
    stackbase := newbase
    top := newtop }

/-- `_stackbase` and `_top` after `LeaveFrame`. -/
def leftTo (ci : CallInfo) : Nat × Nat :=
  (o.stackbase - ci.prevstkbase, o.stackbase - ci.prevstkbase + ci.prevtop)

/-- `LeaveFrame`, which clears the stack from the new top to the old one. -/
def LeaveFrame : Objects :=
  match o.callsstack.getLast? with
  | none => o
  | some ci =>
      { o with
        callsstack := o.callsstack.dropLast
        stackbase := (o.leftTo ci).1
        top := (o.leftTo ci).2
        stack := fun i => if (o.leftTo ci).2 ≤ i ∧ i ≤ o.top then .null else o.stack i }

end Objects

/-! ### Places -/

/-- Where a counted reference is. -/
inductive Place where
  | slot (r : Ref) (key : Object)
  | key (r : Ref) (key : Object)
  | delegate (r : Ref)
  | link (x : Object) (i : Nat)
  | roottable
  | stack (i : Nat)
  | frame (i : Nat)
  | held (i : Nat)
  | var (i : Nat)

/-- The object a place is in; none where it is of the machine. -/
def Place.owner : Place → Option Object
  | .slot r _ | .key r _ | .delegate r => some (.table r)
  | .link x _ => some x
  | _ => none

section

variable (w : World Objects)

/-- What the reference at a place is to. -/
def referent : Place → Option Object
  | .slot r key => (w.heap.table r).slots key
  | .key r key => ((w.heap.table r).slots key).map fun _ => key
  | .delegate r => (w.heap.delegate r).map .table
  | .link x i => (w.rest.links x)[i]?
  | .roottable => some (.table w.root)
  | .stack i => some (w.rest.stack i)
  | .frame i => w.rest.callsstack[i]?.map (·.closure)
  | .held i => some (w.rest.held i)
  | .var i => w.rest.locals[i]?

def Allocated : Object → Prop
  | .table r => r < w.heap.size
  | .closure c => c < w.rest.closures
  | x => x ∈ w.rest.others

def Live (x : Object) : Prop := Allocated w x ∧ x ∉ w.rest.freed

/-- The object `a` has a reference to `b` at a place that is not taken from it. -/
def Refers (taken : Place → Prop) (a b : Object) : Prop :=
  Live w a ∧ ∃ p, p.owner = some a ∧ ¬ taken p ∧ referent w p = some b

/-- The machine has a reference to `x` at a place that is not taken from it. -/
def IsRoot (taken : Place → Prop) (x : Object) : Prop :=
  ∃ p, p.owner = none ∧ ¬ taken p ∧ referent w p = some x

/-- Reached from the machine or from a cycle of references, by places that are not taken. -/
def Anchored (taken : Place → Prop) (x : Object) : Prop :=
  Counting.Anchored (Refers w taken) (IsRoot w taken) x

/-- No place. -/
def nowhere (_ : Place) : Prop := False

/-- What `Mark` starts from: all but the variables of C++ functions. -/
def IsMarked (x : Object) : Prop := IsRoot w (fun p => ∃ i, p = .var i) x

/-- What a collection keeps. -/
def Reachable (x : Object) : Prop :=
  ∃ r, IsMarked w r ∧ ReflTransGen (Refers w nowhere) r x

/-- `_root->_obj` of a closure. -/
def scopeOf (c : Ref) : Option Ref :=
  let r := w.rest.closureRoot c
  if .table r ∈ w.rest.freed then none else some r

end

variable {w w' w'' : World Objects} {taken taken' : Place → Prop} {x y a b : Object}

theorem Anchored.mono (h : Anchored w taken x) (hle : ∀ p, taken' p → taken p) :
    Anchored w taken' x := by
  apply Counting.Anchored.mono h
  · rintro a b ⟨hlive, p, howner, hp, hb⟩
    exact ⟨hlive, p, howner, mt (hle p) hp, hb⟩
  · rintro a ⟨p, howner, hp, ha⟩
    exact ⟨p, howner, mt (hle p) hp, ha⟩

/-- An object with a reference to itself. -/
theorem Anchored.of_own {p : Place} (hlive : Live w x) (howner : p.owner = some x)
    (hp : ¬ taken p) (hx : referent w p = some x) : Anchored w taken x :=
  Counting.Anchored.of_self ⟨hlive, p, howner, hp, hx⟩

/-! ### Steps that take some references -/

/-- From `w` to `w'` nothing is freed, only the places `taken` are emptied or changed, and the
closures are what they were. -/
structure Spares (taken : Place → Prop) (w w' : World Objects) : Prop where
  live : ∀ x, Live w x → Live w' x
  keeps : ∀ p x, (∀ a, p.owner = some a → Live w a) → ¬ taken p → referent w p = some x →
    referent w' p = some x
  size : w.heap.size ≤ w'.heap.size
  freed : w'.rest.freed = w.rest.freed
  root : ∀ c, Live w (.closure c) → w'.rest.closureRoot c = w.rest.closureRoot c
  origin : ∀ c, Live w (.closure c) → w'.rest.origin c = w.rest.origin c

theorem Spares.refl (w : World Objects) : Spares taken w w :=
  ⟨fun _ hx => hx, fun _ _ _ _ hx => hx, Nat.le_refl _, rfl, fun _ _ => rfl, fun _ _ => rfl⟩

/-- Places that hold nothing lose nothing. -/
theorem Spares.unless (h : Spares taken w w') (hle : ∀ p x,
      (∀ a, p.owner = some a → Live w a) → taken p → referent w p = some x → taken' p) :
    Spares taken' w w' := by
  refine ⟨h.live, fun p x howner hp hx => h.keeps p x howner ?_ hx, h.size, h.freed, h.root,
    h.origin⟩
  exact fun htaken => hp (hle p x howner htaken hx)

theorem Spares.trans (h : Spares taken w w') (h' : Spares taken w' w'') : Spares taken w w'' where
  live x hx := h'.live x (h.live x hx)
  keeps p x howner hp hx :=
    h'.keeps p x (fun a ha => h.live a (howner a ha)) hp (h.keeps p x howner hp hx)
  size := Nat.le_trans h.size h'.size
  freed := h'.freed.trans h.freed
  root c hc := (h'.root c (h.live _ hc)).trans (h.root c hc)
  origin c hc := (h'.origin c (h.live _ hc)).trans (h.origin c hc)

/-- What hangs on places that are not taken is held afterwards. -/
theorem Spares.anchored (h : Spares taken w w') (hx : Anchored w taken x) :
    Anchored w' nowhere x := by
  apply Counting.Anchored.mono hx
  · rintro a b ⟨hlive, p, howner, hp, hb⟩
    refine ⟨h.live a hlive, p, howner, not_false, h.keeps p b ?_ hp hb⟩
    rintro a' ha'
    obtain rfl := Option.some.inj (howner.symm.trans ha')
    exact hlive
  · rintro a ⟨p, howner, hp, ha⟩
    refine ⟨p, howner, not_false, h.keeps p a ?_ hp ha⟩
    intro a' ha'
    rw [howner] at ha'
    cases ha'

/-- A step that changes nothing but what is no table. -/
theorem spares_rest {o : Objects} (hclosures : w.rest.closures ≤ o.closures)
    (hothers : ∀ x ∈ w.rest.others, x ∈ o.others) (hfreed : o.freed = w.rest.freed)
    (hroot : ∀ c < w.rest.closures, o.closureRoot c = w.rest.closureRoot c)
    (horigin : ∀ c < w.rest.closures, o.origin c = w.rest.origin c)
    (hlinks : ∀ x i b, Live w x → ¬ taken (.link x i) → (w.rest.links x)[i]? = some b →
      (o.links x)[i]? = some b)
    (hstack : ∀ i, ¬ taken (.stack i) → o.stack i = w.rest.stack i)
    (hframe : ∀ i ci, ¬ taken (.frame i) → w.rest.callsstack[i]? = some ci →
      o.callsstack[i]? = some ci)
    (hheld : ∀ i, ¬ taken (.held i) → o.held i = w.rest.held i)
    (hvar : ∀ i b, ¬ taken (.var i) → w.rest.locals[i]? = some b → o.locals[i]? = some b) :
    Spares taken w (w.withRest o) := by
  refine ⟨?_, fun p x howner hp hx => ?_, Nat.le_refl _, hfreed, fun c hc => hroot c hc.1,
    fun c hc => horigin c hc.1⟩
  · rintro x ⟨halloc, hnot⟩
    refine ⟨?_, fun hmem => hnot (hfreed ▸ hmem)⟩
    cases x with
    | table r => exact halloc
    | closure c => exact Nat.lt_of_lt_of_le halloc hclosures
    | _ => exact hothers _ halloc
  · cases p with
    | link a i => exact hlinks a i x (howner a rfl) hp hx
    | stack i => exact (congrArg some (hstack i hp)).trans hx
    | frame i =>
        obtain ⟨ci, hci, rfl⟩ := Option.map_eq_some_iff.mp hx
        exact Option.map_eq_some_iff.mpr ⟨ci, hframe i ci hp hci, rfl⟩
    | held i => exact (congrArg some (hheld i hp)).trans hx
    | var i => exact hvar i x hp hx
    | _ => exact hx

/-- `Spares` where only tables change. -/
structure TablesOnly (taken : Place → Prop) (w w' : World Objects) : Prop
    extends Spares taken w w' where
  rest : w'.rest = w.rest

theorem TablesOnly.refl (w : World Objects) : TablesOnly taken w w := ⟨.refl w, rfl⟩

theorem TablesOnly.trans (h : TablesOnly taken w w') (h' : TablesOnly taken w' w'') :
    TablesOnly taken w w'' :=
  ⟨h.toSpares.trans h'.toSpares, h'.rest.trans h.rest⟩

theorem TablesOnly.unless (h : TablesOnly taken w w') (hle : ∀ p x,
      (∀ a, p.owner = some a → Live w a) → taken p → referent w p = some x → taken' p) :
    TablesOnly taken' w w' :=
  ⟨h.toSpares.unless hle, h.rest⟩

/-- A step that changes nothing but the tables. -/
theorem spares_heap (hsize : w.heap.size ≤ w'.heap.size) (hroot : w'.root = w.root)
    (hrest : w'.rest = w.rest)
    (hslot : ∀ r key b, r < w.heap.size → ¬ taken (.slot r key) →
      (w.heap.table r).slots key = some b → (w'.heap.table r).slots key = some b)
    (hkey : ∀ r key b, r < w.heap.size → ¬ taken (.key r key) →
      (w.heap.table r).slots key = some b → ∃ b', (w'.heap.table r).slots key = some b')
    (hdelegate : ∀ r d, r < w.heap.size → ¬ taken (.delegate r) → w.heap.delegate r = some d →
      w'.heap.delegate r = some d) : TablesOnly taken w w' := by
  refine ⟨⟨?_, fun p x howner hp hx => ?_, hsize, congrArg Objects.freed hrest,
    fun c _ => congrFun (congrArg Objects.closureRoot hrest) c,
    fun c _ => congrFun (congrArg Objects.origin hrest) c⟩, hrest⟩
  · rintro x ⟨halloc, hfreed⟩
    rw [← hrest] at hfreed
    refine ⟨?_, hfreed⟩
    cases x with
    | table r => exact Nat.lt_of_lt_of_le halloc hsize
    | _ =>
        simp only [Allocated, hrest] at halloc ⊢
        exact halloc
  · cases p with
    | slot r key => exact hslot r key x (howner _ rfl).1 hp hx
    | key r key =>
        obtain ⟨b, hb, rfl⟩ := Option.map_eq_some_iff.mp hx
        obtain ⟨b', hb'⟩ := hkey r key b (howner _ rfl).1 hp hb
        exact Option.map_eq_some_iff.mpr ⟨b', hb', rfl⟩
    | delegate r =>
        obtain ⟨d, hd, rfl⟩ := Option.map_eq_some_iff.mp hx
        exact Option.map_eq_some_iff.mpr ⟨d, hdelegate r d (howner _ rfl).1 hp hd, rfl⟩
    | roottable =>
        simp only [referent, hroot] at hx ⊢
        exact hx
    | _ =>
        simp only [referent, hrest] at hx ⊢
        exact hx

/-! ### What is freed -/

/-- Some objects are freed. What they refer to is let go with them. -/
def free (w : World Objects) (xs : List Object) : World Objects :=
  w.withRest { w.rest with freed := xs ++ w.rest.freed }

/-- Nothing refers to the object. -/
def Droppable (w : World Objects) (x : Object) : Prop :=
  Live w x ∧ ¬ IsRoot w nowhere x ∧ ∀ y, ¬ Refers w nowhere y x

variable {xs : List Object}

theorem allocated_free : Allocated (free w xs) x ↔ Allocated w x := by
  cases x <;> exact Iff.rfl

theorem live_free : Live (free w xs) x ↔ Live w x ∧ x ∉ xs := by
  rw [Live, Live, allocated_free, and_assoc]
  change _ ∧ x ∉ xs ++ w.rest.freed ↔ _
  rw [List.mem_append, not_or, and_comm (a := x ∉ xs)]

theorem referent_free (p : Place) : referent (free w xs) p = referent w p := by
  cases p <;> rfl

theorem refers_free : Refers (free w xs) taken a b ↔ Refers w taken a b ∧ a ∉ xs := by
  simp only [Refers, live_free, referent_free]
  tauto

theorem isRoot_free : IsRoot (free w xs) taken x ↔ IsRoot w taken x := by
  simp only [IsRoot, referent_free]

/-- What is anchored is not dropped, and stays anchored. -/
theorem anchored_drop (hx : Droppable w x) (hy : Anchored w nowhere y) :
    y ≠ x ∧ Anchored (free w [x]) nowhere y := by
  constructor
  · rintro rfl
    rcases hy.holder with hroot | ⟨z, hz⟩
    · exact hx.2.1 hroot
    · exact hx.2.2 z hz
  · apply (hy.without hx.2.1 hx.2.2).mono
    · rintro a b ⟨hne, hab⟩
      exact refers_free.mpr ⟨hab, by simpa using hne⟩
    · exact fun _ hroot => isRoot_free.mpr hroot

/-- What is reachable stays so when other objects are freed. -/
theorem reachable_free (hfreed : ∀ x ∈ xs, ¬ Reachable w x) (hx : Reachable w x) :
    Reachable (free w xs) x := by
  obtain ⟨r, hr, hreach⟩ := hx
  refine ⟨r, isRoot_free.mpr hr, ?_⟩
  induction hreach with
  | refl => exact .refl
  | @tail b c hrb hbc ih =>
      have hb : b ∉ xs := fun hmem => hfreed b hmem ⟨r, hr, hrb⟩
      exact ih.tail (refers_free.mpr ⟨hbc, hb⟩)

theorem Reachable.anchored (h : Reachable w x) : Anchored w nowhere x := by
  obtain ⟨r, ⟨p, howner, -, hr⟩, hreach⟩ := h
  exact .inl ⟨r, ⟨p, howner, not_false, hr⟩, hreach⟩

/-- To free objects anchors nothing. -/
theorem anchored_of_free (h : Anchored (free w xs) nowhere x) : Anchored w nowhere x :=
  Counting.Anchored.mono h (fun _ _ hab => (refers_free.mp hab).1) fun _ => isRoot_free.mp

/-- Once nothing is left to drop, all that is alive is anchored. -/
theorem anchored_of_dropped (hdone : ∀ x, ¬ Droppable w x) (hx : Live w x) :
    Anchored w nowhere x := by
  have hfinite : {x | Live w x}.Finite := by
    apply Set.Finite.subset (((Set.finite_lt_nat w.heap.size).image Object.table).union
      (((Set.finite_lt_nat w.rest.closures).image Object.closure).union
        (List.finite_toSet w.rest.others)))
    rintro x ⟨halloc, -⟩
    cases x with
    | table r => exact .inl ⟨r, halloc, rfl⟩
    | closure c => exact .inr (.inl ⟨c, halloc, rfl⟩)
    | _ => exact .inr (.inr halloc)
  apply Counting.anchored_of_settled hfinite _ x hx
  intro y hy
  by_contra hheld
  push Not at hheld
  exact hdone y ⟨hy, hheld.1, fun z hz => hheld.2 z hz.1 hz⟩

/-- What is reached neither from the machine nor from a cycle is gone when no object is left that
nothing refers to. -/
theorem freed_of_loose (hx : ¬ Anchored w nowhere x)
    (h : ReflTransGen (fun w w' => ∃ y, Droppable w y ∧ w' = free w [y]) w w')
    (hdone : ∀ y, ¬ Droppable w' y) : ¬ Live w' x := by
  intro hlive
  apply hx
  have hanchored := anchored_of_dropped hdone hlive
  clear hdone hlive hx
  induction h using ReflTransGen.head_induction_on with
  | refl => exact hanchored
  | head hstep _ ih =>
      obtain ⟨y, -, rfl⟩ := hstep
      exact anchored_of_free ih

end GameScript.Scope.Lifetime
