import GameScript.Object
import GameScript.Lib.Marking

/-!
The garbage collector: the `Mark` methods of `GSobject.cpp` and `RunMark` and `CollectGarbage` of
`GSstate.cpp`.

An object is what it refers to. References are counted, so the collector is there for cycles:
it finalizes what the roots do not reach, and what loses its last reference meanwhile is finalized
by its destructor.
-/

namespace GameScript.Collector

open Marking

/-! ### Objects -/

/-- `GSClassMember`. -/
structure ClassMember where
  val : Object
  attrs : Object

/-- A collectable object, as far as it refers to others. The references to weak references that
a closure has as its `_env` and `_root` do not keep what these refer to. -/
inductive Collectable where
  | table (delegate : Option Ref) (nodes : List (Object × Object))
  | array (values : List Object)
  | userdata (delegate : Option Ref)
  | closure (base : Option Ref) (function : Ref) (outervalues defaultparams : List Object)
  | nativeclosure (outervalues : List Object)
  /-- `ciClosure` is the closure of the saved frame `_ci`. -/
  | generator (closure : Object) (stack : List Object) (ciClosure : Object)
  | thread (lasterror errorhandler debughook_closure roottable temp_reg : Object)
      (stack callsstack : List Object) (openouters : List Ref)
  | «class» (members : Ref) (base : Option Ref) (attributes : Object)
      (defaultvalues methods : List ClassMember) (metamethods : List Object)
  | «instance» (cls : Ref) (values : List Object)
  /-- `valptr` is the slot of the stack of a thread, as long as the variable lives there. -/
  | outer (valptr : Option (Ref × Nat)) (value : Object)
  | funcproto (literals functions : List Object)

/-- The object that `MarkObject` marks. -/
def markObject : Object → Option Ref
  | .table p | .array p | .userdata p | .closure p | .nativeclosure p | .generator p | .thread p
  | .class p | .instance p | .outer p | .funcproto p => some p
  | .null | .integer _ | .float _ | .bool _ | .string _ | .userpointer _ | .weakref _ => none

def markObjects (os : List Object) : List Ref := os.filterMap markObject

def memberObjects (ms : List ClassMember) : List Object := ms.flatMap fun m => [m.val, m.attrs]

/-- The number of default values of a class. -/
def nvalues : Collectable → Nat
  | .class _ _ _ defaultvalues _ _ => defaultvalues.length
  | _ => 0

/-- What `Mark` of an object marks, in turn. -/
def markNext (obj : Ref → Collectable) (r : Ref) : List Ref :=
  match obj r with
  | .table delegate nodes => delegate.toList ++ markObjects (nodes.flatMap fun n => [n.1, n.2])
  | .array values => markObjects values
  | .userdata delegate => delegate.toList
  | .closure base function outervalues defaultparams =>
      base.toList ++ function :: markObjects (outervalues ++ defaultparams)
  | .nativeclosure outervalues => markObjects outervalues
  | .generator closure stack _ => markObjects (stack ++ [closure])
  | .thread lasterror errorhandler debughook_closure roottable temp_reg stack callsstack _ =>
      markObjects ([lasterror, errorhandler, debughook_closure, roottable, temp_reg] ++ stack ++
        callsstack)
  | .class members base attributes defaultvalues methods metamethods =>
      members :: base.toList ++ markObjects (attributes :: memberObjects defaultvalues ++
        memberObjects methods ++ metamethods)
  | .instance cls values => cls :: markObjects (values.take (nvalues (obj cls)))
  | .outer none value => markObjects [value]
  | .outer (some _) _ => []
  | .funcproto literals functions => markObjects (literals ++ functions)

/-- The references an object counts. -/
def strong : Collectable → List Ref
  | .table delegate nodes => delegate.toList ++ markObjects (nodes.map (·.1) ++ nodes.map (·.2))
  | .array values => markObjects values
  | .userdata delegate => delegate.toList
  | .closure base function outervalues defaultparams =>
      base.toList ++ function :: markObjects (outervalues ++ defaultparams)
  | .nativeclosure outervalues => markObjects outervalues
  | .generator closure stack ciClosure => markObjects (closure :: ciClosure :: stack)
  | .thread lasterror errorhandler debughook_closure roottable temp_reg stack callsstack openouters =>
      markObjects (stack ++ callsstack ++
        [lasterror, errorhandler, debughook_closure, roottable, temp_reg]) ++ openouters
  | .class members base attributes defaultvalues methods metamethods =>
      members :: base.toList ++ markObjects (attributes :: memberObjects defaultvalues ++
        memberObjects methods ++ metamethods)
  | .instance cls values => cls :: markObjects values
  | .outer _ value => markObjects [value]
  | .funcproto literals functions => markObjects (literals ++ functions)

/-- The value of the variable of an outer that is open. -/
def openValue (obj : Ref → Collectable) (r : Ref) : List Ref :=
  match obj r with
  | .outer (some (t, i)) _ =>
      match obj t with
      | .thread _ _ _ _ _ stack _ _ => markObjects stack[i]?.toList
      | _ => []
  | _ => []

/-- The references that are counted and not marked: that of the saved frame of a generator, and
those of a thread to its open outers. -/
def hidden (obj : Ref → Collectable) (r : Ref) : List Ref :=
  match obj r with
  | .generator _ _ ciClosure => markObjects [ciClosure]
  | .thread _ _ _ _ _ _ _ openouters => openouters
  | _ => []

/-! ### The machine -/

/-- The references of `GSSharedState`. -/
structure SharedState where
  root_vm : Object
  refs_table : List Object
  registry : Object
  consts : Object
  metamethodsmap : Object
  table_default_delegate : Object
  array_default_delegate : Object
  string_default_delegate : Object
  number_default_delegate : Object
  generator_default_delegate : Object
  thread_default_delegate : Object
  closure_default_delegate : Object
  class_default_delegate : Object
  instance_default_delegate : Object
  weakref_default_delegate : Object

/-- What `RunMark` marks, in turn. -/
def SharedState.roots (ss : SharedState) : List Ref :=
  markObjects ([ss.root_vm] ++ ss.refs_table ++
    [ss.registry, ss.consts, ss.metamethodsmap, ss.table_default_delegate,
      ss.array_default_delegate, ss.string_default_delegate, ss.number_default_delegate,
      ss.generator_default_delegate, ss.thread_default_delegate, ss.closure_default_delegate,
      ss.class_default_delegate, ss.instance_default_delegate, ss.weakref_default_delegate])

/-- A machine with its objects, all of which are on `_gc_chain`. What is referred to is there, an
instance has a value for each default value of its class, and an outer that is open is one of the
open outers of a thread and has no value of its own yet. -/
structure Machine where
  ss : SharedState
  obj : Ref → Collectable
  gc_chain : List Ref
  nodup : gc_chain.Nodup
  roots_mem : ∀ r ∈ ss.roots, r ∈ gc_chain
  strong_mem : ∀ r ∈ gc_chain, ∀ x ∈ strong (obj r), x ∈ gc_chain
  values_le : ∀ r ∈ gc_chain, ∀ cls values, obj r = .instance cls values →
    values.length ≤ nvalues (obj cls)
  open_outer : ∀ r ∈ gc_chain, ∀ t i value, obj r = .outer (some (t, i)) value →
    t ∈ gc_chain ∧ r ∈ hidden obj t ∧ value = .null

namespace Machine

variable (s : Machine)

/-- `RunMark`. -/
def RunMark : Option (Marks Ref) :=
  visitAll (markNext s.obj) (s.gc_chain.length + 1) s.ss.roots
    { flagged := [], chain := s.gc_chain, kept := [] }

/-- What the sweep has finalized: an object left on the chain, or one that no root and no object
but those finalized refers to any more, which its destructor finalizes. A thread that is
finalized closes its outers, which gives them a reference more. -/
inductive Sweep (garbage : List Ref) : List Ref → Prop
  | start : Sweep garbage []
  | finalize {done : List Ref} {r : Ref} : Sweep garbage done → r ∈ garbage →
      Sweep garbage (r :: done)
  | release {done : List Ref} {r : Ref} : Sweep garbage done → r ∉ s.ss.roots →
      (∀ x ∈ s.gc_chain, r ∈ strong (s.obj x) → x ∈ done) → Sweep garbage (r :: done)

/-- `CollectGarbage` finalizes the objects `finalized`. -/
def CollectGarbage (finalized : List Ref) : Prop :=
  ∃ marks, s.RunMark = some marks ∧ s.Sweep marks.chain finalized ∧
    ∀ r ∈ marks.chain, r ∈ finalized

/-- Reached from the roots through references; a closure reaches the value of every variable it
captured. -/
def Reachable (r : Ref) : Prop :=
  ReachFrom (fun r => strong (s.obj r) ++ openValue s.obj r) s.ss.roots r

/-- Reached from the roots through references, other than those of saved frames and of threads to
their open outers. -/
def Held (r : Ref) : Prop := ReachFrom (markNext s.obj) s.ss.roots r

/-! ### Marking -/

variable {s}

theorem mem_markObjects {os : List Object} {r : Ref} :
    r ∈ markObjects os ↔ ∃ o ∈ os, markObject o = some r := List.mem_filterMap

theorem mem_markObjects_append {os os' : List Object} {r : Ref} :
    r ∈ markObjects (os ++ os') ↔ r ∈ markObjects os ∨ r ∈ markObjects os' := by
  rw [markObjects, List.filterMap_append, List.mem_append]
  rfl

/-- Everything that is marked is a reference that is counted. -/
theorem strong_of_markNext {r x : Ref} (h : x ∈ markNext s.obj r) : x ∈ strong (s.obj r) := by
  rw [markNext] at h
  cases hr : s.obj r with
  | table delegate nodes =>
      rw [hr] at h
      simp only [strong, List.mem_append, mem_markObjects, List.mem_flatMap] at h ⊢
      rcases h with h | ⟨o, ⟨n, hn, ho⟩, hmark⟩
      · exact .inl h
      · right
        refine ⟨o, ?_, hmark⟩
        simp only [List.mem_cons, List.not_mem_nil, or_false] at ho
        rcases ho with rfl | rfl
        · exact .inl (List.mem_map_of_mem hn)
        · exact .inr (List.mem_map_of_mem hn)
  | generator closure stack ciClosure =>
      rw [hr] at h
      simp only [strong, mem_markObjects] at h ⊢
      obtain ⟨o, ho, hmark⟩ := h
      refine ⟨o, ?_, hmark⟩
      simp only [List.mem_append, List.mem_cons, List.not_mem_nil, or_false] at ho ⊢
      tauto
  | thread lasterror errorhandler debughook_closure roottable temp_reg stack callsstack openouters =>
      rw [hr] at h
      simp only [strong, List.mem_append, mem_markObjects_append] at h ⊢
      tauto
  | «instance» cls values =>
      rw [hr] at h
      simp only [strong, List.mem_cons, mem_markObjects] at h ⊢
      rcases h with h | ⟨o, ho, hmark⟩
      · exact .inl h
      · exact .inr ⟨o, List.mem_of_mem_take ho, hmark⟩
  | outer valptr value =>
      rw [hr] at h
      cases valptr with
      | none => exact h
      | some p => cases h
  | _ =>
      rw [hr] at h
      exact h

/-- A reference that is counted is marked, but for those of saved frames and to open outers. -/
theorem markNext_of_strong {r x : Ref} (hr : r ∈ s.gc_chain) (h : x ∈ strong (s.obj r)) :
    x ∈ markNext s.obj r ∨ x ∈ hidden s.obj r := by
  rw [markNext, hidden]
  cases hobj : s.obj r with
  | table delegate nodes =>
      left
      rw [hobj] at h
      simp only [strong, List.mem_append, mem_markObjects, List.mem_map, List.mem_flatMap] at h ⊢
      rcases h with h | ⟨o, ⟨n, hn, rfl⟩ | ⟨n, hn, rfl⟩, hmark⟩
      · exact .inl h
      · exact .inr ⟨n.1, ⟨n, hn, List.mem_cons_self⟩, hmark⟩
      · exact .inr ⟨n.2, ⟨n, hn, List.mem_cons_of_mem _ List.mem_cons_self⟩, hmark⟩
  | generator closure stack ciClosure =>
      rw [hobj] at h
      simp only [strong, mem_markObjects] at h ⊢
      obtain ⟨o, ho, hmark⟩ := h
      simp only [List.mem_append, List.mem_cons, List.not_mem_nil, or_false] at ho ⊢
      rcases ho with rfl | rfl | ho
      · exact .inl ⟨_, .inr rfl, hmark⟩
      · exact .inr ⟨_, rfl, hmark⟩
      · exact .inl ⟨o, .inl ho, hmark⟩
  | thread lasterror errorhandler debughook_closure roottable temp_reg stack callsstack openouters =>
      rw [hobj] at h
      simp only [strong, List.mem_append, mem_markObjects_append] at h ⊢
      tauto
  | «instance» cls values =>
      left
      have hall := List.take_of_length_le (s.values_le r hr cls values hobj)
      rw [hobj] at h
      simp only [hall]
      exact h
  | outer valptr value =>
      rw [hobj] at h
      cases valptr with
      | none => exact .inl h
      | some p =>
          have hnull := (s.open_outer r hr p.1 p.2 value hobj).2.2
          rw [hnull] at h
          cases h
  | _ =>
      left
      rw [hobj] at h
      exact h

theorem markNext_mem {r x : Ref} (hr : r ∈ s.gc_chain) (h : x ∈ markNext s.obj r) :
    x ∈ s.gc_chain := s.strong_mem r hr x (strong_of_markNext h)

theorem Held.mem {r : Ref} (h : s.Held r) : r ∈ s.gc_chain :=
  ReachFrom.induct s.roots_mem (fun _ ha _ hb => markNext_mem ha hb) h

/-- Marking comes to an end, and leaves on the chain what is not held. -/
theorem RunMark_eq (s : Machine) : ∃ marks, s.RunMark = some marks ∧
    (∀ r, r ∈ marks.chain ↔ r ∈ s.gc_chain ∧ ¬ s.Held r) ∧ ∀ r, r ∈ marks.kept ↔ s.Held r := by
  have hpool : ∀ r ∈ s.gc_chain.toFinset, ∀ x ∈ markNext s.obj r, x ∈ s.gc_chain.toFinset := by
    intro r hr x hx
    rw [List.mem_toFinset] at hr ⊢
    exact markNext_mem hr hx
  have hroots : ∀ r ∈ s.ss.roots, r ∈ s.gc_chain.toFinset := by
    intro r hr
    exact List.mem_toFinset.mpr (s.roots_mem r hr)
  have hcard : s.gc_chain.toFinset.card < s.gc_chain.length + 1 :=
    Nat.lt_succ_of_le (List.toFinset_card_le _)
  obtain ⟨marks, heq, -, hchain, hkept⟩ := visitAll_spec hpool s.nodup hroots hcard
  exact ⟨marks, heq, hchain, hkept⟩

/-! ### What is finalized -/

/-- What is held is not finalized. -/
theorem Sweep.not_held {garbage done : List Ref} (h : s.Sweep garbage done)
    (hgarbage : ∀ r ∈ garbage, ¬ s.Held r) : ∀ r ∈ done, ¬ s.Held r := by
  induction h with
  | start =>
      intro r hr
      cases hr
  | finalize _ hr ih =>
      intro x hx
      rcases List.mem_cons.mp hx with rfl | hx
      · exact hgarbage x hr
      · exact ih x hx
  | release _ hroot hholders ih =>
      intro x hx
      rcases List.mem_cons.mp hx with rfl | hx
      · intro hheld
        rcases hheld.root_or_next with hroot' | ⟨p, hp, hpx⟩
        · exact hroot hroot'
        · -- what marked it is held and refers to it
          exact ih p (hholders p (Held.mem hp) (strong_of_markNext hpx)) hp
      · exact ih x hx

theorem sweep_of_subset {garbage done : List Ref} (h : ∀ r ∈ done, r ∈ garbage) :
    s.Sweep garbage done := by
  induction done with
  | nil => exact .start
  | cons r done ih =>
      have hdone := ih fun x hx => h x (List.mem_cons_of_mem r hx)
      exact .finalize hdone (h r List.mem_cons_self)

theorem Held.reachable {r : Ref} (h : s.Held r) : s.Reachable r := by
  apply ReachFrom.induct (P := s.Reachable) _ _ h
  · intro a ha
    exact .root ha
  · intro a ha b hb
    exact ha.step (List.mem_append_left _ (strong_of_markNext hb))

theorem Reachable.mem {r : Ref} (h : s.Reachable r) : r ∈ s.gc_chain := by
  apply ReachFrom.induct s.roots_mem _ h
  intro a ha b hb
  rcases List.mem_append.mp hb with hb | hb
  · exact s.strong_mem a ha b hb
  · -- the variable is on the stack of a thread there is
    simp only [openValue] at hb
    split at hb
    · next t i value hobj =>
        have ht := (s.open_outer a ha t i value hobj).1
        split at hb
        · next hthread =>
            apply s.strong_mem t ht
            obtain ⟨o, ho, hmark⟩ := mem_markObjects.mp hb
            rw [hthread, strong]
            apply List.mem_append_left
            apply mem_markObjects.mpr
            refine ⟨o, ?_, hmark⟩
            simp [List.mem_of_getElem? (Option.mem_toList.mp ho)]
        · cases hb
    · cases hb

theorem strong_of_hidden {r x : Ref} (h : x ∈ hidden s.obj r) : x ∈ strong (s.obj r) := by
  rw [hidden] at h
  split at h
  · next closure stack ciClosure hobj =>
      rw [hobj, strong]
      obtain ⟨o, ho, hmark⟩ := mem_markObjects.mp h
      rw [List.mem_singleton.mp ho] at hmark
      exact mem_markObjects.mpr ⟨ciClosure, by simp, hmark⟩
  · next hobj =>
      rw [hobj, strong]
      exact List.mem_append_right _ h
  · cases h

/-- What is reachable is held when what is held refers to nothing else through open outers, saved
frames and lists of open outers. -/
theorem reachable_held_iff : (∀ r, s.Reachable r → s.Held r) ↔
    ∀ r, s.Held r → ∀ x ∈ openValue s.obj r ++ hidden s.obj r, s.Held x := by
  constructor
  · intro h r hr x hx
    apply h
    rcases List.mem_append.mp hx with hx | hx
    · exact hr.reachable.step (List.mem_append_right _ hx)
    · exact hr.reachable.step (List.mem_append_left _ (strong_of_hidden hx))
  · intro h r hr
    apply ReachFrom.induct (P := s.Held) _ _ hr
    · intro a ha
      exact .root ha
    · intro a ha b hb
      rcases List.mem_append.mp hb with hb | hb
      · rcases markNext_of_strong (Held.mem ha) hb with hb | hb
        · exact ha.step hb
        · exact h a ha b (List.mem_append_right _ hb)
      · exact h a ha b (List.mem_append_left _ hb)

/-- A collection finalizes nothing that is reachable exactly when the variables that live on a
stack, the closures of saved frames and the open outers of threads are held apart from that. -/
theorem collect_sound_iff (s : Machine) :
    (∀ finalized, s.CollectGarbage finalized → ∀ r, s.Reachable r → r ∉ finalized) ↔
      ∀ r, s.Held r → ∀ x ∈ openValue s.obj r ++ hidden s.obj r, s.Held x := by
  rw [← reachable_held_iff]
  obtain ⟨marks, heq, hchain, -⟩ := s.RunMark_eq
  constructor
  · intro h r hr
    by_contra hheld
    have hmem : r ∈ marks.chain := (hchain r).mpr ⟨hr.mem, hheld⟩
    exact h marks.chain ⟨marks, heq, sweep_of_subset fun _ hx => hx, fun _ hx => hx⟩ r hr hmem
  · intro h finalized hcollect r hr hfin
    obtain ⟨marks', heq', hsweep, -⟩ := hcollect
    rw [heq] at heq'
    obtain rfl := Option.some.inj heq'
    exact hsweep.not_held (fun x hx => ((hchain x).mp hx).2) r hfin (h r hr)

end Machine

/-- The root table has a closure that captured a variable, with a table, of a thread that is
suspended. Only the thread itself, from its stack, refers to the thread. -/
def droppedThread : Machine where
  ss := {
    root_vm := .thread 0
    refs_table := []
    registry := .table 7
    consts := .table 8
    metamethodsmap := .table 9
    table_default_delegate := .table 10
    array_default_delegate := .table 11
    string_default_delegate := .table 12
    number_default_delegate := .table 13
    generator_default_delegate := .table 14
    thread_default_delegate := .table 15
    closure_default_delegate := .table 16
    class_default_delegate := .table 17
    instance_default_delegate := .table 18
    weakref_default_delegate := .table 19 }
  obj
    | 0 => .thread .null .null .null (.table 1) .null [] [] []
    | 1 => .table none [(.string (sc "getdata"), .closure 2)]
    | 2 => .closure none 3 [.outer 4] []
    | 3 => .funcproto [] []
    | 4 => .outer (some (5, 1)) .null
    | 5 => .thread .null .null .null (.table 1) .null [.thread 5, .table 6] [] [4]
    | 6 => .table none [(.string (sc "x"), .integer 1)]
    | _ => .table none []
  gc_chain := List.range 20
  nodup := List.nodup_range
  roots_mem := by decide
  strong_mem := by decide
  values_le := by
    intro r hr cls values hobj
    split at hobj <;> cases hobj
  open_outer := by
    intro r hr t i value hobj
    split at hobj <;> cases hobj
    decide

/-- The table is finalized, though the closure can still ask for it. -/
theorem not_collect_sound : ∃ finalized, droppedThread.CollectGarbage finalized ∧
    droppedThread.Reachable 6 ∧ 6 ∈ finalized := by
  have hmarks : droppedThread.RunMark.map (·.chain) = some [5, 6] := by decide
  obtain ⟨marks, heq, hchain⟩ := Option.map_eq_some_iff.mp hmarks
  refine ⟨[5, 6], ⟨marks, heq, ?_, ?_⟩, ?_, by decide⟩
  · rw [hchain]
    exact Machine.sweep_of_subset fun _ hx => hx
  · rw [hchain]
    exact fun _ hx => hx
  · have h0 : droppedThread.Reachable 0 := .root (by decide)
    have h1 : droppedThread.Reachable 1 := h0.step (by decide)
    have h2 : droppedThread.Reachable 2 := h1.step (by decide)
    have h4 : droppedThread.Reachable 4 := h2.step (by decide)
    exact h4.step (by decide)

end GameScript.Collector
