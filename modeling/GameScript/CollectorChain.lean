import Mathlib.Algebra.GroupWithZero.Nat
import GameScript.Collector
import GameScript.Lib.DoublyLinked
import Mathlib.Algebra.Order.BigOperators.Group.List
import Mathlib.Algebra.Order.Group.Nat
import Mathlib.Logic.Relation

/-!
The chains of the collector in memory. `_gc_chain` and the chain of a collection
link the objects through `_next` and `_prev`; the mark of an object is a bit of
its reference count. `RunMark` here refines the one on lists, and the sweep walks
the very chain that the objects it releases are taken out of.

What `Finalize` and the destructors do to the fields of an object are operations
on reference counts, in any order: a reference is given up, or a reference is
copied into an open outer of a thread that closes it.
-/

namespace GameScript.Collector

open Marking DoublyLinked

def MARK_FLAG : Nat := 0x80000000

/-- The links, the reference counts and the heads of the two chains. -/
structure Memory where
  links : Links Ref
  uiRef : Ref → Nat
  gc_chain : Option Ref
  tchain : Option Ref

namespace Memory

variable (m : Memory)

/-- `AddToChain`, to the chain of the collection. -/
def AddToChain (c : Ref) : Memory :=
  { m with links := m.links.push m.tchain c, tchain := some c }

/-- `RemoveFromChain`, from `_gc_chain`. -/
def RemoveFromChain (c : Ref) : Memory :=
  { m with links := m.links.unlink c, gc_chain := m.links.headWithout m.gc_chain c }

/-- `REMOVE_FROM_CHAIN` of a destructor. -/
def REMOVE_FROM_CHAIN (c : Ref) : Memory :=
  if m.uiRef c &&& MARK_FLAG = 0 then m.RemoveFromChain c else m

def setRef (c : Ref) (n : Nat) : Memory := { m with uiRef := Function.update m.uiRef c n }

/-- `Mark`, of an object whose references are those of `markNext`. -/
def Mark (markNext : Ref → List Ref) : Nat → Ref → Memory → Option Memory
  | 0, _, _ => none
  | fuel + 1, r, m =>
      if m.uiRef r &&& MARK_FLAG = 0 then do
        let m ← (markNext r).foldlM (fun m x => Mark markNext fuel x m)
          (m.setRef r (m.uiRef r ||| MARK_FLAG))
        return (m.RemoveFromChain r).AddToChain r
      else some m

/-- `UnMark`. The complement of the flag is one of 32 bits. -/
def UnMark (c : Ref) : Memory := m.setRef c (m.uiRef c &&& 0x7FFFFFFF)

/-- The loop that unmarks what is on the chain at `t`. -/
def unmarkAll : Nat → Option Ref → Memory → Option Memory
  | _, none, m => some m
  | 0, some _, _ => none
  | fuel + 1, some t, m => unmarkAll fuel (m.links.next t) (m.UnMark t)

end Memory

/-- A machine in memory: its objects are linked in `_gc_chain`, none is marked, and
no object is referred to more often than its count says. -/
structure LinkedMachine extends Machine where
  links : Links Ref
  head : Option Ref
  uiRef : Ref → Nat
  linked : Chain links head gc_chain
  unmarked : ∀ r ∈ gc_chain, uiRef r &&& MARK_FLAG = 0
  counted : ∀ x ∈ gc_chain, (gc_chain.map fun r => (strong (obj r)).count x).sum ≤ uiRef x

namespace LinkedMachine

variable (s : LinkedMachine)

def memory : Memory :=
  { links := s.links, uiRef := s.uiRef, gc_chain := s.head, tchain := none }

/-- `RunMark`. -/
def RunMark : Option Memory :=
  s.ss.roots.foldlM (fun m r => m.Mark (markNext s.obj) (s.gc_chain.length + 1) r) s.memory

end LinkedMachine

/-! ### Marking -/

/-- The chains in memory are those of `s`, and the marks are those of `s` on top of
the counts `u`. -/
structure Represents (pool : Finset Ref) (u : Ref → Nat) (m : Memory) (s : Marks Ref) : Prop where
  gc : Chain m.links m.gc_chain s.chain
  kept : Chain m.links m.tchain s.kept
  nodup : (s.chain ++ s.kept).Nodup
  unflagged : ∀ r ∈ pool, r ∉ s.flagged → r ∈ s.chain
  uiRef : ∀ r, m.uiRef r = if r ∈ s.flagged then u r ||| MARK_FLAG else u r

theorem or_and_flag (n : Nat) : (n ||| MARK_FLAG) &&& MARK_FLAG ≠ 0 := by
  have hbit : ((n ||| MARK_FLAG) &&& MARK_FLAG).testBit 31 = true := by
    simp only [MARK_FLAG, Nat.testBit_and, Nat.testBit_or, Bool.and_eq_true, Bool.or_eq_true]
    exact ⟨.inr (by decide), by decide⟩
  intro hzero
  rw [hzero] at hbit
  cases hbit

/-- The object leaves the one chain for the other. -/
theorem Represents.move {pool : Finset Ref} {u : Ref → Nat} {m : Memory} {s : Marks Ref} {r : Ref}
    (h : Represents pool u m s) (hr : r ∈ s.chain) (hflag : r ∈ s.flagged) :
    Represents pool u ((m.RemoveFromChain r).AddToChain r)
      { s with chain := s.chain.erase r, kept := r :: s.kept } := by
  obtain ⟨hchain, hkept, hdisj⟩ := List.nodup_append.mp h.nodup
  have hkeptNot : ∀ a ∈ s.kept, a ∉ s.chain := fun a ha ha' => hdisj a ha' a ha rfl
  have hgc := h.gc.unlink hchain hr
  have hkept' := h.gc.unlink_other hr h.kept hkeptNot
  have hrkept : r ∉ s.kept := fun hmem => hkeptNot r hmem hr
  have herase : ∀ a ∈ s.chain.erase r, a ∉ s.kept := fun a ha hmem =>
    hkeptNot a hmem (List.mem_of_mem_erase ha)
  constructor
  · exact hkept'.push_other hgc (List.Nodup.not_mem_erase hchain) herase
  · exact hkept'.push hkept hrkept
  · have hperm : (s.chain.erase r ++ r :: s.kept).Perm (s.chain ++ s.kept) := by
      refine List.perm_middle.trans ?_
      exact (List.perm_cons_erase hr).symm.append_right s.kept
    exact hperm.nodup_iff.mpr h.nodup
  · intro a ha hnot
    refine (hchain.mem_erase_iff).mpr ⟨?_, h.unflagged a ha hnot⟩
    rintro rfl
    exact hnot hflag
  · exact h.uiRef

section

variable {next : Ref → List Ref} {pool : Finset Ref} {u : Ref → Nat}

/-- Marking objects in turn is the visit of their nodes. -/
theorem markAll_of_mark {fuel : Nat}
    (ih : ∀ a ∈ pool, ∀ (m : Memory) (s : Marks Ref), Represents pool u m s →
      unflagged pool s < fuel → ∃ m' s', m.Mark next fuel a = some m' ∧
        visit next fuel a s = some s' ∧ Represents pool u m' s' ∧ Visited next [a] s s') :
    ∀ {as : List Ref}, (∀ a ∈ as, a ∈ pool) → ∀ {m : Memory} {s : Marks Ref},
      Represents pool u m s → unflagged pool s < fuel →
      ∃ m' s', as.foldlM (fun m a => Memory.Mark next fuel a m) m = some m' ∧
        visitAll next fuel as s = some s' ∧ Represents pool u m' s' ∧ Visited next as s s'
  | [], _, m, s, h, _ =>
      ⟨m, s, rfl, rfl, h, .refl (List.nodup_append.mp h.nodup).1
        fun _ hmem => absurd hmem List.not_mem_nil⟩
  | a :: as, has, m, s, h, hfuel => by
      obtain ⟨m₁, s₁, hm, hs, h₁, hv₁⟩ := ih a (has a List.mem_cons_self) m s h hfuel
      have hfuel₁ : unflagged pool s₁ < fuel := Nat.lt_of_le_of_lt (unflagged_le hv₁.mono) hfuel
      obtain ⟨m₂, s₂, hm', hs', h₂, hv₂⟩ := markAll_of_mark ih
        (fun b hb => has b (List.mem_cons_of_mem a hb)) h₁ hfuel₁
      refine ⟨m₂, s₂, ?_, ?_, h₂, hv₁.cons hv₂⟩
      · rw [List.foldlM_cons]
        simp only [hm]
        exact hm'
      · rw [visitAll, List.foldlM_cons]
        simp only [hs]
        exact hs'

variable (hpool : ∀ a ∈ pool, ∀ b ∈ next a, b ∈ pool) (hu : ∀ a ∈ pool, u a &&& MARK_FLAG = 0)
include hpool hu

/-- Marking an object is the visit of its node. -/
theorem Mark_spec {fuel : Nat} : ∀ a ∈ pool, ∀ (m : Memory) (s : Marks Ref),
    Represents pool u m s → unflagged pool s < fuel → ∃ m' s', m.Mark next fuel a = some m' ∧
      visit next fuel a s = some s' ∧ Represents pool u m' s' ∧ Visited next [a] s s' := by
  induction fuel with
  | zero =>
      intro a _ m s _ hfuel
      exact absurd hfuel (Nat.not_lt_zero _)
  | succ fuel ih =>
      intro a ha m s h hfuel
      rw [Memory.Mark, visit]
      by_cases hflag : a ∈ s.flagged
      · have hmark : m.uiRef a &&& MARK_FLAG ≠ 0 := by
          rw [h.uiRef, if_pos hflag]
          exact or_and_flag (u a)
        rw [if_neg hmark, if_pos hflag]
        refine ⟨m, s, rfl, rfl, h, .refl (List.nodup_append.mp h.nodup).1 ?_⟩
        intro b hb
        rw [List.mem_singleton.mp hb]
        exact hflag
      · have hmark : m.uiRef a = u a := by rw [h.uiRef, if_neg hflag]
        rw [if_pos (by rw [hmark]; exact hu a ha), if_neg hflag]
        have hless := unflagged_lt ha hflag
        have h₀ : Represents pool u (m.setRef a (m.uiRef a ||| MARK_FLAG))
            { s with flagged := a :: s.flagged } := by
          refine ⟨h.gc, h.kept, h.nodup, fun r hr hnot => ?_, fun r => ?_⟩
          · exact h.unflagged r hr fun hmem => hnot (List.mem_cons_of_mem a hmem)
          · by_cases hra : r = a
            · subst hra
              simp [Memory.setRef, hmark]
            · simp [Memory.setRef, hra, h.uiRef]
        obtain ⟨m₁, s₁, hm, hs, h₁, hv⟩ := markAll_of_mark ih (hpool a ha) h₀ (by omega)
        have hself : a ∈ s₁.flagged := hv.mono a List.mem_cons_self
        have hchain : a ∈ s₁.chain :=
          (hv.chain a).mpr ⟨h.unflagged a ha hflag, fun _ => List.mem_cons_self⟩
        refine ⟨_, _, ?_, ?_, h₁.move hchain hself, hv.wrap hflag⟩
        · simp only [hm]
          rfl
        · rw [visitAll] at hs
          simp only [hs]
          rfl

end

namespace LinkedMachine

variable {s : LinkedMachine}

/-- `RunMark` ends, with what is held on the one chain and the rest on the other. -/
theorem RunMark_spec (s : LinkedMachine) : ∃ m garbage kept, s.RunMark = some m ∧
    Chain m.links m.gc_chain garbage ∧ Chain m.links m.tchain kept ∧ (garbage ++ kept).Nodup ∧
    (∀ r, r ∈ garbage ↔ r ∈ s.gc_chain ∧ ¬ s.Held r) ∧ (∀ r, r ∈ kept ↔ s.Held r) ∧
    ∀ r, m.uiRef r = if r ∈ kept then s.uiRef r ||| MARK_FLAG else s.uiRef r := by
  have hpool : ∀ r ∈ s.gc_chain.toFinset, ∀ x ∈ markNext s.obj r, x ∈ s.gc_chain.toFinset := by
    intro r hr x hx
    rw [List.mem_toFinset] at hr ⊢
    exact Machine.markNext_mem hr hx
  have hroots : ∀ r ∈ s.ss.roots, r ∈ s.gc_chain.toFinset := fun r hr =>
    List.mem_toFinset.mpr (s.roots_mem r hr)
  have hcard : s.gc_chain.toFinset.card < s.gc_chain.length + 1 :=
    Nat.lt_succ_of_le (List.toFinset_card_le _)
  have hrep : Represents s.gc_chain.toFinset s.uiRef s.memory ⟨[], s.gc_chain, []⟩ := by
    refine ⟨s.linked, chain_nil _, by simpa using s.nodup, fun r hr _ => ?_, fun r => ?_⟩
    · exact List.mem_toFinset.mp hr
    · simp [memory]
  have hu : ∀ r ∈ s.gc_chain.toFinset, s.uiRef r &&& MARK_FLAG = 0 := fun r hr =>
    s.unmarked r (List.mem_toFinset.mp hr)
  have hless : unflagged s.gc_chain.toFinset ⟨[], s.gc_chain, []⟩ < s.gc_chain.length + 1 :=
    Nat.lt_of_le_of_lt (Finset.card_filter_le _ _) hcard
  obtain ⟨m, marks, hm, hs, hrep', -⟩ :=
    markAll_of_mark (Mark_spec hpool hu) hroots hrep hless
  obtain ⟨marks', hs', hflag, hchain, hkept⟩ := visitAll_spec hpool s.nodup hroots hcard
  rw [hs] at hs'
  cases hs'
  refine ⟨m, marks.chain, marks.kept, hm, hrep'.gc, hrep'.kept, hrep'.nodup, hchain, hkept, ?_⟩
  intro r
  have hiff : r ∈ marks.flagged ↔ r ∈ marks.kept := (hflag r).trans (hkept r).symm
  rw [hrep'.uiRef]
  by_cases hr : r ∈ marks.flagged
  · rw [if_pos hr, if_pos (hiff.mp hr)]
  · rw [if_neg hr, if_neg (mt hiff.mpr hr)]

end LinkedMachine

/-! ### The sweep -/

/-- The memory while objects are finalized. `holds` are the references that an object
counts now. The objects of `unwinding` are finalized or destroyed and give theirs up;
those of `dying` have no reference left, and their destructor has not yet taken them
from the chain. -/
structure Sweeping where
  mem : Memory
  holds : Ref → List Ref
  unwinding : List Ref
  dying : List Ref

namespace Sweeping

variable (w : Sweeping)

/-- `r` gives up a reference to `x`. -/
def giveUp (r x : Ref) : Sweeping :=
  { w with
    mem := w.mem.setRef x (w.mem.uiRef x - 1)
    holds := Function.update w.holds r ((w.holds r).erase x) }

/-- `nx->_uiRef++`, where there is an object. -/
def protect : Option Ref → Sweeping
  | none => w
  | some nx => { w with mem := w.mem.setRef nx (w.mem.uiRef nx + 1) }

end Sweeping

namespace Sweeping

variable {w : Sweeping}

theorem protect_dying (w : Sweeping) (nx : Option Ref) : (w.protect nx).dying = w.dying := by
  cases nx <;> rfl

theorem protect_chain {nx : Option Ref} {l : List Ref} :
    Chain (w.protect nx).mem.links (w.protect nx).mem.gc_chain l ↔
      Chain w.mem.links w.mem.gc_chain l := by
  cases nx <;> rfl

end Sweeping

/-- An operation of `Finalize`, of `CloseOuters` in it or of a destructor. -/
inductive Act (w : Sweeping) : Sweeping → Prop where
  /-- `__Release` of a reference that is not the last. -/
  | release {r x : Ref} : r ∈ w.unwinding → x ∈ w.holds r → w.mem.uiRef x - 1 ≠ 0 →
      Act w (w.giveUp r x)
  /-- `__Release` of the last reference calls `Release`. -/
  | releaseLast {r x : Ref} : r ∈ w.unwinding → x ∈ w.holds r → w.mem.uiRef x - 1 = 0 →
      Act w { w.giveUp r x with unwinding := x :: w.unwinding, dying := x :: w.dying }
  /-- The destructor takes the object from the chain. -/
  | destroy {x : Ref} : x ∈ w.dying →
      Act w { w with mem := w.mem.REMOVE_FROM_CHAIN x, dying := w.dying.erase x }
  /-- `CloseOuters` copies a value from the stack of the thread `r` to the outer `p`. -/
  | closeOuter {r x p : Ref} : r ∈ w.unwinding → x ∈ w.holds r → p ∈ w.holds r →
      Act w { w with
        mem := w.mem.setRef x (w.mem.uiRef x + 1)
        holds := Function.update w.holds p (x :: w.holds p) }

/-- A call from its first operation to its return, when every destructor has ended. -/
def Acts (w w' : Sweeping) : Prop := Relation.ReflTransGen Act w w' ∧ w'.dying = []

/-- `if(--t->_uiRef == 0) t->Release();` -/
inductive Unprotect (t : Ref) (w : Sweeping) : Sweeping → Prop where
  | counted : w.mem.uiRef t - 1 ≠ 0 →
      Unprotect t w { w with mem := w.mem.setRef t (w.mem.uiRef t - 1) }
  | released {w' : Sweeping} : w.mem.uiRef t - 1 = 0 →
      Acts { w with
        mem := w.mem.setRef t (w.mem.uiRef t - 1)
        unwinding := t :: w.unwinding
        dying := t :: w.dying } w' → Unprotect t w w'

/-- The loop of `CollectGarbage` from `t` on, and how often it goes round. -/
inductive Sweep : Option Ref → Sweeping → Nat → Sweeping → Prop where
  | done {w : Sweeping} : Sweep none w 0 w
  | next {t : Ref} {w w₁ w₂ w' : Sweeping} {n : Nat} :
      Acts { w with unwinding := t :: w.unwinding } w₁ →
      Unprotect t (w₁.protect (w₁.mem.links.next t)) w₂ →
      Sweep (w₁.mem.links.next t) w₂ n w' → Sweep (some t) w (n + 1) w'

/-- `CollectGarbage` returns `n` and leaves `m'`. -/
def LinkedMachine.CollectGarbage (s : LinkedMachine) (n : Nat) (m' : Memory) : Prop :=
  ∃ m w m₂, s.RunMark = some m ∧
    Sweep m.gc_chain (Sweeping.protect
      { mem := m, holds := fun r => strong (s.obj r),
        unwinding := [], dying := [] } m.gc_chain) n w ∧
    w.mem.unmarkAll s.gc_chain.length w.mem.tchain = some m₂ ∧
    m' = { m₂ with gc_chain := m₂.tchain, tchain := none }

/-! ### What the sweep keeps -/

/-- How often the objects of `all` refer to `x`. -/
def refs (all : List Ref) (holds : Ref → List Ref) (x : Ref) : Nat :=
  (all.map fun r => (holds r).count x).sum

theorem sum_update {all : List Ref} (hnodup : all.Nodup) {p : Ref} (hp : p ∈ all)
    (f : Ref → Nat) (v : Nat) :
    (all.map (Function.update f p v)).sum + f p = (all.map f).sum + v := by
  induction all with
  | nil => cases hp
  | cons a all ih =>
      obtain ⟨ha, hnodup⟩ := List.nodup_cons.mp hnodup
      simp only [List.map_cons, List.sum_cons]
      by_cases hpa : p = a
      · subst hpa
        have hsame : all.map (Function.update f p v) = all.map f := by
          refine List.map_congr_left fun b hb => Function.update_of_ne ?_ ..
          rintro rfl
          exact ha hb
        rw [Function.update_self, hsame]
        omega
      · have hmem : p ∈ all := (List.mem_cons.mp hp).resolve_left hpa
        rw [Function.update_of_ne (Ne.symm hpa)]
        have hrest := ih hnodup hmem
        omega

theorem refs_update {all : List Ref} (hnodup : all.Nodup) {p : Ref} (hp : p ∈ all)
    (holds : Ref → List Ref) (l : List Ref) (x : Ref) :
    refs all (Function.update holds p l) x + (holds p).count x =
      refs all holds x + l.count x := by
  have hmap : (fun r => (Function.update holds p l r).count x) =
      Function.update (fun r => (holds r).count x) p (l.count x) := by
    funext r
    by_cases hr : r = p
    · rw [hr, Function.update_self, Function.update_self]
    · rw [Function.update_of_ne hr, Function.update_of_ne hr]
  unfold refs
  rw [hmap]
  exact sum_update hnodup hp (fun r => (holds r).count x) _

/-- What an object refers to is referred to. -/
theorem refs_pos {all : List Ref} {holds : Ref → List Ref} {r x : Ref} (hr : r ∈ all)
    (hx : x ∈ holds r) : 0 < refs all holds x := by
  have hle : (holds r).count x ≤ refs all holds x :=
    List.le_sum_of_mem (List.mem_map_of_mem hr)
  exact Nat.lt_of_lt_of_le (List.count_pos_iff.mpr hx) hle

/-- The chain has the objects `garbage`, and that of the collection has `kept`. The
counts are right, for what is kept on top of its mark; the objects of `guarded` are
counted once more each. -/
structure SweepInv (all kept garbage guarded : List Ref) (w : Sweeping) : Prop where
  gc : Chain w.mem.links w.mem.gc_chain garbage
  tchain : Chain w.mem.links w.mem.tchain kept
  nodup : (garbage ++ kept).Nodup
  garbage_mem : ∀ r ∈ garbage, r ∈ all
  kept_mem : ∀ r ∈ kept, r ∈ all
  unwinding_mem : ∀ r ∈ w.unwinding, r ∈ all
  holds_mem : ∀ r ∈ all, ∀ x ∈ w.holds r, x ∈ garbage ∨ x ∈ kept
  kept_ref : ∀ x ∈ kept, MARK_FLAG + refs all w.holds x ≤ w.mem.uiRef x
  garbage_ref : ∀ x ∈ garbage, refs all w.holds x + guarded.count x ≤ w.mem.uiRef x
  dying_nodup : w.dying.Nodup
  dying : ∀ x ∈ w.dying, x ∈ garbage ∧ w.mem.uiRef x = 0

section

variable {all kept garbage guarded : List Ref} {w w' : Sweeping}

/-- A count that changes while no destructor runs. -/
theorem SweepInv.setRef (h : SweepInv all kept garbage guarded w) (hdying : w.dying = [])
    {x : Ref} {n : Nat} {guarded' : List Ref} (hx : x ∉ kept)
    (hcount : ∀ y ∈ garbage,
      refs all w.holds y + guarded'.count y ≤ (w.mem.setRef x n).uiRef y) :
    SweepInv all kept garbage guarded' { w with mem := w.mem.setRef x n } := by
  refine ⟨h.gc, h.tchain, h.nodup, h.garbage_mem, h.kept_mem, h.unwinding_mem, h.holds_mem, ?_,
    hcount, h.dying_nodup, ?_⟩
  · intro y hy
    have hne : y ≠ x := by
      rintro rfl
      exact hx hy
    show _ ≤ Function.update w.mem.uiRef x n y
    rw [Function.update_of_ne hne]
    exact h.kept_ref y hy
  · intro y hy
    rw [show w.dying = [] from hdying] at hy
    cases hy

theorem SweepInv.protect (h : SweepInv all kept garbage guarded w) (hdying : w.dying = [])
    {nx : Option Ref} (hnx : ∀ x ∈ nx, x ∈ garbage) :
    SweepInv all kept garbage (guarded ++ nx.toList) (w.protect nx) := by
  cases nx with
  | none => simpa [Sweeping.protect] using h
  | some x =>
      have hdisj := (List.nodup_append.mp h.nodup).2.2
      refine h.setRef hdying (fun hmem => hdisj x (hnx x rfl) x hmem rfl) ?_
      intro y hy
      have hcount := h.garbage_ref y hy
      by_cases hyx : y = x
      · subst hyx
        simp [Memory.setRef]
        omega
      · simpa [Memory.setRef, hyx, Ne.symm hyx] using hcount

/-- What follows an object of the chain is on the chain. -/
theorem SweepInv.next_mem (h : SweepInv all kept garbage guarded w) {t : Ref}
    (ht : t ∈ garbage) : ∀ x ∈ w.mem.links.next t, x ∈ garbage := by
  intro x hx
  obtain ⟨l₁, l₂, rfl⟩ := List.append_of_mem ht
  rw [h.gc.linked.at.2] at hx
  exact List.mem_append_right l₁ (List.mem_cons_of_mem t (List.mem_of_head? hx))

variable (hall : all.Nodup)
include hall

/-- Giving a reference up makes both the count and the number of references less. -/
theorem refs_giveUp {r x : Ref} (hr : r ∈ all) (hx : x ∈ w.holds r) (y : Ref) :
    refs all (w.giveUp r x).holds y + (if y = x then 1 else 0) = refs all w.holds y := by
  have h := refs_update hall hr w.holds ((w.holds r).erase x) y
  have hpos := List.count_pos_iff.mpr hx
  show refs all (Function.update w.holds r ((w.holds r).erase x)) y + _ = _
  by_cases hy : y = x
  · subst hy
    rw [List.count_erase_self] at h
    rw [if_pos rfl]
    omega
  · rw [List.count_erase_of_ne hy] at h
    rw [if_neg hy]
    omega

theorem SweepInv.giveUp (h : SweepInv all kept garbage guarded w) {r x : Ref}
    (hr : r ∈ w.unwinding) (hx : x ∈ w.holds r) :
    SweepInv all kept garbage guarded (w.giveUp r x) := by
  have hrall := h.unwinding_mem r hr
  have hrefs := refs_giveUp hall hrall hx
  have huiRef : ∀ y, (w.giveUp r x).mem.uiRef y = w.mem.uiRef y - if y = x then 1 else 0 := by
    intro y
    by_cases hy : y = x
    · subst hy
      simp [Sweeping.giveUp, Memory.setRef]
    · simp [Sweeping.giveUp, Memory.setRef, hy]
  refine ⟨h.gc, h.tchain, h.nodup, h.garbage_mem, h.kept_mem, h.unwinding_mem, ?_, ?_, ?_,
    h.dying_nodup, ?_⟩
  · intro r' hr' y hy
    refine h.holds_mem r' hr' y ?_
    unfold Sweeping.giveUp at hy
    by_cases hrr : r' = r
    · subst hrr
      simp only [Function.update_self] at hy
      exact List.mem_of_mem_erase hy
    · simpa only [Function.update_of_ne hrr] using hy
  · intro y hy
    have hy₁ := h.kept_ref y hy
    have hy₂ := hrefs y
    rw [huiRef]
    omega
  · intro y hy
    have hy₁ := h.garbage_ref y hy
    have hy₂ := hrefs y
    rw [huiRef]
    omega
  · intro y hy
    obtain ⟨hmem, hzero⟩ := h.dying y hy
    refine ⟨hmem, ?_⟩
    rw [huiRef, hzero]
    exact Nat.zero_sub _

/-- Giving the last reference up has its object destroyed. -/
theorem SweepInv.releaseLast (h : SweepInv all kept garbage guarded w) {r x : Ref}
    (hr : r ∈ w.unwinding) (hx : x ∈ w.holds r) (hzero : w.mem.uiRef x - 1 = 0) :
    SweepInv all kept garbage guarded
      { w.giveUp r x with unwinding := x :: w.unwinding, dying := x :: w.dying } := by
  have hpos := refs_pos (h.unwinding_mem r hr) hx
  have hgarbage : x ∈ garbage := by
    rcases h.holds_mem r (h.unwinding_mem r hr) x hx with hmem | hmem
    · exact hmem
    · have hmark := h.kept_ref x hmem
      unfold MARK_FLAG at hmark
      omega
  have h' := h.giveUp hall hr hx
  refine ⟨h'.gc, h'.tchain, h'.nodup, h'.garbage_mem, h'.kept_mem, ?_, h'.holds_mem,
    h'.kept_ref, h'.garbage_ref, ?_, ?_⟩
  · intro y hy
    rcases List.mem_cons.mp hy with rfl | hy
    · exact h.garbage_mem y hgarbage
    · exact h.unwinding_mem y hy
  · refine List.nodup_cons.mpr ⟨fun hmem => ?_, h.dying_nodup⟩
    have hcount := h.garbage_ref x hgarbage
    have hdead := (h.dying x hmem).2
    omega
  · intro y hy
    rcases List.mem_cons.mp hy with rfl | hy
    · exact ⟨hgarbage, by simpa [Sweeping.giveUp, Memory.setRef] using hzero⟩
    · exact h'.dying y hy

omit hall in
/-- A destructor takes an object from the chain that nothing refers to. -/
theorem SweepInv.destroy (h : SweepInv all kept garbage guarded w) {x : Ref} (hx : x ∈ w.dying) :
    SweepInv all kept (garbage.erase x) guarded
        { w with mem := w.mem.REMOVE_FROM_CHAIN x, dying := w.dying.erase x } ∧
      ∀ t ∈ guarded, t ∈ garbage → t ∈ garbage.erase x := by
  obtain ⟨hmem, hzero⟩ := h.dying x hx
  have hnone := h.garbage_ref x hmem
  obtain ⟨hgnodup, hknodup, hdisj⟩ := List.nodup_append.mp h.nodup
  have hkeptNot : ∀ a ∈ kept, a ∉ garbage := fun a ha ha' => hdisj a ha' a ha rfl
  have hremove : w.mem.REMOVE_FROM_CHAIN x = w.mem.RemoveFromChain x := by
    unfold Memory.REMOVE_FROM_CHAIN
    rw [hzero, if_pos (Nat.zero_and _)]
  have hne : ∀ y, y ∈ garbage ∨ y ∈ kept → y ≠ x → y ∈ garbage.erase x ∨ y ∈ kept :=
    fun y hy hyx => hy.imp_left fun hg => hgnodup.mem_erase_iff.mpr ⟨hyx, hg⟩
  rw [hremove]
  refine ⟨⟨h.gc.unlink hgnodup hmem, h.gc.unlink_other hmem h.tchain hkeptNot, ?_,
    fun r hr => h.garbage_mem r (List.mem_of_mem_erase hr), h.kept_mem, h.unwinding_mem, ?_,
    h.kept_ref, fun y hy => h.garbage_ref y (List.mem_of_mem_erase hy),
    h.dying_nodup.erase x, ?_⟩, ?_⟩
  · exact h.nodup.sublist (List.Sublist.append_right List.erase_sublist kept)
  · intro r hr y hy
    refine hne y (h.holds_mem r hr y hy) ?_
    rintro rfl
    have hpos : 0 < refs all w.holds y := refs_pos hr hy
    omega
  · intro y hy
    obtain ⟨hyx, hydying⟩ := h.dying_nodup.mem_erase_iff.mp hy
    obtain ⟨hymem, hyzero⟩ := h.dying y hydying
    exact ⟨hgnodup.mem_erase_iff.mpr ⟨hyx, hymem⟩, hyzero⟩
  · intro t ht htmem
    refine hgnodup.mem_erase_iff.mpr ⟨?_, htmem⟩
    rintro rfl
    have hpos := List.count_pos_iff.mpr ht
    omega

/-- A further reference makes both the count and the number of references greater. -/
theorem refs_take {p x : Ref} (hp : p ∈ all) (y : Ref) :
    refs all (Function.update w.holds p (x :: w.holds p)) y =
      refs all w.holds y + if y = x then 1 else 0 := by
  have hupdate := refs_update hall hp w.holds (x :: w.holds p) y
  rw [List.count_cons] at hupdate
  by_cases hy : y = x
  · subst hy
    simp at hupdate ⊢
    omega
  · simp [Ne.symm hy] at hupdate
    rw [if_neg hy]
    omega

/-- An outer that is closed refers to what a thread that is destroyed refers to as well. -/
theorem SweepInv.closeOuter (h : SweepInv all kept garbage guarded w) {r x p : Ref}
    (hr : r ∈ w.unwinding) (hx : x ∈ w.holds r) (hp : p ∈ w.holds r) :
    SweepInv all kept garbage guarded
      { w with
        mem := w.mem.setRef x (w.mem.uiRef x + 1)
        holds := Function.update w.holds p (x :: w.holds p) } := by
  have hrall := h.unwinding_mem r hr
  have hpall : p ∈ all := (h.holds_mem r hrall p hp).elim (h.garbage_mem p) (h.kept_mem p)
  have hrefs := refs_take (w := w) (x := x) hall hpall
  have huiRef : ∀ y, (w.mem.setRef x (w.mem.uiRef x + 1)).uiRef y =
      w.mem.uiRef y + if y = x then 1 else 0 := by
    intro y
    by_cases hy : y = x
    · subst hy
      simp [Memory.setRef]
    · simp [Memory.setRef, hy]
  refine ⟨h.gc, h.tchain, h.nodup, h.garbage_mem, h.kept_mem, h.unwinding_mem, ?_, ?_, ?_,
    h.dying_nodup, ?_⟩
  · intro r' hr' y hy
    by_cases hrp : r' = p
    · subst hrp
      simp only [Function.update_self, List.mem_cons] at hy
      rcases hy with rfl | hy
      · exact h.holds_mem r hrall y hx
      · exact h.holds_mem r' hr' y hy
    · simp only [Function.update_of_ne hrp] at hy
      exact h.holds_mem r' hr' y hy
  · intro y hy
    have hy₁ := h.kept_ref y hy
    rw [hrefs, huiRef]
    omega
  · intro y hy
    have hy₁ := h.garbage_ref y hy
    rw [hrefs, huiRef]
    omega
  · intro y hy
    obtain ⟨hymem, hyzero⟩ := h.dying y hy
    refine ⟨hymem, ?_⟩
    have hyx : y ≠ x := by
      rintro rfl
      have hpos := refs_pos hrall hx
      have hcount := h.garbage_ref y hymem
      omega
    rw [huiRef, if_neg hyx]
    exact hyzero

/-- One operation takes at most an object from the chain that nothing guards. -/
theorem SweepInv.act (h : SweepInv all kept garbage guarded w) (hact : Act w w') :
    ∃ garbage', SweepInv all kept garbage' guarded w' ∧
      ∀ t ∈ guarded, t ∈ garbage → t ∈ garbage' := by
  cases hact with
  | release hr hx hne => exact ⟨garbage, h.giveUp hall hr hx, fun _ _ ht => ht⟩
  | releaseLast hr hx hzero =>
      exact ⟨garbage, h.releaseLast hall hr hx hzero, fun _ _ ht => ht⟩
  | @destroy x hx => exact ⟨garbage.erase x, h.destroy hx⟩
  | closeOuter hr hx hp => exact ⟨garbage, h.closeOuter hall hr hx hp, fun _ _ ht => ht⟩

theorem SweepInv.acts (h : SweepInv all kept garbage guarded w) (hacts : Acts w w') :
    ∃ garbage', SweepInv all kept garbage' guarded w' ∧
      ∀ t ∈ guarded, t ∈ garbage → t ∈ garbage' := by
  obtain ⟨hrun, hdone⟩ := hacts
  clear hdone
  induction hrun with
  | refl => exact ⟨garbage, h, fun _ _ ht => ht⟩
  | tail _ hact ih =>
      obtain ⟨garbage₁, h₁, hguard₁⟩ := ih
      obtain ⟨garbage₂, h₂, hguard₂⟩ := h₁.act hall hact
      exact ⟨garbage₂, h₂, fun t ht hmem => hguard₂ t ht (hguard₁ t ht hmem)⟩

/-- An object that is no longer guarded may go, and the next one stays. -/
theorem SweepInv.unprotect {t : Ref} {nx : Option Ref}
    (h : SweepInv all kept garbage (t :: nx.toList) w) (hdying : w.dying = []) (ht : t ∈ garbage)
    (hnx : ∀ x ∈ nx, x ∈ garbage) (hstep : Unprotect t w w') :
    ∃ garbage', SweepInv all kept garbage' nx.toList w' ∧ w'.dying = [] ∧
      ∀ x ∈ nx, x ∈ garbage' := by
  have hdisj := (List.nodup_append.mp h.nodup).2.2
  have h₁ : SweepInv all kept garbage nx.toList
      { w with mem := w.mem.setRef t (w.mem.uiRef t - 1) } := by
    refine h.setRef hdying (fun hmem => hdisj t ht t hmem rfl) ?_
    intro y hy
    have hcount := h.garbage_ref y hy
    rw [List.count_cons] at hcount
    by_cases hyt : y = t
    · subst hyt
      simp [Memory.setRef] at hcount ⊢
      omega
    · simpa [Memory.setRef, hyt, Ne.symm hyt] using hcount
  cases hstep with
  | counted _ => exact ⟨garbage, h₁, hdying, hnx⟩
  | released hzero hacts =>
      have h₂ : SweepInv all kept garbage nx.toList
          { w with
            mem := w.mem.setRef t (w.mem.uiRef t - 1)
            unwinding := t :: w.unwinding
            dying := t :: w.dying } := by
        refine ⟨h₁.gc, h₁.tchain, h₁.nodup, h₁.garbage_mem, h₁.kept_mem, ?_, h₁.holds_mem,
          h₁.kept_ref, h₁.garbage_ref, ?_, ?_⟩
        · exact List.forall_mem_cons.mpr ⟨h.garbage_mem t ht, h.unwinding_mem⟩
        · rw [hdying]
          exact List.nodup_singleton t
        · intro y hy
          rw [hdying] at hy
          obtain rfl := List.mem_singleton.mp hy
          exact ⟨ht, by simpa [Memory.setRef] using hzero⟩
      obtain ⟨garbage', h₃, hguard⟩ := h₂.acts hall hacts
      refine ⟨garbage', h₃, hacts.2, fun x hx => ?_⟩
      exact hguard x (Option.mem_toList.mpr hx) (hnx x hx)

/-- The loop leaves the chain of the collection as it is. -/
theorem SweepInv.sweep {cur : Option Ref} {n : Nat} (hsweep : Sweep cur w n w') :
    ∀ {garbage : List Ref}, SweepInv all kept garbage cur.toList w → w.dying = [] →
      (∀ t ∈ cur, t ∈ garbage) → ∃ garbage', SweepInv all kept garbage' [] w' := by
  induction hsweep with
  | done =>
      intro garbage h _ _
      exact ⟨garbage, h⟩
  | @next t w w₁ w₂ w' n hacts hunprotect _ ih =>
      intro garbage h _ ht
      have ht := ht t rfl
      have h₀ : SweepInv all kept garbage [t] { w with unwinding := t :: w.unwinding } :=
        { h with unwinding_mem := List.forall_mem_cons.mpr ⟨h.garbage_mem t ht, h.unwinding_mem⟩ }
      obtain ⟨garbage₁, h₁, hguard⟩ := h₀.acts hall hacts
      have ht₁ : t ∈ garbage₁ := hguard t List.mem_cons_self ht
      have hnx := h₁.next_mem ht₁
      have hdying : (w₁.protect (w₁.mem.links.next t)).dying = [] := by
        rw [Sweeping.protect_dying, hacts.2]
      obtain ⟨garbage₂, h₂, hdying₂, hnx₂⟩ :=
        (h₁.protect hacts.2 hnx).unprotect hall hdying ht₁ hnx hunprotect
      exact ih h₂ hdying₂ hnx₂

end

/-- An object that is no longer guarded stays on the chain, or its destructor takes it
from there. -/
theorem exists_unprotect {w : Sweeping} {t : Ref} {l₁ l : List Ref} (hdying : w.dying = [])
    (hnodup : (l₁ ++ t :: l).Nodup) (hchain : Chain w.mem.links w.mem.gc_chain (l₁ ++ t :: l)) :
    ∃ w' l₁', Unprotect t w w' ∧ w'.dying = [] ∧ (l₁' ++ l).Nodup ∧
      Chain w'.mem.links w'.mem.gc_chain (l₁' ++ l) := by
  by_cases hzero : w.mem.uiRef t - 1 = 0
  · have hchain' := hchain.unlink hnodup (List.mem_append_right l₁ List.mem_cons_self)
    rw [erase_append_cons hnodup] at hchain'
    have hdestroy : Act _ _ := .destroy (w := { w with
      mem := w.mem.setRef t (w.mem.uiRef t - 1)
      unwinding := t :: w.unwinding
      dying := t :: w.dying }) List.mem_cons_self
    have hremove : (w.mem.setRef t (w.mem.uiRef t - 1)).REMOVE_FROM_CHAIN t =
        (w.mem.setRef t (w.mem.uiRef t - 1)).RemoveFromChain t := by
      unfold Memory.REMOVE_FROM_CHAIN
      refine if_pos ?_
      simp [Memory.setRef, hzero]
    have herase : (t :: w.dying).erase t = [] := by rw [hdying, List.erase_cons_head]
    refine ⟨_, l₁, .released hzero ⟨.single hdestroy, herase⟩, herase, ?_, ?_⟩
    · exact (List.nodup_cons.mp (List.perm_middle.nodup_iff.mp hnodup)).2
    · rw [hremove]
      exact hchain'
  · refine ⟨_, l₁ ++ [t], .counted hzero, hdying, ?_, ?_⟩
    · simpa using hnodup
    · simpa [Memory.setRef] using hchain

/-- Nothing keeps the loop from its end. -/
theorem exists_sweep {l : List Ref} : ∀ {l₁ : List Ref} {w : Sweeping}, w.dying = [] →
    (l₁ ++ l).Nodup → Chain w.mem.links w.mem.gc_chain (l₁ ++ l) →
    ∃ w', Sweep l.head? w l.length w' := by
  induction l with
  | nil =>
      intro l₁ w _ _ _
      exact ⟨w, .done⟩
  | cons t l ih =>
      intro l₁ w hdying hnodup hchain
      let w₁ : Sweeping := { w with unwinding := t :: w.unwinding }
      have hnext : w₁.mem.links.next t = l.head? := hchain.linked.at.2
      have hnone : (w₁.protect l.head?).dying = [] := (w₁.protect_dying l.head?).trans hdying
      obtain ⟨w₂, l₁', hunprotect, hdying₂, hnodup₂, hchain₂⟩ :=
        exists_unprotect hnone hnodup (Sweeping.protect_chain.mpr hchain)
      obtain ⟨w', hrest⟩ := ih hdying₂ hnodup₂ hchain₂
      rw [← hnext] at hunprotect hrest
      exact ⟨w', .next ⟨.refl, hdying⟩ hunprotect hrest⟩

/-! ### Unmarking -/

/-- The mark of an object that has none is a bit that its count does not have. -/
theorem or_flag {n : Nat} (h : n &&& MARK_FLAG = 0) : n ||| MARK_FLAG = MARK_FLAG + n := by
  have hbit : n.testBit 31 = false := by
    have hand : (n &&& MARK_FLAG).testBit 31 = false := by rw [h, Nat.zero_testBit]
    rwa [Nat.testBit_and, show MARK_FLAG.testBit 31 = true by decide, Bool.and_true] at hand
  have hlow : n % 2 ^ 32 < 2 ^ 31 := by
    rw [Nat.testBit_eq_decide_div_mod_eq, decide_eq_false_iff_not] at hbit
    omega
  have hhigh := Nat.two_pow_add_eq_or_of_lt (i := 32) (Nat.mod_lt n (by decide)) (n / 2 ^ 32)
  have hflag : n % 2 ^ 32 ||| MARK_FLAG = n % 2 ^ 32 + MARK_FLAG :=
    Nat.or_two_pow_eq_add_of_lt hlow
  have hlt : n % 2 ^ 32 + MARK_FLAG < 2 ^ 32 := by
    unfold MARK_FLAG
    omega
  rw [← Nat.div_add_mod n (2 ^ 32), hhigh, Nat.or_assoc, hflag,
    ← Nat.two_pow_add_eq_or_of_lt hlt, ← hhigh]
  omega

theorem and_flag (n : Nat) : n &&& 0x7FFFFFFF &&& MARK_FLAG = 0 := by
  rw [Nat.and_assoc]
  exact Nat.and_zero n

/-- The loop unmarks what is on the chain and leaves the links as they are. -/
theorem unmarkAll_spec {fuel : Nat} : ∀ {l : List Ref} {p : Option Ref} {m : Memory},
    Linked m.links p l → l.length ≤ fuel → ∃ m', m.unmarkAll fuel l.head? = some m' ∧
      m'.links = m.links ∧ m'.tchain = m.tchain ∧
      ∀ r, r ∈ l ∨ m.uiRef r &&& MARK_FLAG = 0 → m'.uiRef r &&& MARK_FLAG = 0 := by
  induction fuel with
  | zero =>
      intro l p m _ hlen
      obtain rfl := List.length_eq_zero_iff.mp (Nat.le_zero.mp hlen)
      exact ⟨m, rfl, rfl, rfl, fun r hr => hr.resolve_left List.not_mem_nil⟩
  | succ fuel ih =>
      intro l p m hlinked hlen
      cases l with
      | nil => exact ⟨m, rfl, rfl, rfl, fun r hr => hr.resolve_left List.not_mem_nil⟩
      | cons t l =>
          obtain ⟨-, hnext, htail⟩ := hlinked
          obtain ⟨m', heq, hlinks, htchain, hflags⟩ :=
            ih (m := m.UnMark t) htail (Nat.le_of_succ_le_succ hlen)
          refine ⟨m', ?_, hlinks, htchain, fun r hr => hflags r ?_⟩
          · show (m.UnMark t).unmarkAll fuel (m.links.next t) = some m'
            rw [hnext]
            exact heq
          · by_cases hrt : r = t
            · subst hrt
              right
              simpa [Memory.UnMark, Memory.setRef] using and_flag (m.uiRef r)
            · simpa [Memory.UnMark, Memory.setRef, hrt] using hr

/-! ### The chain after a collection -/

namespace LinkedMachine

variable (s : LinkedMachine)

/-- The sweep begins with what is kept counted right. -/
theorem start_sweep {m : Memory} {garbage kept : List Ref}
    (hgc : Chain m.links m.gc_chain garbage) (htchain : Chain m.links m.tchain kept)
    (hnodup : (garbage ++ kept).Nodup) (hgarbage : ∀ r, r ∈ garbage ↔ r ∈ s.gc_chain ∧ ¬ s.Held r)
    (hkept : ∀ r, r ∈ kept ↔ s.Held r)
    (huiRef : ∀ r, m.uiRef r = if r ∈ kept then s.uiRef r ||| MARK_FLAG else s.uiRef r) :
    SweepInv s.gc_chain kept garbage []
      { mem := m, holds := fun r => strong (s.obj r),
        unwinding := [], dying := [] } := by
  have hkept_mem : ∀ r ∈ kept, r ∈ s.gc_chain := fun r hr => ((hkept r).mp hr).mem
  refine ⟨hgc, htchain, hnodup, fun r hr => ((hgarbage r).mp hr).1, hkept_mem, nofun, ?_, ?_, ?_,
    List.nodup_nil, nofun⟩
  · intro r hr x hx
    have hmem : x ∈ s.gc_chain := s.strong_mem r hr x hx
    rw [hgarbage, hkept]
    exact (Classical.em (s.Held x)).symm.imp_left fun h => ⟨hmem, h⟩
  · intro x hx
    have hcounted := s.counted x (hkept_mem x hx)
    rw [huiRef, if_pos hx, or_flag (s.unmarked x (hkept_mem x hx))]
    exact Nat.add_le_add_left hcounted MARK_FLAG
  · intro x hx
    obtain ⟨hmem, hnot⟩ := (hgarbage x).mp hx
    rw [huiRef, if_neg (mt (hkept x).mp hnot)]
    exact s.counted x hmem

end LinkedMachine

/-- The machine with a thread that only itself refers to, in memory. -/
def droppedThreadLinked : LinkedMachine where
  toMachine := droppedThread
  links := {
    next := fun r => if r < 19 then some (r + 1) else none
    prev := fun r => if r = 0 then none else some (r - 1) }
  head := some 0
  uiRef := fun r => refs droppedThread.gc_chain (fun r => strong (droppedThread.obj r)) r + 1
  linked := by
    refine ⟨rfl, ?_⟩
    simp [Linked, droppedThread, List.range, List.range.loop]
  unmarked := by decide
  counted := by decide

end GameScript.Collector
