import GameScript.ArrayConstraint
import Mathlib.Logic.Function.Basic

/-!
Runs of a script on its arrays. `Runs` is any sequence of operations each of
which meets its condition, the ones inside the callbacks of `apply` and `sort`
included; every array then keeps its constraint in every heap the run reaches.
-/

namespace GameScript

open GSArray ArrayHeap Fallible

variable {constraint : Ref → Constraint}

/-- Every array keeps the constraint of its address. -/
def Safe (constraint : Ref → Constraint) (h : ArrayHeap) : Prop :=
  ∀ p, Fits (constraint p) (h p)

theorem Safe.update {h : ArrayHeap} (hsafe : Safe constraint h) {p : Ref} {a : GSArray}
    (hfits : Fits (constraint p) a) : Safe constraint (Function.update h p a) := by
  intro q
  by_cases hq : q = p
  · subst hq
    rw [Function.update_self]
    exact hfits
  · rw [Function.update_of_ne hq]
    exact hsafe q

/-! ### The native functions -/

theorem exec_read (p : Ref) (h : ArrayHeap) : exec (ArrayHeap.read p) h = (some (h p), h) := rfl

theorem exec_write (p : Ref) (a : GSArray) (h : ArrayHeap) :
    exec (ArrayHeap.write p a) h = (some (), Function.update h p a) := by
  have heq : (fun q => if q = p then a else h q) = Function.update h p a := by
    funext q
    simp [Function.update_apply]
  rw [← heq]
  rfl

theorem keeps_read (p : Ref) :
    Keeps (Safe constraint) (ArrayHeap.read p) fun a h => a = h p :=
  fun _ hsafe => ⟨hsafe, fun _ ha => (Option.some.inj ha).symm⟩

theorem keeps_at (p : Ref) (i : Nat) :
    Keeps (Safe constraint) (ArrayHeap.at' p i) fun o h => (h p).values[i]? = some o := by
  refine keeps_bind_at (keeps_read p) fun a h hsafe ha => ?_
  subst ha
  cases hi : (h p).values[i]? with
  | none => exact ⟨hsafe, fun _ hb => by cases hb⟩
  | some o =>
      refine ⟨hsafe, fun b hb => ?_⟩
      obtain rfl : o = b := Option.some.inj hb
      exact hi

/-- Exchanging two elements brings in no new one. -/
theorem keeps_swap (p : Ref) (i j : Nat) :
    Keeps (Safe constraint) (ArrayHeap.swap p i j) fun _ _ => True := by
  refine keeps_bind_at (keeps_at p i) fun x h hsafe hx => ?_
  have hexec : exec (ArrayHeap.at' p j) h = ((h p).values[j]?, h) := by
    rw [ArrayHeap.at', exec_bind, exec_read]
    cases hj : (h p).values[j]? <;> simp only [hj] <;> rfl
  rw [exec_bind, hexec]
  cases hj : (h p).values[j]? with
  | none => exact ⟨hsafe, fun _ _ => trivial⟩
  | some y =>
      simp only []
      rw [exec_bind, exec_read]
      simp only []
      rw [exec_write]
      refine ⟨hsafe.update ?_, fun _ _ => trivial⟩
      have hxs : x ∈ (h p).values := List.mem_of_getElem? hx
      have hys : y ∈ (h p).values := List.mem_of_getElem? hj
      refine fits_sublist (hsafe p) (by simp) fun o ho => ?_
      rcases List.mem_or_eq_of_mem_set ho with ho | rfl
      · rcases List.mem_or_eq_of_mem_set ho with ho | rfl
        · exact ho
        · exact hys
      · exact hxs

/-- The function `apply` calls keeps the heap safe, and a result that is still
for an element of the array conforms. -/
def CallbackMeets (constraint : Ref → Constraint) (p : Ref)
    (call : Nat → Object → Native Object) : Prop :=
  ∀ n temp, Keeps (Safe constraint) (call n temp) fun val h =>
    ∀ fl, Meets fl (constraint p) (h p) (.set (.integer (Int64.ofNat n)) val)

/-- `map` keeps the constraint whatever its function does. -/
theorem keeps_mapArray (referent : Ref → Object) {call : Nat → Object → Native Object} {p : Ref}
    (hcall : CallbackMeets constraint p call) (fl : FloatOps) :
    ∀ (count n : Nat) (temp : Object),
      Keeps (Safe constraint) (mapArray referent call p count n temp) fun _ _ => True
  | 0, _, _ => keeps_pure fun _ _ => trivial
  | count + 1, n, temp => by
      rw [mapArray]
      refine keeps_bind (keeps_read p) fun a => ?_
      refine keeps_bind_at (hcall n _) fun val h hsafe hmeets => ?_
      rw [exec_bind, exec_read]
      simp only []
      rw [exec_bind, exec_write]
      refine keeps_mapArray referent hcall fl count (n + 1) _ _ (hsafe.update ?_)
      cases hset : (h p).set (Int64.ofNat n) val with
      | none => exact hsafe p
      | some a' =>
          -- the store is the operation `set` on the array as it is then
          have hsound := (sound_iff_meets referent (hsafe p) _).mpr (hmeets fl)
          refine (hsound a' (some val) ?_).1
          simp [Op.run, Object.isNumeric, Object.toInteger, hset]

theorem keeps_apply (referent : Ref → Object) {call : Nat → Object → Native Object} {p : Ref}
    (hcall : CallbackMeets constraint p call) (fl : FloatOps) :
    Keeps (Safe constraint) (apply referent call p) fun _ _ => True :=
  keeps_bind (keeps_read p) fun _ => keeps_mapArray referent hcall fl _ _ _

section Sorting

variable {cmp : Comparison}
  (hcmp : ∀ a b, Keeps (Safe constraint) (cmp.compare a b) fun _ _ => True) (p : Ref)

include hcmp

theorem keeps_sortCompare (a b : Object) :
    Keeps (Safe constraint) (sortCompare cmp p a b) fun _ _ => True := by
  refine keeps_bind (keeps_get (q := fun _ _ => True) fun _ _ => trivial) fun before => ?_
  refine keeps_bind (hcmp a b) fun ret => ?_
  refine keeps_bind (keeps_read p) fun after => ?_
  split
  · exact keeps_failure
  · exact keeps_pure fun _ _ => trivial

theorem keeps_maxChild (bottom root2 : Nat) :
    Keeps (Safe constraint) (maxChild cmp p bottom root2) fun _ _ => True := by
  unfold maxChild
  split
  · exact keeps_pure fun _ _ => trivial
  · refine keeps_bind (keeps_at p _) fun x => ?_
    refine keeps_bind (keeps_at p _) fun y => ?_
    refine keeps_bind (keeps_sortCompare hcmp p x y) fun ret => ?_
    exact keeps_pure fun _ _ => trivial

theorem keeps_siftDown (bottom : Nat) :
    ∀ fuel root, Keeps (Safe constraint) (siftDown cmp p bottom fuel root) fun _ _ => True
  | 0, _ => keeps_failure
  | fuel + 1, root => by
      rw [siftDown]
      split
      · refine keeps_bind (keeps_maxChild hcmp p bottom _) fun child => ?_
        refine keeps_bind (keeps_at p _) fun x => ?_
        refine keeps_bind (keeps_at p _) fun y => ?_
        refine keeps_bind (keeps_sortCompare hcmp p x y) fun ret => ?_
        split
        · split
          · exact keeps_failure
          · exact keeps_bind (keeps_swap p _ _) fun _ => keeps_siftDown bottom fuel child
        · exact keeps_pure fun _ _ => trivial
      · exact keeps_pure fun _ _ => trivial

theorem keeps_sort : Keeps (Safe constraint) (sort cmp p) fun _ _ => True := by
  have hbuild : ∀ bottom count,
      Keeps (Safe constraint) (hsortBuild cmp p bottom count) fun _ _ => True := by
    intro bottom count
    induction count with
    | zero => exact keeps_pure fun _ _ => trivial
    | succ count ih => exact keeps_bind (keeps_siftDown hcmp p bottom _ _) fun _ => ih
  have hextract : ∀ i, Keeps (Safe constraint) (hsortExtract cmp p i) fun _ _ => True := by
    intro i
    induction i with
    | zero => exact keeps_pure fun _ _ => trivial
    | succ i ih =>
        refine keeps_bind (keeps_swap p _ _) fun _ => ?_
        exact keeps_bind (keeps_siftDown hcmp p i _ _) fun _ => ih
  refine keeps_bind (keeps_read p) fun a => ?_
  dsimp only
  split
  · exact keeps_bind (hbuild _ _) fun _ => hextract _
  · exact keeps_pure fun _ _ => trivial

end Sorting

/-! ### Runs -/

/-- The heaps a script reaches from `h` by operations that meet their
condition. The heap of a clone's address has the constraint of the array it was
cloned from. An operation that raises leaves the heap as it was. -/
inductive Runs (fl : FloatOps) (referent : Ref → Object) (constraint : Ref → Constraint) :
    ArrayHeap → ArrayHeap → Prop
  | refl (h) : Runs fl referent constraint h h
  | op {h h'} (p : Ref) (op : Op) (a : GSArray) (result : Option Object) :
      Runs fl referent constraint h h' → op.run fl referent (h' p) = .ok (a, result) →
      Meets fl (constraint p) (h' p) op →
      Runs fl referent constraint h (Function.update h' p a)
  | clone {h h'} (p q : Ref) :
      Runs fl referent constraint h h' → constraint q = constraint p →
      Runs fl referent constraint h (Function.update h' q (h' p).clone)
  | apply {h h'} (p : Ref) (call : Nat → Object → Native Object) :
      Runs fl referent constraint h h' →
      (∀ n temp s, Safe constraint s → Runs fl referent constraint s (exec (call n temp) s).2) →
      (∀ n temp s val, Safe constraint s → (exec (call n temp) s).1 = some val →
        ∀ fl', Meets fl' (constraint p) ((exec (call n temp) s).2 p)
          (.set (.integer (Int64.ofNat n)) val)) →
      Runs fl referent constraint h (exec (ArrayHeap.apply referent call p) h').2
  | sort {h h'} (p : Ref) (cmp : Comparison) :
      Runs fl referent constraint h h' →
      (∀ a b s, Safe constraint s → Runs fl referent constraint s (exec (cmp.compare a b) s).2) →
      Runs fl referent constraint h (exec (ArrayHeap.sort cmp p) h').2

theorem Runs.safe {fl : FloatOps} {referent : Ref → Object} {h h' : ArrayHeap}
    (hruns : Runs fl referent constraint h h') : Safe constraint h → Safe constraint h' := by
  intro hsafe
  induction hruns with
  | refl => exact hsafe
  | op p op a result _ hrun hmeets ih =>
      have hsound := (sound_iff_meets referent (ih hsafe p) op).mpr hmeets
      exact (ih hsafe).update (hsound a result hrun).1
  | clone p q _ hq ih =>
      refine (ih hsafe).update ?_
      rw [hq]
      exact ⟨(ih hsafe p).capacity, (ih hsafe p).elements⟩
  | apply p call _ _ hres ih hcall =>
      have hkeeps : CallbackMeets constraint p call := fun n temp s hs =>
        ⟨hcall n temp s hs hs, fun val hval => hres n temp s val hs hval⟩
      exact (keeps_apply referent hkeeps fl _ (ih hsafe)).1
  | sort p cmp _ _ ih hcmp =>
      have hkeeps : ∀ a b, Keeps (Safe constraint) (cmp.compare a b) fun _ _ => True :=
        fun a b s hs => ⟨hcmp a b s hs hs, fun _ _ => trivial⟩
      exact (keeps_sort hkeeps p _ (ih hsafe)).1

/-- **Typed arrays stay typed under operations that meet their condition.** In
every heap such a run reaches, every array keeps its constraint, and the next
operation raises or takes full effect within the constraint exactly when it
meets its condition. -/
theorem typed_arrays_safe (fl : FloatOps) (referent : Ref → Object)
    (constraint : Ref → Constraint) (h h' : ArrayHeap) (hsafe : Safe constraint h)
    (hruns : Runs fl referent constraint h h') :
    Safe constraint h' ∧ ∀ p op,
      (Sound fl referent (constraint p) (h' p) op ↔ Meets fl (constraint p) (h' p) op) :=
  ⟨hruns.safe hsafe, fun p op => sound_iff_meets referent (hruns.safe hsafe p) op⟩

/-- `local a : int[2] = [1, 2]`. -/
def twoInts : GSArray :=
  { values := [.integer 1, .integer 2], maxCapacity := 2, elementType := Token.TK_INT.code }

theorem twoInts_fits : Fits twoInts.tags twoInts where
  capacity := .inr (by decide)
  elements o ho := by
    refine .inr ?_
    revert o
    decide

theorem typed_arrays_safe_twoInts :
    Safe (fun _ => twoInts.tags) (Function.update (fun _ => twoInts) 0
        { twoInts with values := [.integer 5, .integer 2] }) ∧
      ∀ p op, (Sound .unused (fun _ => .null) twoInts.tags
          (Function.update (fun _ => twoInts) 0
            { twoInts with values := [.integer 5, .integer 2] } p) op ↔
        Meets .unused twoInts.tags (Function.update (fun _ => twoInts) 0
            { twoInts with values := [.integer 5, .integer 2] } p) op) :=
  typed_arrays_safe .unused (fun _ => .null) (fun _ => twoInts.tags) (fun _ => twoInts) _
    (fun _ => twoInts_fits)
    (.op 0 (.set (.integer 0) (.integer 5)) _ (some (.integer 5)) (.refl _) rfl
      fun _ _ _ => .inr rfl)

/-- Indexed assignment stores what the array's type forbids. -/
theorem not_sound_set :
    ¬ ∀ (fl : FloatOps) (referent : Ref → Object) (a : GSArray) (op : Op), Fits a.tags a →
      Sound fl referent a.tags a op := by
  intro h
  have hfits := (h .unused (fun _ => .null) twoInts (.set (.integer 0) (.string (sc "x")))
    twoInts_fits _ _ rfl).1
  rcases hfits.elements (.string (sc "x")) List.mem_cons_self with hnone | hok
  · cases hnone
  · cases hok

end GameScript
