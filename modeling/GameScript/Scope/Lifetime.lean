import GameScript.Scope.ReadBack
import GameScript.Scope.References

/-!
How long the scope of a module lives. The closures of a module have it as their `_root`, which is
a weak reference; what keeps it alive are the references that are counted, those of the stack and
of its own slot `__namespace` among them. An object is freed when no reference to it is left, or
by a collection that does not reach it.

* `Op.spares`: each operation of the machine leaves alone all references but those it takes.
* `scope_outlives_closures`: a scope outlives the closures of its module where no step takes the
  last reference that holds it.
* `not_scope_outlives`: a namespace declaration takes it.
-/

namespace GameScript.Scope.Lifetime

open Relation

/-! ### Runs -/

/-- Its functions leave the machine as it is; what a metamethod does are steps of their own. -/
structure Silent (host : Host Objects) : Prop where
  call : ∀ f args w, (host.call f args w).2 = w
  get : ∀ self key w, (host.get self key w).2 = w
  newSlot : ∀ self key val w, (host.newSlot self key val w).2 = w

/-- What a machine does to the references. A new object is in a variable of the function that
makes it before it goes anywhere. -/
inductive Op where
  /-- `_OP_IMPORT`: the scope of the module and the closure of its body. -/
  | «import» (links : List Object)
  /-- `_OP_CLOSURE` in the closure `c`, and `GSClosure::Clone` of it. -/
  | closure (c : Ref) (links : List Object)
  /-- A closure made by `compilestring` and the like, whose root is the root table. -/
  | load (links : List Object)
  /-- `GSTable::Create`. -/
  | table
  /-- Another object is made. -/
  | object (x : Object) (links : List Object)
  /-- `GS_setclosureroot`. -/
  | setroot (c t : Ref)
  /-- A slot of a table is made or gets another value. -/
  | setSlot (r : Ref) (key val : Object)
  | deleteSlot (r : Ref) (key : Object)
  | setDelegate (r : Ref) (d : Option Ref)
  /-- What an object that is no table refers to changes: captured variables, elements, fields. -/
  | relink (x : Object) (links : List Object)
  /-- A slot of the stack gets a value; null clears it. -/
  | setStack (i : Nat) (val : Object)
  | hold (i : Nat) (val : Object)
  /-- A variable of a C++ function gets an object, and the variables from `n` on end. -/
  | keep (x : Object)
  | leave (n : Nat)
  /-- `EnterFrame`. -/
  | call (f : Object) (newbase newtop : Nat)
  /-- `LeaveFrame`. -/
  | «return»
  /-- `_OP_NAMESPACE` in the closure `c`. -/
  | «namespace» (host : Host Objects) (c : Ref) (path : List UInt8)
  /-- Frees an object nothing refers to. -/
  | drop (x : Object)
  /-- `CollectGarbage`. -/
  | collect (garbage : List Object)

namespace Op

def apply (w : World Objects) : Op → World Objects
  | .import links =>
      let m := w.heap.size
      (createSandbox w).withRest ((w.rest.keep (.table m)).newClosure m (some m) none links)
  | .closure c links =>
      w.withRest
        (w.rest.newClosure (w.rest.closureRoot c) (w.rest.module c) (w.rest.module c) links)
  | .load links => w.withRest (w.rest.newClosure w.root none none links)
  | .table => (w.create .empty false).withRest (w.rest.keep (.table w.heap.size))
  | .object x links =>
      w.withRest { w.rest.keep x with
        others := x :: w.rest.others
        links := Function.update w.rest.links x links }
  | .setroot c t =>
      w.withRest { w.rest with closureRoot := Function.update w.rest.closureRoot c t }
  | .setSlot r key val => w.setSlot r key val
  | .deleteSlot r key => { w with heap := w.heap.deleteSlot r key, root_lt := w.root_lt }
  | .setDelegate r d =>
      { w with
        heap := w.heap.setDelegate r d
        root_lt := (Heap.setDelegate_size r d).symm ▸ w.root_lt }
  | .relink x links => w.withRest { w.rest with links := Function.update w.rest.links x links }
  | .setStack i val => w.withRest { w.rest with stack := Function.update w.rest.stack i val }
  | .hold i val => w.withRest { w.rest with held := Function.update w.rest.held i val }
  | .keep x => w.withRest (w.rest.keep x)
  | .leave n => w.withRest { w.rest with locals := w.rest.locals.take n }
  | .call f newbase newtop => w.withRest (w.rest.EnterFrame f newbase newtop)
  | .return => w.withRest w.rest.LeaveFrame
  | .namespace host c path => opNamespace host w (scopeOf w c) path
  | .drop x => free w [x]
  | .collect garbage => free w garbage

/-- When an operation can be done. -/
def Enabled (w : World Objects) : Op → Prop
  | .closure c _ => Live w (.closure c)
  | .object x _ => (∀ r, x ≠ .table r) ∧ (∀ c, x ≠ .closure c) ∧ x ∉ w.rest.others ∧
      x ∉ w.rest.freed
  | .setroot c t => Live w (.closure c) ∧ Live w (.table t)
  | .namespace host c _ => Live w (.closure c) ∧ Silent host
  | .drop x => Droppable w x
  | .collect garbage => (∀ x ∈ garbage, Live w x ∧ ¬ Reachable w x) ∧
      ∀ x, Live w x → ¬ Reachable w x → x ∈ garbage
  | _ => True

/-- The places an operation takes a reference from. -/
def Takes (w : World Objects) : Op → Place → Prop
  | .setSlot r key val, p => p = .slot r key ∧ referent w p ≠ some val
  | .deleteSlot r key, p => p = .slot r key ∨ p = .key r key
  | .setDelegate r d, p => p = .delegate r ∧ referent w p ≠ d.map .table
  | .relink x links, p => ∃ i, p = .link x i ∧ referent w p ≠ links[i]?
  | .setStack i val, p => p = .stack i ∧ referent w p ≠ some val
  | .hold i val, p => p = .held i ∧ referent w p ≠ some val
  | .leave n, p => ∃ i, n ≤ i ∧ p = .var i
  | .return, p => ∃ ci, w.rest.callsstack.getLast? = some ci ∧
      (p = .frame (w.rest.callsstack.length - 1) ∨
        ∃ i, (w.rest.leftTo ci).2 ≤ i ∧ i ≤ w.rest.top ∧ p = .stack i)
  -- `__namespace` of the scope, which referred to the scope
  | .namespace _ c _, p => ∃ m, scopeOf w c = some m ∧ p = .slot m ns_key
  | _, _ => False

/-- Whether all that an operation does to the references is to take some and to make some. -/
def takesOnly : Op → Bool
  | .setroot _ _ | .drop _ | .collect _ => false
  | _ => true

/-- An operation that takes no scope from under the closures that its module made: by the
references it does not take, the scope is held from the machine or from a cycle. A collection
reaches the scope with the closure, no closure is given another root, and a closure is made by one
whose scope is there. -/
def Safe (w : World Objects) : Op → Prop
  | .closure c _ => ∀ m, w.rest.module c = some m →
      w.rest.closureRoot c = m ∧ Live w (.table m) ∧ Anchored w nowhere (.table m)
  | .setroot c t => ∀ m, w.rest.origin c = some m → t = m
  | .collect _ => ∀ c m, Reachable w (.closure c) → w.rest.origin c = some m →
      Reachable w (.table m)
  | op => ∀ c m, Live w (.closure c) → w.rest.origin c = some m →
      Anchored w (op.Takes w) (.table m)

end Op

/-- The states of the runs whose operations all meet a condition, from a machine without
modules. -/
inductive Run (ok : World Objects → Op → Prop) : World Objects → Prop
  | start {w : World Objects} : (∀ c, w.rest.origin c = none) → w.rest.freed = [] → Run ok w
  | step {w : World Objects} {op : Op} : Run ok w → op.Enabled w → ok w op →
      Run ok (op.apply w)

variable {w w' : World Objects} {taken : Place → Prop} {x y a b : Object} {c m r : Ref}

/-! ### What each operation leaves alone -/

/-- A new table takes no reference from what was there. -/
theorem spares_create (slots : Table.Contents) (toRoot : Bool) :
    TablesOnly nowhere w (w.create slots toRoot) := by
  refine spares_heap (Nat.le_succ _) rfl rfl ?_ ?_ ?_
  · intro r key b hr _ hb
    rw [World.create_old slots toRoot hr]
    exact hb
  · intro r key b hr _ hb
    rw [World.create_old slots toRoot hr]
    exact ⟨b, hb⟩
  · intro r d hr _ hd
    rw [Heap.delegate, World.create_old slots toRoot hr]
    exact hd

/-- An assignment takes the value that was in the slot, and no other
reference. -/
theorem spares_setSlot (r : Ref) (key val : Object) :
    TablesOnly ((Op.setSlot r key val).Takes w) w (w.setSlot r key val) := by
  refine spares_heap (Nat.le_refl _) rfl rfl ?_ ?_ ?_
  · intro r' key' b _ hp hb
    rw [World.setSlot_slots]
    split
    · next heq =>
        obtain ⟨rfl, rfl⟩ := heq
        by_contra hne
        exact hp ⟨rfl, fun hval => hne (hval.symm.trans hb)⟩
    · exact hb
  · intro r' key' b _ _ hb
    rw [World.setSlot_slots]
    split
    · exact ⟨val, rfl⟩
    · exact ⟨b, hb⟩
  · intro r' d _ _ hd
    rw [World.setSlot_delegate]
    exact hd

/-- A slot that was not there takes nothing. -/
theorem spares_newSlot {key : Object} (val : Object)
    (hnone : r < w.heap.size → (w.heap.table r).slots key = none) :
    TablesOnly nowhere w (w.setSlot r key val) := by
  apply (spares_setSlot r key val).unless
  rintro p x howner ⟨rfl, -⟩ hx
  have hr : r < w.heap.size := (howner _ rfl).1
  change (w.heap.table r).slots key = some x at hx
  rw [hnone hr] at hx
  cases hx

/-- A deletion takes the key and the value of the slot, and no other
reference. -/
theorem spares_deleteSlot (r : Ref) (key : Object) :
    TablesOnly ((Op.deleteSlot r key).Takes w) w ((Op.deleteSlot r key).apply w) := by
  refine spares_heap (Nat.le_refl _) rfl rfl (fun r' key' b _ hp hb => ?_)
    (fun r' key' b _ hp hb => ?_) fun r' d _ _ hd => ?_
  · exact (Heap.deleteSlot_slots ..).trans
      ((if_neg fun heq => hp (.inl (by rw [heq.1, heq.2]))).trans hb)
  · exact ⟨b, (Heap.deleteSlot_slots ..).trans
      ((if_neg fun heq => hp (.inr (by rw [heq.1, heq.2]))).trans hb)⟩
  · exact (congrFun (Heap.deleteSlot_delegate r key) r').trans hd

/-- Another delegate takes the reference to the former one only. -/
theorem spares_setDelegate (r : Ref) (d : Option Ref) :
    TablesOnly ((Op.setDelegate r d).Takes w) w ((Op.setDelegate r d).apply w) := by
  have hsize := (Heap.setDelegate_size (h := w.heap) r d).symm
  refine spares_heap (Nat.le_of_eq hsize) rfl rfl (fun r' key' b _ _ hb => ?_)
    (fun r' key' b _ _ hb => ?_) fun r' m _ hp hm => ?_
  · exact (congrFun (Heap.setDelegate_slots r d r') key').trans hb
  · exact ⟨b, (congrFun (Heap.setDelegate_slots r d r') key').trans hb⟩
  · by_cases hr : r' = r
    · subst hr
      have hval : (w.heap.delegate r').map Object.table = d.map .table := by
        by_contra hne
        exact hp ⟨rfl, hne⟩
      rw [hm] at hval
      obtain ⟨m', rfl, hm'⟩ := Option.map_eq_some_iff.mp hval.symm
      obtain rfl := Object.table.inj hm'
      exact (Heap.setDelegate_self r' (some m')).elim id fun hsame => hsame.trans hm
    · exact (congrArg TableObj.delegate (Heap.setDelegate_other d hr)).trans hm

/-- A segment of a namespace takes nothing: what it makes had not been there. -/
theorem spares_ensureTable {host : Host Objects} (hsilent : Silent host) (w : World Objects)
    (current : Object) (segment : List UInt8) (toRoot : Bool) :
    TablesOnly nowhere w (ensureTable host w current segment toRoot).2 := by
  have hsame : (Get host w current (.string segment)).2 = w :=
    (Get_effect (R := fun w w' => w' = w) (fun _ => rfl) (fun _ _ _ h h' => h'.trans h)
      hsilent.call hsilent.get w current (.string segment))
  unfold ensureTable
  rcases hget : Get host w current (.string segment) with ⟨_ | v, w'⟩
  · rw [hget] at hsame
    obtain rfl : w' = w := hsame
    refine (spares_create .empty toRoot).trans ?_
    apply NewSlot_effect (R := TablesOnly nowhere) .refl
    · intro f args w
      rw [hsilent.call]
      exact .refl w
    · intro self key val w
      rw [hsilent.newSlot]
      exact .refl w
    · rintro r rfl
      apply spares_newSlot
      intro hr
      rcases Nat.lt_or_eq_of_le (Nat.le_of_lt_succ hr) with hlt | rfl
      · rw [World.create_old _ _ hlt]
        exact Get_none (by simp) hget
      · rw [World.create_new]
        rfl
  · rw [hget] at hsame
    obtain rfl : w' = w := hsame
    exact .refl w'

/-- The walk of a namespace declaration takes no reference: it only adds
tables and slots. -/
theorem spares_buildLoop {host : Host Objects} (hsilent : Silent host) :
    ∀ (str buf : List UInt8) (current : Object) (w : World Objects),
      TablesOnly nowhere w (buildLoop host str buf current w).2
  | [], buf, current, w => by
      rw [buildLoop]
      split
      · exact .refl w
      · exact spares_ensureTable hsilent w current buf false
  | c :: str, buf, current, w => by
      rw [buildLoop]
      split
      · exact (spares_ensureTable hsilent w current buf true).trans
          (spares_buildLoop hsilent str [] _ _)
      · exact spares_buildLoop hsilent str _ current w

/-- A namespace declaration takes the slot `__namespace` of the scope and nothing else. -/
theorem spares_opNamespace {host : Host Objects} (hsilent : Silent host) (path : List UInt8) :
    TablesOnly ((Op.namespace host c path).Takes w) w (opNamespace host w (scopeOf w c) path) := by
  have hbuild : TablesOnly ((Op.namespace host c path).Takes w) w
      (BuildNamespaceTables host w path).2 :=
    (spares_buildLoop hsilent _ _ _ w).unless fun _ _ _ hp _ => hp.elim
  unfold opNamespace
  cases hscope : scopeOf w c with
  | none => exact hbuild
  | some m =>
      refine hbuild.trans ((spares_setSlot m ns_key _).unless ?_)
      rintro p x - ⟨rfl, -⟩ -
      exact ⟨m, hscope, rfl⟩

theorem getElem?_append_of_eq_some {α : Type} {l : List α} {i : Nat} {v : α} (l' : List α)
    (h : l[i]? = some v) : (l ++ l')[i]? = some v := by
  rw [List.getElem?_append_left (List.getElem?_eq_some_iff.mp h).1]
  exact h

theorem spares_keep (x : Object) : Spares nowhere w (w.withRest (w.rest.keep x)) :=
  spares_rest (Nat.le_refl _) (fun _ hx => hx) rfl (fun _ _ => rfl) (fun _ _ => rfl)
    (fun _ _ _ _ _ hb => hb) (fun _ _ => rfl) (fun _ _ _ hci => hci) (fun _ _ => rfl)
    fun _ _ _ hb => getElem?_append_of_eq_some _ hb

/-- A new closure takes no reference. -/
theorem spares_newClosure (root : Ref) (module origin : Option Ref) (links : List Object) :
    Spares nowhere w (w.withRest (w.rest.newClosure root module origin links)) := by
  refine spares_rest (Nat.le_succ _) (fun _ hx => hx) rfl (fun c hc => ?_) (fun c hc => ?_)
    (fun x i b hx _ hb => ?_) (fun _ _ => rfl) (fun _ _ _ hci => hci) (fun _ _ => rfl)
    fun _ _ _ hb => getElem?_append_of_eq_some _ hb
  · exact Function.update_of_ne (Nat.ne_of_lt hc) _ _
  · exact Function.update_of_ne (Nat.ne_of_lt hc) _ _
  · have hne : x ≠ .closure w.rest.closures := by
      rintro rfl
      exact Nat.lt_irrefl _ hx.1
    simp only [Objects.newClosure, Function.update_of_ne hne]
    exact hb

theorem spares_createSandbox : TablesOnly nowhere w (createSandbox w) := by
  refine (spares_create .empty true).trans (spares_newSlot _ fun _ => ?_)
  rw [World.create_new]
  rfl

/-- Where only the stack changes. -/
theorem spares_stack {i : Nat} (val : Object) : Spares ((Op.setStack i val).Takes w) w
    ((Op.setStack i val).apply w) := by
  refine spares_rest (Nat.le_refl _) (fun _ hx => hx) rfl (fun _ _ => rfl) (fun _ _ => rfl)
    (fun _ _ _ _ _ hb => hb) (fun j hp => ?_) (fun _ _ _ hci => hci) (fun _ _ => rfl)
    fun _ _ _ hb => hb
  by_cases hj : j = i
  · subst hj
    simp only [Function.update_self]
    by_contra hne
    exact hp ⟨rfl, fun hval => hne (Option.some.inj hval).symm⟩
  · exact Function.update_of_ne hj _ _

/-- What a variable of C++ is given takes what it held before. -/
theorem spares_held {i : Nat} (val : Object) : Spares ((Op.hold i val).Takes w) w
    ((Op.hold i val).apply w) := by
  refine spares_rest (Nat.le_refl _) (fun _ hx => hx) rfl (fun _ _ => rfl) (fun _ _ => rfl)
    (fun _ _ _ _ _ hb => hb) (fun _ _ => rfl) (fun _ _ _ hci => hci) (fun j hp => ?_)
    fun _ _ _ hb => hb
  by_cases hj : j = i
  · subst hj
    simp only [Function.update_self]
    by_contra hne
    exact hp ⟨rfl, fun hval => hne (Option.some.inj hval).symm⟩
  · exact Function.update_of_ne hj _ _

/-- `LeaveFrame` takes the closure of the frame and the stack from the new top on. -/
theorem spares_LeaveFrame : Spares (Op.return.Takes w) w (Op.return.apply w) := by
  change Spares _ w (w.withRest w.rest.LeaveFrame)
  unfold Objects.LeaveFrame
  cases hlast : w.rest.callsstack.getLast? with
  | none => exact .refl w
  | some ci =>
      refine spares_rest (Nat.le_refl _) (fun _ hx => hx) rfl (fun _ _ => rfl) (fun _ _ => rfl)
        (fun _ _ _ _ _ hb => hb) (fun i hp => ?_) (fun i ci' hp hci => ?_) (fun _ _ => rfl)
        fun _ _ _ hb => hb
      · exact if_neg fun hi => hp ⟨ci, hlast, .inr ⟨i, hi.1, hi.2, rfl⟩⟩
      · rw [List.getElem?_dropLast, if_pos]
        · exact hci
        · have hlt := (List.getElem?_eq_some_iff.mp hci).1
          have hne : i ≠ w.rest.callsstack.length - 1 := by
            rintro rfl
            exact hp ⟨ci, hlast, .inl rfl⟩
          omega

/-- What an operation does not take it leaves alone. -/
theorem Op.spares {op : Op} (ho : op.Enabled w) (hop : op.takesOnly = true) :
    Spares (op.Takes w) w (op.apply w) := by
  cases op with
  | «import» links =>
      exact spares_createSandbox.toSpares.trans ((spares_keep (w := createSandbox w) _).trans
        (spares_newClosure (w := (createSandbox w).withRest _) _ _ _ _))
  | closure c links => exact spares_newClosure _ _ _ _
  | load links => exact spares_newClosure _ _ _ _
  | table =>
      exact (spares_create .empty false).toSpares.trans (spares_keep (w := w.create .empty false) _)
  | object x links =>
      obtain ⟨htable, hclosure, hothers, hfreed⟩ := ho
      refine spares_rest (Nat.le_refl _) (fun _ hx => List.mem_cons_of_mem _ hx) rfl
        (fun _ _ => rfl) (fun _ _ => rfl) (fun y i b hy _ hb => ?_) (fun _ _ => rfl)
        (fun _ _ _ hci => hci) (fun _ _ => rfl)
        fun _ _ _ hb => getElem?_append_of_eq_some _ hb
      have hne : y ≠ x := by
        rintro rfl
        have halloc := hy.1
        cases y with
        | table r => exact htable r rfl
        | closure c => exact hclosure c rfl
        | _ => exact hothers halloc
      exact (congrArg (·[i]?) (Function.update_of_ne hne _ _)).trans hb
  | setroot c t => cases hop
  | setSlot r key val => exact (spares_setSlot r key val).toSpares
  | deleteSlot r key => exact (spares_deleteSlot r key).toSpares
  | setDelegate r d => exact (spares_setDelegate r d).toSpares
  | relink x links =>
      refine spares_rest (Nat.le_refl _) (fun _ hx => hx) rfl (fun _ _ => rfl) (fun _ _ => rfl)
        (fun y i b _ hp hb => ?_) (fun _ _ => rfl) (fun _ _ _ hci => hci) (fun _ _ => rfl)
        fun _ _ _ hb => hb
      by_cases hy : y = x
      · subst hy
        simp only [Function.update_self]
        by_contra hne
        exact hp ⟨i, rfl, fun hval => hne (hval.symm.trans hb)⟩
      · exact (congrArg (·[i]?) (Function.update_of_ne hy _ _)).trans hb
  | setStack i val => exact spares_stack val
  | hold i val => exact spares_held val
  | keep x => exact spares_keep x
  | leave n =>
      refine spares_rest (Nat.le_refl _) (fun _ hx => hx) rfl (fun _ _ => rfl) (fun _ _ => rfl)
        (fun _ _ _ _ _ hb => hb) (fun _ _ => rfl) (fun _ _ _ hci => hci) (fun _ _ => rfl)
        fun i b hp hb => ?_
      exact (List.getElem?_take_of_lt (Nat.lt_of_not_le fun hle => hp ⟨i, hle, rfl⟩)).trans hb
  | call f newbase newtop =>
      exact spares_rest (Nat.le_refl _) (fun _ hx => hx) rfl (fun _ _ => rfl) (fun _ _ => rfl)
        (fun _ _ _ _ _ hb => hb) (fun _ _ => rfl)
        (fun _ _ _ hci => getElem?_append_of_eq_some _ hci) (fun _ _ => rfl) fun _ _ _ hb => hb
  | «return» => exact spares_LeaveFrame
  | «namespace» host c path => exact (spares_opNamespace ho.2 path).toSpares
  | drop x => cases hop
  | collect g => cases hop

/-! ### The scope of a module -/

/-- The scope of a closure of a module is its root, is alive, and something refers to it that
does not go by itself. -/
structure Kept (w : World Objects) : Prop where
  freed : ∀ r, .table r ∈ w.rest.freed → r < w.heap.size
  root : ∀ c m, Live w (.closure c) → w.rest.origin c = some m → w.rest.closureRoot c = m
  live : ∀ c m, Live w (.closure c) → w.rest.origin c = some m → Live w (.table m)
  anchored : ∀ c m, Live w (.closure c) → w.rest.origin c = some m → Anchored w nowhere (.table m)

/-- A step that frees nothing, for the closures that were there; of a new closure it is asked. -/
theorem Kept.spares (h : Kept w) (hspares : Spares taken w w')
    (hsafe : ∀ c m, Live w (.closure c) → w.rest.origin c = some m → Anchored w taken (.table m))
    (hnew : ∀ c m, ¬ Live w (.closure c) → Live w' (.closure c) → w'.rest.origin c = some m →
      w'.rest.closureRoot c = m ∧ Live w' (.table m) ∧ Anchored w' nowhere (.table m)) :
    Kept w' where
  freed r hr := Nat.lt_of_lt_of_le (h.freed r (hspares.freed ▸ hr)) hspares.size
  root c m hc hm := by
    by_cases hold : Live w (.closure c)
    · rw [hspares.root c hold]
      exact h.root c m hold ((hspares.origin c hold).symm.trans hm)
    · exact (hnew c m hold hc hm).1
  live c m hc hm := by
    by_cases hold : Live w (.closure c)
    · exact hspares.live _ (h.live c m hold ((hspares.origin c hold).symm.trans hm))
    · exact (hnew c m hold hc hm).2.1
  anchored c m hc hm := by
    by_cases hold : Live w (.closure c)
    · exact hspares.anchored (hsafe c m hold ((hspares.origin c hold).symm.trans hm))
    · exact (hnew c m hold hc hm).2.2

/-- A closure that is made by one whose scope is there. -/
theorem Kept.newClosure (h : Kept w) {root : Ref} {origin : Option Ref} (module : Option Ref)
    (links : List Object) (hnew : ∀ m, origin = some m →
      root = m ∧ Live w (.table m) ∧ Anchored w nowhere (.table m)) :
    Kept (w.withRest (w.rest.newClosure root module origin links)) := by
  have hspares := spares_newClosure (w := w) root module origin links
  refine h.spares hspares h.anchored fun c m hold hc hm => ?_
  obtain rfl : c = w.rest.closures := by
    by_contra hne
    exact hold ⟨Nat.lt_of_le_of_ne (Nat.le_of_lt_succ hc.1) hne, hc.2⟩
  change Function.update w.rest.origin _ origin _ = some m at hm
  rw [Function.update_self] at hm
  obtain ⟨hroot, hlive, hanchored⟩ := hnew m hm
  refine ⟨?_, hspares.live _ hlive, hspares.anchored hanchored⟩
  change Function.update w.rest.closureRoot _ root _ = m
  rw [Function.update_self, hroot]

/-- An import makes no other closure than the body of the module. -/
theorem Kept.import (h : Kept w) (links : List Object) : Kept ((Op.import links).apply w) := by
  have hspares : Spares nowhere w ((Op.import links).apply w) :=
    @Op.spares w (.import links) trivial rfl
  refine h.spares hspares h.anchored fun c m hold hc hm => ?_
  obtain rfl : c = w.rest.closures := by
    by_contra hne
    exact hold ⟨Nat.lt_of_le_of_ne (Nat.le_of_lt_succ hc.1) hne, hc.2⟩
  change Function.update w.rest.origin w.rest.closures none w.rest.closures = some m at hm
  rw [Function.update_self] at hm
  cases hm

/-- What a safe operation keeps. -/
theorem Kept.step (h : Kept w) {op : Op} (ho : op.Enabled w) (hsafe : op.Safe w) :
    Kept (op.apply w) := by
  -- an operation that makes no closure
  have hsame : Spares (op.Takes w) w (op.apply w) →
      (∀ c m, Live w (.closure c) → w.rest.origin c = some m →
        Anchored w (op.Takes w) (.table m)) →
      (∀ c, Live (op.apply w) (.closure c) → Live w (.closure c)) → Kept (op.apply w) :=
    fun hspares hsafe hback => h.spares hspares hsafe fun c _ hold hc => absurd (hback c hc) hold
  cases op with
  | «import» links => exact h.import links
  | closure c links => exact h.newClosure _ links hsafe
  | load links => exact h.newClosure none links fun m hm => absurd hm.symm (Option.some_ne_none m)
  | setroot c t =>
      refine ⟨h.freed, fun c' m hc' hm => ?_, h.live, h.anchored⟩
      change Function.update w.rest.closureRoot c t c' = m
      by_cases heq : c' = c
      · subst heq
        rw [Function.update_self]
        exact hsafe m hm
      · rw [Function.update_of_ne heq]
        exact h.root c' m hc' hm
  | drop x =>
      refine ⟨fun r hr => ?_, fun c m hc hm => h.root c m (live_free.mp hc).1 hm,
        fun c m hc hm => ?_, fun c m hc hm => ?_⟩
      · rcases List.mem_cons.mp hr with rfl | hr
        · exact ho.1.1
        · exact h.freed r hr
      · have hold := (live_free.mp hc).1
        have hne := (anchored_drop ho (h.anchored c m hold hm)).1
        exact live_free.mpr ⟨h.live c m hold hm, by simpa using hne⟩
      · exact (anchored_drop ho (h.anchored c m (live_free.mp hc).1 hm)).2
  | collect garbage =>
      have hreach : ∀ c m, Live (free w garbage) (.closure c) → w.rest.origin c = some m →
          Reachable w (.table m) := by
        intro c m hc hm
        obtain ⟨hold, hnot⟩ := live_free.mp hc
        by_cases hcr : Reachable w (.closure c)
        · exact hsafe c m hcr hm
        · exact absurd (ho.2 _ hold hcr) hnot
      refine ⟨fun r hr => ?_, fun c m hc hm => h.root c m (live_free.mp hc).1 hm,
        fun c m hc hm => ?_, fun c m hc hm => ?_⟩
      · rcases List.mem_append.mp hr with hr | hr
        · exact (ho.1 _ hr).1.1
        · exact h.freed r hr
      · refine live_free.mpr ⟨h.live c m (live_free.mp hc).1 hm, fun hmem => ?_⟩
        exact (ho.1 _ hmem).2 (hreach c m hc hm)
      · exact (reachable_free (fun x hx => (ho.1 x hx).2) (hreach c m hc hm)).anchored
  | «return» =>
      refine hsame (Op.spares ho rfl) hsafe fun c hc => ?_
      change Live (w.withRest w.rest.LeaveFrame) (.closure c) at hc
      unfold Objects.LeaveFrame at hc
      split at hc <;> exact hc
  | «namespace» host c path =>
      refine hsame (Op.spares ho rfl) hsafe fun c' hc => ?_
      have hrest := (spares_opNamespace (w := w) (c := c) ho.2 path).rest
      change Live (opNamespace host w (scopeOf w c) path) (.closure c') at hc
      rw [Live, Allocated, hrest] at hc
      exact hc
  | _ => exact hsame (Op.spares ho rfl) hsafe fun c hc => hc

/-- **In every run of safe steps the scopes of live functions are kept.** -/
theorem Run.kept (h : Run Op.Safe w) : Kept w := by
  induction h with
  | start horigin hfreed =>
      constructor
      · intro r hr
        rw [hfreed] at hr
        cases hr
      all_goals
        intro c m _ hm
        rw [horigin c] at hm
        cases hm
  | step _ ho hsafe ih => exact ih.step ho hsafe

theorem Run.mono {ok ok' : World Objects → Op → Prop} (h : Run ok w)
    (hle : ∀ w op, ok w op → ok' w op) : Run ok' w := by
  induction h with
  | start horigin hfreed => exact .start horigin hfreed
  | step _ ho hok ih => exact .step ih ho (hle _ _ hok)

def noObjects : Objects where
  links _ := []
  stack _ := .null
  top := 1
  stackbase := 0
  callsstack := []
  held _ := .null
  locals := []
  closures := 0
  others := []
  closureRoot _ := 0
  module _ := none
  origin _ := none
  freed := []

/-- The root table is at 0, the table of the modules at 1 and the scope of a module at 2; the
closure of its body, at 0, has been called. -/
def imported : World Objects :=
  [.table, .setSlot 0 modules_key (.table 1), .import [], .setSlot 1 (.string (sc "m")) (.closure 0),
    .setStack 0 (.table 2), .call (.closure 0) 0 3].foldl Op.apply (World.initial noObjects)

/-- The body has made a function, at 1, which the root table has, and a private name. -/
def declared : World Objects :=
  [.closure 0 [], .setSlot 0 (.string (sc "f")) (.closure 1),
    .setSlot 2 (.string (sc "hidden")) (.integer 7)].foldl Op.apply imported

/-- The body has returned. -/
def finished : World Objects := [.return, .leave 0].foldl Op.apply declared

/-- The body has declared the namespace `A` and returned, and another call has taken the slot of
the stack that the scope was in. -/
def returned : World Objects :=
  [.namespace (Host.inert Objects) 0 (sc "A"), .return, .leave 0,
    .setStack 0 (.integer 1)].foldl Op.apply declared

/-- An operation that does not take the slot by which a scope refers to itself. -/
theorem anchored_of_own {op : Op} (hscope : ∀ c m, w.rest.origin c = some m → m = r)
    (hlive : Live w (.table r)) (hself : (w.heap.table r).slots ns_key = some (.table r))
    (htakes : ¬ op.Takes w (.slot r ns_key)) (c m : Ref) (_ : Live w (.closure c))
    (hm : w.rest.origin c = some m) : Anchored w (op.Takes w) (.table m) := by
  obtain rfl := hscope c m hm
  exact .of_own hlive rfl htakes hself

/-- The closures of a run that has made those of one module. -/
theorem scope_of_update {f : Ref → Option Ref} {n s : Ref} {o : Option Ref}
    (hf : ∀ c m, f c = some m → m = s) (ho : ∀ m, o = some m → m = s)
    (h : Function.update f n o c = some m) : m = s := by
  by_cases hc : c = n
  · subst hc
    rw [Function.update_self] at h
    exact ho m h
  · rw [Function.update_of_ne hc] at h
    exact hf c m h

theorem origin_imported (h : imported.rest.origin c = some m) : m = 2 :=
  scope_of_update (f := fun _ => none) (n := 0) (o := none)
    (fun _ m hm => absurd hm.symm (Option.some_ne_none m))
    (fun m hm => absurd hm.symm (Option.some_ne_none m)) h

theorem origin_declared (h : declared.rest.origin c = some m) : m = 2 :=
  scope_of_update (f := imported.rest.origin) (n := 1) (o := some 2) (fun _ _ => origin_imported)
    (fun _ hm => (Option.some.inj hm).symm) h

theorem live_scope {heap : Heap} {root : Ref} {hroot : root < heap.size} {o : Objects}
    (hsize : 2 < heap.size) (hfreed : o.freed = []) : Live ⟨heap, root, hroot, o⟩ (.table 2) :=
  ⟨hsize, fun hmem => List.not_mem_nil (hfreed ▸ hmem)⟩

theorem run_declared : Run Op.Safe declared := by
  have hstart : Run Op.Safe (World.initial noObjects) := .start (fun _ => rfl) rfl
  have htable := @Run.step _ _ .table hstart trivial
    fun _ m _ hm => absurd hm.symm (Option.some_ne_none m)
  have hmodules := @Run.step _ _ (.setSlot 0 modules_key (.table 1)) htable trivial
    fun _ m _ hm => absurd hm.symm (Option.some_ne_none m)
  have himport := @Run.step _ _ (.import []) hmodules trivial
    fun _ m _ hm => absurd hm.symm (Option.some_ne_none m)
  have horigin : ∀ c m, imported.rest.origin c = some m → m = 2 := fun _ _ => origin_imported
  have hentry := @Run.step _ _ (.setSlot 1 (.string (sc "m")) (.closure 0)) himport trivial
    (anchored_of_own horigin (live_scope (by decide) rfl) rfl (by rintro ⟨h, -⟩; cases h))
  have hpush := @Run.step _ _ (.setStack 0 (.table 2)) hentry trivial
    (anchored_of_own horigin (live_scope (by decide) rfl) rfl (by rintro ⟨h, -⟩; cases h))
  have hcall := @Run.step _ _ (.call (.closure 0) 0 3) hpush trivial
    (anchored_of_own horigin (live_scope (by decide) rfl) rfl not_false)
  have hclosure := @Run.step _ _ (.closure 0 []) hcall ⟨Nat.zero_lt_one, List.not_mem_nil⟩ <| by
    intro m hm
    obtain rfl := Option.some.inj hm
    exact ⟨rfl, live_scope (by decide) rfl,
      .of_own (live_scope (by decide) rfl) (p := .slot 2 ns_key) rfl not_false rfl⟩
  have horigin : ∀ c m, declared.rest.origin c = some m → m = 2 := fun _ _ => origin_declared
  have hfunction := @Run.step _ _ (.setSlot 0 (.string (sc "f")) (.closure 1)) hclosure trivial
    (anchored_of_own horigin (live_scope (by decide) rfl) rfl (by rintro ⟨h, -⟩; cases h))
  exact @Run.step _ _ (.setSlot 2 (.string (sc "hidden")) (.integer 7)) hfunction trivial
    (anchored_of_own horigin (live_scope (by decide) rfl) rfl (by rintro ⟨h, -⟩; cases h))

/-- A slot of a table that is made has not been there, one that is set has the value. -/
theorem slots_create {toRoot : Bool} {key v : Object}
    (h : ((w.create .empty toRoot).heap.table r).slots key = some v) :
    (w.heap.table r).slots key = some v := by
  by_cases hr : r = w.heap.size
  · subst hr
    rw [World.create_new] at h
    cases h
  · change (Function.update w.heap.table w.heap.size _ r).slots key = some v at h
    rwa [Function.update_of_ne hr] at h

theorem slots_setSlot {t : Ref} {key val key' v : Object}
    (h : ((w.setSlot t key val).heap.table r).slots key' = some v) :
    key' = key ∧ v = val ∨ ¬ (r = t ∧ key' = key) ∧ (w.heap.table r).slots key' = some v := by
  rw [World.setSlot_slots] at h
  split at h
  · next heq => exact .inl ⟨heq.2, (Option.some.inj h).symm⟩
  · next hne => exact .inr ⟨hne, h⟩

theorem declared_heap : declared.heap =
    ((((((((World.initial noObjects).create .empty false).setSlot 0 modules_key (.table 1)).create
      .empty true).setSlot 2 ns_key (.table 2)).setSlot 1 (.string (sc "m")) (.closure 0)).setSlot
        0 (.string (sc "f")) (.closure 1)).setSlot 2 (.string (sc "hidden")) (.integer 7)).heap :=
  rfl

theorem returned_heap : returned.heap =
    (((declared.create .empty false).setSlot 0 (.string (sc "A")) (.table 3)).setSlot 2 ns_key
      (.table 3)).heap := rfl

/-- Only `__namespace` of the scope had the scope, and it has the namespace now. -/
theorem returned_slots {key v : Object} (h : (returned.heap.table r).slots key = some v) :
    (∃ s, key = .string s) ∧
      v ∈ [Object.table 1, .table 3, .closure 0, .closure 1, .integer 7] := by
  rw [returned_heap] at h
  rcases slots_setSlot h with ⟨rfl, rfl⟩ | ⟨hns, h⟩
  · exact ⟨⟨_, rfl⟩, by simp⟩
  rcases slots_setSlot h with ⟨rfl, rfl⟩ | ⟨-, h⟩
  · exact ⟨⟨_, rfl⟩, by simp⟩
  replace h := slots_create h
  rw [declared_heap] at h
  rcases slots_setSlot h with ⟨rfl, rfl⟩ | ⟨-, h⟩
  · exact ⟨⟨_, rfl⟩, by simp⟩
  rcases slots_setSlot h with ⟨rfl, rfl⟩ | ⟨-, h⟩
  · exact ⟨⟨_, rfl⟩, by simp⟩
  rcases slots_setSlot h with ⟨rfl, rfl⟩ | ⟨-, h⟩
  · exact ⟨⟨_, rfl⟩, by simp⟩
  -- the slot of the scope that the namespace has taken
  rw [World.setSlot_slots, if_neg hns] at h
  rcases slots_setSlot (slots_create h) with ⟨rfl, rfl⟩ | ⟨-, h⟩
  · exact ⟨⟨_, rfl⟩, by simp⟩
  replace h := slots_create h
  let unused : Ref → TableObj := fun _ => {}
  change (Function.update unused 0 (unused 0) r).slots key = some v at h
  rw [Function.update_eq_self] at h
  cases h

theorem eq_of_lt_four {n : Nat} (h : n < 4) : n = 0 ∨ n = 1 ∨ n = 2 ∨ n = 3 := by omega

theorem returned_delegate {d : Ref} (h : returned.heap.delegate r = some d) : d = 0 := by
  have hr : r < 4 := (returned.heap.closed r d h).1
  rcases eq_of_lt_four hr with rfl | rfl | rfl | rfl
  · cases h
  · cases h
  · exact (Option.some.inj h).symm
  · cases h

theorem returned_stack (i : Nat) :
    returned.rest.stack i = .null ∨ returned.rest.stack i = .integer 1 := by
  have hstack : returned.rest.stack = Function.update (fun i => if 1 ≤ i ∧ i ≤ 3 then Object.null
    else Function.update (fun _ => Object.null) 0 (.table 2) i) 0 (Object.integer 1) := rfl
  rw [hstack]
  by_cases hi : i = 0
  · subst hi
    exact .inr (Function.update_self ..)
  · left
    rw [Function.update_of_ne hi, Function.update_of_ne hi]
    split <;> rfl

theorem returned_links (x : Object) : returned.rest.links x = [] := by
  change Function.update (Function.update (fun _ => []) (.closure 0) []) (.closure 1) [] x = []
  simp only [Function.update_apply, ite_self]

/-- Nothing refers to the scope. -/
theorem droppable_scope : Droppable returned (.table 2) := by
  refine ⟨live_scope (by decide) rfl, ?_, ?_⟩
  · rintro ⟨p, howner, -, hp⟩
    cases p with
    | roottable => cases hp
    | stack i =>
        rcases returned_stack i with h | h <;> rw [referent, h] at hp <;> cases hp
    | frame i => cases hp
    | held i => cases hp
    | var i => cases hp
    | _ => cases howner
  · rintro y ⟨-, p, howner, -, hp⟩
    cases p with
    | slot r key =>
        have hv := (returned_slots hp).2
        simp at hv
    | key r key =>
        obtain ⟨v, hv, rfl⟩ := Option.map_eq_some_iff.mp hp
        obtain ⟨s, hs⟩ := (returned_slots hv).1
        cases hs
    | delegate r =>
        obtain ⟨d, hd, heq⟩ := Option.map_eq_some_iff.mp hp
        rw [returned_delegate hd] at heq
        cases heq
    | link x i =>
        rw [referent, returned_links] at hp
        cases hp
    | _ => cases howner

end GameScript.Scope.Lifetime
