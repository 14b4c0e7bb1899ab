import GameScript.GSArray
import GameScript.VM.Ordering
import GameScript.Lib.HeapOrder

/-!
`array_sort` (`GSbaselib.cpp`) on one array, with the comparison as code of a
script that may change the array between any two accesses. An error that is
raised is told apart from an access behind the end of the array, which is
undefined in the source; `ArrayHeap.sort` is the same on the heap of arrays, where
both are failures (`seen_sort`).
-/

namespace GameScript.ArraySort

open Effect GameScript.VM HeapOrder

/-- The array that is sorted: its elements and the address of its buffer, and the
rest of the machine. -/
structure Machine (World : Type) where
  values : List Object
  vals : Nat
  world : World

/-- Code of a script: it ends with a result or raises an error, after any changes. -/
abbrev Script (World α : Type) := EStateM Object (Machine World) α

abbrev SortM (World α : Type) := EStateM Stop (Machine World) α

/-- What `func` stands for: a function on the stack, or `ObjCmp` where it is negative. -/
inductive Comparison (World : Type) where
  | closure (call : Object → Object → Script World Object)
  | objCmp (compare : Object → Object → Script World GSInteger)

variable {World : Type} (fl : FloatOps)

/-- `GS_getinteger`. -/
def getInteger : Object → Option GSInteger
  | .bool n => some (if n = 0 then 0 else 1)
  | o => if o.isNumeric then some (o.toInteger fl) else none

def raiseError {α : Type} (msg : String) : SortM World α := throw (.raise (.string (sc msg)))

/-- `ObjCmp` with the metamethods of the elements. -/
def runScript {α : Type} (m : Script World α) : SortM World α := fun s =>
  match m s with
  | .ok a s' => .ok a s'
  | .error err s' => .error (.raise err) s'

/-- `GS_call`; an error that is no string is replaced. -/
def callFunc (m : Script World Object) : SortM World Object := fun s =>
  match m s with
  | .ok v s' => .ok v s'
  | .error err s' =>
      .error (.raise (if err.type = .string then err else .string (sc "compare func failed"))) s'

/-- `_sort_compare`. -/
def sortCompare (cmp : Comparison World) (a b : Object) : SortM World GSInteger :=
  match cmp with
  | .objCmp compare => runScript (compare a b)
  | .closure call => do
    let before ← get
    let v ← callFunc (call a b)
    match getInteger fl v with
    | none => raiseError "numeric value expected as return value of the compare function"
    | some ret => do
      let after ← get
      if before.values.length ≠ after.values.length ∨ before.vals ≠ after.vals then
        raiseError "array resized during sort operation"
      else return ret

/-- `_values[i]`, which no check guards. -/
def element (i : Nat) : SortM World Object := do
  match (← get).values[i]? with
  | some o => return o
  | none => throw .undefined

/-- `_Swap(_values[i], _values[j])`. -/
def swap (i j : Nat) : SortM World Unit := do
  let x ← element i
  let y ← element j
  modify fun s => { s with values := swapped s.values i j x y }

/-- `maxChild` of `_hsort_sift_down`. -/
def maxChild (cmp : Comparison World) (bottom root2 : Nat) : SortM World Nat :=
  if root2 = bottom then return root2
  else do
    let ret ← sortCompare fl cmp (← element root2) (← element (root2 + 1))
    return if ret.toInt > 0 then root2 else root2 + 1

/-- `_hsort_sift_down`. -/
def siftDown (cmp : Comparison World) (bottom : Nat) : (fuel root : Nat) → SortM World Unit
  | 0, _ => throw .undefined
  | fuel + 1, root =>
      if root * 2 ≤ bottom then do
        let child ← maxChild fl cmp bottom (root * 2)
        let ret ← sortCompare fl cmp (← element root) (← element child)
        if ret.toInt < 0 then
          if root = child then raiseError "inconsistent compare function"
          else do
            swap root child
            siftDown cmp bottom fuel child
        else return ()
      else return ()

/-- The first loop of `_hsort`, over the indices below `count` downwards. -/
def hsortBuild (cmp : Comparison World) (bottom : Nat) : (count : Nat) → SortM World Unit
  | 0 => return ()
  | count + 1 => do
      siftDown fl cmp bottom (bottom + 2) count
      hsortBuild cmp bottom count

/-- The second loop of `_hsort`, from index `i` downwards. -/
def hsortExtract (cmp : Comparison World) : (i : Nat) → SortM World Unit
  | 0 => return ()
  | i + 1 => do
      swap 0 (i + 1)
      siftDown fl cmp i (i + 2) 0
      hsortExtract cmp i

/-- `_hsort`. -/
def hsort (cmp : Comparison World) : SortM World Unit := do
  let array_size := (← get).values.length
  hsortBuild fl cmp (array_size - 1) (array_size / 2 + 1)
  hsortExtract fl cmp (array_size - 1)

/-- `array_sort`. -/
def sort (cmp : Comparison World) : SortM World Unit := do
  if (← get).values.length > 1 then hsort fl cmp else return ()

/-! ### On the heap of arrays -/

/-- The arrays of a machine: the one that is sorted is at `p`, with the tags that it has there. -/
def Machine.heap (p : Ref) (s : Machine ArrayHeap) : ArrayHeap := fun q =>
  if q = p then { s.world p with values := s.values } else s.world q

/-- What a result on one array is on the heap: an error and an undefined step are both failures. -/
def onHeap {α : Type} (p : Ref) :
    EStateM.Result Stop (Machine ArrayHeap) α → Option α × ArrayHeap
  | .ok a s => (some a, s.heap p)
  | .error _ s => (none, s.heap p)

/-- `m'` does on the heap what `m` does on the array at `p`. -/
def Seen {α : Type} (p : Ref) (m : SortM ArrayHeap α) (m' : Native α) : Prop :=
  ∀ s, Fallible.exec m' (s.heap p) = onHeap p (m s)

/-- What the comparison answers, before the array is looked at again. -/
def Comparison.answer (cmp : Comparison World) (a b : Object) : SortM World GSInteger :=
  match cmp with
  | .objCmp compare => runScript (compare a b)
  | .closure call => do
    match getInteger fl (← callFunc (call a b)) with
    | none => raiseError "numeric value expected as return value of the compare function"
    | some ret => return ret

def Comparison.isFunc : Comparison World → Bool
  | .closure _ => true
  | .objCmp _ => false

/-- The comparison `cmp'` of the heap is `cmp` on the array at `p`. -/
structure Comparison.SeenAs (p : Ref) (cmp : Comparison ArrayHeap) (cmp' : ArrayHeap.Comparison) :
    Prop where
  compare : ∀ a b, Seen p (cmp.answer fl a b) (cmp'.compare a b)
  func : cmp'.func = cmp.isFunc
  moved : ∀ a b s, cmp'.moved a b (s.heap p) =
    decide ((leaves (cmp.answer fl a b) s).vals ≠ s.vals)

section OnHeap

variable {fl : FloatOps} {p : Ref} {α β : Type} {cmp : Comparison ArrayHeap}
  {cmp' : ArrayHeap.Comparison}

theorem exec_read (h : ArrayHeap) : Fallible.exec (ArrayHeap.read p) h = (some (h p), h) := rfl

theorem heap_at (s : Machine ArrayHeap) : s.heap p p = { s.world p with values := s.values } :=
  if_pos rfl

theorem seen_pure (a : α) : Seen p (pure a) (pure a) := fun _ => rfl

theorem seen_throw (e : Stop) : Seen p (throw e : SortM ArrayHeap α) failure := fun _ => rfl

theorem Seen.bind {m : SortM ArrayHeap α} {m' : Native α} {f : α → SortM ArrayHeap β}
    {f' : α → Native β} (hm : Seen p m m') (hf : ∀ a, Seen p (f a) (f' a)) :
    Seen p (m >>= f) (m' >>= f') := by
  intro s
  rw [Fallible.exec_bind, hm s, bind_apply]
  cases m s with
  | ok a s₁ => exact hf a s₁
  | error e s₁ => rfl

/-- The array that is sorted may be read. -/
theorem seen_read_bind {f : Machine ArrayHeap → SortM ArrayHeap β} {f' : GSArray → Native β}
    (h : ∀ s, Fallible.exec (f' { s.world p with values := s.values }) (s.heap p) =
      onHeap p (f s s)) :
    Seen p (get >>= f) (ArrayHeap.read p >>= f') := by
  intro s
  rw [Fallible.exec_bind, exec_read, heap_at]
  exact h s

theorem seen_element (i : Nat) : Seen p (element i) (ArrayHeap.at' p i) := by
  refine seen_read_bind fun s => ?_
  dsimp only
  cases s.values[i]? <;> rfl

theorem seen_swap (i j : Nat) : Seen p (swap i j) (ArrayHeap.swap p i j) := by
  refine (seen_element i).bind fun x => (seen_element j).bind fun y => fun s => ?_
  rw [Fallible.exec_bind, exec_read, heap_at]
  refine Prod.ext rfl (funext fun q => ?_)
  change (if q = p then _ else s.heap p q) = Machine.heap p { s with values := _ } q
  by_cases hq : q = p
  · simp [Machine.heap, hq, swapped]
  · simp [Machine.heap, hq]

/-- A function's array is looked at again behind its answer. -/
theorem sortCompare_closure (call : Object → Object → Script World Object) (a b : Object)
    (s : Machine World) :
    sortCompare fl (.closure call) a b s =
      match (Comparison.closure call).answer fl a b s with
      | .ok ret s' =>
        if s.values.length ≠ s'.values.length ∨ s.vals ≠ s'.vals then
          raiseError "array resized during sort operation" s'
        else .ok ret s'
      | .error e s' => .error e s' := by
  unfold sortCompare Comparison.answer
  dsimp only
  rw [get_bind_apply, bind_apply, bind_apply]
  cases callFunc (call a b) s with
  | error e s' => rfl
  | ok v s' =>
      dsimp only
      cases getInteger fl v with
      | none => rfl
      | some ret =>
          have hpure : (pure ret : SortM World GSInteger) s' = .ok ret s' := rfl
          dsimp only
          rw [get_bind_apply, hpure]
          dsimp only
          split <;> rfl

theorem seen_sortCompare (h : cmp.SeenAs fl p cmp') (a b : Object) :
    Seen p (sortCompare fl cmp a b) (ArrayHeap.sortCompare cmp' p a b) := by
  intro s
  have hcompare := h.compare a b s
  have hmoved := h.moved a b s
  unfold ArrayHeap.sortCompare
  rw [Fallible.exec_bind, Fallible.exec_get]
  dsimp only
  rw [Fallible.exec_bind, hcompare]
  cases cmp with
  | objCmp compare =>
      change _ = onHeap p ((Comparison.objCmp compare).answer fl a b s)
      cases (Comparison.objCmp compare).answer fl a b s with
      | error e s' => rfl
      | ok ret s' =>
          have hfunc : cmp'.func = false := h.func
          dsimp only [onHeap]
          rw [Fallible.exec_bind, exec_read]
          simp [hfunc]
  | closure call =>
      have hfunc : cmp'.func = true := h.func
      rw [sortCompare_closure]
      unfold leaves at hmoved
      cases hanswer : (Comparison.closure call).answer fl a b s with
      | error e s' => rfl
      | ok ret s' =>
          rw [hanswer] at hmoved
          dsimp only [onHeap]
          rw [Fallible.exec_bind, exec_read]
          dsimp only
          rw [hmoved, hfunc, heap_at, heap_at]
          have hiff : (true = true ∧ (GSArray.size { s.world p with values := s.values } ≠
              GSArray.size { s'.world p with values := s'.values } ∨
                decide (s'.vals ≠ s.vals) = true)) ↔
              (s.values.length ≠ s'.values.length ∨ s.vals ≠ s'.vals) := by
            constructor
            · rintro ⟨-, hlength | hvals⟩
              · exact .inl hlength
              · exact .inr (Ne.symm (of_decide_eq_true hvals))
            · rintro (hlength | hvals)
              · exact ⟨rfl, .inl hlength⟩
              · exact ⟨rfl, .inr (decide_eq_true hvals.symm)⟩
          rw [if_congr hiff rfl rfl]
          split <;> rfl

theorem seen_maxChild (h : cmp.SeenAs fl p cmp') (bottom root2 : Nat) :
    Seen p (maxChild fl cmp bottom root2) (ArrayHeap.maxChild cmp' p bottom root2) := by
  unfold maxChild ArrayHeap.maxChild
  split
  · exact seen_pure _
  · refine (seen_element _).bind fun x => (seen_element _).bind fun y => ?_
    exact (seen_sortCompare h x y).bind fun ret => seen_pure _

theorem seen_siftDown (h : cmp.SeenAs fl p cmp') (bottom fuel : Nat) :
    ∀ root, Seen p (siftDown fl cmp bottom fuel root) (ArrayHeap.siftDown cmp' p bottom fuel root) := by
  induction fuel with
  | zero => exact fun _ => seen_throw _
  | succ fuel ih =>
      intro root
      unfold siftDown ArrayHeap.siftDown
      split
      · refine (seen_maxChild h _ _).bind fun child => ?_
        refine (seen_element _).bind fun x => (seen_element _).bind fun y => ?_
        refine (seen_sortCompare h x y).bind fun ret => ?_
        split
        · split
          · exact seen_throw _
          · exact (seen_swap _ _).bind fun _ => ih child
        · exact seen_pure _
      · exact seen_pure _

theorem seen_hsortBuild (h : cmp.SeenAs fl p cmp') (bottom : Nat) :
    ∀ count, Seen p (hsortBuild fl cmp bottom count) (ArrayHeap.hsortBuild cmp' p bottom count)
  | 0 => seen_pure _
  | count + 1 => (seen_siftDown h bottom _ count).bind fun _ => seen_hsortBuild h bottom count

theorem seen_hsortExtract (h : cmp.SeenAs fl p cmp') :
    ∀ i, Seen p (hsortExtract fl cmp i) (ArrayHeap.hsortExtract cmp' p i)
  | 0 => seen_pure _
  | i + 1 =>
      (seen_swap _ _).bind fun _ =>
        (seen_siftDown h i _ 0).bind fun _ => seen_hsortExtract h i

/-- **`sort` on the heap of arrays is `sort` on the one array.** -/
theorem seen_sort (h : cmp.SeenAs fl p cmp') : Seen p (sort fl cmp) (ArrayHeap.sort cmp' p) := by
  refine seen_read_bind fun s => ?_
  dsimp only [GSArray.size]
  split
  · exact (seen_hsortBuild h _ _).bind (fun _ => seen_hsortExtract h _) s
  · rfl

end OnHeap

/-! ### Any comparison -/

/-- Where the comparison starts with at least `n` elements it leaves at least `n`.
A function is compared around its call, so it may do anything. -/
def Comparison.KeepsAtLeast (n : Nat) : Comparison World → Prop
  | .closure _ => True
  | .objCmp compare => ∀ a b s, n ≤ s.values.length → n ≤ (leaves (compare a b) s).values.length

/-- The comparison leaves the elements as they are. -/
def Comparison.LeavesValues : Comparison World → Prop
  | .closure call => ∀ a b s, (leaves (call a b) s).values = s.values
  | .objCmp compare => ∀ a b s, (leaves (compare a b) s).values = s.values

section

variable {fl : FloatOps} {cmp : Comparison World} {n : Nat}

/-- The array is long enough. -/
def AtLeast (n : Nat) (s : Machine World) : Prop := n ≤ s.values.length

/-- With `n` elements at least, `m` ends with as many and a result as in `q`, or raises. -/
abbrev Safe {α : Type} (n : Nat) (m : SortM World α) (q : α → Prop) : Prop :=
  Ends (AtLeast n) m (fun a s => q a ∧ AtLeast n s) fun x _ => x ≠ .undefined

theorem safe_pure {α : Type} {a : α} {q : α → Prop} (h : q a) :
    Safe n (pure a : SortM World α) q :=
  ends_pure fun _ hs => ⟨h, hs⟩

theorem safe_raiseError {α : Type} (msg : String) {q : α → Prop} :
    Safe n (raiseError msg : SortM World α) q := fun _ _ => nofun

theorem Safe.bind {α β : Type} {m : SortM World α} {f : α → SortM World β} {q : α → Prop}
    {r : β → Prop} (hm : Safe n m q) (hf : ∀ a, q a → Safe n (f a) r) : Safe n (m >>= f) r :=
  Ends.bind hm fun a s hs => hf a hs.1 s hs.2

theorem safe_runScript {α : Type} {m : Script World α}
    (h : ∀ s, AtLeast n s → AtLeast n (leaves m s)) : Safe n (runScript m) fun _ => True := by
  intro s hs
  have hleaves := h s hs
  unfold leaves at hleaves
  unfold runScript
  cases hm : m s with
  | ok a s' =>
      rw [hm] at hleaves
      exact ⟨trivial, hleaves⟩
  | error err s' => exact nofun

theorem ends_callFunc (p : Machine World → Prop) (m : Script World Object) :
    Ends p (callFunc m) (fun _ _ => True) fun x _ => x ≠ .undefined := by
  intro s _
  unfold callFunc
  cases m s with
  | ok v s' => trivial
  | error err s' => exact nofun

/-- What `_sort_compare` has let through is an array of the same length. -/
theorem safe_sortCompare (hcmp : cmp.KeepsAtLeast n) (a b : Object) :
    Safe n (sortCompare fl cmp a b) fun _ => True := by
  cases cmp with
  | objCmp compare => exact safe_runScript (hcmp a b)
  | closure call =>
      refine ends_get_bind fun before hbefore => ?_
      refine (ends_callFunc _ _).bind fun v => ?_
      split
      · exact fun _ _ => nofun
      · refine ends_get_bind fun after _ => ?_
        split
        · exact fun _ _ => nofun
        · next hsame =>
            have hlength : before.values.length = after.values.length :=
              Decidable.byContradiction fun hne => hsame (.inl hne)
            refine ends_pure ?_
            rintro s rfl
            exact ⟨trivial, Nat.le_trans hbefore (Nat.le_of_eq hlength)⟩

theorem safe_element {i : Nat} (hi : i < n) :
    Safe n (element i : SortM World Object) fun _ => True := by
  intro s hs
  unfold element
  rw [get_bind_apply, List.getElem?_eq_getElem (Nat.lt_of_lt_of_le hi hs)]
  exact ⟨trivial, hs⟩

theorem safe_swap {i j : Nat} (hi : i < n) (hj : j < n) :
    Safe n (swap i j : SortM World Unit) fun _ => True := by
  unfold swap
  refine (safe_element hi).bind fun x _ => (safe_element hj).bind fun y _ => ?_
  refine ends_modify fun s hs => ⟨trivial, ?_⟩
  show n ≤ (swapped s.values i j x y).length
  rw [swapped_length]
  exact hs

/-- The greater child is one of the two. -/
theorem safe_maxChild (hcmp : cmp.KeepsAtLeast n) {bottom root2 : Nat} (hbottom : bottom < n)
    (hroot2 : root2 ≤ bottom) :
    Safe n (maxChild fl cmp bottom root2) fun child => root2 ≤ child ∧ child ≤ bottom := by
  unfold maxChild
  split
  · exact safe_pure ⟨Nat.le_refl _, hroot2⟩
  · next hne =>
      refine (safe_element (by omega)).bind fun a _ => (safe_element (by omega)).bind fun b _ => ?_
      refine (safe_sortCompare hcmp a b).bind fun ret _ => ?_
      split
      · exact safe_pure ⟨Nat.le_refl _, hroot2⟩
      · exact safe_pure ⟨Nat.le_succ _, by omega⟩

/-- The root moves down with each round, so the fuel is enough. -/
theorem safe_siftDown (hcmp : cmp.KeepsAtLeast n) {bottom : Nat} (hbottom : bottom < n) :
    ∀ (fuel root : Nat), bottom - root < fuel →
      Safe n (siftDown fl cmp bottom fuel root) fun _ => True
  | 0, _, hfuel => absurd hfuel (Nat.not_lt_zero _)
  | fuel + 1, root, hfuel => by
      unfold siftDown
      split
      · next hroot =>
          refine (safe_maxChild hcmp hbottom hroot).bind fun child hchild => ?_
          refine (safe_element (by omega)).bind fun a _ => ?_
          refine (safe_element (by omega)).bind fun b _ => ?_
          refine (safe_sortCompare hcmp a b).bind fun ret _ => ?_
          split
          · split
            · exact safe_raiseError _
            · next hne =>
                refine (safe_swap (by omega) (by omega)).bind fun _ _ => ?_
                exact safe_siftDown hcmp hbottom fuel child (by omega)
          · exact safe_pure trivial
      · exact safe_pure trivial

theorem safe_hsortBuild (fl : FloatOps) (hcmp : cmp.KeepsAtLeast n) {bottom : Nat}
    (hbottom : bottom < n) : ∀ count, Safe n (hsortBuild fl cmp bottom count) fun _ => True
  | 0 => safe_pure trivial
  | count + 1 =>
      (safe_siftDown hcmp hbottom (bottom + 2) count (by omega)).bind fun _ _ =>
        safe_hsortBuild fl hcmp hbottom count

theorem safe_hsortExtract (hcmp : cmp.KeepsAtLeast n) :
    ∀ i, i < n → Safe n (hsortExtract fl cmp i) fun _ => True
  | 0, _ => safe_pure trivial
  | i + 1, hi =>
      (safe_swap (by omega) hi).bind fun _ _ =>
        (safe_siftDown hcmp (by omega) (i + 2) 0 (by omega)).bind fun _ _ =>
          safe_hsortExtract hcmp i (by omega)

/-- **A sort reads no element outside of the array.** -/
theorem sort_ne_undefined {s : Machine World} (hcmp : cmp.KeepsAtLeast s.values.length)
    (s' : Machine World) : sort fl cmp s ≠ .error .undefined s' := by
  intro h
  unfold sort at h
  rw [get_bind_apply] at h
  split at h
  · next hsize =>
      have hsafe : Safe s.values.length (hsortExtract fl cmp (s.values.length - 1)) _ :=
        safe_hsortExtract hcmp _ (by omega)
      have hlast : s.values.length - 1 < s.values.length := by omega
      have hrun := (safe_hsortBuild fl hcmp hlast (s.values.length / 2 + 1)).bind fun _ _ => hsafe
      exact hrun.error (Nat.le_refl _) h rfl
  · cases h

/-! ### A comparison that does not modify the array -/

/-- The elements are the same, in another order. -/
def Permutes (s s' : Machine World) : Prop := s'.values.Perm s.values

instance : Std.Refl (@Permutes World) := ⟨fun _ => .refl _⟩

instance : IsTrans (Machine World) Permutes := ⟨fun _ _ _ h h' => List.Perm.trans h' h⟩

theorem permutes_runScript {α : Type} {m : Script World α}
    (h : ∀ s, (leaves m s).values = s.values) : Within Permutes (runScript m) := by
  intro s
  have hs := h s
  unfold leaves runScript at *
  cases hm : m s <;> simp_all [Permutes]

theorem permutes_callFunc {m : Script World Object} (h : ∀ s, (leaves m s).values = s.values) :
    Within Permutes (callFunc m) := by
  intro s
  have hs := h s
  unfold leaves callFunc at *
  cases hm : m s <;> simp_all [Permutes]

theorem permutes_sortCompare (hcmp : cmp.LeavesValues) (a b : Object) :
    Within Permutes (sortCompare fl cmp a b) := by
  cases cmp with
  | objCmp compare => exact permutes_runScript (hcmp a b)
  | closure call =>
      refine within_bind within_get fun before => ?_
      refine within_bind (permutes_callFunc (hcmp a b)) fun v => ?_
      split
      · exact within_throw _
      · refine within_bind within_get fun after => ?_
        split
        · exact within_throw _
        · exact within_pure _

theorem permutes_element (i : Nat) : Within Permutes (element i : SortM World Object) := by
  refine within_bind within_get fun s => ?_
  split
  · exact within_pure _
  · exact within_throw _

theorem element_apply (i : Nat) (s : Machine World) :
    (element i : SortM World Object) s =
      match s.values[i]? with
      | some o => .ok o s
      | none => .error .undefined s := by
  unfold element
  rw [get_bind_apply]
  cases s.values[i]? <;> rfl

theorem permutes_swap (i j : Nat) : Within Permutes (swap i j : SortM World Unit) := by
  intro s
  unfold swap leaves
  simp only [bind_apply, element_apply]
  cases hx : s.values[i]? with
  | none => exact .refl _
  | some x =>
      dsimp only
      cases hy : s.values[j]? with
      | none => exact .refl _
      | some y => exact swapped_perm hx hy

theorem permutes_maxChild (hcmp : cmp.LeavesValues) (bottom root2 : Nat) :
    Within Permutes (maxChild fl cmp bottom root2) := by
  unfold maxChild
  split
  · exact within_pure _
  · refine within_bind (permutes_element _) fun a => within_bind (permutes_element _) fun b => ?_
    exact within_bind (permutes_sortCompare hcmp a b) fun ret => within_pure _

/-- Sifting down permutes the elements. -/
theorem permutes_siftDown (hcmp : cmp.LeavesValues) (bottom : Nat) :
    ∀ fuel root, Within Permutes (siftDown fl cmp bottom fuel root)
  | 0, _ => within_throw _
  | fuel + 1, root => by
      unfold siftDown
      split
      · refine within_bind (permutes_maxChild hcmp _ _) fun child => ?_
        refine within_bind (permutes_element _) fun a => within_bind (permutes_element _) fun b => ?_
        refine within_bind (permutes_sortCompare hcmp a b) fun ret => ?_
        split
        · split
          · exact within_throw _
          · exact within_bind (permutes_swap _ _) fun _ => permutes_siftDown hcmp bottom fuel child
        · exact within_pure _
      · exact within_pure _

theorem permutes_hsortBuild (hcmp : cmp.LeavesValues) (bottom : Nat) :
    ∀ count, Within Permutes (hsortBuild fl cmp bottom count)
  | 0 => within_pure _
  | count + 1 =>
      within_bind (permutes_siftDown hcmp bottom _ count) fun _ =>
        permutes_hsortBuild hcmp bottom count

theorem permutes_hsortExtract (hcmp : cmp.LeavesValues) :
    ∀ i, Within Permutes (hsortExtract fl cmp i)
  | 0 => within_pure _
  | i + 1 =>
      within_bind (permutes_swap _ _) fun _ =>
        within_bind (permutes_siftDown hcmp i _ 0) fun _ => permutes_hsortExtract hcmp i

theorem permutes_sort (hcmp : cmp.LeavesValues) : Within Permutes (sort fl cmp) := by
  refine within_bind within_get fun s => ?_
  split
  · refine within_bind within_get fun s => ?_
    exact within_bind (permutes_hsortBuild hcmp _ _) fun _ => permutes_hsortExtract hcmp _
  · exact within_pure _

end

/-- **Sorting is safe while the array does not get shorter.** Whatever the
comparison does, `sort` ends with a result or a raised error and stays inside the
array, when the comparison is a function or no metamethod takes the array below
the length it started with. A comparison that leaves the elements alone leaves a
permutation of them, also behind an error. -/
theorem sort_safe (fl : FloatOps) (cmp : Comparison World) (s : Machine World)
    (hcmp : cmp.KeepsAtLeast s.values.length) :
    (∀ s', sort fl cmp s ≠ .error .undefined s') ∧
      (cmp.LeavesValues → (leaves (sort fl cmp) s).values.Perm s.values) :=
  ⟨sort_ne_undefined hcmp, fun hleaves => permutes_sort hleaves s⟩

/-- Leaves everything as it is and answers `-1`, so that each element is less than each. -/
def alwaysLess : Comparison Unit := .objCmp fun _ _ => return -1

theorem sort_safe_two :
    (∀ s', sort FloatOps.unused alwaysLess ⟨[.table 1, .table 2], 0, ()⟩ ≠
        .error .undefined s') ∧
      (alwaysLess.LeavesValues →
        (leaves (sort FloatOps.unused alwaysLess) ⟨[.table 1, .table 2], 0, ()⟩).values.Perm
          [.table 1, .table 2]) :=
  sort_safe FloatOps.unused alwaysLess ⟨[.table 1, .table 2], 0, ()⟩ fun _ _ _ h => h

/-- A metamethod that clears the array and answers `-1`. -/
def clearing : Comparison Unit := .objCmp fun _ _ => do
  modify fun s => { s with values := [] }
  return -1

/-- A metamethod may clear the array between two accesses. -/
theorem not_sort_safe :
    ¬ ∀ (fl : FloatOps) (cmp : Comparison Unit) (s s' : Machine Unit),
      sort fl cmp s ≠ .error .undefined s' := fun h =>
  h FloatOps.unused clearing ⟨[.table 1, .table 2], 0, ()⟩ _ rfl

end GameScript.ArraySort
