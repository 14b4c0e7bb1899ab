import GameScript.GSArray
import GameScript.VM.Arithmetic
import GameScript.Compiler.Statement

/-!
The type check of a declared array. The declaration of a local variable is compiled to
`_OP_TYPECHECK` with the type and the size of the annotation, and that instruction both
checks the array and writes the type and the size into it.

The size is an 8-bit operand of the instruction, so it is carried modulo 256, and the `-1`
of a declaration without a size comes out as 255. The array is tagged before its elements
are looked at.
-/

namespace GameScript

open Effect

namespace GSArray

/-! ### The check of the virtual machine -/

/-- `arr_obj->_max_capacity = arr_size`, where there is a size and it is not set yet. -/
def recordSize (arr_size : Int) (a : GSArray) : GSArray :=
  if 0 < arr_size ∧ a.maxCapacity = -1 then { a with maxCapacity := arr_size } else a

/-- `arr_obj->_element_type = expected_tok`, where it is not set yet. -/
def recordType (expected_tok : Int) (a : GSArray) : GSArray :=
  if a.elementType = -1 then { a with elementType := expected_tok } else a

def sizeError (arr_size : Int) : String :=
  s!"type mismatch: array literal exceeds strict fixed size of {arr_size}"

def elementError (i : Nat) : String :=
  s!"type mismatch: array element at index {i} does not match expected type"

/-- The loop over the elements, from index `i` on. -/
def checkElements (expected_tok : Int) : Nat → List Object → EStateM String GSArray Unit
  | _, [] => return ()
  | i, elem :: elems =>
    if typeOk expected_tok elem then checkElements expected_tok (i + 1) elems
    else throw (elementError i)

/-- The array case of `_OP_TYPECHECK`. What it wrote before it failed stays written. -/
def typeCheck (expected_tok arr_size : Int) : EStateM String GSArray Unit := do
  modify (recordSize arr_size)
  let a : GSArray ← MonadState.get
  if 0 < arr_size ∧ arr_size < a.size then throw (sizeError arr_size)
  else
    modify (recordSize arr_size)
    modify (recordType expected_tok)
    let a : GSArray ← MonadState.get
    checkElements expected_tok 0 a.values

end GSArray

/-- A runtime together with the arrays that `_OP_TYPECHECK` looks at. -/
def Runtime.withArrays (rt : Runtime) : Runtime where
  Heap := rt.Heap × ArrayHeap
  fl := rt.fl
  strcmp := rt.strcmp
  serve q heap closures generators outers :=
    match q with
    | .typeCheckArray (.array p) expected_tok arr_size =>
      let write (a : GSArray) : ArrayHeap := fun q => if q = p then a else heap.2 q
      match GSArray.typeCheck expected_tok arr_size (heap.2 p) with
      | .ok _ a =>
        { result := .ok (.values []), heap := (heap.1, write a), generators := generators }
      | .error msg a =>
        { result := .error (.string (sc msg)), heap := (heap.1, write a)
          generators := generators }
    | q =>
      let response := rt.serve q heap.1 closures generators outers
      { result := response.result
        heap := (response.heap, heap.2)
        written := response.written
        closures := response.closures
        outers := response.outers
        generators := response.generators }

namespace GSArray

/-! ### What the check comes to -/

theorem recordSize_values (arr_size : Int) (a : GSArray) :
    (a.recordSize arr_size).values = a.values := by
  unfold recordSize
  split <;> rfl

theorem recordType_values (expected_tok : Int) (a : GSArray) :
    (a.recordType expected_tok).values = a.values := by
  unfold recordType
  split <;> rfl

/-- A size that is recorded stays, whatever is asked for later. -/
theorem recordSize_recordSize (arr_size : Int) (a : GSArray) :
    (a.recordSize arr_size).recordSize arr_size = a.recordSize arr_size := by
  unfold recordSize
  split
  · rename_i h
    rw [if_neg]
    rintro ⟨hpos, hnone⟩
    change arr_size = -1 at hnone
    omega
  · rfl

/-- The array as the check leaves it. -/
def tagged (expected_tok arr_size : Int) (a : GSArray) : GSArray :=
  (a.recordSize arr_size).recordType expected_tok

/-- A check of a size that is exceeded fails before the tag is set, a check of
the elements behind it. -/
theorem typeCheck_apply (expected_tok arr_size : Int) (a : GSArray) :
    typeCheck expected_tok arr_size a =
      if 0 < arr_size ∧ arr_size < a.size then .error (sizeError arr_size) (a.recordSize arr_size)
      else checkElements expected_tok 0 a.values (a.tagged expected_tok arr_size) := by
  have hsize : (a.recordSize arr_size).size = a.size := by
    unfold size
    rw [recordSize_values]
  have hvalues : (a.tagged expected_tok arr_size).values = a.values := by
    unfold tagged
    rw [recordType_values, recordSize_values]
  by_cases hexceeds : 0 < arr_size ∧ arr_size < a.size
  · rw [if_pos hexceeds]
    rw [← hsize] at hexceeds
    unfold typeCheck
    rw [modify_bind_apply, get_bind_apply, if_pos hexceeds]
    rfl
  · rw [if_neg hexceeds]
    rw [← hsize] at hexceeds
    unfold typeCheck
    rw [modify_bind_apply, get_bind_apply, if_neg hexceeds, modify_bind_apply, modify_bind_apply,
      get_bind_apply, recordSize_recordSize]
    rw [← hvalues]
    rfl

/-- Elements of the type leave the array as it is. -/
theorem checkElements_ok {expected_tok : Int} {elems : List Object} {a : GSArray} :
    (∀ o ∈ elems, typeOk expected_tok o = true) → ∀ i,
      checkElements expected_tok i elems a = .ok () a := by
  induction elems with
  | nil => exact fun _ _ => rfl
  | cons elem elems ih =>
    intro h i
    unfold checkElements
    rw [if_pos (h elem List.mem_cons_self)]
    exact ih (fun o ho => h o (List.mem_cons_of_mem _ ho)) (i + 1)

/-- One element of another type fails the check and leaves the array as it is.
-/
theorem checkElements_error {expected_tok : Int} {elems : List Object} {a : GSArray} :
    (∃ o ∈ elems, typeOk expected_tok o = false) → ∀ i,
      ∃ j, checkElements expected_tok i elems a = .error (elementError j) a := by
  induction elems with
  | nil => exact fun ⟨_, ho, _⟩ => nomatch ho
  | cons elem elems ih =>
    rintro ⟨o, ho, hbad⟩ i
    unfold checkElements
    by_cases helem : typeOk expected_tok elem = true
    · rw [if_pos helem]
      rcases List.mem_cons.mp ho with rfl | ho
      · rw [helem] at hbad
        cases hbad
      · exact ih ⟨o, ho, hbad⟩ (i + 1)
    · rw [if_neg helem]
      exact ⟨i, rfl⟩

/-- The elements all pass for the type, or one of them does not. -/
theorem elements_cases (expected_tok : Int) (a : GSArray) :
    (∀ o ∈ a.values, typeOk expected_tok o = true) ∨
      ∃ o ∈ a.values, typeOk expected_tok o = false := by
  by_cases h : ∀ o ∈ a.values, typeOk expected_tok o = true
  · exact .inl h
  · simp only [not_forall, Bool.not_eq_true] at h
    obtain ⟨o, ho, hbad⟩ := h
    exact .inr ⟨o, ho, hbad⟩

/-- The array passes the check. -/
def Passes (expected_tok arr_size : Int) (a : GSArray) : Prop :=
  (0 < arr_size → a.size ≤ arr_size) ∧ ∀ o ∈ a.values, typeOk expected_tok o = true

theorem typeCheck_of_passes {expected_tok arr_size : Int} {a : GSArray}
    (h : a.Passes expected_tok arr_size) :
    typeCheck expected_tok arr_size a = .ok () (a.tagged expected_tok arr_size) := by
  have hsize : ¬(0 < arr_size ∧ arr_size < a.size) :=
    fun ⟨hpos, hexceeds⟩ => Int.not_lt.mpr (h.1 hpos) hexceeds
  rw [typeCheck_apply, if_neg hsize]
  exact checkElements_ok h.2 0

/-- The tags an array has when the check fails. -/
theorem typeCheck_of_not_passes {expected_tok arr_size : Int} {a : GSArray}
    (h : ¬ a.Passes expected_tok arr_size) :
    ∃ msg, typeCheck expected_tok arr_size a =
      .error msg (if 0 < arr_size ∧ arr_size < a.size then a.recordSize arr_size
        else a.tagged expected_tok arr_size) := by
  rw [typeCheck_apply]
  by_cases hsize : 0 < arr_size ∧ arr_size < a.size
  · rw [if_pos hsize, if_pos hsize]
    exact ⟨_, rfl⟩
  · rw [if_neg hsize, if_neg hsize]
    rcases elements_cases expected_tok a with hok | hbad
    · exact absurd ⟨fun hpos => Int.not_lt.mp fun hexceeds => hsize ⟨hpos, hexceeds⟩, hok⟩ h
    · obtain ⟨j, hj⟩ := checkElements_error hbad 0
      exact ⟨_, hj⟩

/-- The check fails on an array that it has tagged by then. -/
def Spoiled (expected_tok arr_size : Int) (a : GSArray) : Prop :=
  if 0 < arr_size ∧ arr_size < a.size then a.maxCapacity = -1
  else (∃ o ∈ a.values, typeOk expected_tok o = false) ∧
    (0 < arr_size ∧ a.maxCapacity = -1 ∨ a.elementType = -1)

/-- What the array is, where the check fails. -/
def failed (expected_tok arr_size : Int) (a : GSArray) : GSArray :=
  if 0 < arr_size ∧ arr_size < a.size then a.recordSize arr_size
  else a.tagged expected_tok arr_size

theorem recordSize_ne_iff {arr_size : Int} {a : GSArray} :
    a.recordSize arr_size ≠ a ↔ 0 < arr_size ∧ a.maxCapacity = -1 := by
  unfold recordSize
  split
  · rename_i h
    refine ⟨fun _ => h, fun _ heq => ?_⟩
    have hcap : arr_size = a.maxCapacity := congrArg maxCapacity heq
    omega
  · rename_i h
    exact ⟨fun hne => absurd rfl hne, fun h' => absurd h' h⟩

theorem recordSize_elementType (arr_size : Int) (a : GSArray) :
    (a.recordSize arr_size).elementType = a.elementType := by
  unfold recordSize
  split <;> rfl

theorem recordType_maxCapacity (expected_tok : Int) (a : GSArray) :
    (a.recordType expected_tok).maxCapacity = a.maxCapacity := by
  unfold recordType
  split <;> rfl

/-- A check against a token tags the array with what is missing. -/
theorem tagged_ne_iff {expected_tok arr_size : Int} {a : GSArray} (htok : 0 < expected_tok) :
    a.tagged expected_tok arr_size ≠ a ↔
      0 < arr_size ∧ a.maxCapacity = -1 ∨ a.elementType = -1 := by
  unfold tagged
  by_cases htype : a.elementType = -1
  · refine ⟨fun _ => .inr htype, fun _ heq => ?_⟩
    have hrecorded : ((a.recordSize arr_size).recordType expected_tok).elementType =
        expected_tok := by
      unfold recordType
      rw [recordSize_elementType, if_pos htype]
    rw [heq, htype] at hrecorded
    omega
  · have hsame : (a.recordSize arr_size).recordType expected_tok = a.recordSize arr_size := by
      unfold recordType
      rw [recordSize_elementType, if_neg htype]
    rw [hsame, recordSize_ne_iff]
    exact ⟨.inl, fun h => h.resolve_right htype⟩

/-- A failed check changes the array exactly where it is spoiled. -/
theorem failed_ne_iff {expected_tok arr_size : Int} {a : GSArray} (htok : 0 < expected_tok)
    (hfails : ¬ a.Passes expected_tok arr_size) :
    a.failed expected_tok arr_size ≠ a ↔ a.Spoiled expected_tok arr_size := by
  unfold failed Spoiled
  by_cases hsize : 0 < arr_size ∧ arr_size < a.size
  · rw [if_pos hsize, if_pos hsize, recordSize_ne_iff]
    exact ⟨And.right, fun h => ⟨hsize.1, h⟩⟩
  · rw [if_neg hsize, if_neg hsize, tagged_ne_iff htok]
    have hbad : ∃ o ∈ a.values, typeOk expected_tok o = false := by
      rcases elements_cases expected_tok a with hok | hbad
      · exact absurd ⟨fun hpos => Int.not_lt.mp fun hexceeds => hsize ⟨hpos, hexceeds⟩, hok⟩ hfails
      · exact hbad
    exact ⟨fun h => ⟨hbad, h⟩, And.right⟩

/-- An array that is spoiled does not pass. -/
theorem Spoiled.not_passes {expected_tok arr_size : Int} {a : GSArray}
    (h : a.Spoiled expected_tok arr_size) : ¬ a.Passes expected_tok arr_size := by
  rintro ⟨hroom, hok⟩
  unfold Spoiled at h
  split at h
  · rename_i hsize
    exact Int.not_lt.mpr (hroom hsize.1) hsize.2
  · obtain ⟨⟨o, ho, hbad⟩, -⟩ := h
    rw [hok o ho] at hbad
    cases hbad

end GSArray

namespace VM

/-! ### The instruction -/

variable {rt : Runtime}

/-- The arrays of the virtual machine. -/
def arrays (vm : VM rt.withArrays.Heap) : ArrayHeap := vm.heap.2

/-- `vm` with the array `p` replaced. -/
def setArray (vm : VM rt.withArrays.Heap) (p : Ref) (a : GSArray) : VM rt.withArrays.Heap :=
  { vm with heap := (vm.heap.1, fun q => if q = p then a else vm.heap.2 q) }

theorem arrays_setArray (vm : VM rt.withArrays.Heap) (p : Ref) (a : GSArray) :
    (vm.setArray p a).arrays p = a := if_pos rfl

/-- The instruction is the check of its operands. -/
theorem exec_typeCheck {i : Instruction} (hop : i.op = .TYPECHECK) :
    exec rt i = (do
      typeCheck rt i
      return Control.next) := by
  have hdata : execData rt i = typeCheck rt i := by
    unfold execData
    rw [hop]
  unfold exec
  rw [hop]
  dsimp only
  rw [hdata]

/-- The array `p` as the check leaves it, as an answer. -/
def checkedArray (vm : VM rt.withArrays.Heap) (p : Ref) (result : Except Object Answer)
    (a : GSArray) : Response rt.withArrays.Heap :=
  { result := result
    heap := (vm.heap.1, fun q => if q = p then a else vm.heap.2 q)
    generators := vm.generators }

theorem absorb_checkedArray (vm : VM rt.withArrays.Heap) (p : Ref)
    (result : Except Object Answer) (a : GSArray) :
    vm.absorb (vm.checkedArray p result a) = vm.setArray p a := by
  unfold absorb checkedArray setArray writeOuters
  simp only [List.foldl_nil, List.append_nil, List.map_nil]

theorem served_typeCheckArray (vm : VM rt.withArrays.Heap) (p : Ref)
    (expected_tok arr_size : Int) :
    served rt.withArrays vm (.typeCheckArray (.array p) expected_tok arr_size) =
      match (vm.arrays p).typeCheck expected_tok arr_size with
      | .ok _ a => vm.checkedArray p (.ok (.values [])) a
      | .error msg a => vm.checkedArray p (.error (.string (sc msg))) a := rfl

/-- The runtime's answer to the request of `_OP_TYPECHECK`. -/
theorem ask_typeCheckArray (vm : VM rt.withArrays.Heap) (p : Ref) (expected_tok arr_size : Int) :
    rt.withArrays.ask (.typeCheckArray (.array p) expected_tok arr_size) vm =
      match (vm.arrays p).typeCheck expected_tok arr_size with
      | .ok _ a => .ok [] (vm.setArray p a)
      | .error msg a => .error (.raise (.string (sc msg))) (vm.setArray p a) := by
  unfold Runtime.ask
  rw [bind_apply, askNative_apply, served_typeCheckArray]
  cases (vm.arrays p).typeCheck expected_tok arr_size with
  | ok _ a =>
    dsimp only
    rw [absorb_checkedArray]
    rfl
  | error msg a =>
    dsimp only
    rw [absorb_checkedArray]
    rfl

/-- The instruction does to an array what `GSArray.typeCheck` does. -/
theorem exec_typeCheck_array {i : Instruction} {vm : VM rt.withArrays.Heap} {p : Ref}
    (hop : i.op = .TYPECHECK) (harg1 : i.arg1.toInt < 0)
    (hval : vm.stack (vm.stackbase + i.arg0.toNat) = .array p) :
    exec rt.withArrays i vm =
      match (vm.arrays p).typeCheck (-i.arg1.toInt) i.arg2.toNat with
      | .ok _ a => .ok .next (vm.setArray p a)
      | .error msg a => .error (.raise (.string (sc msg))) (vm.setArray p a) := by
  rw [exec_typeCheck hop, bind_apply]
  unfold typeCheck
  rw [bind_apply, STK_apply, hval]
  dsimp only
  rw [if_pos harg1, bind_apply, ask_typeCheckArray]
  cases (vm.arrays p).typeCheck (-i.arg1.toInt) i.arg2.toNat with
  | ok _ a => rfl
  | error msg a => rfl

/-! ### A failed check -/

/-- `_OP_TYPECHECK` with any operands. -/
def check (arg0 : UInt8) (arg1 : GSInt32) (arg2 arg3 : UInt8) : Instruction :=
  { op := .TYPECHECK, arg0 := arg0, arg1 := arg1, arg2 := arg2, arg3 := arg3 }

/-- Where the check raises, every array is what it was. -/
def FailureKeeps (rt : Runtime) (i : Instruction) (vm : VM rt.withArrays.Heap) : Prop :=
  ∀ err vm', exec rt.withArrays i vm = .error (.raise err) vm' → vm'.arrays = vm.arrays

/-- The instruction checks an array that it spoils. -/
def Spoils (i : Instruction) (vm : VM rt.withArrays.Heap) : Prop :=
  i.arg1.toInt < 0 ∧ ∃ p, vm.stack (vm.stackbase + i.arg0.toNat) = .array p ∧
    (vm.arrays p).Spoiled (-i.arg1.toInt) i.arg2.toNat

/-- The check fails on an array that does not pass. -/
theorem exec_fails {i : Instruction} {vm : VM rt.withArrays.Heap} {p : Ref}
    (hop : i.op = .TYPECHECK) (harg1 : i.arg1.toInt < 0)
    (hval : vm.stack (vm.stackbase + i.arg0.toNat) = .array p)
    (h : ¬ (vm.arrays p).Passes (-i.arg1.toInt) i.arg2.toNat) :
    ∃ err, exec rt.withArrays i vm = .error (.raise err)
      (vm.setArray p ((vm.arrays p).failed (-i.arg1.toInt) i.arg2.toNat)) := by
  obtain ⟨msg, hmsg⟩ := GSArray.typeCheck_of_not_passes h
  refine ⟨.string (sc msg), ?_⟩
  rw [exec_typeCheck_array hop harg1 hval, hmsg]
  rfl

theorem exec_passes {i : Instruction} {vm : VM rt.withArrays.Heap} {p : Ref}
    (hop : i.op = .TYPECHECK) (harg1 : i.arg1.toInt < 0)
    (hval : vm.stack (vm.stackbase + i.arg0.toNat) = .array p)
    (h : (vm.arrays p).Passes (-i.arg1.toInt) i.arg2.toNat) :
    exec rt.withArrays i vm =
      .ok .next (vm.setArray p ((vm.arrays p).tagged (-i.arg1.toInt) i.arg2.toNat)) := by
  rw [exec_typeCheck_array hop harg1 hval, GSArray.typeCheck_of_passes h]

/-- The check of a value that is no array, or against a type that is none, asks nothing. -/
theorem typeCheck_scalar {i : Instruction} {vm : VM rt.withArrays.Heap}
    (h : ¬(i.arg1.toInt < 0 ∧ ∃ p, vm.stack (vm.stackbase + i.arg0.toNat) = .array p)) :
    typeCheck rt.withArrays i vm = .ok () vm ∨
      ∃ err, typeCheck rt.withArrays i vm = .error (.raise err) vm := by
  unfold typeCheck
  rw [bind_apply, STK_apply]
  generalize vm.stack (vm.stackbase + i.arg0.toNat) = val at h
  by_cases harg1 : i.arg1.toInt < 0
  · cases val with
    | array p => exact absurd ⟨harg1, p, rfl⟩ h
    | _ =>
      simp only [if_pos harg1]
      exact .inr ⟨_, rfl⟩
  · simp only [if_neg harg1]
    unfold when
    split
    · exact .inr ⟨_, rfl⟩
    · exact .inl rfl

/-- A check for a type that is no array touches no array. -/
theorem arrays_of_scalar {i : Instruction} {vm vm' : VM rt.withArrays.Heap} {err : Object}
    (hop : i.op = .TYPECHECK)
    (h : ¬(i.arg1.toInt < 0 ∧ ∃ p, vm.stack (vm.stackbase + i.arg0.toNat) = .array p))
    (hexec : exec rt.withArrays i vm = .error (.raise err) vm') : vm'.arrays = vm.arrays := by
  rw [exec_typeCheck hop, bind_apply] at hexec
  rcases typeCheck_scalar h with hok | ⟨err', herr⟩
  · rw [hok] at hexec
    cases hexec
  · rw [herr] at hexec
    cases hexec
    rfl

/-- A check that fails has no effect just where it has written nothing by then. -/
theorem failureKeeps_iff (rt : Runtime) (arg0 : UInt8) (arg1 : GSInt32) (arg2 arg3 : UInt8)
    (vm : VM rt.withArrays.Heap) :
    FailureKeeps rt (check arg0 arg1 arg2 arg3) vm ↔ ¬ Spoils (check arg0 arg1 arg2 arg3) vm := by
  constructor
  · rintro hkeeps ⟨harg1, p, hval, hspoiled⟩
    obtain ⟨err, herr⟩ := exec_fails rfl harg1 hval hspoiled.not_passes
    have hsame := congrFun (hkeeps err _ herr) p
    rw [arrays_setArray] at hsame
    exact (GSArray.failed_ne_iff (by omega) hspoiled.not_passes).mpr hspoiled hsame
  · intro hclean err vm' hexec
    by_cases harray : arg1.toInt < 0 ∧ ∃ p, vm.stack (vm.stackbase + arg0.toNat) = .array p
    · obtain ⟨harg1, p, hval⟩ := harray
      by_cases hpasses : (vm.arrays p).Passes (-arg1.toInt) arg2.toNat
      · rw [exec_passes (i := check arg0 arg1 arg2 arg3) rfl harg1 hval hpasses] at hexec
        cases hexec
      · obtain ⟨err', herr⟩ := exec_fails (i := check arg0 arg1 arg2 arg3) rfl harg1 hval hpasses
        rw [herr] at hexec
        cases hexec
        have hfailed : (vm.arrays p).failed (-arg1.toInt) arg2.toNat = vm.arrays p := by
          by_contra hne
          exact hclean ⟨harg1, p, hval, (GSArray.failed_ne_iff (by omega) hpasses).mp hne⟩
        funext q
        change (if q = p then (vm.arrays p).failed (-arg1.toInt) arg2.toNat else vm.arrays q) = _
        rw [hfailed]
        split
        · rename_i heq
          rw [heq]
        · rfl
    · exact arrays_of_scalar (i := check arg0 arg1 arg2 arg3) rfl harray hexec

/-- The register 0 holds an array of one string. -/
def holdingStrings : VM emptyRuntime.withArrays.Heap where
  stack n := if n = 0 then .array 0 else .null
  stacksize := 64
  stackbase := 0
  top := 1
  callstack := [{ prevstkbase := 0, prevtop := 0, root := true }]
  etraps := []
  traps := 0
  openouters := []
  outers := []
  closures := []
  generators := []
  nmetamethodscall := 0
  heap := ((), fun _ => { values := [.string (sc "x")] })

/-- An array of strings that is not accepted as `int[]` is one of integers afterwards. -/
theorem not_failureKeeps : ¬ FailureKeeps emptyRuntime (check 0 (-330) 0 0) holdingStrings := by
  intro h
  have hsame := congrFun (h _ _ rfl) 0
  exact absurd (congrArg GSArray.elementType hsame) (by decide)

end VM

/-! ### Declarations -/

namespace Compiler

open VM

/-- The instruction that `LocalDeclStatement` emits for an annotation. -/
def annotationCheck (t : TypeAnnotation) (dest : Nat) : Instruction :=
  .make .TYPECHECK dest (checkType (some t)) t.array_size.toInt 0

/-- The declared type takes the array. -/
def TypeAnnotation.Takes (t : TypeAnnotation) (a : GSArray) : Prop :=
  (t.array_size ≠ -1 → (a.size : Int) ≤ t.array_size.toInt) ∧
    ∀ o ∈ a.values, typeOk t.token.code o = true

/-- The instruction is an exact check of the annotation: an untagged array passes if the
declared type takes it, and has the declared size as its capacity then; any other raises. -/
def ChecksExactly (i : Instruction) (t : TypeAnnotation) : Prop :=
  ∀ (rt : Runtime) (vm : VM rt.withArrays.Heap) (p : Ref),
    vm.stack (vm.stackbase + i.arg0.toNat) = .array p →
    (vm.arrays p).maxCapacity = -1 → (vm.arrays p).elementType = -1 →
    (t.Takes (vm.arrays p) → ∃ vm', exec rt.withArrays i vm = .ok .next vm' ∧
      (vm'.arrays p).maxCapacity = t.array_size.toInt) ∧
    (¬ t.Takes (vm.arrays p) → ∃ err vm', exec rt.withArrays i vm = .error (.raise err) vm')

/-- An annotation of an array that the compiler accepts. -/
structure TypeAnnotation.Accepted (t : TypeAnnotation) : Prop where
  is_array : t.is_array = true
  token : t.token.isType = true
  size : t.array_size = -1 ∨ 0 < t.array_size

/-- The size in brackets is positive, or absent. -/
theorem arraySuffix_ok {what : String} {c c' : Compiler} {r : Bool × GSInteger}
    (h : arraySuffix what c = .ok r c') : r.2 = -1 ∨ 0 < r.2 := by
  unfold arraySuffix at h
  rw [getToken_bind_apply] at h
  split at h
  · obtain ⟨_, c₁, -, h⟩ := bind_eq_ok.mp h
    dsimp only at h
    rw [getToken_bind_apply] at h
    split at h
    · obtain ⟨c₂, _, hget, h⟩ := bind_eq_ok.mp h
      cases hget
      split at h
      · obtain ⟨_, _, herr, -⟩ := bind_eq_ok.mp h
        cases herr
      · rename_i hsize
        obtain ⟨_, c₃, -, h⟩ := bind_eq_ok.mp h
        obtain ⟨_, _, -, h⟩ := bind_eq_ok.mp h
        cases h
        exact .inr (Int64.not_le.mp hsize)
    · obtain ⟨_, _, -, h⟩ := bind_eq_ok.mp h
      cases h
      exact .inl rfl
  · cases h
    exact .inl rfl

/-- A type annotation of an array is one that the compiler accepts. -/
theorem localType_ok {c c' : Compiler} {t : TypeAnnotation}
    (h : localType c = .ok (some t) c') (harray : t.is_array = true) : t.Accepted := by
  unfold localType at h
  rw [getToken_bind_apply] at h
  split at h
  · obtain ⟨_, c₁, -, h⟩ := bind_eq_ok.mp h
    dsimp only at h
    rw [getToken_bind_apply] at h
    split at h
    · obtain ⟨_, _, herr, -⟩ := bind_eq_ok.mp h
      cases herr
    · rename_i htype
      obtain ⟨_, c₂, -, h⟩ := bind_eq_ok.mp h
      obtain ⟨r, c₃, hsuffix, h⟩ := bind_eq_ok.mp h
      have hsize := arraySuffix_ok hsuffix
      cases h
      exact ⟨harray, by simpa using htype, hsize⟩
  · cases h

/-- The optimiser leaves the check of a type as it is. -/
theorem back_addInstruction (fs : FuncState) (t : TypeAnnotation) (dest : Nat) :
    (fs.addInstruction (annotationCheck t dest)).instructions.back? =
      some (annotationCheck t dest) := by
  have hpeephole : ∀ pi, fs.peephole pi (annotationCheck t dest) =
      { prev := some pi, next := some (annotationCheck t dest) } := fun _ => rfl
  unfold FuncState.addInstruction
  split
  · split
    · rw [hpeephole]
      simp
    · simp
  · simp

theorem PopTarget_instructions {c c' : Compiler} {n : Nat} (h : PopTarget c = .ok n c') :
    c'.fs.instructions = c.fs.instructions := by
  unfold PopTarget at h
  obtain ⟨fs, c₁, hfs, h⟩ := bind_eq_ok.mp h
  cases hfs
  cases hpop : c.fs.popTarget with
  | none =>
    rw [hpop] at h
    cases h
  | some r =>
    rw [hpop] at h
    cases h
    unfold FuncState.popTarget at hpop
    split at hpop
    · cases hpop
    · split at hpop
      · cases hpop
      · cases hpop
        rfl

/-- What follows the check of a declaration emits nothing. -/
theorem declared_back {c c' : Compiler} {name : Object} {t : TypeAnnotation} {dest : Nat}
    (h : (do
      AddInstruction .TYPECHECK dest (checkType (some t)) (arraySize (some t)).toInt
      let _ ← PopTarget
      let _ ← PushLocalVariable name
      setLocalType (Int64.ofInt (checkType (some t))) (arraySize (some t))) c = .ok () c') :
    c'.fs.instructions.back? = some (annotationCheck t dest) := by
  obtain ⟨_, c₁, hadd, h⟩ := bind_eq_ok.mp h
  obtain ⟨_, c₂, hpop, h⟩ := bind_eq_ok.mp h
  obtain ⟨_, c₃, hpush, h⟩ := bind_eq_ok.mp h
  have hchecked : c₁.fs.instructions.back? = some (annotationCheck t dest) := by
    cases hadd
    exact back_addInstruction c.fs t dest
  have hpopped : c₂.fs.instructions = c₁.fs.instructions := PopTarget_instructions hpop
  have hpushed : c₃.fs.instructions = c₂.fs.instructions := by
    cases hpush
    rfl
  cases h
  change c₃.fs.instructions.back? = _
  rw [hpushed, hpopped, hchecked]

/-- The last instruction of a declaration is the check of its annotation. -/
theorem localVariable_emits {call : Proc → CompilerM Unit} {c c₁ c₂ c' : Compiler}
    {name : Object} {t : TypeAnnotation} (hname : Expect .TK_IDENTIFIER c = .ok name c₁)
    (htype : localType c₁ = .ok (some t) c₂) (hrun : localVariable call c = .ok () c') :
    ∃ dest, c'.fs.instructions.back? = some (annotationCheck t dest) := by
  unfold localVariable at hrun
  rw [bind_apply, hname] at hrun
  dsimp only at hrun
  rw [bind_apply, htype] at hrun
  dsimp only at hrun
  rw [getToken_bind_apply] at hrun
  split at hrun
  · obtain ⟨_, c₃, -, hrun⟩ := bind_eq_ok.mp hrun
    obtain ⟨_, c₄, -, hrun⟩ := bind_eq_ok.mp hrun
    obtain ⟨src, c₅, -, hrun⟩ := bind_eq_ok.mp hrun
    obtain ⟨dest, c₆, -, hrun⟩ := bind_eq_ok.mp hrun
    simp only [Option.isSome_some, if_true] at hrun
    split at hrun
    · obtain ⟨_, c₇, -, hrun⟩ := bind_eq_ok.mp hrun
      split at hrun
      · obtain ⟨_, c₈, -, hrun⟩ := bind_eq_ok.mp hrun
        obtain ⟨_, c₉, -, hrun⟩ := bind_eq_ok.mp hrun
        exact ⟨dest, declared_back hrun⟩
      · obtain ⟨_, c₈, -, hrun⟩ := bind_eq_ok.mp hrun
        exact ⟨dest, declared_back hrun⟩
    · exact ⟨dest, declared_back hrun⟩
  · obtain ⟨_, _, herr, -⟩ := bind_eq_ok.mp hrun
    cases herr

/-- The number of the type in the instruction. -/
theorem annotationCheck_type {t : TypeAnnotation} (h : t.Accepted) (dest : Nat) :
    (annotationCheck t dest).arg1.toInt = -t.token.code ∧ 0 < t.token.code := by
  have harg1 : (annotationCheck t dest).arg1.toInt = (int32 (-t.token.code)).toInt := by
    unfold annotationCheck Instruction.make checkType
    simp only [h.is_array, if_true]
  rw [harg1]
  have htoken := h.token
  revert htoken
  cases t.token <;> intro htoken <;> first | decide | cases htoken

/-- The size in the instruction: modulo 256. -/
theorem annotationCheck_size (t : TypeAnnotation) (dest : Nat) :
    ((annotationCheck t dest).arg2.toNat : Int) = t.array_size.toInt % 256 := by
  unfold annotationCheck Instruction.make byte
  rw [UInt8.toNat_ofNat']
  omega

/-- A size that fits into its operand is checked as it was declared. -/
theorem checksExactly_of_fits {t : TypeAnnotation} (h : t.Accepted) (hsize : t.array_size ≠ -1)
    (hfits : t.array_size.toInt ≤ 255) (dest : Nat) : ChecksExactly (annotationCheck t dest) t := by
  have hpos : 0 < t.array_size.toInt := Int64.lt_iff_toInt_lt.mp (h.size.resolve_left hsize)
  obtain ⟨htype, hcode⟩ := annotationCheck_type h dest
  have hoperand := annotationCheck_size t dest
  rw [Int.emod_eq_of_lt (by omega) (by omega)] at hoperand
  have hneg : (annotationCheck t dest).arg1.toInt < 0 := by omega
  intro rt vm p hval hcapacity helement
  have hpasses : t.Takes (vm.arrays p) ↔ (vm.arrays p).Passes
      (-(annotationCheck t dest).arg1.toInt) (annotationCheck t dest).arg2.toNat := by
    rw [htype, Int.neg_neg, hoperand]
    constructor
    · exact fun htakes => ⟨fun _ => htakes.1 hsize, htakes.2⟩
    · exact fun hpasses => ⟨fun _ => hpasses.1 hpos, hpasses.2⟩
  constructor
  · intro htakes
    refine ⟨_, exec_passes rfl hneg hval (hpasses.mp htakes), ?_⟩
    rw [arrays_setArray]
    unfold GSArray.tagged
    rw [GSArray.recordType_maxCapacity]
    unfold GSArray.recordSize
    rw [if_pos ⟨by omega, hcapacity⟩, hoperand]
  · intro htakes
    obtain ⟨err, herr⟩ := exec_fails rfl hneg hval fun h => htakes (hpasses.mpr h)
    exact ⟨err, _, herr⟩

/-- The register 0 holds an empty array. -/
def holdingEmpty (dest : Nat) : VM emptyRuntime.withArrays.Heap :=
  { holdingStrings with
    stack := fun n => if n = (byte dest).toNat then .array 0 else .null
    heap := ((), fun _ => { values := [] }) }

/-- The capacity that the check of an empty array writes. -/
theorem exec_empty {t : TypeAnnotation} (h : t.Accepted) (dest : Nat) :
    exec emptyRuntime.withArrays (annotationCheck t dest) (holdingEmpty dest) =
      .ok .next ((holdingEmpty dest).setArray 0
        (GSArray.tagged t.token.code (t.array_size.toInt % 256) { values := [] })) := by
  obtain ⟨htype, hcode⟩ := annotationCheck_type h dest
  have hval : (holdingEmpty dest).stack
      ((holdingEmpty dest).stackbase + (annotationCheck t dest).arg0.toNat) = .array 0 :=
    if_pos (Nat.zero_add _)
  have hexec := exec_passes rfl (by omega) hval ⟨fun _ => Int.natCast_nonneg _, nofun⟩
  rw [htype, Int.neg_neg, annotationCheck_size] at hexec
  exact hexec

/-- A size that is checked exactly is given and fits into the operand of eight
bits. -/
theorem fits_of_checksExactly {t : TypeAnnotation} (h : t.Accepted) {dest : Nat}
    (hexact : ChecksExactly (annotationCheck t dest) t) :
    t.array_size ≠ -1 ∧ t.array_size.toInt ≤ 255 := by
  have hsize : t.array_size.toInt = -1 ∨ 0 < t.array_size.toInt :=
    h.size.imp (fun h => by rw [h]; rfl) Int64.lt_iff_toInt_lt.mp
  have htakes : t.Takes ((holdingEmpty dest).arrays 0) := by
    refine ⟨fun hne => ?_, nofun⟩
    exact Int.le_of_lt (Int64.lt_iff_toInt_lt.mp (h.size.resolve_left hne))
  obtain ⟨vm', hexec, hcapacity⟩ := (hexact emptyRuntime (holdingEmpty dest) 0
    (if_pos (Nat.zero_add _)) rfl rfl).1 htakes
  rw [exec_empty h dest] at hexec
  cases hexec
  rw [arrays_setArray] at hcapacity
  unfold GSArray.tagged at hcapacity
  rw [GSArray.recordType_maxCapacity] at hcapacity
  have hrecorded : (if 0 < t.array_size.toInt % 256 then t.array_size.toInt % 256 else -1) =
      t.array_size.toInt := by
    refine Eq.trans ?_ hcapacity
    unfold GSArray.recordSize
    by_cases hpos : 0 < t.array_size.toInt % 256
    · rw [if_pos hpos, if_pos ⟨hpos, rfl⟩]
    · rw [if_neg hpos, if_neg fun h => hpos h.1]
  constructor
  · intro hnone
    rw [hnone] at hrecorded
    exact absurd hrecorded (by decide)
  · split at hrecorded <;> omega

/-- The check that the compiler emits for a declared array is exact just where a size is
given and fits into 8 bits. -/
theorem declaration_checksExactly_iff {call : Proc → CompilerM Unit} {c c₁ c₂ c' : Compiler}
    {name : Object} {t : TypeAnnotation} (hname : Expect .TK_IDENTIFIER c = .ok name c₁)
    (htype : localType c₁ = .ok (some t) c₂) (harray : t.is_array = true)
    (hrun : localVariable call c = .ok () c') :
    ∃ i, c'.fs.instructions.back? = some i ∧ i.op = .TYPECHECK ∧
      (ChecksExactly i t ↔ t.array_size ≠ -1 ∧ t.array_size.toInt ≤ 255) := by
  obtain ⟨dest, hback⟩ := localVariable_emits hname htype hrun
  have haccepted := localType_ok htype harray
  refine ⟨annotationCheck t dest, hback, rfl, fits_of_checksExactly haccepted, ?_⟩
  exact fun ⟨hsize, hfits⟩ => checksExactly_of_fits haccepted hsize hfits dest

/-- The tokens of `: int[size] = 1;`. -/
def annotated (size : List Lexeme) : List Lexeme :=
  [{ token := .chr ':' }, { token := .TK_INT }, { token := .chr '[' }] ++ size ++
    [{ token := .chr ']' }, { token := .chr '=' }, { token := .TK_INTEGER, nvalue := 1 },
      { token := .chr ';' }, { token := .eob }]

/-- The compiler at `a : int[size] = 1;`. -/
def declaring (size : List Lexeme) : Compiler :=
  { Compiler.start .null false [] ((annotated size).map .ok) with token := .TK_IDENTIFIER }

/-- The annotation of `a : int[size]`. -/
def intArray (array_size : GSInteger) : TypeAnnotation :=
  { token := .TK_INT, is_array := true, array_size := array_size }

/-- The steps of a declaration that compiles. -/
theorem declaration_of_results {c : Compiler} {t : TypeAnnotation}
    (htype : result (do
      let _ ← Expect .TK_IDENTIFIER
      localType) c = some (some t))
    (hrun : result (localVariable (run 30)) c = some ()) :
    ∃ name c₁ c₂ c', Expect .TK_IDENTIFIER c = .ok name c₁ ∧ localType c₁ = .ok (some t) c₂ ∧
      localVariable (run 30) c = .ok () c' := by
  obtain ⟨c₂, htype⟩ := result_eq_some.mp htype
  obtain ⟨name, c₁, hname, htype⟩ := bind_eq_ok.mp htype
  obtain ⟨c', hrun⟩ := result_eq_some.mp hrun
  exact ⟨name, c₁, c₂, c', hname, htype, hrun⟩

/-- The check of `a : int[3]` is exact. -/
theorem declaration_checksExactly_three : ∃ c' i,
    localVariable (run 30) (declaring [{ token := .TK_INTEGER, nvalue := 3 }]) = .ok () c' ∧
      c'.fs.instructions.back? = some i ∧ ChecksExactly i (intArray 3) := by
  obtain ⟨name, c₁, c₂, c', hname, htype, hrun⟩ := declaration_of_results (t := intArray 3)
    (c := declaring [{ token := .TK_INTEGER, nvalue := 3 }]) (by decide +kernel)
    (by decide +kernel)
  obtain ⟨i, hback, -, hiff⟩ := declaration_checksExactly_iff hname htype rfl hrun
  exact ⟨c', i, hrun, hback, hiff.mpr (by decide)⟩

/-- The checks of `a : int[]` and of `a : int[256]` are not. -/
theorem not_checksExactly_unsized :
    (∃ c' i, localVariable (run 30) (declaring []) = .ok () c' ∧
      c'.fs.instructions.back? = some i ∧ ¬ ChecksExactly i (intArray (-1))) ∧
    ∃ c' i, localVariable (run 30) (declaring [{ token := .TK_INTEGER, nvalue := 256 }]) =
        .ok () c' ∧
      c'.fs.instructions.back? = some i ∧ ¬ ChecksExactly i (intArray 256) := by
  constructor
  · obtain ⟨name, c₁, c₂, c', hname, htype, hrun⟩ := declaration_of_results (t := intArray (-1))
      (c := declaring []) (by decide +kernel) (by decide +kernel)
    obtain ⟨dest, hback⟩ := localVariable_emits hname htype hrun
    refine ⟨c', _, hrun, hback, fun hexact => ?_⟩
    exact (fits_of_checksExactly (localType_ok htype rfl) hexact).1 rfl
  · obtain ⟨name, c₁, c₂, c', hname, htype, hrun⟩ := declaration_of_results (t := intArray 256)
      (c := declaring [{ token := .TK_INTEGER, nvalue := 256 }]) (by decide +kernel)
      (by decide +kernel)
    obtain ⟨dest, hback⟩ := localVariable_emits hname htype hrun
    refine ⟨c', _, hrun, hback, fun hexact => ?_⟩
    exact absurd (fits_of_checksExactly (localType_ok htype rfl) hexact).2 (by decide)

end Compiler

end GameScript
