import GameScript.Compiler.Lexical
import GameScript.VM.Capture

/-!
From a name in the source to a cell of the machine. The compiler resolves a name of a function
around to an entry of its table of outer variables; `CLOSURE` fills the entries of the closures that
it makes. Main results:

* `resolved_cell`: the entry that a name is resolved to holds the cell of the register of its
  innermost declaration, in the frame that declares it, however deep the closures are nested;
* `shared_variable`: closures of two functions that name one variable hold one cell, so what one of
  them assigns with `SETOUTER`, the other one loads with `GETOUTER`.
-/

namespace GameScript.Lexical

open FuncState Scopes Compiler VM

/-! ### The register of a declaration -/

/-- What a name leads to is a register of the function it is found in. -/
theorem lookup_lt {fs : List (Function Object)} {gs : List FuncState} (h : AllHave fs gs)
    {name : Object} {k r : Nat} (hlookup : lookup fs name = some (k, r)) :
    ∃ g, gs[k]? = some g ∧ r < g.vlocals.size := by
  induction h generalizing k with
  | nil => cases hlookup
  | @cons f g fs gs hhead _ ih =>
      unfold lookup at hlookup
      cases hfind : f.find name with
      | some pos =>
          rw [hfind] at hlookup
          cases hlookup
          rw [hhead.find] at hfind
          exact ⟨g, rfl, by simpa using List.mem_of_find?_eq_some hfind⟩
      | none =>
          rw [hfind] at hlookup
          obtain ⟨⟨k', r'⟩, hrest, heq⟩ := Option.map_eq_some_iff.mp hlookup
          cases heq
          exact ih hrest

/-! ### Closures in closures -/

section

variable {Heap : Type}

/-- The machine after a closure is made, and the frame of the closure that ran. -/
structure Making (Heap : Type) where
  vm : VM Heap
  base : Nat

/-- The tables of nested functions, the closures of these functions, each made while the next one
ran, and where each was made. The outermost one is that of a program. -/
inductive Nested : List (List OuterVar) → List Closure → List (Making Heap) → Prop where
  | program {c : Closure} : c.function.outervalues = [] → Nested [[]] [c] []
  | made {c parent : Closure} {cs : List Closure} {ts : List (List OuterVar)} {m : Making Heap}
      {ms : List (Making Heap)} : Makes m.vm m.base parent c → Nested ts (parent :: cs) ms →
      Nested (c.function.outervalues :: ts) (c :: parent :: cs) (m :: ms)

theorem capturedIndex_of_src {o : OuterVar} {n : Nat} (hsrc : o.src = .integer (Int64.ofNat n))
    (hn : n < 2 ^ 63) : capturedIndex o = n := by
  simp only [capturedIndex, hsrc]
  rw [Int64.toInt_ofNat_of_lt hn]
  omega

variable {vm : VM Heap} {base : Nat} {parent c : Closure} {i : Nat} {o : OuterVar}

/-- A closure has a cell for each entry of the table of its function. -/
theorem cell_of_makes (h : Makes vm base parent c) (ho : c.function.outervalues[i]? = some o) :
    ∃ p, c.outervalues[i]? = some p ∧ Bound vm base parent o p := by
  obtain ⟨hlength, hbound⟩ := List.forall₂_iff_get.mp h
  obtain ⟨hi, rfl⟩ := List.getElem?_eq_some_iff.mp ho
  exact ⟨_, List.getElem?_eq_getElem (hlength ▸ hi), hbound i hi (hlength ▸ hi)⟩

theorem Leads.lt {ts : List (List OuterVar)} {k r : Nat} (h : Leads ts i k r) :
    ∃ t ts', ts = t :: ts' ∧ i < t.length := by
  cases h with
  | register ho | outer ho => exact ⟨_, _, rfl, (List.getElem?_eq_some_iff.mp ho).1⟩

/-- An entry that leads to a register holds the cell that was open on that register when the closure
of the declaring function made the one below it. -/
theorem Nested.cell {ts : List (List OuterVar)} {cs : List Closure} {ms : List (Making Heap)}
    (h : Nested ts cs ms) {k r : Nat} (hleads : Leads ts i k r) (hr : r < 2 ^ 63)
    (hsizes : ∀ t ∈ ts, t.length ≤ 2 ^ 63) :
    ∃ c p m, cs.head? = some c ∧ c.outervalues[i]? = some p ∧ ms[k - 1]? = some m ∧
      m.vm.OpenOn (m.base + r) p := by
  induction hleads generalizing cs ms with
  | @register t ts i r o ho htype hsrc =>
      cases h with
      | program => simp at ho
      | @made c parent cs _ m ms hmakes _ =>
          obtain ⟨p, hp, hbound⟩ := cell_of_makes hmakes ho
          unfold Bound at hbound
          rw [htype] at hbound
          rw [← capturedIndex_of_src hsrc hr]
          exact ⟨c, p, m, rfl, hp, rfl, hbound⟩
  | @outer t ts i j k r o ho htype hsrc hrest ih =>
      cases h with
      | program => simp at ho
      | @made c parent cs _ m ms hmakes hnested =>
          obtain ⟨p, hp, hbound⟩ := cell_of_makes hmakes ho
          unfold Bound at hbound
          rw [htype] at hbound
          obtain ⟨c', p', m', hhead, hp', hm', hopen⟩ := ih hnested hr fun t ht =>
            hsizes t (List.mem_cons_of_mem _ ht)
          cases hhead
          have hj : j < 2 ^ 63 := by
            obtain ⟨t', ts', rfl, hlt⟩ := Leads.lt hrest
            exact hlt.trans_le (hsizes t' (by simp))
          have hsame : p' = p := by
            dsimp only at hbound
            rw [capturedIndex_of_src hsrc hj, hp'] at hbound
            exact Option.some.inj hbound
          refine ⟨c, p, m', rfl, hp, ?_, hsame ▸ hopen⟩
          cases hrest with
          | register => exact hm'
          | outer => exact hm'

/-- The entry that a name is resolved to leads to the register of its innermost declaration. -/
theorem leads_of_resolution {sourcename : Object} {lineinfo : Bool}
    {consts : List (Object × Constant)} {input : List (Except String Lexeme)} {s : Situation}
    (hrun : Run Situation.TopInOrder (.start sourcename lineinfo consts input) s)
    {id : List UInt8} {compiler : Compiler}
    (hresolution : resolution (.string id) s.compiler = .ok (.outer i) compiler)
    (hregisters : ∀ fs ∈ compiler.states, fs.vlocals.size ≤ 2 ^ 63) :
    ∃ k r, lookup s.functions (.string id) = some (k + 1, r) ∧ r < 2 ^ 63 ∧
      Leads (FuncState.tables compiler.states) i (k + 1) r := by
  have hcoherent := Run.coherent hrun (coherent_start sourcename lineinfo consts input)
  obtain ⟨res, compiler', heq, hafter, -, hstands⟩ :=
    hcoherent.resolution (show Object.string id ≠ .null by simp)
  cases hresolution.symm.trans heq
  obtain ⟨k, r, hlookup, hleads⟩ := hstands
  obtain ⟨g, hg, hlt⟩ := lookup_lt hafter.registers hlookup
  exact ⟨k, r, hlookup, hlt.trans_le (hregisters g (List.mem_of_getElem? hg)), hleads⟩

/-- A name that the compiler resolves to an outer variable stands for its innermost declaration:
the closure has the cell that was open on the register of that declaration, in the frame of the
declaring function, when the closure below it was made. -/
theorem resolved_cell {sourcename : Object} {lineinfo : Bool} {consts : List (Object × Constant)}
    {input : List (Except String Lexeme)} {s : Situation}
    (hrun : Run Situation.TopInOrder (.start sourcename lineinfo consts input) s)
    {id : List UInt8} {compiler : Compiler}
    (hresolution : resolution (.string id) s.compiler = .ok (.outer i) compiler)
    (hregisters : ∀ fs ∈ compiler.states, fs.vlocals.size ≤ 2 ^ 63)
    {ts : List (List OuterVar)} {cs : List Closure} {ms : List (Making Heap)}
    (hgrow : TablesGrow (FuncState.tables compiler.states) ts)
    (hsizes : ∀ t ∈ ts, t.length ≤ 2 ^ 63) (hnested : Nested ts cs ms) :
    ∃ k r c p m, lookup s.functions (.string id) = some (k + 1, r) ∧ cs.head? = some c ∧
      c.outervalues[i]? = some p ∧ ms[k]? = some m ∧ m.vm.OpenOn (m.base + r) p := by
  obtain ⟨k, r, hlookup, hr, hleads⟩ := leads_of_resolution hrun hresolution hregisters
  obtain ⟨c, p, m, hhead, hp, hm, hopen⟩ := hnested.cell (hleads.grow hgrow) hr hsizes
  exact ⟨k, r, c, p, m, hlookup, hhead, hp, hm, hopen⟩

/-! ### Closures that `CLOSURE` makes -/

/-- The closures of nested functions as the machine makes them: each by `CLOSURE` while the next one
runs. -/
inductive Created : List (List OuterVar) → List Closure → List (Making Heap) → Prop where
  | program {c : Closure} : c.function.outervalues = [] → Created [[]] [c] []
  | closure {c parent : Closure} {cs : List Closure} {ts : List (List OuterVar)}
      {ms : List (Making Heap)} {vm vm' : VM Heap} {instr : Instruction} :
      currentClosure vm = .ok parent vm → closureOp instr vm = .ok () vm' →
      vm'.closures = vm.closures ++ [c] → Created ts (parent :: cs) ms →
      Created (c.function.outervalues :: ts) (c :: parent :: cs) (⟨vm', vm.stackbase⟩ :: ms)

/-- Closures that are created one in another hold each other's cells. -/
theorem Created.nested {ts : List (List OuterVar)} {cs : List Closure} {ms : List (Making Heap)}
    (h : Created ts cs ms) : Nested ts cs ms := by
  induction h with
  | program hnone => exact .program hnone
  | closure hcurrent hclosure hnew _ ih =>
      obtain ⟨current, n, func, c', hcurrent', -, -, -, hnew', -, hmakes, -⟩ :=
        closureOp_ok hclosure
      cases hcurrent.symm.trans hcurrent'
      cases List.singleton_inj.mp (List.append_cancel_left (hnew.symm.trans hnew'))
      exact .made hmakes ih

/-- In the function of `s` the name `id` is the outer variable `i`, which its innermost declaration
has in the register `r`; the machine has made the closure `c` of this function and those around it,
and `m` is the making of the one that the declaring function holds. -/
inductive Captured (s : Situation) (id : List UInt8) (i r : Nat) (c : Closure)
    (m : Making Heap) : Prop where
  | intro {sourcename : Object} {lineinfo : Bool} {consts : List (Object × Constant)}
      {input : List (Except String Lexeme)} {compiler : Compiler} {ts : List (List OuterVar)}
      {cs : List Closure} {ms : List (Making Heap)} {k : Nat}
      (run : Run Situation.TopInOrder (.start sourcename lineinfo consts input) s)
      (resolved : resolution (.string id) s.compiler = .ok (.outer i) compiler)
      (declared : lookup s.functions (.string id) = some (k + 1, r))
      (registers : ∀ fs ∈ compiler.states, fs.vlocals.size ≤ 2 ^ 63)
      (tables : TablesGrow (FuncState.tables compiler.states) ts)
      (sizes : ∀ t ∈ ts, t.length ≤ 2 ^ 63)
      (created : Created ts (c :: cs) ms)
      (making : ms[k]? = some m)

/-- A captured variable has one cell, which is open on its register. -/
theorem Captured.cell {s : Situation} {id : List UInt8} {r : Nat} {m : Making Heap}
    (h : Captured s id i r c m) :
    ∃ p, c.outervalues[i]? = some p ∧ m.vm.OpenOn (m.base + r) p := by
  obtain ⟨hrun, hresolved, hdeclared, hregisters, htables, hsizes, hcreated, hmaking⟩ := h
  obtain ⟨k, r', hlookup, hr, hleads⟩ := leads_of_resolution hrun hresolved hregisters
  cases hdeclared.symm.trans hlookup
  obtain ⟨c', p, m', hhead, hp, hm, hopen⟩ :=
    hcreated.nested.cell (hleads.grow htables) hr hsizes
  cases hhead
  cases hmaking.symm.trans hm
  exact ⟨p, hp, hopen⟩

/-- While `c` runs, `SETOUTER` gives its outer variable `i` the value `v`. -/
inductive Sets (c : Closure) (i : Nat) (v : Object) (vm vm' : VM Heap) : Prop where
  | intro {instr : Instruction} (running : currentClosure vm = .ok c vm)
      (index : index1 instr vm = .ok i vm)
      (value : vm.stack (vm.stackbase + instr.arg2.toNat) = v)
      (done : setOuter instr vm = .ok () vm')

/-- While `c` runs, `GETOUTER` loads the value `v` of its outer variable `i`. -/
inductive Gets (c : Closure) (i : Nat) (v : Object) (vm vm' : VM Heap) : Prop where
  | intro {instr : Instruction} (running : currentClosure vm = .ok c vm)
      (index : index1 instr vm = .ok i vm)
      (done : getOuter instr vm = .ok () vm')
      (value : vm'.stack (vm.stackbase + instr.arg0.toNat) = v)

/-- What a closure gives to a cell, every closure with the cell finds in it as long as the cell
keeps its value. -/
theorem gets_of_sets {c c' : Closure} {i j p : Nat} (hp : c.outervalues[i]? = some p)
    (hp' : c'.outervalues[j]? = some p) {v v' : Object} {vm₀ vm₁ vm₂ vm₃ : VM Heap}
    (hlt : p < vm₀.outers.length) (hsets : Sets c i v vm₀ vm₁)
    (hkept : vm₂.readOuter p = vm₁.readOuter p) (hgets : Gets c' j v' vm₂ vm₃) : v' = v := by
  obtain ⟨hrunning, hindex, rfl, hdone⟩ := hsets
  obtain ⟨hrunning', hindex', hdone', rfl⟩ := hgets
  calc vm₃.stack _ = vm₂.readOuter p := getOuter_ok hrunning' hindex' hp' hdone'
    _ = vm₁.readOuter p := hkept
    _ = vm₀.stack _ := setOuter_ok hrunning hindex hp hlt hdone

/-- Closures of two functions that name one variable share it. Both hold one cell, and what either
of them assigns to the variable, the other one reads. -/
theorem shared_variable {s s' : Situation} {id id' : List UInt8} {i j r : Nat} {c c' : Closure}
    {m m' : Making Heap} (h : Captured s id i r c m) (h' : Captured s' id' j r c' m')
    (hbase : m'.base = m.base) (hordered : m.vm.Ordered m.vm.openouters)
    (hproceeds : Proceeds (m.base + r) m.vm m'.vm) :
    ∃ p, c.outervalues[i]? = some p ∧ c'.outervalues[j]? = some p ∧
      m'.vm.OpenOn (m.base + r) p ∧
      ∀ (v v' : Object) (vm₀ vm₁ vm₂ vm₃ : VM Heap), p < vm₀.outers.length →
        vm₂.readOuter p = vm₁.readOuter p →
        (Sets c i v vm₀ vm₁ → Gets c' j v' vm₂ vm₃ → v' = v) ∧
          (Sets c' j v vm₀ vm₁ → Gets c i v' vm₂ vm₃ → v' = v) := by
  obtain ⟨p, hp, hopen⟩ := h.cell
  obtain ⟨q, hq, hopen'⟩ := h'.cell
  rw [hbase] at hopen'
  obtain ⟨hstill, hinorder⟩ := hopen.proceeds hordered hproceeds
  obtain rfl := hinorder.unique hstill.1 hopen'.1 hstill.2 hopen'.2
  refine ⟨p, hp, hq, hstill, fun v v' vm₀ vm₁ vm₂ vm₃ hlt hkept => ⟨?_, ?_⟩⟩
  · exact fun hsets hgets => gets_of_sets hp hq hlt hsets hkept hgets
  · exact fun hsets hgets => gets_of_sets hq hp hlt hsets hkept hgets

end

/-! #### A function in a function -/

/-- The state of a function with one parameter. -/
def unary (name : String) : FuncState :=
  (FuncState.init true .null .null).addParameter (.string (sc name))

/-- The compiler in a function of `y` that is nested in a function of `x`. -/
def inner : Situation where
  compiler := { Compiler.start .null false [] [] with
    fs := unary "y"
    parents := [unary "x", (Compiler.start .null false [] []).fs] }
  function := .ofParameters [.string (sc "y")]
  around := [.ofParameters [.string (sc "x")],
    .ofParameters [.string (sc "this"), .string (sc "vargv")]]

theorem run_inner : Run Situation.TopInOrder (.start .null false [] []) inner :=
  .tail (.tail .refl (@Step.enterFunction _ _ [.string (sc "x")] (unary "x") _ (by decide) rfl rfl))
    (@Step.enterFunction _ _ [.string (sc "y")] (unary "y") _ (by decide) rfl rfl)

/-- The compiler once the inner function has named `x`. -/
def afterX : Compiler := { inner.compiler with
  fs := (unary "y").addOuterValue (.string (sc "x")) 0 .otLOCAL
  parents := [(unary "x").markLocalAsOuter 0, (Compiler.start .null false [] []).fs] }

def closureOf (outervalues : List OuterVar) (cells : List Ref) : Closure where
  function := { (unary "").buildProto with outervalues := outervalues }
  outervalues := cells
  defaultparams := []
  env := none

/-- The machine after it has made the inner closure in the frame of the other one, at 5. -/
def madeInner : VM Unit where
  stack _ := .null
  stacksize := 64
  stackbase := 5
  top := 8
  callstack := []
  etraps := []
  traps := 0
  openouters := [0]
  outers := [.open 5]
  closures := []
  generators := []
  nmetamethodscall := 0
  heap := ()

def outerX : OuterVar := { type := .otLOCAL, name := .string (sc "x"), src := .integer 0 }

theorem resolution_inner :
    resolution (.string (sc "x")) inner.compiler = .ok (.outer 0) afterX := by
  have hlocal : inner.compiler.fs.getLocalVariable (.string (sc "x")) = none := by decide
  have haround : (unary "x").getLocalVariable (.string (sc "x")) = some 0 := by decide
  have houters : (unary "y").outervalues = #[] := rfl
  have hsearch : getOuterVariable (.string (sc "x")) (inner.compiler.fs :: inner.compiler.parents) =
      (some 0, afterX.fs :: afterX.parents) := by
    simp [inner, getOuterVariable, houters, haround, afterX]
  have hfound : GetOuterVariable (.string (sc "x")) inner.compiler = .ok (some 0) afterX := by
    unfold GetOuterVariable
    rw [Effect.get_bind_apply, hsearch]
    rfl
  unfold resolution
  rw [getFs_bind_apply, hlocal]
  dsimp only
  rw [Effect.bind_apply, hfound]
  rfl

theorem resolved_cell_inner : ∃ k r c p, ∃ m : Making Unit,
    lookup inner.functions (.string (sc "x")) = some (k + 1, r) ∧
      [closureOf [outerX] [0], closureOf [] [], closureOf [] []].head? = some c ∧
      c.outervalues[0]? = some p ∧
      [Making.mk madeInner 5, Making.mk madeInner 0][k]? = some m ∧
      m.vm.OpenOn (m.base + r) p := by
  have hmakes : madeInner.Makes 5 (closureOf [] []) (closureOf [outerX] [0]) :=
    .cons ⟨by decide, rfl⟩ .nil
  have hnested : Nested [[outerX], [], []]
      [closureOf [outerX] [0], closureOf [] [], closureOf [] []] [⟨madeInner, 5⟩, ⟨madeInner, 0⟩] :=
    .made (c := closureOf [outerX] [0]) (m := ⟨madeInner, 5⟩) hmakes
      (.made (c := closureOf [] []) (m := ⟨madeInner, 0⟩) .nil (.program rfl))
  exact resolved_cell run_inner resolution_inner (by decide) (tablesGrow_refl _) (by decide) hnested

/-! #### Two functions in a function -/

def closureAround (functions : List FunctionProto) : Closure :=
  { closureOf [] [] with function := { (unary "").buildProto with functions := functions } }

/-- The closure of the function of `x`, and that of the program. -/
def outerClosure : Closure := closureAround [(closureOf [outerX] []).function]

def programClosure : Closure := closureAround [outerClosure.function]

/-- The machine in a frame at `base` in which the closure `p` runs. -/
def running (p : Ref) (base : Nat) (closures : List Closure) : VM Unit :=
  { madeInner with
    stackbase := base
    callstack := [{ closure := some p, prevstkbase := 0, prevtop := 0 }]
    openouters := []
    outers := []
    closures := closures }

/-- Makes a closure of the first function of the running one. -/
def makesFirst : Instruction := { op := .CLOSURE, arg0 := 2, arg2 := 0xFF }

def afterClosure (vm : VM Unit) : VM Unit := Effect.leaves (closureOp makesFirst) vm

def firstMade : VM Unit := afterClosure (running 1 5 [programClosure, outerClosure])

theorem captured_inner {vm vm' : VM Unit} {instr : Instruction}
    (hcurrent : currentClosure vm = .ok outerClosure vm) (hclosure : closureOp instr vm = .ok () vm')
    (hnew : vm'.closures = vm.closures ++ [closureOf [outerX] [0]]) :
    Captured inner (sc "x") 0 0 (closureOf [outerX] [0]) ⟨vm', vm.stackbase⟩ := by
  have houter : Created [[], []] [outerClosure, programClosure]
      [⟨afterClosure (running 0 0 [programClosure]), 0⟩] :=
    .closure (c := outerClosure) rfl
      (rfl : closureOp makesFirst (running 0 0 [programClosure]) = .ok () (afterClosure _)) rfl
      (.program rfl)
  have hinner := Created.closure hcurrent hclosure hnew houter
  exact .intro (k := 0) run_inner resolution_inner (by decide) (by decide) (tablesGrow_refl _)
    (by decide) hinner rfl

theorem shared_variable_inner : ∃ p, (closureOf [outerX] [0]).outervalues[0]? = some p ∧
    (closureOf [outerX] [0]).outervalues[0]? = some p ∧ (afterClosure firstMade).OpenOn 5 p ∧
    ∀ (v v' : Object) (vm₀ vm₁ vm₂ vm₃ : VM Unit), p < vm₀.outers.length →
      vm₂.readOuter p = vm₁.readOuter p →
      (Sets (closureOf [outerX] [0]) 0 v vm₀ vm₁ →
        Gets (closureOf [outerX] [0]) 0 v' vm₂ vm₃ → v' = v) ∧
      (Sets (closureOf [outerX] [0]) 0 v vm₀ vm₁ →
        Gets (closureOf [outerX] [0]) 0 v' vm₂ vm₃ → v' = v) := by
  have hfirst : Captured inner (sc "x") 0 0 (closureOf [outerX] [0]) ⟨firstMade, 5⟩ :=
    captured_inner rfl (rfl : closureOp makesFirst (running 1 5 [programClosure, outerClosure]) =
      .ok () firstMade) rfl
  have hsecond : Captured inner (sc "x") 0 0 (closureOf [outerX] [0])
      ⟨afterClosure firstMade, 5⟩ :=
    captured_inner rfl (rfl : closureOp makesFirst firstMade = .ok () (afterClosure firstMade)) rfl
  have hordered : firstMade.Ordered firstMade.openouters :=
    ⟨⟨5, rfl, fun q hq => by cases hq⟩, trivial⟩
  exact shared_variable hfirst hsecond rfl hordered (.closure .refl
    (rfl : closureOp makesFirst firstMade = .ok () (afterClosure firstMade)))

end GameScript.Lexical
