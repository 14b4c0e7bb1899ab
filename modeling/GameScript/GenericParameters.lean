import GameScript.Compiler.PrologueKept
import GameScript.Returns
import GameScript.VM.ArgumentBinding

/-!
Parameters of generic types. `CreateFunction` collects, for each name in the list of generic
types, the registers of the parameters that are annotated with it, and the function starts by
comparing the types of the values in them. The brackets of `T[]` are read and forgotten, so
that a parameter of this type is one of `T`.

A generator function makes its generator before it compares anything. The types are compared
when the generator is resumed for the first time.
-/

namespace GameScript

open Effect

/-- The name that annotates the parameter whose own name comes next. -/
def Lexer.typeAhead (l : Lexer) : Option Object :=
  match l.input with
  | .ok colon :: .ok type :: _ =>
    if colon.token = .chr ':' ∧ type.token = .TK_IDENTIFIER then some (.string type.svalue)
    else none
  | _ => none

/-- What a function declares: the names of its generic types, and for every parameter the
name that it is annotated with, if it is one. -/
structure Signature where
  generics : List Object
  types : List (Option Object)
deriving DecidableEq

/-- The registers of the parameters of type `generic`. The first register is that of `this`. -/
def registersOf (types : List (Option Object)) (generic : Object) : List Nat :=
  ((types.zipIdx 1).filter fun t => t.1 = some generic).map (·.2)

/-- A further parameter of the type adds its register to the others. -/
theorem registersOf_concat (types : List (Option Object)) (type : Option Object)
    (generic : Object) : registersOf (types ++ [type]) generic =
      if some generic = type then registersOf types generic ++ [types.length + 1]
      else registersOf types generic := by
  unfold registersOf
  rw [List.zipIdx_append, List.filter_append, List.map_append, Nat.add_comm 1]
  by_cases htype : some generic = type
  · subst htype
    simp
  · have hne : type ≠ some generic := fun h => htype h.symm
    simp [htype, hne]

/-- The registers of a type are those of the parameters declared with it. -/
theorem mem_registersOf {types : List (Option Object)} {generic : Object} {reg : Nat} :
    reg ∈ registersOf types generic ↔ ∃ i, reg = i + 1 ∧ types[i]? = some (some generic) := by
  unfold registersOf
  rw [List.mem_map]
  constructor
  · rintro ⟨⟨type, n⟩, hmem, rfl⟩
    obtain ⟨hmem, htype⟩ := List.mem_filter.mp hmem
    obtain ⟨hle, hget⟩ := List.mk_mem_zipIdx_iff_le_and_getElem?_sub.mp hmem
    refine ⟨n - 1, by omega, ?_⟩
    have hsame : type = some generic := of_decide_eq_true htype
    rw [hget, hsame]
  · rintro ⟨i, rfl, hget⟩
    refine ⟨(some generic, i + 1), List.mem_filter.mpr ⟨?_, decide_eq_true rfl⟩, rfl⟩
    apply List.mk_mem_zipIdx_iff_le_and_getElem?_sub.mpr
    exact ⟨Nat.le_add_left 1 i, hget⟩

namespace Signature

/-- Values of one generic type have one type. `value` gives those of the registers. -/
def Agree (s : Signature) (value : Nat → Object) : Prop :=
  ∀ generic ∈ s.generics, ∀ i ∈ registersOf s.types generic,
    ∀ j ∈ registersOf s.types generic, (value i).type = (value j).type

end Signature

namespace Compiler

variable {call : Proc → CompilerM Unit} {c c' : Compiler}

/-- One parameter, and the name of its type if it is one that has its own. -/
def readType (call : Proc → CompilerM Unit) (acc : Parameters × List (Option Object)) :
    CompilerM (Parameters × List (Option Object) ⊕ List (Option Object)) := do
  let type := (← get).lex.typeAhead
  match ← parameter call acc.1 with
  | .inl p => return .inl (p, acc.2 ++ [type])
  | .inr _ => return .inr acc.2

/-- What the function that is compiled next declares. Its parameters are read to find where
each of them starts. -/
def signature (n : Nat) (call : Proc → CompilerM Unit) (name : Object) : CompilerM Signature := do
  let funcstate := (FuncState.init true name (← get).sourcename).addParameter (.string (sc "this"))
  let generics ← genericNames n
  let _ ← Expect (.chr '(')
  let types ← loop n (readType call) ({ funcstate := funcstate, generics := generics }, [])
  return { generics := generics.map (·.1), types := types }

/-! ### Reading a parameter -/

/-- The token read is the next one of the input. -/
theorem Lex_ok (h : Lex c = .ok () c') :
    c.lex.input = [] ∧ c'.token = .eob ∨
      ∃ x rest, c.lex.input = .ok x :: rest ∧ c'.token = x.token ∧ c'.lex.input = rest ∧
        c'.lex.svalue = x.svalue := by
  cases hinput : c.lex.input with
  | nil =>
    rw [Lex_nil hinput] at h
    cases h
    exact .inl ⟨rfl, rfl⟩
  | cons y rest =>
    cases y with
    | error msg =>
      unfold Lex Lexer.lex at h
      rw [get_bind_apply] at h
      dsimp only at h
      rw [hinput] at h
      cases h
    | ok x =>
      rw [Lex_cons hinput] at h
      cases h
      exact .inr ⟨x, rest, rfl, rfl, rfl, rfl⟩

theorem Expect_ok {t : Token} {o : Object} (h : Expect t c = .ok o c') : Lex c = .ok () c' := by
  unfold Expect at h
  rw [get_bind_apply] at h
  dsimp only at h
  split at h
  · obtain ⟨_, _, herr, -⟩ := bind_eq_ok.mp h
    cases herr
  · obtain ⟨_, c₁, hlex, h⟩ := bind_eq_ok.mp h
    cases h
    exact hlex

/-- The type of a parameter is the one in the tokens ahead. -/
theorem parameterType_ok {c₁ c₂ : Compiler} {name : Object} {type : Option Object}
    (hname : Expect .TK_IDENTIFIER c = .ok name c₁) (htype : parameterType c₁ = .ok type c₂) :
    type = c.lex.typeAhead := by
  unfold parameterType at htype
  rw [getToken_bind_apply] at htype
  unfold Lexer.typeAhead
  rcases Lex_ok (Expect_ok hname) with ⟨hinput, htoken⟩ | ⟨colon, rest, hinput, htoken, hrest, -⟩
  · rw [hinput]
    rw [htoken, if_neg (by decide)] at htype
    cases htype
    rfl
  rw [hinput]
  split at htype
  · rename_i hcolon
    obtain ⟨_, c₃, hlex, htype⟩ := bind_eq_ok.mp htype
    rw [get_bind_apply] at htype
    dsimp only at htype
    split at htype
    · obtain ⟨_, _, herr, -⟩ := bind_eq_ok.mp htype
      cases herr
    rename_i hvalid
    obtain ⟨_, c₄, -, htype⟩ := bind_eq_ok.mp htype
    obtain ⟨_, c₅, -, htype⟩ := bind_eq_ok.mp htype
    cases htype
    rcases Lex_ok hlex with ⟨-, htoken'⟩ | ⟨x, rest', hinput', htoken', -, hsvalue⟩
    · rw [htoken'] at hvalid
      exact absurd rfl hvalid
    · rw [hrest] at hinput'
      rw [hinput', htoken', hsvalue]
      rw [htoken] at hcolon
      simp [hcolon]
  · rename_i hcolon
    cases htype
    rw [htoken] at hcolon
    cases rest with
    | nil => rfl
    | cons y rest => cases y <;> simp [hcolon]

/-- The comma after a parameter, or the bracket after the last one. -/
theorem parameterEnd_ok {p : Parameters} {r : Parameters ⊕ Parameters}
    (h : (do
      if (← getToken) = .chr ',' then Lex
      else if (← getToken) ≠ .chr ')' then error "expected ')' or ','"
      return .inl p : CompilerM (Parameters ⊕ Parameters)) c = .ok r c') : r = .inl p := by
  rw [getToken_bind_apply] at h
  split at h
  · obtain ⟨_, _, -, h⟩ := bind_eq_ok.mp h
    cases h
    rfl
  · rw [getToken_bind_apply] at h
    split at h
    · obtain ⟨_, _, herr, -⟩ := bind_eq_ok.mp h
      cases herr
    · cases h
      rfl

/-- The parameters `p'` have one more than `p`, of the type `type`. -/
structure Declared (type : Option Object) (p p' : Parameters) : Prop where
  generics : p'.generics = p.generics.map fun generic =>
    if some generic.1 = type then (generic.1, generic.2 ++ [p.current_param_idx]) else generic
  current_param_idx : p'.current_param_idx = p.current_param_idx + 1
  size : p'.funcstate.parameters.size = p.funcstate.parameters.size + 1

/-- A variable tail is no parameter of a type. -/
structure Ended (p p' : Parameters) : Prop where
  generics : p'.generics = p.generics
  size : p.funcstate.parameters.size ≤ p'.funcstate.parameters.size

/-- A round of the list declares a parameter with the type ahead, or ends the
list. -/
theorem parameter_ok {p : Parameters} {r : Parameters ⊕ Parameters}
    (h : parameter call p c = .ok r c') :
    Sum.elim (Declared c.lex.typeAhead p) (Ended p) r := by
  unfold parameter at h
  rw [getToken_bind_apply] at h
  split at h
  · cases h
    exact ⟨rfl, Nat.le_refl _⟩
  rw [getToken_bind_apply] at h
  split at h
  · dsimp only at h
    split at h
    · obtain ⟨_, _, herr, -⟩ := bind_eq_ok.mp h
      cases herr
    obtain ⟨_, c₁, -, h⟩ := bind_eq_ok.mp h
    rw [getToken_bind_apply] at h
    split at h
    · obtain ⟨_, _, herr, -⟩ := bind_eq_ok.mp h
      cases herr
    · cases h
      exact ⟨rfl, by simp [FuncState.addParameter, FuncState.pushLocalVariable]⟩
  obtain ⟨paramname, c₁, hname, h⟩ := bind_eq_ok.mp h
  obtain ⟨type_id, c₂, htype, h⟩ := bind_eq_ok.mp h
  obtain rfl := parameterType_ok hname htype
  dsimp only at h
  rw [getToken_bind_apply] at h
  split at h
  · obtain ⟨_, c₃, -, h⟩ := bind_eq_ok.mp h
    obtain ⟨_, c₄, -, h⟩ := bind_eq_ok.mp h
    obtain ⟨trg, c₅, -, h⟩ := bind_eq_ok.mp h
    rw [parameterEnd_ok h]
    exact ⟨rfl, rfl, by simp [FuncState.addParameter, FuncState.pushLocalVariable]⟩
  · split at h
    · obtain ⟨_, _, herr, -⟩ := bind_eq_ok.mp h
      cases herr
    · rw [parameterEnd_ok h]
      exact ⟨rfl, rfl, by simp [FuncState.addParameter, FuncState.pushLocalVariable]⟩

/-! ### The groups -/

/-- What is known of the parameters read so far, when the generic types have these `names`
and the parameters are annotated with `types`. -/
structure Grouped (names : List Object) (types : List (Option Object)) (p : Parameters) :
    Prop where
  generics : p.generics = names.map fun name => (name, registersOf types name)
  current_param_idx : p.current_param_idx = types.length + 1
  size : types.length < p.funcstate.parameters.size

/-- A declared parameter joins the group of its type. -/
theorem Grouped.declare {names : List Object} {types : List (Option Object)}
    {type : Option Object} {p p' : Parameters} (h : Grouped names types p)
    (hp : Declared type p p') : Grouped names (types ++ [type]) p' := by
  refine ⟨?_, ?_, ?_⟩
  · rw [hp.generics, h.generics, List.map_map, h.current_param_idx]
    apply List.map_congr_left
    intro name _
    rw [registersOf_concat]
    dsimp only [Function.comp_apply]
    split <;> rfl
  · rw [hp.current_param_idx, h.current_param_idx, List.length_append]
    rfl
  · rw [hp.size, List.length_append]
    exact Nat.succ_lt_succ h.size

/-- Both loops over the parameters make the same rounds. -/
theorem loop_grouped {names : List Object} {types : List (Option Object)} {p p' : Parameters}
    {c₁ : Compiler} (k : Nat) (h : Grouped names types p)
    (hp : loop k (parameter call) p c = .ok p' c₁) :
    ∃ types', loop k (readType call) (p, types) c = .ok types' c₁ ∧
      p'.generics = names.map (fun name => (name, registersOf types' name)) ∧
      types'.length < p'.funcstate.parameters.size := by
  induction k generalizing p types c with
  | zero => cases hp
  | succ k ih =>
    obtain ⟨r, c₃, hround, hp⟩ := bind_eq_ok.mp hp
    have hr := parameter_ok hround
    unfold loop
    rw [bind_apply]
    unfold readType
    rw [get_bind_apply, bind_apply, hround]
    cases r with
    | inl p₁ => exact ih (h.declare hr) hp
    | inr p₁ =>
      cases hp
      exact ⟨types, rfl, hr.generics.trans h.generics, Nat.lt_of_lt_of_le h.size hr.size⟩

/-- The generic types have no parameters at first. -/
theorem genericNames_ok {n : Nat} {generics : Generics} (h : genericNames n c = .ok generics c') :
    ∀ generic ∈ generics, generic.2 = [] := by
  have hloop (k : Nat) {acc generics : Generics} {c c' : Compiler}
      (hacc : ∀ generic ∈ acc, generic.2 = []) (h : loop k (fun (generics : Generics) => do
        let gen_name ← Expect .TK_IDENTIFIER
        let generics := generics ++ [(gen_name, [])]
        if (← getToken) = .chr ',' then
          Lex
          return .inl generics
        else return .inr generics) acc c = .ok generics c') :
      ∀ generic ∈ generics, generic.2 = [] := by
    induction k generalizing acc c with
    | zero => cases h
    | succ k ih =>
      obtain ⟨r, c₁, hround, h⟩ := bind_eq_ok.mp h
      obtain ⟨gen_name, c₂, -, hround⟩ := bind_eq_ok.mp hround
      have hnext : ∀ generic ∈ acc ++ [(gen_name, [])], generic.2 = [] := by
        intro generic hmem
        rcases List.mem_append.mp hmem with hmem | hmem
        · exact hacc generic hmem
        · rw [List.mem_singleton.mp hmem]
      rw [getToken_bind_apply] at hround
      split at hround
      · obtain ⟨_, c₃, -, hround⟩ := bind_eq_ok.mp hround
        cases hround
        exact ih hnext h
      · cases hround
        cases h
        exact hnext
  unfold genericNames at h
  rw [getToken_bind_apply] at h
  split at h
  · obtain ⟨_, c₁, -, h⟩ := bind_eq_ok.mp h
    obtain ⟨generics', c₂, hrun, h⟩ := bind_eq_ok.mp h
    obtain ⟨_, c₃, -, h⟩ := bind_eq_ok.mp h
    cases h
    exact hloop n (by simp) hrun
  · cases h
    simp

/-- The groups of registers are those of the declared types. -/
theorem functionParameters_grouped {n : Nat} {name : Object} {p : Parameters} {c₁ : Compiler}
    (hp : functionParameters n call name c = .ok p c₁) :
    ∃ s c₂, signature n call name c = .ok s c₂ ∧
      p.generics = s.generics.map (fun generic => (generic, registersOf s.types generic)) ∧
      s.types.length < p.funcstate.parameters.size := by
  unfold functionParameters at hp
  rw [get_bind_apply] at hp
  obtain ⟨generics, c₃, hnames, hp⟩ := bind_eq_ok.mp hp
  obtain ⟨_, c₄, hopen, hp⟩ := bind_eq_ok.mp hp
  obtain ⟨p', c₅, hloop, hp⟩ := bind_eq_ok.mp hp
  obtain ⟨_, c₆, -, hp⟩ := bind_eq_ok.mp hp
  cases hp
  have hnone : generics = (generics.map (·.1)).map fun generic => (generic, []) := by
    rw [List.map_map]
    refine (List.map_id generics).symm.trans (List.map_congr_left ?_)
    intro generic hmem
    exact Prod.ext rfl (genericNames_ok hnames generic hmem)
  have hstart : Grouped (generics.map (·.1)) []
      { funcstate := (FuncState.init true name c.sourcename).addParameter (.string (sc "this"))
        generics := generics } := by
    refine ⟨hnone, rfl, ?_⟩
    simp [FuncState.addParameter, FuncState.pushLocalVariable, FuncState.init]
  obtain ⟨types, hrun, hgrouped⟩ := loop_grouped n hstart hloop
  refine ⟨{ generics := generics.map (·.1), types := types }, c₅, ?_, hgrouped⟩
  unfold signature
  rw [get_bind_apply, bind_apply, hnames]
  dsimp only
  rw [bind_apply, hopen]
  dsimp only
  rw [bind_apply, hrun]
  rfl

end Compiler

namespace Signature

/-- The checks of a function with this signature. -/
def checks (s : Signature) : List Instruction :=
  Compiler.checks (s.generics.map fun generic => (generic, registersOf s.types generic))

end Signature

namespace Compiler

/-- The function that is compiled next starts with the checks of its signature, and has a
register for each of its parameters. -/
theorem createFunction_checks {n : Nat} {name : Object} {boundtarget : Int} {lambda : Bool}
    {c c' : Compiler} {func : FunctionProto}
    (hcompile : createFunction n (run n) name boundtarget lambda c = .ok () c')
    (hfunc : c'.fs.functions.back? = some func) :
    ∃ s c₁, signature n (run n) name c = .ok s c₁ ∧
      (∀ (j : Nat) i, s.checks[j]? = some i → func.instructions[j]? = some i) ∧
      s.types.length < func.parameters.length := by
  obtain ⟨-, p, c₂, c₃, func', hp, ⟨hcode, hparameters⟩, hback⟩ :=
    createFunction_ok n (run n) name boundtarget lambda (past_anywhere c) hcompile
  obtain rfl : func' = func := Option.some.inj (hback.symm.trans hfunc)
  obtain ⟨s, c₁, hs, hgenerics, hsize⟩ := functionParameters_grouped hp
  refine ⟨s, c₁, hs, ?_, ?_⟩
  · unfold Signature.checks
    rw [← hgenerics]
    exact hcode
  · rw [hparameters]
    exact hsize

end Compiler

namespace VM

/-! ### Running the checks -/

section

variable (rt : Runtime)

/-- The next instruction. -/
def instruction : VMM rt.Heap Control := do exec rt (← fetch)

/-- `vm'` is the state after `k` instructions, none of which raises. -/
def Executes : Nat → VM rt.Heap → VM rt.Heap → Prop
  | 0, vm, vm' => vm' = vm
  | k + 1, vm, vm' => ∃ vm₁, Executes k vm vm₁ ∧ instruction rt vm₁ = .ok .next vm'

/-- The frame on top goes on at the instruction `k`. -/
def atIp {Heap : Type} (vm : VM Heap) (k : Nat) : VM Heap :=
  { vm with callstack := vm.callstack.modifyHead fun ci => { ci with ip := k } }

/-- The frame on top gets to the instruction `m`, where the body of its function starts. -/
def BodyStarts (m : Nat) (vm : VM rt.Heap) : Prop := Executes rt m vm (vm.atIp m)

/-- The error of `_OP_MATCHTYPES`. -/
def mismatch : Object := .string (sc ("strict type mismatch: " ++
  "generic parameters bound to the same type must match"))

/-- One of the instructions before the body raises the error of `_OP_MATCHTYPES`. -/
def Rejects (m : Nat) (vm : VM rt.Heap) : Prop :=
  ∃ j < m, Executes rt j vm (vm.atIp j) ∧
    instruction rt (vm.atIp j) = .error (.raise mismatch) (vm.atIp (j + 1))

end

section

variable {rt : Runtime} {vm vm₁ vm₂ : VM rt.Heap}

/-- The machine comes to one state. -/
theorem Executes.unique {k : Nat} (h : Executes rt k vm vm₁) (h' : Executes rt k vm vm₂) :
    vm₁ = vm₂ := by
  induction k generalizing vm₁ vm₂ with
  | zero => exact h.trans h'.symm
  | succ k ih =>
    obtain ⟨vm₃, hrun, hlast⟩ := h
    obtain ⟨vm₄, hrun', hlast'⟩ := h'
    obtain rfl := ih hrun hrun'
    rw [hlast] at hlast'
    cases hlast'
    rfl

/-- None of the instructions of a run raises. -/
theorem Executes.next {k j : Nat} (h : Executes rt k vm vm₂) (hj : j < k)
    (h' : Executes rt j vm vm₁) : ∃ vm₃, instruction rt vm₁ = .ok .next vm₃ := by
  induction k generalizing vm₂ with
  | zero => exact absurd hj (Nat.not_lt_zero j)
  | succ k ih =>
    obtain ⟨vm₄, hrun, hlast⟩ := h
    rcases Nat.lt_succ_iff_lt_or_eq.mp hj with hlt | rfl
    · exact ih hrun hlt
    · obtain rfl := h'.unique hrun
      exact ⟨vm₂, hlast⟩

theorem Rejects.not_starts {m : Nat} (h : Rejects rt m vm) : ¬ BodyStarts rt m vm := by
  obtain ⟨j, hj, hrun, hraise⟩ := h
  intro hstarts
  obtain ⟨vm₃, hnext⟩ := hstarts.next hj hrun
  rw [hraise] at hnext
  cases hnext

/-- The frame on top is at the start of `func`. -/
def AtStart {Heap : Type} (func : FunctionProto) (vm : VM Heap) : Prop :=
  ∃ ci callstack p c, vm.callstack = ci :: callstack ∧ ci.ip = 0 ∧ ci.closure = some p ∧
    vm.closures[p]? = some c ∧ c.function = func

theorem AtStart.atIp {func : FunctionProto} (h : AtStart func vm) : vm.atIp 0 = vm := by
  obtain ⟨ci, callstack, p, c, hstack, hip, -⟩ := h
  have hsame : ({ ci with ip := 0 } : CallInfo) = ci := by rw [← hip]
  cases vm
  dsimp only at hstack
  subst hstack
  exact congrArg (fun ci' => VM.mk _ _ _ _ (ci' :: callstack) _ _ _ _ _ _ _ _) hsame

/-- The values that a check compares have one type. -/
def Passes {Heap : Type} (vm : VM Heap) (i : Instruction) : Prop :=
  (vm.stack (vm.stackbase + i.arg0.toNat)).type =
    (vm.stack (vm.stackbase + i.arg1.toInt.toNat)).type

instance {Heap : Type} (vm : VM Heap) (i : Instruction) : Decidable (vm.Passes i) :=
  inferInstanceAs (Decidable (_ = _))

/-- MATCHTYPES raises unless its two registers hold values of one type. -/
theorem exec_check {i : Instruction} (hop : i.op = .MATCHTYPES) (harg1 : 0 ≤ i.arg1.toInt)
    (vm : VM rt.Heap) : exec rt i vm =
      if vm.Passes i then .ok .next vm else .error (.raise mismatch) vm := by
  unfold exec
  rw [hop]
  dsimp only
  unfold execData
  rw [hop]
  dsimp only
  rw [bind_apply, bind_apply, STK_apply]
  dsimp only
  rw [bind_apply, STK1_apply harg1]
  dsimp only
  unfold when
  by_cases htypes : vm.Passes i
  · have hsame : ¬ (vm.stack (vm.stackbase + i.arg0.toNat)).type ≠
        (vm.stack (vm.stackbase + i.arg1.toInt.toNat)).type := fun hne => hne htypes
    simp only [if_pos htypes, if_neg hsame]
    rfl
  · have hdiffer : (vm.stack (vm.stackbase + i.arg0.toNat)).type ≠
        (vm.stack (vm.stackbase + i.arg1.toInt.toNat)).type := htypes
    simp only [if_neg htypes, if_pos hdiffer]
    rfl

/-- A check of a frame that is at the start of its function. -/
theorem instruction_check {func : FunctionProto} (h : AtStart func vm) {j : Nat}
    {i : Instruction} (hi : func.instructions[j]? = some i) (hop : i.op = .MATCHTYPES)
    (harg1 : 0 ≤ i.arg1.toInt) : instruction rt (vm.atIp j) =
      if vm.Passes i then .ok .next (vm.atIp (j + 1))
      else .error (.raise mismatch) (vm.atIp (j + 1)) := by
  obtain ⟨ci, callstack, p, c, hstack, -, hclosure, hp, rfl⟩ := h
  have hat (k : Nat) : (vm.atIp k).callstack = { ci with ip := k } :: callstack := by
    change vm.callstack.modifyHead _ = _
    rw [hstack]
    rfl
  have hfetch := fetch_apply (hat j) hclosure hp hi
  have hnext : { vm.atIp j with callstack := { ci with ip := j + 1 } :: callstack } =
      vm.atIp (j + 1) := by
    rw [← hat (j + 1)]
    rfl
  unfold instruction
  rw [bind_apply, hfetch]
  dsimp only
  rw [hnext]
  exact exec_check hop harg1 _

theorem Rejects.mono {m k : Nat} (h : Rejects rt k vm) (hle : k ≤ m) : Rejects rt m vm := by
  obtain ⟨j, hj, hraise⟩ := h
  exact ⟨j, Nat.lt_of_lt_of_le hj hle, hraise⟩

/-- A run over the checks a function opens with stops at the first that fails. -/
theorem run_checks {func : FunctionProto} (h : AtStart func vm) {code : List Instruction}
    (hcode : ∀ (j : Nat) i, code[j]? = some i → func.instructions[j]? = some i)
    (hop : ∀ i ∈ code, i.op = .MATCHTYPES) (harg1 : ∀ i ∈ code, 0 ≤ i.arg1.toInt) (k : Nat)
    (hk : k ≤ code.length) :
    (BodyStarts rt k vm ∧ ∀ i ∈ code.take k, vm.Passes i) ∨
      (Rejects rt k vm ∧ ∃ i ∈ code, ¬ vm.Passes i) := by
  induction k with
  | zero =>
    left
    constructor
    · exact h.atIp
    · intro i hi
      rw [List.take_zero] at hi
      cases hi
  | succ k ih =>
    rcases ih (by omega) with ⟨hstarts, hpass⟩ | ⟨hrejects, hfails⟩
    · have hi : code[k]? = some code[k] := List.getElem?_eq_getElem hk
      have hmem : code[k] ∈ code := List.getElem_mem hk
      have hcheck := instruction_check h (hcode k _ hi) (hop _ hmem) (harg1 _ hmem)
      by_cases hpasses : vm.Passes code[k]
      · rw [if_pos hpasses] at hcheck
        left
        constructor
        · exact ⟨vm.atIp k, hstarts, hcheck⟩
        · intro i hi
          rw [← List.take_append_getElem hk, List.mem_append, List.mem_singleton] at hi
          rcases hi with hi | rfl
          · exact hpass i hi
          · exact hpasses
      · rw [if_neg hpasses] at hcheck
        right
        exact ⟨⟨k, Nat.lt_succ_self k, hstarts, hcheck⟩, _, hmem, hpasses⟩
    · right
      exact ⟨hrejects.mono (Nat.le_succ k), hfails⟩

/-! ### What the checks compare -/

/-- The checks compare each group's first register with each of its others. -/
theorem mem_checks {s : Signature} {i : Instruction} : i ∈ s.checks ↔
    ∃ generic ∈ s.generics, ∃ base_reg regs, registersOf s.types generic = base_reg :: regs ∧
      ∃ reg ∈ regs, i = .make .MATCHTYPES base_reg reg 0 0 := by
  unfold Signature.checks Compiler.checks
  rw [List.mem_flatMap]
  constructor
  · rintro ⟨group, hgroup, hi⟩
    obtain ⟨generic, hgeneric, rfl⟩ := List.mem_map.mp hgroup
    dsimp only at hi
    cases hregs : registersOf s.types generic with
    | nil =>
      rw [hregs] at hi
      cases hi
    | cons base_reg regs =>
      rw [hregs] at hi
      obtain ⟨reg, hreg, rfl⟩ := List.mem_map.mp hi
      exact ⟨generic, hgeneric, base_reg, regs, hregs, reg, hreg, rfl⟩
  · rintro ⟨generic, hgeneric, base_reg, regs, hregs, reg, hreg, rfl⟩
    refine ⟨_, List.mem_map_of_mem hgeneric, ?_⟩
    dsimp only
    rw [hregs]
    exact List.mem_map_of_mem hreg

theorem registersOf_le {types : List (Option Object)} {generic : Object} {reg : Nat}
    (h : reg ∈ registersOf types generic) : reg ≤ types.length := by
  obtain ⟨i, rfl, hi⟩ := mem_registersOf.mp h
  obtain ⟨hlt, -⟩ := List.getElem?_eq_some_iff.mp hi
  exact hlt

/-- With up to 254 parameters no register of a check is truncated. -/
theorem checks_arg1 {s : Signature} (hsize : s.types.length ≤ 254) :
    ∀ i ∈ s.checks, 0 ≤ i.arg1.toInt := by
  intro i hi
  obtain ⟨generic, -, base_reg, regs, hregs, reg, hreg, rfl⟩ := mem_checks.mp hi
  have hmem : reg ∈ registersOf s.types generic := hregs ▸ List.mem_cons_of_mem base_reg hreg
  have hle := registersOf_le hmem
  have harg1 : (int32 (reg : Int)).toInt = reg := int32_toInt (by omega)
  change 0 ≤ (int32 (reg : Int)).toInt
  omega

/-- A check compares the values of the two registers it names. -/
theorem passes_make_iff {Heap : Type} {vm : VM Heap} {base_reg reg : Nat} (hbase : base_reg < 256)
    (hreg : reg < 256) : vm.Passes (.make .MATCHTYPES base_reg reg 0 0) ↔
      (vm.stack (vm.stackbase + base_reg)).type = (vm.stack (vm.stackbase + reg)).type := by
  have harg0 : (byte (base_reg : Int)).toNat = base_reg := byte_toNat hbase
  have harg1 : (int32 (reg : Int)).toInt.toNat = reg := by
    rw [int32_toInt (by omega), Int.toNat_natCast]
  change (vm.stack (vm.stackbase + (byte (base_reg : Int)).toNat)).type =
    (vm.stack (vm.stackbase + (int32 (reg : Int)).toInt.toNat)).type ↔ _
  rw [harg0, harg1]

/-- All checks pass just where the arguments of each generic type have one type. -/
theorem passes_checks_iff {Heap : Type} {vm : VM Heap} {s : Signature}
    (hsize : s.types.length ≤ 254) : (∀ i ∈ s.checks, vm.Passes i) ↔
      s.Agree fun reg => vm.stack (vm.stackbase + reg) := by
  have hlt {generic : Object} {reg : Nat} (h : reg ∈ registersOf s.types generic) :
      reg < 256 := by
    have hle := registersOf_le h
    omega
  constructor
  · intro hpass generic hgeneric i hi j hj
    obtain ⟨base_reg, regs, hregs⟩ := List.exists_cons_of_ne_nil (List.ne_nil_of_mem hi)
    have hbase : base_reg ∈ registersOf s.types generic := hregs ▸ List.mem_cons_self
    -- every register has the type of the first one of its group
    have hsame (reg : Nat) (hreg : reg ∈ registersOf s.types generic) :
        (vm.stack (vm.stackbase + base_reg)).type = (vm.stack (vm.stackbase + reg)).type := by
      have hreg' := hreg
      rw [hregs] at hreg'
      rcases List.mem_cons.mp hreg' with rfl | hmem
      · rfl
      · apply (passes_make_iff (hlt hbase) (hlt hreg)).mp
        exact hpass _ (mem_checks.mpr ⟨generic, hgeneric, base_reg, regs, hregs, reg, hmem, rfl⟩)
    exact (hsame i hi).symm.trans (hsame j hj)
  · intro hagree i hi
    obtain ⟨generic, hgeneric, base_reg, regs, hregs, reg, hreg, rfl⟩ := mem_checks.mp hi
    have hbase : base_reg ∈ registersOf s.types generic := hregs ▸ List.mem_cons_self
    have hmem : reg ∈ registersOf s.types generic := hregs ▸ List.mem_cons_of_mem base_reg hreg
    exact (passes_make_iff (hlt hbase) (hlt hmem)).mpr (hagree generic hgeneric _ hbase _ hmem)

/-! ### Frames that start -/

/-- The frame on top gets to its body where the values of each generic type have one type, and
raises where they do not. -/
def ChecksGenerics (rt : Runtime) (s : Signature) (value : Nat → Object) (vm : VM rt.Heap) :
    Prop :=
  (BodyStarts rt s.checks.length vm ↔ s.Agree value) ∧
    (¬ s.Agree value → Rejects rt s.checks.length vm)

/-- Whether the arguments agree depends on the parameters' registers only. -/
theorem agree_congr {s : Signature} {value value' : Nat → Object}
    (h : ∀ i, 0 < i → i ≤ s.types.length → value i = value' i) :
    s.Agree value ↔ s.Agree value' := by
  have hsame {generic : Object} {i : Nat} (hi : i ∈ registersOf s.types generic) :
      value i = value' i := by
    obtain ⟨k, hk, -⟩ := mem_registersOf.mp hi
    exact h i (by omega) (registersOf_le hi)
  unfold Signature.Agree
  constructor
  · intro hagree generic hgeneric i hi j hj
    rw [← hsame hi, ← hsame hj]
    exact hagree generic hgeneric i hi j hj
  · intro hagree generic hgeneric i hi j hj
    rw [hsame hi, hsame hj]
    exact hagree generic hgeneric i hi j hj

/-- A frame at the start of a function that opens with the checks of its signature. -/
theorem checksGenerics_of_atStart {func : FunctionProto} {s : Signature} (h : AtStart func vm)
    (hcode : ∀ (j : Nat) i, s.checks[j]? = some i → func.instructions[j]? = some i)
    (hsize : s.types.length ≤ 254) {value : Nat → Object}
    (hvalue : ∀ i, 0 < i → i ≤ s.types.length → vm.stack (vm.stackbase + i) = value i) :
    ChecksGenerics rt s value vm := by
  have hpass : (∀ i ∈ s.checks, vm.Passes i) ↔ s.Agree value :=
    (passes_checks_iff hsize).trans (agree_congr hvalue)
  have hop : ∀ i ∈ s.checks, i.op = .MATCHTYPES := Compiler.checks_op _
  rcases run_checks h hcode hop (checks_arg1 hsize) s.checks.length (Nat.le_refl _) with
    ⟨hstarts, hall⟩ | ⟨hrejects, i, hi, hfails⟩
  · rw [List.take_length] at hall
    have hagree := hpass.mp hall
    exact ⟨⟨fun _ => hagree, fun _ => hstarts⟩, fun hnot => absurd hagree hnot⟩
  · have hnot : ¬ s.Agree value := fun hagree => hfails (hpass.mpr hagree i hi)
    exact ⟨⟨fun hstarts => absurd hstarts hrejects.not_starts, fun hagree => absurd hagree hnot⟩,
      fun _ => hrejects⟩

end

/-! ### Calls -/

variable {rt : Runtime} {alive : rt.Heap → Object → Bool}
  {vm vm' : VM (rt.withReferences alive).Heap} {p : Ref} {c : Closure} {args stackbase : Nat}
  {target : Int} {tailcall : Bool}

/-- A call that succeeds has a fitting number of arguments and room for its frame. -/
theorem fits_of_StartCall (hp : vm.closures[p]? = some c) (hc : c.Wellformed)
    (hstart : StartCall (rt.withReferences alive) p target args stackbase tailcall vm =
      .ok () vm') :
    c.Accepts args ∧ Room vm (stackbase + c.function.stacksize.toInt.toNat) := by
  apply Classical.byContradiction
  intro hfits
  obtain ⟨err, vm'', hrejects⟩ := StartCall_rejects hp hc hfits target tailcall
  rw [hrejects] at hstart
  cases hstart

/-- The frame of a function that is no generator function is at the start of it. -/
theorem started_atStart (hp : vm.closures[p]? = some c) (args stackbase : Nat) (target : Int)
    (htail : tailcall = true → vm.callstack ≠ []) :
    AtStart c.function (started vm p c target args stackbase tailcall) := by
  have hclosures : (started vm p c target args stackbase tailcall).closures[p]? = some c := by
    change (boundEnv vm c args stackbase).closures[p]? = some c
    rw [boundEnv_same vm c args stackbase]
    exact hp
  cases tailcall with
  | false => exact ⟨_, _, p, c, rfl, rfl, rfl, hclosures, rfl⟩
  | true =>
    obtain ⟨ci, callstack, hstack⟩ := List.exists_cons_of_ne_nil (htail rfl)
    refine ⟨({ ci with ncalls := ci.ncalls + 1 } : CallInfo).start p target, callstack, p, c, ?_,
      rfl, rfl, hclosures, rfl⟩
    change (vm.callstack.modifyHead _).modifyHead (·.start p target) = _
    rw [hstack]
    rfl

/-- What the generator of a call has saved. -/
structure Saves (g : Generator) (p : Ref) (c : Closure) (value : Nat → Object) : Prop where
  suspended : g.state = .eSuspended
  closure : g.ci.closure = some p
  ip : g.ci.ip = 0
  registers : ∀ i, 0 < i → i < c.nparameters → g.stack[i]? = some (value i)

/-- The call of a generator function saves its frame with the arguments as
they were given. -/
theorem StartCall_saves (hp : vm.closures[p]? = some c) (hc : c.Wellformed)
    (hgen : c.function.bgenerator = true) (hcaller : vm.stackbase ≤ stackbase)
    (hstart : StartCall (rt.withReferences alive) p target args stackbase false vm = .ok () vm') :
    ∃ g, vm'.generators = vm.generators ++ [g] ∧ vm'.callstack = vm.callstack ∧
      Saves g p c (c.argument vm args stackbase (.array vm.heap.arrays.length)) := by
  obtain ⟨haccepts, hroom⟩ := fits_of_StartCall hp hc hstart
  obtain ⟨ci, rfl, hroot, hclosure, hip, hstack, hbase⟩ :=
    started_frame vm c args hcaller p target
  rw [StartCall_accepts hp hc haccepts hroom] at hstart
  unfold when at hstart
  rw [if_pos hgen] at hstart
  by_cases hslot : 0 ≤ (vm.stackbase : Int) + ci.target
  · rw [← hbase] at hslot
    obtain ⟨vm'', hrun, hgenerators, -, -, hcallstack⟩ :=
      startGenerator_ok hstack hroot hslot p c.function.stacksize.toInt.toNat
    rw [hrun] at hstart
    cases hstart
    refine ⟨newGenerator (started vm p c ci.target args stackbase false) ci p
      c.function.stacksize.toInt.toNat, ?_, hcallstack, rfl, hclosure, hip, ?_⟩
    · rw [hgenerators]
      change (boundEnv vm c args stackbase).generators ++ _ = _
      rw [boundEnv_same vm c args stackbase]
    · intro i hpos hi
      rw [newGenerator_stack hc haccepts p p ci.target stackbase ci hi,
        if_neg (Nat.pos_iff_ne_zero.mp hpos)]
  · rw [← hbase] at hslot
    obtain ⟨vm'', hrun⟩ :=
      startGenerator_undefined hstack hroot hslot p c.function.stacksize.toInt.toNat
    rw [hrun] at hstart
    cases hstart

/-- The frame of a generator that is resumed for the first time. -/
theorem resumed_atStart {value : Nat → Object} {g : Generator} (hg : Saves g p c value)
    (hp : vm.closures[p]? = some c) {q : Ref} (hq : vm.generators[q]? = some g) {reg : Nat}
    (hresume : resumeGenerator (rt.withReferences alive) q reg vm = .ok () vm') :
    AtStart c.function vm' ∧ ∀ i, 0 < i → i < c.nparameters →
      vm'.stack (vm'.stackbase + i) = value i := by
  have hroom : Room vm (vm.top + g.stack.length) := by
    apply Classical.byContradiction
    intro hroom
    obtain ⟨err, vm'', hfull⟩ := resumeGenerator_full hq hg.suspended hroom reg
    rw [hfull] at hresume
    cases hresume
  rw [resumeGenerator_apply hq hg.suspended hroom] at hresume
  cases hresume
  constructor
  · exact ⟨_, _, p, c, rfl, hg.ip, hg.closure, hp, rfl⟩
  · intro i hpos hi
    have hreg := hg.registers i hpos hi
    obtain ⟨hlt, -⟩ := List.getElem?_eq_some_iff.mp hreg
    change restoredStack vm g (vm.top + i) = _
    unfold restoredStack
    rw [if_neg (by omega), if_pos (by omega), Nat.add_sub_cancel_left, List.getD_eq_getElem?_getD,
      hreg]
    rfl

/-- A call of a closure with the signature `s` that has come from `vm` to `vm'` makes a frame
that compares the arguments. A generator function leaves a generator behind instead, and the
frame that it gets when it is resumed for the first time is the one that compares them. -/
def CallChecksGenerics (vm vm' : VM (rt.withReferences alive).Heap) (p : Ref) (c : Closure)
    (args stackbase : Nat) (s : Signature) : Prop :=
  let value := c.argument vm args stackbase (.array vm.heap.arrays.length)
  (c.function.bgenerator = false → ChecksGenerics (rt.withReferences alive) s value vm') ∧
    (c.function.bgenerator = true → vm'.callstack = vm.callstack ∧
      ∃ g, vm'.generators = vm.generators ++ [g] ∧
        ∀ (q : Ref) (reg : Nat) (vm₁ vm₂ : VM (rt.withReferences alive).Heap),
          vm₁.generators[q]? = some g → vm₁.closures[p]? = some c →
          resumeGenerator (rt.withReferences alive) q reg vm₁ = .ok () vm₂ →
          ChecksGenerics (rt.withReferences alive) s value vm₂)

/-- **Generic parameters agree before the body starts.** A call of a compiled function that
succeeds makes a frame that gets to the body of the function just where the arguments of each
generic type have one type, and raises the error of the checks where they do not. A generator
function does not run yet: the same is true of the frame that its generator gets when it is
resumed for the first time. -/
theorem StartCall_checksGenerics {n : Nat} {name : Object} {boundtarget : Int} {lambda : Bool}
    {compiler compiler' : Compiler}
    (hcompile : Compiler.createFunction n (Compiler.run n) name boundtarget lambda compiler =
      .ok () compiler')
    (hfunc : compiler'.fs.functions.back? = some c.function) (hp : vm.closures[p]? = some c)
    (hc : c.Wellformed) (hcaller : vm.stackbase ≤ stackbase)
    (htail : tailcall = true → vm.callstack ≠ [] ∧ c.function.bgenerator = false)
    (hstart : StartCall (rt.withReferences alive) p target args stackbase tailcall vm =
      .ok () vm') :
    ∃ s compiler'',
      Compiler.signature n (Compiler.run n) name compiler = .ok s compiler'' ∧
      (s.types.length ≤ 254 → CallChecksGenerics vm vm' p c args stackbase s) := by
  obtain ⟨s, compiler'', hs, hcode, hparameters⟩ :=
    Compiler.createFunction_checks hcompile hfunc
  refine ⟨s, compiler'', hs, fun hsize => ⟨?_, ?_⟩⟩
  · intro hgen
    obtain ⟨haccepts, hroom⟩ := fits_of_StartCall hp hc hstart
    rw [StartCall_accepts hp hc haccepts hroom] at hstart
    unfold when at hstart
    rw [hgen, if_neg Bool.false_ne_true] at hstart
    cases hstart
    apply checksGenerics_of_atStart
      (started_atStart hp args stackbase target fun h => (htail h).1) hcode hsize
    intro i _ hi
    exact boundEnv_stack hc haccepts stackbase vm (Nat.lt_of_le_of_lt hi hparameters)
  · intro hgen
    obtain rfl : tailcall = false := by
      cases tailcall with
      | false => rfl
      | true => exact absurd hgen (by rw [(htail rfl).2]; exact Bool.false_ne_true)
    obtain ⟨g, hgenerators, hcallstack, hsaves⟩ := StartCall_saves hp hc hgen hcaller hstart
    refine ⟨hcallstack, g, hgenerators, ?_⟩
    intro q reg vm₁ vm₂ hq hp₁ hresume
    obtain ⟨hatStart, hvalue⟩ := resumed_atStart hsaves hp₁ hq hresume
    apply checksGenerics_of_atStart hatStart hcode hsize
    intro i hpos hi
    exact hvalue i hpos (Nat.lt_of_le_of_lt hi hparameters)

/-! ### Two calls -/

/-- The compiler at `<T>(a: T, b: T)` and the `body` of the function. -/
def pairOf (body : List Lexeme) : Compiler :=
  { atParameters ([{ token := .TK_IDENTIFIER, svalue := sc "T" }, { token := .chr '>' },
      { token := .chr '(' }, { token := .TK_IDENTIFIER, svalue := sc "a" }, { token := .chr ':' },
      { token := .TK_IDENTIFIER, svalue := sc "T" }, { token := .chr ',' },
      { token := .TK_IDENTIFIER, svalue := sc "b" }, { token := .chr ':' },
      { token := .TK_IDENTIFIER, svalue := sc "T" }, { token := .chr ')' }] ++ body) with
    token := .chr '<' }

def pairSignature : Signature where
  generics := [.string (sc "T")]
  types := [some (.string (sc "T")), some (.string (sc "T"))]

/-- `{ }`. -/
def emptyBody : List Lexeme := [{ token := .chr '{' }, { token := .chr '}' }, { token := .eob }]

/-- `{ yield }`. -/
def yieldBody : List Lexeme :=
  [{ token := .chr '{' }, { token := .TK_YIELD }, { token := .chr '}' }, { token := .eob }]

/-- What a call reads of a function. -/
def callingOf (f : FunctionProto) : Bool × Nat × Nat × GSInteger × GSInteger :=
  (f.bgenerator, f.parameters.length, f.defaultparams.length, f.varparams, f.stacksize)

/-- A closure of a function of three parameters, `this` included. -/
structure IsPair (c : Closure) (bgenerator : Bool) : Prop where
  calling : callingOf c.function = (bgenerator, 3, 0, 0, 3)
  defaultparams : c.defaultparams = []
  env : c.env = none

namespace IsPair

variable {bgenerator : Bool}

theorem nparameters (h : IsPair c bgenerator) : c.nparameters = 3 :=
  congrArg (·.2.1) h.calling

theorem ndefaultparams (h : IsPair c bgenerator) : c.ndefaultparams = 0 :=
  congrArg (·.2.2.1) h.calling

theorem not_variadic (h : IsPair c bgenerator) : ¬ c.variadic :=
  fun hne => hne (congrArg (·.2.2.2.1) h.calling)

theorem stacksize (h : IsPair c bgenerator) : c.function.stacksize.toInt.toNat = 3 :=
  congrArg (·.2.2.2.2.toInt.toNat) h.calling

theorem wellformed (h : IsPair c bgenerator) : c.Wellformed := by
  refine ⟨?_, ?_, fun hvar => absurd hvar h.not_variadic, ?_⟩
  · rw [h.defaultparams, h.ndefaultparams]
    rfl
  · rw [h.ndefaultparams, h.nparameters]
    decide
  · exact Nat.le_of_eq (h.nparameters.trans h.stacksize.symm)

theorem accepts (h : IsPair c bgenerator) : c.Accepts 3 := .inl h.nparameters.symm

/-- The arguments of a call that are on the stack from the slot 2 on. -/
theorem argument (h : IsPair c bgenerator) {Heap : Type} (vm : VM Heap) (arr : Object) {i : Nat}
    (hi : i < 3) : c.argument vm 3 2 arr i = vm.stack (2 + i) := by
  unfold Closure.argument Closure.argument.value
  rw [h.env]
  dsimp only
  rw [if_neg (fun hlast => h.not_variadic hlast.1), if_pos hi]

end IsPair

theorem compiles_pair (body : List Lexeme) (bgenerator : Bool)
    (h : result (do
      Compiler.createFunction 30 (Compiler.run 30) .null 0xFF false
      return (← Compiler.getFs).functions.back?.map callingOf) (pairOf body) =
        some (some (bgenerator, 3, 0, 0, 3))) :
    ∃ compiler' c, Compiler.createFunction 30 (Compiler.run 30) .null 0xFF false (pairOf body) =
      .ok () compiler' ∧ compiler'.fs.functions.back? = some c.function ∧ IsPair c bgenerator := by
  obtain ⟨compiler', func, hcompile, hfunc, hcalling⟩ := compiles_of_result callingOf 30 _ h
  exact ⟨compiler', { function := func, outervalues := [], defaultparams := [], env := none },
    hcompile, hfunc, hcalling, rfl, rfl⟩

/-- A frame with `this`, `a` and `b` above it. -/
def callerWith (c : Closure) (a b : Object) :
    VM (silentRuntime.withReferences fun _ _ => true).Heap :=
  { callerOf c with stack := fun m => if m = 3 then a else if m = 4 then b else .null }

theorem agree_pair_iff (value : Nat → Object) :
    pairSignature.Agree value ↔ (value 1).type = (value 2).type := by
  have hregs : registersOf pairSignature.types (.string (sc "T")) = [1, 2] := by decide
  unfold Signature.Agree
  rw [show pairSignature.generics = [.string (sc "T")] from rfl]
  constructor
  · intro h
    apply h _ List.mem_cons_self <;> rw [hregs] <;> decide
  · intro h generic hgeneric
    rw [List.mem_singleton.mp hgeneric, hregs]
    simp [h]

theorem StartCall_checksGenerics_pair : ∃ compiler' c vm',
    Compiler.createFunction 30 (Compiler.run 30) .null 0xFF false (pairOf emptyBody) =
      .ok () compiler' ∧
    compiler'.fs.functions.back? = some c.function ∧
    StartCall (silentRuntime.withReferences fun _ _ => true) 0 0 3 2 false
      (callerWith c (.integer 1) (.integer 2)) = .ok () vm' ∧
    ∃ s compiler'',
      Compiler.signature 30 (Compiler.run 30) .null (pairOf emptyBody) = .ok s compiler'' ∧
      (s.types.length ≤ 254 →
        CallChecksGenerics (callerWith c (.integer 1) (.integer 2)) vm' 0 c 3 2 s) := by
  obtain ⟨compiler', c, hcompile, hfunc, hc⟩ :=
    compiles_pair emptyBody false (by decide +kernel)
  have hgen : c.function.bgenerator = false := congrArg Prod.fst hc.calling
  have hp : (callerWith c (.integer 1) (.integer 2)).closures[0]? = some c := rfl
  have hroom : Room (callerWith c (.integer 1) (.integer 2))
      (2 + c.function.stacksize.toInt.toNat) := .inr rfl
  have hstart := StartCall_accepts hp hc.wellformed hc.accepts hroom 0 false
  unfold when at hstart
  rw [hgen, if_neg Bool.false_ne_true] at hstart
  exact ⟨compiler', c, _, hcompile, hfunc, hstart,
    StartCall_checksGenerics hcompile hfunc hp hc.wellformed (Nat.zero_le 2)
      (fun h => by cases h) hstart⟩

/-- No instruction runs in the frame of a native closure. -/
theorem not_rejects_of_native {vm : VM rt.Heap} {ci : CallInfo} {callstack : List CallInfo}
    (hstack : vm.callstack = ci :: callstack) (hclosure : ci.closure = none) (m : Nat) :
    ¬ Rejects rt m vm := by
  rintro ⟨j, -, -, hraise⟩
  have hat : (vm.atIp j).callstack = { ci with ip := j } :: callstack := by
    change vm.callstack.modifyHead _ = _
    rw [hstack]
    rfl
  have hfetch : fetch (vm.atIp j) = .error .undefined (vm.atIp j) := by
    unfold fetch currentClosure
    rw [bind_apply, bind_apply, getCi_apply hat]
    dsimp only
    rw [hclosure]
    rfl
  unfold instruction at hraise
  rw [bind_apply, hfetch] at hraise
  cases hraise

/-- A generator function takes arguments of different types. The call makes a generator, and
nothing is left of the frame that could raise. -/
theorem generator_takes_different : ∃ compiler' c s compiler'' vm',
    Compiler.createFunction 30 (Compiler.run 30) .null 0xFF false (pairOf yieldBody) =
      .ok () compiler' ∧
    compiler'.fs.functions.back? = some c.function ∧
    Compiler.signature 30 (Compiler.run 30) .null (pairOf yieldBody) = .ok s compiler'' ∧
    ¬ s.Agree (c.argument (callerWith c (.integer 1) (.string (sc "a"))) 3 2 (.array 0)) ∧
    StartCall (silentRuntime.withReferences fun _ _ => true) 0 0 3 2 false
      (callerWith c (.integer 1) (.string (sc "a"))) = .ok () vm' ∧
    vm'.callstack = (callerWith c (.integer 1) (.string (sc "a"))).callstack ∧
    ¬ Rejects (silentRuntime.withReferences fun _ _ => true) s.checks.length vm' := by
  obtain ⟨compiler', c, hcompile, hfunc, hc⟩ :=
    compiles_pair yieldBody true (by decide +kernel)
  have hread : result (Compiler.signature 30 (Compiler.run 30) .null) (pairOf yieldBody) =
      some pairSignature := by
    decide +kernel
  obtain ⟨compiler'', hs⟩ := result_eq_some.mp hread
  generalize hvm : callerWith c (.integer 1) (.string (sc "a")) = vm
  have hp : vm.closures[0]? = some c := by
    rw [← hvm]
    rfl
  have hroom : Room vm (2 + c.function.stacksize.toInt.toNat) := by
    rw [← hvm]
    exact .inr rfl
  have hgen : c.function.bgenerator = true := congrArg Prod.fst hc.calling
  have hdiffer : ¬ pairSignature.Agree (c.argument vm 3 2 (.array 0)) := by
    rw [agree_pair_iff, hc.argument vm _ (by decide), hc.argument vm _ (by decide), ← hvm]
    exact fun h => by cases h
  have hcaller : vm.stackbase ≤ 2 := by
    rw [← hvm]
    exact Nat.zero_le 2
  obtain ⟨ci, htarget, hroot, -, -, hstack, hbase⟩ := started_frame vm c 3 hcaller 0 0
  obtain ⟨vm', hrun, -, -, -, hcallstack⟩ := startGenerator_ok hstack hroot
    (by rw [hbase, htarget]; exact Int.natCast_nonneg _) 0 c.function.stacksize.toInt.toNat
  have hstart := StartCall_accepts hp hc.wellformed hc.accepts hroom 0 false
  unfold when at hstart
  rw [htarget] at hrun
  rw [if_pos hgen, hrun] at hstart
  refine ⟨compiler', c, pairSignature, compiler'', vm', hcompile, hfunc, hs, ?_, ?_, ?_, ?_⟩
  · rw [hvm]
    exact hdiffer
  · rw [hvm]
    exact hstart
  · rw [hvm]
    exact hcallstack
  · rw [← hvm] at hcallstack
    exact not_rejects_of_native hcallstack rfl _

end VM

end GameScript
