import Mathlib.Logic.Relation
import GameScript.Compiler.Lookup

/-!
The compilation of nested functions, blocks and declarations, as far as names and registers
go: a run of the steps of the compiler that push and pop targets, declare variables, open and
close blocks and functions and look names up. Beside the compiler a run keeps the variables
that the program declares.

A target that is popped gives the last register back, whichever its own is. As long as that
is its own, the names of the registers are the variables that can be seen.
-/

namespace GameScript

open Effect Scopes

namespace FuncState

/-! ### Registers and tables under the operations -/

/-- The end of a variable gives its register up. -/
theorem registers_popLocal (fs : FuncState) : fs.popLocal.registers = fs.registers.dropLast := by
  unfold popLocal
  cases hback : fs.vlocals.back? with
  | none =>
      have hempty : fs.vlocals = #[] := Array.back?_eq_none_iff.mp hback
      simp [registers, hempty]
  | some lvi =>
      dsimp only
      split <;> simp [registers, List.map_dropLast]

theorem outervalues_popLocal (fs : FuncState) : fs.popLocal.outervalues = fs.outervalues := by
  unfold popLocal
  split
  · rfl
  · split <;> rfl

/-- The end of `n` variables gives their registers up. -/
theorem registers_repeat (fs : FuncState) (n : Nat) :
    (Nat.repeat popLocal n fs).registers = fs.registers.take (fs.registers.length - n) := by
  induction n with
  | zero => exact (List.take_length).symm
  | succ n ih =>
      rw [Nat.repeat, registers_popLocal, ih, List.dropLast_eq_take, List.take_take,
        List.length_take]
      congr 1
      omega

/-- `SetStackSize` gives the registers from `n` on back. -/
theorem registers_setStackSize (fs : FuncState) (n : Nat) :
    (fs.setStackSize n).registers = fs.registers.take n := by
  rw [setStackSize, registers_repeat, length_registers]
  by_cases hn : n ≤ fs.vlocals.size
  · congr 1
    omega
  · rw [List.take_of_length_le, List.take_of_length_le]
    · rw [length_registers]
      omega
    · rw [length_registers]
      omega

theorem outervalues_setStackSize (fs : FuncState) (n : Nat) :
    (fs.setStackSize n).outervalues = fs.outervalues := by
  unfold setStackSize
  induction fs.vlocals.size - n with
  | zero => rfl
  | succ n ih => rw [Nat.repeat, outervalues_popLocal, ih]

@[simp] theorem registers_addInstruction (fs : FuncState) (i : Instruction) :
    (fs.addInstruction i).registers = fs.registers := by
  rw [registers, Compiler.addInstruction_vlocals]
  rfl

@[simp] theorem outervalues_addInstruction (fs : FuncState) (i : Instruction) :
    (fs.addInstruction i).outervalues = fs.outervalues := by
  unfold addInstruction
  repeat' split
  all_goals rfl

/-- A register is a variable's exactly where it has a name. -/
theorem isLocal_iff {fs : FuncState} {n : Nat} :
    fs.isLocal n = true ↔ ∃ x, fs.registers[n]? = some (some x) := by
  have hreg : fs.registers[n]? =
      fs.vlocals[n]?.map fun lvi => if lvi.name = .null then none else some lvi.name := by
    simp [registers]
  unfold isLocal
  rw [hreg]
  cases fs.vlocals[n]? with
  | none => simp
  | some lvi => by_cases hnull : lvi.name = .null <;> simp [hnull]

end FuncState

namespace Compiler

open FuncState

/-- The functions under compilation, innermost first. -/
def states (c : Compiler) : List FuncState := c.fs :: c.parents

/-- What the steps without a meaning for names and registers leave alone. -/
structure Unaffected (c c' : Compiler) : Prop where
  registers : c'.fs.registers = c.fs.registers
  targetstack : c'.fs.targetstack = c.fs.targetstack
  outervalues : c'.fs.outervalues = c.fs.outervalues
  parents : c'.parents = c.parents
  scope : c'.scope = c.scope

/-! ### What the operations do -/

variable {c c' : Compiler}

theorem registers_pushed (c : Compiler) : (pushed c).fs.registers = c.fs.registers ++ [none] := by
  simp [pushed, registers, VLocal.temporary]

/-- `PopTarget` gives the last register back if that of the target is a temporary. -/
theorem PopTarget_ok {n : Nat} (h : PopTarget c = .ok n c') :
    c.fs.targetstack.head? = some n ∧ n < c.fs.registers.length ∧
      c'.fs.registers =
        (if c.fs.isLocal n then c.fs.registers else c.fs.registers.dropLast) ∧
      c'.fs.outervalues = c.fs.outervalues ∧ c'.parents = c.parents ∧ c'.scope = c.scope := by
  unfold PopTarget at h
  obtain ⟨fs, c₁, hfs, h⟩ := bind_eq_ok.mp h
  cases hfs
  unfold popTarget at h
  cases hstack : c.fs.targetstack with
  | nil =>
      rw [hstack] at h
      cases h
  | cons npos rest =>
      rw [hstack] at h
      dsimp only at h
      cases hreg : c.fs.vlocals[npos]? with
      | none =>
          rw [hreg] at h
          cases h
      | some t =>
          rw [hreg] at h
          cases h
          obtain ⟨hlt, -⟩ := Array.getElem?_eq_some_iff.mp hreg
          refine ⟨rfl, ?_, ?_, rfl, rfl, rfl⟩
          · rwa [length_registers]
          · unfold isLocal
            rw [hreg]
            by_cases hnull : t.name = .null
            · simp [hnull, registers, List.map_dropLast]
            · simp [hnull, registers]

/-- `END_SCOPE` gives the registers of the block back. -/
theorem END_SCOPE_ok {oldscope : Scope} {closeframe : Bool}
    (h : END_SCOPE oldscope closeframe c = .ok () c') :
    c'.fs.registers = c.fs.registers.take c.scope.stacksize ∧
      c'.fs.outervalues = c.fs.outervalues ∧ c'.parents = c.parents ∧ c'.scope = oldscope := by
  unfold END_SCOPE at h
  obtain ⟨fs, c₁, hfs, h⟩ := bind_eq_ok.mp h
  cases hfs
  rw [get_bind_apply] at h
  obtain ⟨size, c₂, hsize, h⟩ := bind_eq_ok.mp h
  cases hsize
  dsimp only at h
  split at h
  · obtain ⟨_, c₃, hset, h⟩ := bind_eq_ok.mp h
    cases hset
    obtain ⟨fs, c₄, hfs, h⟩ := bind_eq_ok.mp h
    cases hfs
    dsimp only at h
    split at h
    · obtain ⟨_, c₅, hclose, h⟩ := bind_eq_ok.mp h
      cases hclose
      cases h
      refine ⟨?_, ?_, rfl, rfl⟩
      · exact (registers_addInstruction _ _).trans (registers_setStackSize _ _)
      · exact (outervalues_addInstruction _ _).trans (outervalues_setStackSize _ _)
    · cases h
      exact ⟨registers_setStackSize _ _, outervalues_setStackSize _ _, rfl, rfl⟩
  · rename_i heq
    cases h
    have hsame : c.fs.registers.length = c.scope.stacksize := by
      rw [length_registers]
      exact Decidable.not_not.mp heq
    refine ⟨?_, rfl, rfl, rfl⟩
    rw [← hsame, List.take_length]

theorem BEGIN_SCOPE_ok {oldscope : Scope} (h : BEGIN_SCOPE c = .ok oldscope c') :
    oldscope = c.scope ∧ c'.scope.stacksize = c.fs.getStackSize ∧ c'.fs = c.fs ∧
      c'.parents = c.parents := by
  cases h
  exact ⟨rfl, rfl, rfl, rfl⟩

theorem PushLocalVariable_ok {name : Object} {r : Nat} (h : PushLocalVariable name c = .ok r c') :
    r = c.fs.vlocals.size ∧ c' = { c with fs := (c.fs.pushLocalVariable name).2 } := by
  cases h
  exact ⟨rfl, rfl⟩

theorem enterFunction_ok {fs : FuncState} (h : enterFunction fs c = .ok () c') :
    c' = { c with fs := fs, parents := c.fs :: c.parents } := by
  cases h
  rfl

theorem registers_pushLocalVariable (fs : FuncState) {name : Object} (hname : name ≠ .null) :
    (fs.pushLocalVariable name).2.registers = fs.registers ++ [some name] := by
  simp [pushLocalVariable, registers, hname]

end Compiler

namespace Lexical

open FuncState Compiler

/-! ### Runs -/

/-- The compiler, the variables of the function that it compiles and of those around it, and the
scopes that were current before the open blocks. -/
structure Situation where
  compiler : Compiler
  function : Function Object
  around : List (Function Object) := []
  scopes : List Scope := []

namespace Situation

/-- The functions under compilation, innermost first. -/
def functions (s : Situation) : List (Function Object) := s.function :: s.around

/-- Their tables of outer variables. -/
def tables (s : Situation) : List (List OuterVar) := FuncState.tables s.compiler.states

/-- The start of a program. -/
def start (sourcename : Object) (lineinfo : Bool) (consts : List (Object × Constant))
    (input : List (Except String Lexeme)) : Situation where
  compiler := Compiler.start sourcename lineinfo consts input
  function := .ofParameters [.string (sc "this"), .string (sc "vargv")]

/-- The target on top is that of a variable, or its register is the last one and belongs to the
innermost block. -/
def TopInOrder (s : Situation) : Prop :=
  ∀ npos ∈ s.compiler.fs.targetstack.head?, s.compiler.fs.isLocal npos = false →
    npos + 1 = s.compiler.fs.getStackSize ∧ s.function.mark ≤ npos

end Situation

/-- The end of a function: its prototype, with a return type, goes to the function around. -/
def endFunction (rettype : GSInteger) (declared : Option Annotation) : CompilerM Unit := do
  modifyFs (·.setStackSize 0)
  let func := (← getFs).buildProto
  leaveFunction { func with rettype := some rettype } declared

/-- `foreach` pops the target of the container while its variables are still there. -/
def endForeach (oldscope : Scope) : CompilerM Unit := do
  let _ ← PopTarget
  END_SCOPE oldscope

/-- A step of a compilation. Targets are popped one by one in situations that meet `guard`. -/
inductive Step (guard : Situation → Prop) (s : Situation) : Situation → Prop where
  | other {c : Compiler} : Unaffected s.compiler c → Step guard s { s with compiler := c }
  | pushTarget {n : Nat} {c : Compiler} : PushTarget s.compiler = .ok n c →
      Step guard s { s with compiler := c }
  | pushTargetAt {n m : Nat} {c : Compiler} : PushTargetAt n s.compiler = .ok m c →
      Step guard s { s with compiler := c }
  | popTarget {n : Nat} {c : Compiler} : guard s → PopTarget s.compiler = .ok n c →
      Step guard s { s with compiler := c }
  | declare {id : List UInt8} {r : Nat} {c : Compiler} :
      PushLocalVariable (.string id) s.compiler = .ok r c →
      Step guard s { s with compiler := c, function := s.function.declare (.string id) r }
  | beginScope {oldscope : Scope} {c : Compiler} : BEGIN_SCOPE s.compiler = .ok oldscope c →
      Step guard s { s with
        compiler := c
        function := s.function.enter s.compiler.fs.getStackSize
        scopes := oldscope :: s.scopes }
  | endScope {oldscope : Scope} {rest : List Scope} {closeframe : Bool} {c : Compiler} :
      s.function.blocks ≠ [] → s.scopes = oldscope :: rest →
      END_SCOPE oldscope closeframe s.compiler = .ok () c →
      Step guard s { s with compiler := c, function := s.function.leave, scopes := rest }
  | endForeach {oldscope : Scope} {rest : List Scope} {c : Compiler} :
      s.function.blocks ≠ [] → s.function.decls ≠ [] → s.scopes = oldscope :: rest →
      endForeach oldscope s.compiler = .ok () c →
      Step guard s { s with compiler := c, function := s.function.leave, scopes := rest }
  | enterFunction {parameters : List Object} {fs : FuncState} {c : Compiler} :
      fs.registers = parameters.map some → fs.outervalues = #[] →
      enterFunction fs s.compiler = .ok () c →
      Step guard s { s with
        compiler := c
        function := .ofParameters parameters
        around := s.function :: s.around }
  | leaveFunction {rettype : GSInteger} {declared : Option Annotation} {f : Function Object}
      {fs : List (Function Object)} {c : Compiler} : s.function.blocks = [] → s.around = f :: fs →
      endFunction rettype declared s.compiler = .ok () c →
      Step guard s { s with compiler := c, function := f, around := fs }
  | resolve {id : List UInt8} {res : Resolution} {c : Compiler} :
      resolution (.string id) s.compiler = .ok res c → Step guard s { s with compiler := c }

abbrev Run (guard : Situation → Prop) : Situation → Situation → Prop :=
  Relation.ReflTransGen (Step guard)

/-! ### What every step keeps -/

/-- The registers are those of the variables that can be seen, the scopes begin where the blocks
do, and the outer variables lead to the innermost declarations. -/
structure Coherent (s : Situation) : Prop where
  registers : AllHave s.functions s.compiler.states
  marks : (s.compiler.scope :: s.scopes).map (·.stacksize) =
    s.functions.flatMap (fun f => f.blocks.map (·.mark)) ++ [0]
  outers : Sound s.functions s.tables

variable {guard : Situation → Prop} {s s' : Situation}

/-- The compiler starts with the main function and nothing declared in it. -/
theorem coherent_start (sourcename : Object) (lineinfo : Bool)
    (consts : List (Object × Constant)) (input : List (Except String Lexeme)) :
    Coherent (.start sourcename lineinfo consts input) where
  registers := .cons rfl .nil
  marks := rfl
  outers := by
    constructor
    · intro i o ho
      cases ho
    · trivial

theorem Coherent.head (h : Coherent s) : Describes s.function s.compiler.fs.registers :=
  (List.forall₂_cons.mp h.registers).1

/-- The function that is compiled changes its registers, and everything else stays. -/
theorem Coherent.update (h : Coherent s) {c : Compiler} {f : Function Object}
    {scopes : List Scope} (hf : Describes f c.fs.registers) (hparents : c.parents = s.compiler.parents)
    (houters : c.fs.outervalues = s.compiler.fs.outervalues)
    (hmarks : (c.scope :: scopes).map (·.stacksize) =
      (f :: s.around).flatMap (fun f => f.blocks.map (·.mark)) ++ [0]) :
    Coherent { s with compiler := c, function := f, scopes := scopes } := by
  have htables : Situation.tables { s with compiler := c, function := f, scopes := scopes } =
      s.tables := by
    simp only [Situation.tables, states, FuncState.tables, List.map_cons, houters, hparents]
  have hhave : AllHave (f :: s.around) (c.fs :: c.parents) := by
    rw [hparents]
    exact .cons hf (List.forall₂_cons.mp h.registers).2
  refine ⟨hhave, hmarks, ?_⟩
  rw [htables]
  exact h.outers

theorem Coherent.other (h : Coherent s) {c : Compiler} (hc : Unaffected s.compiler c) :
    Coherent { s with compiler := c } := by
  apply h.update _ hc.parents hc.outervalues
  · rw [hc.scope]
    exact h.marks
  · rw [hc.registers]
    exact h.head

theorem Coherent.pushTarget (h : Coherent s) {n : Nat} {c : Compiler}
    (hc : PushTarget s.compiler = .ok n c) : Coherent { s with compiler := c } := by
  obtain ⟨-, rfl⟩ := PushTarget_ok hc
  have hpush : Describes s.function (pushed s.compiler).fs.registers := by
    rw [registers_pushed]
    exact h.head.push
  exact h.update hpush rfl rfl h.marks

/-- The registers after a temporary in order is popped. -/
theorem describes_pop {c : Compiler} {f : Function Object} {n : Nat} (h : Describes f c.fs.registers)
    (hn : n < c.fs.registers.length)
    (horder : c.fs.isLocal n = false → n + 1 = c.fs.getStackSize ∧ f.mark ≤ n) :
    Describes f (if c.fs.isLocal n then c.fs.registers else c.fs.registers.dropLast) := by
  split
  · exact h
  · rename_i hlocal
    rw [Bool.not_eq_true] at hlocal
    obtain ⟨hlast, hmark⟩ := horder hlocal
    rw [getStackSize, ← length_registers] at hlast
    have hnil : c.fs.registers ≠ [] := List.ne_nil_of_length_pos (Nat.zero_lt_of_lt hn)
    have hnone : c.fs.registers.getLast hnil = none := by
      rw [List.getLast_eq_getElem]
      by_contra hsome
      obtain ⟨x, hx⟩ := Option.ne_none_iff_exists'.mp hsome
      have htrue : c.fs.isLocal n = true := by
        apply isLocal_iff.mpr
        refine ⟨x, ?_⟩
        rw [List.getElem?_eq_getElem hn, ← hx]
        congr 2
        omega
      rw [hlocal] at htrue
      cases htrue
    rw [← List.dropLast_append_getLast hnil, hnone] at h
    apply h.pop
    rw [List.length_dropLast]
    omega

/-- A target that is popped is no variable's register. -/
theorem Coherent.popTarget (h : Coherent s) (horder : s.TopInOrder) {n : Nat} {c : Compiler}
    (hc : PopTarget s.compiler = .ok n c) : Coherent { s with compiler := c } := by
  obtain ⟨htop, hn, hregisters, houters, hparents, hscope⟩ := PopTarget_ok hc
  apply h.update _ hparents houters
  · rw [hscope]
    exact h.marks
  · rw [hregisters]
    exact describes_pop h.head hn (horder n htop)

/-- A declared variable gets the next register. -/
theorem Coherent.declare (h : Coherent s) {id : List UInt8} {r : Nat} {c : Compiler}
    (hc : PushLocalVariable (.string id) s.compiler = .ok r c) :
    Coherent { s with compiler := c, function := s.function.declare (.string id) r } := by
  obtain ⟨rfl, rfl⟩ := PushLocalVariable_ok hc
  have hdeclare := h.head.declare (.string id)
  rw [length_registers, ← registers_pushLocalVariable _ (by simp)] at hdeclare
  exact h.update (c := { s.compiler with fs := (s.compiler.fs.pushLocalVariable _).2 }) hdeclare
    rfl rfl h.marks

/-- A block starts with no declaration of its own. -/
theorem Coherent.beginScope (h : Coherent s) {oldscope : Scope} {c : Compiler}
    (hc : BEGIN_SCOPE s.compiler = .ok oldscope c) :
    Coherent { s with
      compiler := c
      function := s.function.enter s.compiler.fs.getStackSize
      scopes := oldscope :: s.scopes } := by
  obtain ⟨rfl, hsize, hfs, hparents⟩ := BEGIN_SCOPE_ok hc
  have henter := h.head.enter
  rw [length_registers, ← hfs] at henter
  rw [← hfs]
  apply h.update henter hparents (congrArg (·.outervalues) hfs)
  have hmarks := h.marks
  simp only [Situation.functions, List.flatMap_cons, List.map_cons, Function.enter,
    List.cons_append] at hmarks ⊢
  rw [hmarks, hsize, hfs, getStackSize]

/-- The scope that is current begins where the innermost block does. -/
theorem Coherent.scope (h : Coherent s) (hblocks : s.function.blocks ≠ []) {oldscope : Scope}
    {rest : List Scope} (hscopes : s.scopes = oldscope :: rest) :
    s.compiler.scope.stacksize = s.function.mark ∧
      (oldscope :: rest).map (·.stacksize) =
        (s.function.leave :: s.around).flatMap (fun f => f.blocks.map (·.mark)) ++ [0] := by
  have hmarks := h.marks
  unfold Function.mark Function.leave
  unfold Situation.functions at hmarks
  cases hb : s.function.blocks with
  | nil => exact absurd hb hblocks
  | cons b bs =>
      rw [hscopes, List.flatMap_cons, hb] at hmarks
      exact List.cons.inj hmarks

/-- A block gives the registers of its declarations up. -/
theorem Coherent.endScope (h : Coherent s) (hblocks : s.function.blocks ≠ []) {oldscope : Scope}
    {rest : List Scope} (hscopes : s.scopes = oldscope :: rest) {closeframe : Bool}
    {c : Compiler} (hc : END_SCOPE oldscope closeframe s.compiler = .ok () c) :
    Coherent { s with compiler := c, function := s.function.leave, scopes := rest } := by
  obtain ⟨hregisters, houters, hparents, hscope⟩ := END_SCOPE_ok hc
  obtain ⟨hmark, hmarks⟩ := h.scope hblocks hscopes
  apply h.update _ hparents houters
  · rwa [hscope]
  · rw [hregisters, hmark]
    exact h.head.leave hblocks

/-- The end of a foreach gives up the registers of its hidden variables, too.
-/
theorem Coherent.endForeach (h : Coherent s) (hblocks : s.function.blocks ≠ [])
    (hdecls : s.function.decls ≠ []) {oldscope : Scope} {rest : List Scope}
    (hscopes : s.scopes = oldscope :: rest) {c : Compiler}
    (hc : Lexical.endForeach oldscope s.compiler = .ok () c) :
    Coherent { s with compiler := c, function := s.function.leave, scopes := rest } := by
  obtain ⟨n, c₁, hpop, hend⟩ := bind_eq_ok.mp hc
  obtain ⟨-, -, hregisters₁, houters₁, hparents₁, hscope₁⟩ := PopTarget_ok hpop
  obtain ⟨hregisters, houters, hparents, hscope⟩ := END_SCOPE_ok hend
  obtain ⟨hmark, hmarks⟩ := h.scope hblocks hscopes
  -- the register that is given back lies above the mark
  have hlt := h.head.mark_lt hdecls
  apply h.update _ (hparents.trans hparents₁) (houters.trans houters₁)
  · rwa [hscope]
  · have hleave := h.head.leave hblocks
    rw [hregisters, hscope₁, hmark, hregisters₁]
    split
    · exact hleave
    · rw [List.dropLast_eq_take, List.take_take, Nat.min_eq_left (by omega)]
      exact hleave

/-- A function starts with its parameters in the first registers. -/
theorem Coherent.enterFunction (h : Coherent s) {parameters : List Object} {fs : FuncState}
    {c : Compiler} (hregisters : fs.registers = parameters.map some)
    (houters : fs.outervalues = #[]) (hc : Compiler.enterFunction fs s.compiler = .ok () c) :
    Coherent { s with
      compiler := c
      function := .ofParameters parameters
      around := s.function :: s.around } := by
  obtain rfl := enterFunction_ok hc
  refine ⟨?_, h.marks, ?_, h.outers⟩
  · apply List.Forall₂.cons _ h.registers
    rw [Has, hregisters]
    exact describes_ofParameters parameters
  · intro i o ho
    dsimp only at ho
    rw [houters] at ho
    cases ho

/-- The finished function is added to its parent's, which goes on as it was.
-/
theorem endFunction_ok {rettype : GSInteger} {declared : Option Annotation} {c c' : Compiler}
    (h : endFunction rettype declared c = .ok () c') :
    ∃ func parent parents, c.parents = parent :: parents ∧
      func.outervalues = c.fs.outervalues.toList ∧
      c' = { c with
        fs := { parent with functions := parent.functions.push func }
        parents := parents
        annotations := (func, declared) :: c.annotations } := by
  unfold endFunction at h
  obtain ⟨_, c₁, hset, h⟩ := bind_eq_ok.mp h
  cases hset
  obtain ⟨fs, c₂, hfs, h⟩ := bind_eq_ok.mp h
  cases hfs
  unfold Compiler.leaveFunction at h
  rw [get_bind_apply] at h
  dsimp only at h
  cases hparents : c.parents with
  | nil =>
      rw [hparents] at h
      cases h
  | cons parent parents =>
      rw [hparents] at h
      cases h
      refine ⟨_, parent, parents, rfl, ?_, rfl⟩
      exact congrArg Array.toList (outervalues_setStackSize c.fs 0)

/-- Behind a function its parent's declarations are visible again. -/
theorem Coherent.leaveFunction (h : Coherent s) (hblocks : s.function.blocks = [])
    {f : Function Object} {fs : List (Function Object)} (haround : s.around = f :: fs)
    {rettype : GSInteger} {declared : Option Annotation} {c : Compiler}
    (hc : endFunction rettype declared s.compiler = .ok () c) :
    Coherent { s with compiler := c, function := f, around := fs } := by
  obtain ⟨func, parent, parents, hparents, -, rfl⟩ := endFunction_ok hc
  obtain ⟨hregisters, hmarks, houters⟩ := h
  unfold Situation.functions states at hregisters
  rw [haround, hparents] at hregisters
  unfold Situation.functions at hmarks
  rw [haround, List.flatMap_cons, hblocks] at hmarks
  unfold Situation.functions Situation.tables states at houters
  rw [haround, hparents] at houters
  obtain ⟨hparent, hrest⟩ := List.forall₂_cons.mp (List.forall₂_cons.mp hregisters).2
  exact ⟨.cons hparent hrest, hmarks, houters.2⟩

/-! ### Names -/

/-- The search for an outer variable ends at the declaration that is visible
around the function, and captures it on the way. -/
theorem GetOuterVariable_apply (c : Compiler) (id : Object) {f : Function Object}
    {fs : List (Function Object)} (hid : id ≠ .null) (h : AllHave (f :: fs) c.states)
    (hsound : Sound (f :: fs) (tables c.states)) :
    ∃ found c', GetOuterVariable id c = .ok found c' ∧ c'.scope = c.scope ∧
      c'.consts = c.consts ∧ AllHave (f :: fs) c'.states ∧ Sound (f :: fs) (tables c'.states) ∧
      TablesGrow (tables c.states) (tables c'.states) ∧
      Found fs (tables c'.states) id found := by
  obtain ⟨hhave, hsound', hgrow, hfound⟩ := getOuterVariable_spec hid h hsound
  unfold GetOuterVariable
  rw [get_bind_apply]
  rw [show c.fs :: c.parents = c.states from rfl]
  generalize getOuterVariable id c.states = out at hhave hsound' hgrow hfound ⊢
  obtain ⟨found, gs⟩ := out
  cases gs with
  | nil => cases hhave
  | cons g gs =>
      exact ⟨found, { c with fs := g, parents := gs }, rfl, rfl, rfl, hhave, hsound', hgrow, hfound⟩

/-- What a name is resolved to is its innermost declaration that can be seen; it is a constant or
a slot of `this` only where there is none. -/
def Stands (fs : List (Function Object)) (ts : List (List OuterVar)) (id : Object) :
    Resolution → Prop
  | .register r => lookup fs id = some (0, r)
  | .outer i => ∃ k r, lookup fs id = some (k + 1, r) ∧ Leads ts i (k + 1) r
  | .constant _ | .member => lookup fs id = none

/-- **A name is resolved to its innermost visible declaration.** -/
theorem Coherent.resolution (h : Coherent s) {id : Object} (hid : id ≠ .null) :
    ∃ res c, Compiler.resolution id s.compiler = .ok res c ∧
      Coherent { s with compiler := c } ∧
      TablesGrow s.tables (Situation.tables { s with compiler := c }) ∧
      Stands s.functions (Situation.tables { s with compiler := c }) id res := by
  have hlocal := getLocalVariable_find h.head hid
  unfold Compiler.resolution
  rw [getFs_bind_apply]
  unfold Stands Situation.functions
  cases hfind : s.compiler.fs.getLocalVariable id with
  | some pos =>
      refine ⟨.register pos, s.compiler, rfl, h, tablesGrow_refl _, ?_⟩
      dsimp only
      rw [lookup, ← hlocal, hfind]
  | none =>
      have hlookup : lookup (s.function :: s.around) id =
          (lookup s.around id).map fun found => (found.1 + 1, found.2) := by
        rw [lookup, ← hlocal, hfind]
      obtain ⟨found, c, houter, hscope, -, hhave, hsound, hgrow, hfound⟩ :=
        GetOuterVariable_apply s.compiler id hid h.registers h.outers
      have hcoherent : Coherent { s with compiler := c } := by
        refine ⟨hhave, ?_, hsound⟩
        dsimp only
        rw [hscope]
        exact h.marks
      dsimp only
      rw [bind_apply, houter]
      dsimp only
      cases found with
      | some i =>
          obtain ⟨k, r, hk, hl⟩ := hfound
          refine ⟨.outer i, c, rfl, hcoherent, hgrow, k, r, ?_, hl⟩
          rw [hlookup, hk]
          rfl
      | none =>
          have hnone : lookup (s.function :: s.around) id = none := by
            have hfound' : lookup s.around id = none := hfound
            rw [hlookup, hfound']
            rfl
          cases hconst : (c.consts.find? fun entry => entry.1 = id).map (·.2) with
          | some constant =>
              refine ⟨.constant constant, c, ?_, hcoherent, hgrow, hnone⟩
              dsimp only
              rw [IsConstant, bind_assoc, get_bind_apply, pure_bind, hconst]
              rfl
          | none =>
              refine ⟨.member, c, ?_, hcoherent, hgrow, hnone⟩
              dsimp only
              rw [IsConstant, bind_assoc, get_bind_apply, pure_bind, hconst]
              rfl

/-- A step of the compiler keeps declarations and registers together. -/
theorem Step.coherent (h : Step Situation.TopInOrder s s') (hs : Coherent s) : Coherent s' := by
  cases h with
  | other hc => exact hs.other hc
  | pushTarget hc => exact hs.pushTarget hc
  | pushTargetAt hc =>
      cases hc
      exact hs.update hs.head rfl rfl hs.marks
  | popTarget horder hc => exact hs.popTarget horder hc
  | declare hc => exact hs.declare hc
  | beginScope hc => exact hs.beginScope hc
  | endScope hblocks hscopes hc => exact hs.endScope hblocks hscopes hc
  | endForeach hblocks hdecls hscopes hc => exact hs.endForeach hblocks hdecls hscopes hc
  | enterFunction hregisters houters hc => exact hs.enterFunction hregisters houters hc
  | leaveFunction hblocks haround hc => exact hs.leaveFunction hblocks haround hc
  | @resolve id res c hc =>
      have hid : Object.string id ≠ .null := nofun
      obtain ⟨res', c', heq, hcoherent, -⟩ := hs.resolution hid
      cases hc.symm.trans heq
      exact hcoherent

theorem Run.coherent (h : Run Situation.TopInOrder s s') (hs : Coherent s) : Coherent s' := by
  induction h with
  | refl => exact hs
  | tail _ hstep ih => exact hstep.coherent ih

end Lexical

end GameScript
