import GameScript.Compiler.Emission

/-!
The start of a function. `CreateFunction` begins the code of a function with the checks of its
generic types, and nothing that is compiled later touches them: the optimiser does not merge
them with what follows, and the positions that are patched lie behind them. `Spares` says so
of a computation.

A procedure that patches the instruction before it needs one that is not a check. `late` says
that there is one.
-/

namespace GameScript

open Effect

/-- What a function under compilation keeps of its start: its code, the positions that are
still to be patched and its parameters. -/
structure Outline where
  instructions : Array Instruction
  unresolvedbreaks : List Int
  unresolvedcontinues : List Int
  parameters : Array Object

def FuncState.outline (fs : FuncState) : Outline where
  instructions := fs.instructions
  unresolvedbreaks := fs.unresolvedbreaks
  unresolvedcontinues := fs.unresolvedcontinues
  parameters := fs.parameters

/-- The checks at the start of a function, its parameters and the functions around it. -/
structure Prologue where
  code : List Instruction
  checks : ∀ i ∈ code, i.op = .MATCHTYPES
  parameters : Array Object
  around : List Outline

/-- `o` starts with the checks. When `late` holds more instructions follow. -/
structure Prologue.Starts (P : Prologue) (late : Bool) (o : Outline) : Prop where
  code : ∀ (j : Nat) i, P.code[j]? = some i → o.instructions[j]? = some i
  breaks : ∀ pos ∈ o.unresolvedbreaks, 0 ≤ pos → (P.code.length : Int) ≤ pos
  continues : ∀ pos ∈ o.unresolvedcontinues, 0 ≤ pos → (P.code.length : Int) ≤ pos
  parameters : o.parameters = P.parameters
  size : P.code.length ≤ o.instructions.size
  more : late = true → P.code.length < o.instructions.size

namespace FuncState

/-! ### The optimiser -/

/-- The optimiser keeps one of the two instructions at least. -/
theorem peephole_keeps (fs : FuncState) (pi i : Instruction) :
    (fs.peephole pi i).prev.isSome = true ∨ (fs.peephole pi i).next.isSome = true := by
  unfold peephole
  split <;> (try split) <;> (try split) <;> simp

/-- It leaves a check where it is. -/
theorem peephole_check (fs : FuncState) {pi : Instruction} (hpi : pi.op = .MATCHTYPES)
    (i : Instruction) :
    (fs.peephole pi i).prev = some pi ∧ (fs.peephole pi i).next.isSome = true := by
  unfold peephole
  rw [hpi]
  split <;> simp [Opcode.takesOver, appendArrayType] <;> split <;> simp

end FuncState

namespace Prologue.Starts

variable {P : Prologue} {late : Bool} {o : Outline}

/-- Instructions behind the checks may come and go. -/
theorem update (h : P.Starts late o) {instructions : Array Instruction} {late' : Bool}
    (hcode : ∀ (j : Nat) i, j < P.code.length → o.instructions[j]? = some i →
      instructions[j]? = some i)
    (hsize : P.code.length ≤ instructions.size)
    (hmore : late' = true → P.code.length < instructions.size) :
    P.Starts late' { o with instructions := instructions } where
  code j i hi := hcode j i (List.getElem?_eq_some_iff.mp hi).1 (h.code j i hi)
  breaks := h.breaks
  continues := h.continues
  parameters := h.parameters
  size := hsize
  more := hmore

theorem weaken (h : P.Starts true o) : P.Starts late o := { h with more := fun _ => h.more rfl }

/-- The last instruction is a check only when nothing follows the checks. -/
theorem last (h : P.Starts late o) {i : Instruction} (hi : o.instructions.back? = some i)
    (hop : i.op ≠ .MATCHTYPES) : P.code.length < o.instructions.size := by
  apply Nat.lt_of_le_of_ne h.size
  intro heq
  have hlast : o.instructions[o.instructions.size - 1]? = some i := by
    rwa [Array.back?_eq_getElem?] at hi
  have hlt : o.instructions.size - 1 < P.code.length := by
    have hbound := (Array.getElem?_eq_some_iff.mp hlast).1
    omega
  obtain ⟨check, hcheck⟩ : ∃ check, P.code[o.instructions.size - 1]? = some check :=
    ⟨_, List.getElem?_eq_getElem hlt⟩
  have hsame : check = i := Option.some.inj ((h.code _ _ hcheck).symm.trans hlast)
  exact hop (hsame ▸ P.checks _ (List.mem_of_getElem? hcheck))

theorem push (h : P.Starts late o) (i : Instruction) :
    P.Starts true { o with instructions := o.instructions.push i } := by
  have hsize := h.size
  apply h.update
  · intro j i' hj hi'
    rw [Array.getElem?_push, if_neg (by omega)]
    exact hi'
  · rw [Array.size_push]
    omega
  · intro _
    rw [Array.size_push]
    omega

/-- Something takes the place of the last instruction, which is no check. -/
theorem replace (h : P.Starts late o) (hmore : P.code.length < o.instructions.size)
    {tail : Array Instruction} (htail : tail ≠ #[]) :
    P.Starts true { o with instructions := o.instructions.pop ++ tail } := by
  have hpos : 0 < tail.size := by
    rcases tail with ⟨_ | ⟨i, l⟩⟩
    · exact absurd rfl htail
    · exact Nat.succ_pos _
  apply h.update
  · intro j i hj hi
    rw [Array.getElem?_append_left (by rw [Array.size_pop]; omega), Array.getElem?_pop,
      if_pos (by omega)]
    exact hi
  · rw [Array.size_append, Array.size_pop]
    omega
  · intro _
    rw [Array.size_append, Array.size_pop]
    omega

/-- A position behind the checks is patched. -/
theorem patch (h : P.Starts late o) {pos : Nat} (hpos : P.code.length ≤ pos)
    (f : Instruction → Instruction) :
    P.Starts late { o with instructions := o.instructions.modify pos f } := by
  apply h.update
  · intro j i hj hi
    rw [Array.getElem?_modify, if_neg (by omega)]
    exact hi
  · rw [Array.size_modify]
    exact h.size
  · intro hlate
    rw [Array.size_modify]
    exact h.more hlate

/-- The code is cut behind the checks. -/
theorem cut (h : P.Starts late o) {n : Nat} (hn : P.code.length ≤ n)
    (hlate : late = true → P.code.length < n) :
    P.Starts late { o with instructions := o.instructions.take n } := by
  have hsize := h.size
  have hcut : (o.instructions.take n).size = min n o.instructions.size := by simp
  apply h.update
  · intro j i hj hi
    rw [Array.take_eq_extract, Array.getElem?_extract, if_pos (by omega), Nat.zero_add]
    exact hi
  · omega
  · intro hmore
    have := h.more hmore
    have := hlate hmore
    omega

end Prologue.Starts

namespace FuncState

variable {P : Prologue} {late : Bool} {fs : FuncState}

theorem starts_addInstruction (h : P.Starts late fs.outline) (i : Instruction) :
    P.Starts true (fs.addInstruction i).outline := by
  unfold addInstruction
  split
  · rename_i pi hpi
    split
    · dsimp only
      by_cases hop : pi.op = .MATCHTYPES
      · obtain ⟨hprev, hnext⟩ := fs.peephole_check hop i
        obtain ⟨i', hi'⟩ := Option.isSome_iff_exists.mp hnext
        have hsame : fs.instructions.pop ++ (fs.peephole pi i).prev.toArray ++
            (fs.peephole pi i).next.toArray = fs.instructions.push i' := by
          obtain ⟨init, hinit⟩ := Array.back?_eq_some_iff.mp hpi
          rw [hprev, hi', hinit]
          simp
        unfold outline
        dsimp only
        rw [hsame]
        exact h.push i'
      · have htail : (fs.peephole pi i).prev.toArray ++ (fs.peephole pi i).next.toArray ≠ #[] := by
          rcases fs.peephole_keeps pi i with hprev | hnext
          · obtain ⟨i', hi'⟩ := Option.isSome_iff_exists.mp hprev
            rw [hi']
            simp
          · obtain ⟨i', hi'⟩ := Option.isSome_iff_exists.mp hnext
            rw [hi']
            simp
        unfold outline
        dsimp only
        rw [Array.append_assoc]
        exact h.replace (h.last hpi hop) htail
    · exact h.push i
  · exact h.push i

/-- Discarding a result changes the last instruction, which is no check then. -/
theorem starts_discardResult (h : P.Starts late fs.outline) (n : Nat) :
    P.Starts late (fs.discardResult n).outline := by
  unfold discardResult
  split
  · rename_i pi hpi
    split
    all_goals first | exact h | skip
    all_goals
      rename_i hop
      have hmore := h.last hpi (by rw [hop]; decide)
      split
      · have htail : #[{ pi with arg0 := 0xFF }] ≠ #[] := by simp
        exact (h.replace hmore htail).weaken
      · exact h
  · exact h

end FuncState

namespace Compiler

/-- The function that is compiled starts as `P` says, and so do those around it. -/
structure Past (P : Prologue) (late : Bool) (c : Compiler) : Prop where
  starts : P.Starts late c.fs.outline
  around : c.parents.map (·.outline) = P.around

variable {α β : Type}

/-- `m` keeps the start of the functions, and its results meet `q`. -/
def SparesTo (P : Prologue) (late : Bool) (q : α → Prop) (m : CompilerM α) : Prop :=
  Triple (Past P late) m (fun a c => Past P late c ∧ q a) fun _ => True

class Spares (late : Bool) (m : CompilerM α) : Prop where
  sparesTo : ∀ P, SparesTo P late (fun _ => True) m

variable {P : Prologue} {late : Bool} {q : α → Prop} {m : CompilerM α}

theorem SparesTo.mono {q' : α → Prop} (h : SparesTo P late q m) (hq : ∀ a, q a → q' a) :
    SparesTo P late q' m :=
  Triple.mono h (fun _ hs => hs) (fun a _ hs => ⟨hs.1, hq a hs.2⟩) fun _ hs => hs

theorem SparesTo.bind {q' : β → Prop} {f : α → CompilerM β} (hm : SparesTo P late q m)
    (hf : ∀ a, q a → SparesTo P late q' (f a)) : SparesTo P late q' (m >>= f) :=
  Triple.bind hm fun a s hs => hf a hs.2 s hs.1

/-- A computation whose results do not matter comes first. -/
theorem Spares.bindTo {q : β → Prop} {f : α → CompilerM β} (hm : Spares late m)
    (hf : ∀ a, SparesTo P late q (f a)) : SparesTo P late q (m >>= f) :=
  (hm.sparesTo P).bind fun a _ => hf a

theorem sparesTo_pure {a : α} (h : q a) : SparesTo P late q (pure a : CompilerM α) :=
  triple_pure fun _ hs => ⟨hs, h⟩

theorem Spares.bind {f : α → CompilerM β} (hm : Spares late m) (hf : ∀ a, Spares late (f a)) :
    Spares late (m >>= f) :=
  ⟨fun P => hm.bindTo fun a => (hf a).sparesTo P⟩

instance spares_pure (a : α) : Spares late (pure a : CompilerM α) :=
  ⟨fun _ => sparesTo_pure trivial⟩

instance spares_bind {f : α → CompilerM β} [hm : Spares late m] [hf : ∀ a, Spares late (f a)] :
    Spares late (m >>= f) := hm.bind hf

theorem sparesTo_ite {q : α → Prop} {p : Prop} [Decidable p] {m m' : CompilerM α}
    (h : SparesTo P late q m) (h' : SparesTo P late q m') :
    SparesTo P late q (if p then m else m') := by
  split
  · exact h
  · exact h'

instance spares_ite {p : Prop} [Decidable p] {m' : CompilerM α} [h : Spares late m]
    [h' : Spares late m'] : Spares late (if p then m else m') := by
  split
  · exact h
  · exact h'

instance spares_throw (e : CompileError) : Spares late (throw e : CompilerM α) :=
  ⟨fun _ => triple_throw fun _ _ => trivial⟩

instance spares_error (msg : String) : Spares late (error msg : CompilerM α) := spares_throw _

instance spares_undefined : Spares late (undefined : CompilerM α) := spares_throw _

instance spares_forM {l : List α} {f : α → CompilerM PUnit} [h : ∀ a, Spares late (f a)] :
    Spares late (l.forM f) := by
  induction l with
  | nil => exact spares_pure _
  | cons a l ih => exact spares_bind

/-- A loop whose rounds keep a property of the value that it carries. -/
theorem sparesTo_loop {keep : α → Prop} {q : β → Prop} {body : α → CompilerM (α ⊕ β)}
    (h : ∀ a, keep a → SparesTo P late (Sum.elim keep q) (body a)) (n : Nat) {a : α}
    (ha : keep a) : SparesTo P late q (loop n body a) := by
  induction n generalizing a with
  | zero => exact triple_throw fun _ _ => trivial
  | succ n ih =>
    apply (h a ha).bind
    intro r hr
    cases r with
    | inl a => exact ih hr
    | inr b => exact sparesTo_pure hr

instance spares_loop (n : Nat) {body : α → CompilerM (α ⊕ β)} [h : ∀ a, Spares late (body a)]
    (a : α) : Spares late (loop n body a) := by
  constructor
  intro P
  have hround (a : α) : SparesTo P late (Sum.elim (fun _ => True) fun _ => True) (body a) :=
    ((h a).sparesTo P).mono fun r _ => by cases r <;> trivial
  exact sparesTo_loop (fun a _ => hround a) n trivial

instance spares_whileLoop (n : Nat) {cond : CompilerM Bool} {body : CompilerM Unit}
    [Spares late cond] [Spares late body] : Spares late (whileLoop n cond body) := by
  induction n with
  | zero => exact spares_throw _
  | succ n ih =>
    unfold whileLoop
    infer_instance

/-! ### The state -/

theorem spares_modify {f : Compiler → Compiler} (hfs : ∀ c, (f c).fs.outline = c.fs.outline)
    (hparents : ∀ c, (f c).parents = c.parents) : Spares late (modify f : CompilerM Unit) := by
  constructor
  intro P
  apply triple_modify
  intro c hc
  refine ⟨⟨?_, ?_⟩, trivial⟩
  · rw [hfs]
    exact hc.starts
  · rw [hparents]
    exact hc.around

theorem spares_modifyFs {f : FuncState → FuncState} (h : ∀ fs, (f fs).outline = fs.outline) :
    Spares late (modifyFs f) := spares_modify (fun c => h c.fs) fun _ => rfl

/-- An update of other fields. -/
instance spares_updateFs {parent varparams bgenerator optimization : FuncState → Bool}
    {name sourcename : FuncState → Object} {returnexp outers : FuncState → Int}
    {vlocals : FuncState → Array VLocal} {targetstack breaktargets continuetargets :
      FuncState → List Nat} {stacksize traps : FuncState → Nat}
    {functions : FuncState → Array FunctionProto} {literals : FuncState → Array Object}
    {outervalues : FuncState → Array OuterVar}
    {localvarinfos : FuncState → Array LocalVarInfo} {lineinfos : FuncState → Array LineInfo}
    {defaultparams : FuncState → Array Nat} {lastline : FuncState → GSInteger} :
    Spares late (modifyFs fun fs => {
      parent := parent fs, name := name fs, sourcename := sourcename fs
      returnexp := returnexp fs, vlocals := vlocals fs, targetstack := targetstack fs
      stacksize := stacksize fs, varparams := varparams fs, bgenerator := bgenerator fs
      unresolvedbreaks := fs.unresolvedbreaks, unresolvedcontinues := fs.unresolvedcontinues
      functions := functions fs, parameters := fs.parameters, outervalues := outervalues fs
      instructions := fs.instructions, localvarinfos := localvarinfos fs
      literals := literals fs, lineinfos := lineinfos fs, breaktargets := breaktargets fs
      continuetargets := continuetargets fs, defaultparams := defaultparams fs
      lastline := lastline fs, traps := traps fs, outers := outers fs
      optimization := optimization fs }) :=
  spares_modifyFs fun _ => rfl

instance spares_update {token : Compiler → Token} {sourcename : Compiler → Object}
    {lex : Compiler → Lexer} {lineinfo : Compiler → Bool} {es : Compiler → ExpState}
    {scope : Compiler → Scope} {consts : Compiler → List (Object × Constant)}
    {annotations : Compiler → List (FunctionProto × Option Annotation)}
    {loaded : Compiler → List FloatConstant} :
    Spares late (modify fun c => {
      token := token c, fs := c.fs, parents := c.parents, sourcename := sourcename c
      lex := lex c, lineinfo := lineinfo c, es := es c, scope := scope c
      consts := consts c
      annotations := annotations c
      loaded := loaded c } : CompilerM Unit) :=
  spares_modify (fun _ => rfl) fun _ => rfl

/-- What only looks at the state. -/
theorem spares_reads {q : Compiler → α} : Spares late (do return q (← get) : CompilerM α) :=
  ⟨fun _ _ hc => ⟨hc, trivial⟩⟩

instance spares_get : Spares late (get : CompilerM Compiler) := ⟨fun _ _ hc => ⟨hc, trivial⟩⟩

instance spares_getFs : Spares late getFs := spares_reads

instance spares_getToken : Spares late getToken := spares_reads

instance spares_getEtype : Spares late getEtype := spares_reads

instance spares_prevtokenIs (c : Char) : Spares late (prevtokenIs c) := spares_reads

instance spares_IsConstant (name : Object) : Spares late (IsConstant name) := spares_reads

theorem Past.set {c : Compiler} (h : Past P late c) {fs : FuncState}
    (hfs : fs.outline = c.fs.outline) : Past P late { c with fs := fs } :=
  ⟨hfs ▸ h.starts, h.around⟩

/-- How a computation ends that keeps the start of the functions. -/
def EndsPast (P : Prologue) (late : Bool) : EStateM.Result CompileError Compiler α → Prop
  | .ok _ c => Past P late c
  | .error _ _ => True

theorem spares_of_ends (h : ∀ P c, Past P late c → EndsPast P late (m c)) : Spares late m := by
  constructor
  intro P c hc
  have hends := h P c hc
  cases hm : m c with
  | ok a c' =>
    rw [hm] at hends
    exact ⟨hends, trivial⟩
  | error e c' => trivial

theorem SparesTo.ends (h : SparesTo P late q m) {c : Compiler} (hc : Past P late c) :
    EndsPast P late (m c) := by
  have hends := h c hc
  cases hm : m c with
  | ok a c' =>
    rw [hm] at hends
    exact hends.1
  | error e c' => trivial

/-- The new state of the function is known. -/
theorem ends_setFs_bind {c : Compiler} (hc : Past P late c) {fs : FuncState} {f : CompilerM β}
    (hf : Spares late f) (h : fs.outline = c.fs.outline) :
    EndsPast P late ((do modifyFs fun _ => fs; f) c) := (hf.sparesTo P).ends (hc.set h)

/-! ### Operations -/

instance spares_GetCurrentPos : Spares late GetCurrentPos := by
  unfold GetCurrentPos
  infer_instance

instance spares_GetStackSize : Spares late GetStackSize := by
  unfold GetStackSize
  infer_instance

instance spares_IsLocal (stkpos : Nat) : Spares late (IsLocal stkpos) := by
  unfold IsLocal
  infer_instance

instance spares_IsEndOfStatement : Spares late IsEndOfStatement := by
  unfold IsEndOfStatement
  infer_instance

instance spares_Lex : Spares late Lex := by
  unfold Lex
  apply Spares.bind inferInstance
  intro c
  split
  · infer_instance
  · exact spares_modify (fun _ => rfl) fun _ => rfl

instance spares_Expect (tok : Token) : Spares late (Expect tok) := by
  unfold Expect
  infer_instance

instance spares_OptionalSemicolon : Spares late OptionalSemicolon := by
  unfold OptionalSemicolon
  infer_instance

instance spares_endStatement : Spares late endStatement := by
  unfold endStatement
  infer_instance

/-- Behind a new instruction there is one that is no check. -/
theorem triple_addInstruction (i : Instruction) :
    Triple (Past P late) (modifyFs (·.addInstruction i)) (fun _ c => Past P true c)
      fun _ => True :=
  triple_modify fun _ hc => ⟨FuncState.starts_addInstruction hc.starts i, hc.around⟩

theorem Past.weaken {c : Compiler} (h : Past P true c) : Past P late c :=
  ⟨h.starts.weaken, h.around⟩

theorem sparesTo_add_bind {i : Instruction} {f : PUnit → CompilerM β} {q : β → Prop}
    (hf : ∀ a, SparesTo P true q (f a)) :
    SparesTo P late q (modifyFs (·.addInstruction i) >>= f) :=
  Triple.bind (triple_addInstruction i) fun a =>
    Triple.mono (hf a) (fun _ hc => hc) (fun _ _ hc => ⟨hc.1.weaken, hc.2⟩) fun _ hc => hc

instance spares_addInstruction (i : Instruction) : Spares late (modifyFs (·.addInstruction i)) :=
  ⟨fun _ => Triple.mono (triple_addInstruction i) (fun _ hc => hc)
    (fun _ _ hc => ⟨hc.weaken, trivial⟩) fun _ hc => hc⟩

instance spares_AddInstruction (op : Opcode) (arg0 arg1 arg2 arg3 : Int) :
    Spares late (AddInstruction op arg0 arg1 arg2 arg3) := spares_addInstruction _

/-- After an instruction those may follow that need one. -/
instance (priority := high) spares_AddInstruction_bind (op : Opcode) (arg0 arg1 arg2 arg3 : Int)
    {f : PUnit → CompilerM β} [hf : ∀ a, Spares true (f a)] :
    Spares late (AddInstruction op arg0 arg1 arg2 arg3 >>= f) :=
  ⟨fun P => sparesTo_add_bind fun a => (hf a).sparesTo P⟩

instance spares_SnoozeOpt : Spares late SnoozeOpt := spares_modifyFs fun _ => rfl

/-- The current position is the end of the checks or behind them. -/
theorem sparesTo_pos : SparesTo P late
    (fun pos => (P.code.length : Int) ≤ pos + 1 ∧ (late = true → (P.code.length : Int) ≤ pos))
    GetCurrentPos := by
  intro c hc
  have hsize : P.code.length ≤ c.fs.instructions.size := hc.starts.size
  refine ⟨hc, ?_, fun hlate => ?_⟩
  · unfold FuncState.getCurrentPos
    omega
  · have hmore : P.code.length < c.fs.instructions.size := hc.starts.more hlate
    unfold FuncState.getCurrentPos
    omega

/-- The position of an instruction that is no check. -/
theorem sparesTo_GetCurrentPos : SparesTo P true (fun pos => (P.code.length : Int) ≤ pos)
    GetCurrentPos := sparesTo_pos.mono fun _ h => h.2 rfl

/-- A position behind the checks is patched. -/
theorem sparesTo_patch {pos : Int} (hpos : 0 ≤ pos → (P.code.length : Int) ≤ pos)
    (g : Instruction → Instruction) : SparesTo P late (fun _ => True) (do
      if 0 ≤ pos ∧ pos < (← getFs).instructions.size then
        modifyFs fun fs => { fs with instructions := fs.instructions.modify pos.toNat g }
      else undefined) := by
  apply spares_getFs.bindTo
  intro fs
  split
  · rename_i hvalid
    have hbehind := hpos hvalid.1
    apply triple_modify
    intro c hc
    exact ⟨⟨hc.starts.patch (by omega) g, hc.around⟩, trivial⟩
  · exact triple_throw fun _ _ => trivial

theorem sparesTo_SetInstructionParam {pos : Int} (hpos : (P.code.length : Int) ≤ pos) (arg : Nat)
    (val : Int) : SparesTo P late (fun _ => True) (SetInstructionParam pos arg val) :=
  sparesTo_patch (fun _ => hpos) _

theorem sparesTo_SetInstructionParams {pos : Int}
    (hpos : 0 ≤ pos → (P.code.length : Int) ≤ pos) (arg0 arg1 arg2 arg3 : Int) :
    SparesTo P late (fun _ => True) (SetInstructionParams pos arg0 arg1 arg2 arg3) :=
  sparesTo_patch hpos _

instance spares_AllocStackPos : Spares late AllocStackPos := by
  apply spares_of_ends
  intro P c hc
  unfold AllocStackPos
  rw [getFs_bind_apply]
  split
  · trivial
  · exact ends_setFs_bind hc (spares_pure _) rfl

instance spares_PushTargetAt (n : Nat) : Spares late (PushTargetAt n) := by
  unfold PushTargetAt
  infer_instance

instance spares_PushTarget : Spares late PushTarget := by
  unfold PushTarget
  infer_instance

instance spares_TopTarget : Spares late TopTarget := by
  unfold TopTarget
  apply spares_getFs.bind
  intro fs
  split <;> infer_instance

theorem popTarget_outline {fs fs' : FuncState} {n : Nat} (h : fs.popTarget = some (n, fs')) :
    fs'.outline = fs.outline := by
  unfold FuncState.popTarget at h
  split at h
  · cases h
  · split at h
    · cases h
    · cases h
      rfl

instance spares_PopTarget : Spares late PopTarget := by
  apply spares_of_ends
  intro P c hc
  unfold PopTarget
  rw [getFs_bind_apply]
  cases hpop : c.fs.popTarget with
  | none => trivial
  | some r => exact ends_setFs_bind hc (spares_pure _) (popTarget_outline hpop)

instance spares_PopTargets (n : Nat) : Spares late (PopTargets n) := by
  induction n with
  | zero => exact spares_pure ()
  | succ n ih =>
    unfold PopTargets
    infer_instance

instance spares_DiscardTarget : Spares late DiscardTarget := by
  have hdiscard (n : Nat) : Spares late (modifyFs (·.discardResult n)) :=
    ⟨fun P => triple_modify fun _ hc =>
      ⟨⟨FuncState.starts_discardResult hc.starts n, hc.around⟩, trivial⟩⟩
  unfold DiscardTarget
  infer_instance

instance spares_GetConstant (cons : Object) : Spares late (GetConstant cons) := by
  have houtline (fs : FuncState) : (fs.getConstant cons).2.outline = fs.outline := by
    unfold FuncState.getConstant
    split <;> rfl
  apply spares_of_ends
  intro P c hc
  unfold GetConstant
  rw [getFs_bind_apply]
  exact ends_setFs_bind hc inferInstance (houtline c.fs)

instance spares_PushLocalVariable (name : Object) : Spares late (PushLocalVariable name) := by
  apply spares_of_ends
  intro P c hc
  unfold PushLocalVariable
  rw [getFs_bind_apply]
  exact ends_setFs_bind hc (spares_pure _) rfl

instance spares_GetOuterVariable (name : Object) : Spares late (GetOuterVariable name) := by
  apply spares_of_ends
  intro P c hc
  have hsame := FuncState.getOuterVariable_map (·.outline) (fun _ _ _ _ => rfl) (fun _ _ => rfl)
    name (c.fs :: c.parents)
  unfold GetOuterVariable
  rw [get_bind_apply]
  cases hout : FuncState.getOuterVariable name (c.fs :: c.parents) with
  | mk pos fns =>
    rw [hout] at hsame
    cases fns with
    | nil => trivial
    | cons fs parents =>
      obtain ⟨hfs, hparents⟩ := List.cons.inj hsame
      have houtline : fs.outline = c.fs.outline := hfs
      refine ⟨?_, hparents.trans hc.around⟩
      change P.Starts late fs.outline
      rw [houtline]
      exact hc.starts

instance spares_newConstant (name : Object) (constant : Constant) :
    Spares late (newConstant name constant) := spares_modify (fun _ => rfl) fun _ => rfl

instance spares_AddLineInfos (line : GSInteger) (force : Bool) :
    Spares late (AddLineInfos line force) := by
  unfold AddLineInfos
  apply spares_get.bind
  intro c
  constructor
  intro P
  apply triple_modify
  intro c' hc
  refine ⟨⟨?_, hc.around⟩, trivial⟩
  change P.Starts late (FuncState.addLineInfos c'.fs line c.lineinfo force).outline
  unfold FuncState.addLineInfos
  split
  · dsimp only
    split
    · exact (FuncState.starts_addInstruction hc.starts _).weaken
    · exact hc.starts
  · exact hc.starts

instance spares_setStackSize (n : Nat) : Spares late (modifyFs (·.setStackSize n)) := by
  apply spares_modifyFs
  intro fs
  unfold FuncState.setStackSize
  generalize fs.vlocals.size - n = k
  induction k with
  | zero => rfl
  | succ k ih =>
    have hpop (fs : FuncState) : fs.popLocal.outline = fs.outline := by
      unfold FuncState.popLocal
      split
      · rfl
      · split <;> rfl
    exact (hpop _).trans ih

instance spares_setEtype (etype : ExpType) : Spares late (setEtype etype) :=
  spares_modify (fun _ => rfl) fun _ => rfl

instance spares_setEpos (epos : Int) : Spares late (setEpos epos) :=
  spares_modify (fun _ => rfl) fun _ => rfl

instance spares_MoveIfCurrentTargetIsLocal : Spares late MoveIfCurrentTargetIsLocal := by
  unfold MoveIfCurrentTargetIsLocal
  infer_instance

instance spares_EmitDerefOp (op : Opcode) : Spares late (EmitDerefOp op) := by
  unfold EmitDerefOp
  infer_instance

instance spares_Emit2ArgsOP (op : Opcode) (p3 : Int) : Spares late (Emit2ArgsOP op p3) := by
  unfold Emit2ArgsOP
  infer_instance

instance spares_targetOr (target : Option Nat) : Spares late (targetOr target) := by
  unfold targetOr
  split <;> infer_instance

instance spares_EmitLoadConstInt (value : GSInteger) (target : Option Nat) :
    Spares late (EmitLoadConstInt value target) := by
  unfold EmitLoadConstInt
  infer_instance

instance spares_recordFloat (negated : Bool) (value : GSFloat) :
    Spares late (recordFloat negated value) := by
  unfold recordFloat
  infer_instance

instance spares_EmitLoadConstFloat (value : GSFloat) (target : Option Nat) :
    Spares late (EmitLoadConstFloat value target) := by
  unfold EmitLoadConstFloat
  infer_instance

instance spares_EmitCompoundArith (tok : Token) (etype : ExpType) (pos : Int) :
    Spares late (EmitCompoundArith tok etype pos) := by
  unfold EmitCompoundArith
  split <;> infer_instance

instance spares_checkLocalType (dst : Nat) : Spares late (checkLocalType dst) := by
  unfold checkLocalType
  apply spares_getFs.bind
  intro fs
  split <;> infer_instance

instance spares_assign (ds : ExpType) (pos : Int) : Spares late (assign ds pos) := by
  unfold assign
  split <;> infer_instance

instance spares_moveTo (trg src : Nat) : Spares late (moveTo trg src) := by
  unfold moveTo
  infer_instance

instance spares_emitBinary (op : Opcode) (op3 : Int) : Spares late (emitBinary op op3) := by
  unfold emitBinary
  infer_instance

instance spares_NeedGet : Spares late NeedGet := by
  unfold NeedGet
  apply spares_get.bind
  intro c
  split <;> infer_instance

instance spares_derefKey : Spares late derefKey := by
  unfold derefKey
  infer_instance

instance spares_prepareCall : Spares late prepareCall := by
  unfold prepareCall
  apply spares_get.bind
  intro c
  dsimp only
  split <;> infer_instance

instance spares_emitClosure (boundtarget : Int) : Spares late (emitClosure boundtarget) := by
  unfold emitClosure
  infer_instance

/-! ### Expressions -/

set_option synthInstance.maxSize 100000
set_option synthInstance.maxHeartbeats 400000

/-- The procedure patches the instruction before it. -/
@[reducible] def patchesLast : Proc → Bool
  | .ParseTableOrClass _ _ => true
  | _ => false

/-- A procedure may be called, if `late` says so. -/
class Callable (late patches : Bool) : Prop where
  callable : patches = true → late = true

instance callable_false : Callable late false := ⟨nofun⟩

instance callable_true {patches : Bool} : Callable true patches := ⟨fun _ => rfl⟩

/-- The calls of procedures keep the start of the functions. -/
class CallsSpare (call : Proc → CompilerM Unit) : Prop where
  spares : ∀ late p, Callable late (patchesLast p) → Spares late (call p)

theorem Spares.withFreshEs {m : CompilerM Unit} (h : Spares late m) :
    Spares late (withFreshEs m) := by
  unfold Compiler.withFreshEs
  infer_instance

instance spares_withFreshEs {m : CompilerM Unit} [h : Spares late m] :
    Spares late (withFreshEs m) := h.withFreshEs

theorem Spares.withDonotGet {m : CompilerM Unit} (h : Spares late m) :
    Spares late (withDonotGet m) := by
  unfold Compiler.withDonotGet
  infer_instance

instance spares_genericArguments (n : Nat) : Spares late (genericArguments n) := by
  unfold genericArguments
  infer_instance

instance spares_postfixIncDec (diff : Int) : Spares late (postfixIncDec diff) := by
  unfold postfixIncDec
  apply spares_Lex.bind
  intro _
  apply Spares.bind inferInstance
  intro c
  dsimp only
  split <;> infer_instance

instance spares_emitConstant (id : Object) (constant : Constant) :
    Spares late (emitConstant id constant) := by
  unfold emitConstant
  repeat' first | infer_instance | apply Spares.bind | intro _ | split

instance spares_identifier (n : Nat) : Spares late (identifier n) := by
  unfold identifier
  repeat' first | infer_instance | apply Spares.bind | intro _ | split

section

variable (n : Nat) (call : Proc → CompilerM Unit) [hcall : CallsSpare call]

include hcall

instance spares_call (p : Proc) [h : Callable late (patchesLast p)] : Spares late (call p) :=
  hcall.spares late p h

instance spares_commaExpr : Spares late (commaExpr n call) := by
  unfold commaExpr
  infer_instance

instance spares_assignment (op : Token) : Spares late (assignment call op) := by
  unfold assignment
  repeat' first | infer_instance | apply Spares.bind | intro _ | split

/-- The two jumps are patched behind the checks. -/
instance spares_conditional : Spares late (conditional call) := by
  constructor
  intro P
  unfold conditional
  iterate 2 refine Spares.bindTo inferInstance fun _ => ?_
  apply sparesTo_add_bind
  intro _
  apply sparesTo_GetCurrentPos.bind
  intro jzpos hjzpos
  iterate 5 refine Spares.bindTo inferInstance fun _ => ?_
  apply sparesTo_add_bind
  intro _
  apply (spares_Expect _).bindTo
  intro _
  apply sparesTo_GetCurrentPos.bind
  intro jmppos hjmppos
  iterate 4 refine Spares.bindTo inferInstance fun _ => ?_
  apply (sparesTo_SetInstructionParam hjmppos _ _).bind
  intro _ _
  apply (sparesTo_SetInstructionParam hjzpos _ _).bind
  intro _ _
  exact spares_SnoozeOpt.sparesTo P

instance spares_expression : Spares late (expression call) := by
  unfold expression
  apply Spares.withFreshEs
  apply (spares_call call _).bind
  intro _
  apply Spares.bind inferInstance
  intro token
  split <;> infer_instance

instance spares_BIN_EXP (op : Opcode) (f : Proc) [Callable late (patchesLast f)] (op3 : Int) :
    Spares late (BIN_EXP call op f op3) := by
  unfold BIN_EXP
  infer_instance

instance spares_binaryLevel (f : Proc) [Callable late (patchesLast f)]
    (ops : Token → Option (Opcode × Int)) : Spares late (binaryLevel n call f ops) := by
  have hround : Spares late (do
      match ops (← getToken) with
      | some (op, op3) => BIN_EXP call op f op3
      | none => return ()) := by
    apply Spares.bind inferInstance
    intro token
    split <;> infer_instance
  unfold binaryLevel
  infer_instance

/-- The jump over the second operand is patched behind the checks. -/
instance spares_shortCircuit (op : Opcode) (f : Proc) [Callable late (patchesLast f)] :
    Spares late (shortCircuit call op f) := by
  constructor
  intro P
  unfold shortCircuit
  iterate 2 refine Spares.bindTo inferInstance fun _ => ?_
  apply sparesTo_add_bind
  intro _
  apply sparesTo_GetCurrentPos.bind
  intro jpos hjpos
  iterate 8 refine Spares.bindTo inferInstance fun _ => ?_
  apply (sparesTo_SetInstructionParam hjpos _ _).bind
  intro _ _
  exact (spares_setEtype _).sparesTo P

instance spares_logicalOrExp : Spares late (logicalOrExp call) := by
  unfold logicalOrExp
  infer_instance

instance spares_logicalAndExp : Spares late (logicalAndExp n call) := by
  unfold logicalAndExp
  infer_instance

instance spares_suffix : Spares late (suffix n call) := by
  unfold suffix
  apply Spares.bind inferInstance
  intro token
  dsimp only
  split <;> infer_instance

instance spares_prefixedExpr : Spares late (prefixedExpr n call) := by
  unfold prefixedExpr
  infer_instance

instance spares_arrayElements : Spares late (arrayElements n call) := by
  unfold arrayElements
  infer_instance

instance spares_arrayConstructor : Spares late (arrayConstructor n call) := by
  constructor
  intro P
  unfold arrayConstructor
  apply spares_PushTarget.bindTo
  intro target
  apply sparesTo_add_bind
  intro _
  apply sparesTo_GetCurrentPos.bind
  intro apos hapos
  iterate 2 refine Spares.bindTo inferInstance fun _ => ?_
  apply (sparesTo_SetInstructionParam hapos _ _).bind
  intro _ _
  exact spares_Lex.sparesTo P

instance spares_negation : Spares late (negation call) := by
  unfold negation
  apply spares_Lex.bind
  intro _
  apply Spares.bind inferInstance
  intro c
  split <;> infer_instance

instance spares_factorExpr : Spares late (factorExpr n call) := by
  unfold factorExpr
  apply Spares.bind inferInstance
  intro c
  split <;> infer_instance

instance spares_factor : Spares late (factor n call) := by
  unfold factor
  apply Spares.bind inferInstance
  intro token
  split <;> infer_instance

instance spares_unaryOP (op : Opcode) : Spares late (unaryOP call op) := by
  unfold unaryOP
  infer_instance

instance spares_deleteExpr : Spares late (deleteExpr call) := by
  unfold deleteExpr
  apply spares_Lex.bind
  intro _
  apply Spares.withDonotGet
  apply (spares_call call _).bind
  intro _
  apply Spares.bind inferInstance
  intro etype
  split <;> infer_instance

instance spares_prefixIncDec (token : Token) : Spares late (prefixIncDec call token) := by
  unfold prefixIncDec
  apply spares_Lex.bind
  intro _
  apply Spares.withDonotGet
  apply (spares_call call _).bind
  intro _
  apply Spares.bind inferInstance
  intro c
  dsimp only
  split <;> infer_instance

instance spares_callArguments : Spares late (callArguments n call) := by
  unfold callArguments
  infer_instance

instance spares_slotKey : Spares late (slotKey call) := by
  unfold slotKey
  apply Spares.bind inferInstance
  intro token
  split <;> infer_instance

instance spares_callSlots : Spares late (callSlots n call) := by
  unfold callSlots
  infer_instance

instance spares_functionCallArgs (rawcall : Bool) :
    Spares late (functionCallArgs n call rawcall) := by
  unfold functionCallArgs
  infer_instance

instance spares_ParseBindEnv : Spares late (ParseBindEnv call) := by
  unfold ParseBindEnv
  infer_instance

instance spares_optionalBindEnv : Spares late (optionalBindEnv call) := by
  unfold optionalBindEnv
  infer_instance

instance spares_method (id : Object) : Spares late (slot.method call id) := by
  unfold slot.method
  infer_instance

instance spares_keyAndValue : Spares late (slot.keyAndValue call) := by
  unfold slot.keyAndValue
  infer_instance

instance spares_slot (separator : Token) : Spares late (slot call separator) := by
  unfold slot
  apply Spares.bind inferInstance
  intro token
  split <;> infer_instance

/-- The number of slots goes into the instruction before the constructor. -/
instance spares_parseTableOrClass (separator terminator : Token) :
    Spares true (parseTableOrClass n call separator terminator) := by
  constructor
  intro P
  unfold parseTableOrClass
  apply sparesTo_GetCurrentPos.bind
  intro tpos htpos
  dsimp only
  apply Spares.bindTo inferInstance
  intro nkeys
  split
  · apply (sparesTo_SetInstructionParam htpos _ _).bind
    intro _ _
    exact spares_Lex.sparesTo P
  · exact spares_Lex.sparesTo P

instance spares_classExp : Spares late (classExp call) := by
  unfold classExp
  dsimp only
  infer_instance

instance spares_functionExp (lambda : Bool) : Spares late (functionExp call lambda) := by
  unfold functionExp
  infer_instance

end

end Compiler

end GameScript
