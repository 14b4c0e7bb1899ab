import GameScript.Scope.Access

/-!
Namespaces and modules: `ResolveNamespaceTable`, `BuildNamespaceTables`, `_OP_NAMESPACE` and
`_OP_IMPORT` of `GSvm.cpp`, and the runs of a main script that imports modules.

Between two of these instructions a script does what `Code` says; an imported body runs
nested, on top of the script that imports it.
-/

namespace GameScript.Scope

variable {ρ S : Type}

/-- What `_stringval` shows of a string: it ends at the first NUL. -/
def cstring (s : List UInt8) : List UInt8 := s.takeWhile (· ≠ 0)

/-- `'/'`. -/
def slash : UInt8 := 47

def modules_key : Object := .string (sc "__modules")
def ns_key : Object := .string (sc "__namespace")

/-! ### Namespace tables -/

section Namespace

variable (host : Host ρ)

/-- Goes from a table to the one at a segment of a path, which is made where `Get` finds
nothing; `toRoot` when more segments follow. -/
def ensureTable (w : World ρ) (current : Object) (segment : List UInt8) (toRoot : Bool) :
    Object × World ρ :=
  match Get host w current (.string segment) with
  | (some next_table, w) => (next_table, w)
  | (none, w) =>
      let next_table := Object.table w.heap.size
      let (_, w) := NewSlot host (w.create .empty toRoot) current (.string segment) next_table
      (next_table, w)

/-- The loop of `BuildNamespaceTables` over the characters of the path. -/
def buildLoop : List UInt8 → List UInt8 → Object → World ρ → Object × World ρ
  | [], buf, current, w => if buf = [] then (current, w) else ensureTable host w current buf false
  | c :: str, buf, current, w =>
      if c = slash then
        let (next_table, w) := ensureTable host w current buf true
        buildLoop str [] next_table w
      else buildLoop str (if buf.length < 255 then buf ++ [c] else buf) current w

/-- `BuildNamespaceTables`. -/
def BuildNamespaceTables (w : World ρ) (namespace_str : List UInt8) : Object × World ρ :=
  buildLoop host (cstring namespace_str) [] (.table w.root) w

/-- The loop of `ResolveNamespaceTable`. -/
def resolveLoop : List UInt8 → List UInt8 → Object → World ρ → Option Object × World ρ
  | [], buf, current, w => if buf = [] then (some current, w) else Get host w current (.string buf)
  | c :: str, buf, current, w =>
      if c = slash then
        match Get host w current (.string buf) with
        | (some next_table, w) => resolveLoop str [] next_table w
        | (none, w) => (none, w)
      else resolveLoop str (if buf.length < 255 then buf ++ [c] else buf) current w

/-- `ResolveNamespaceTable`. -/
def ResolveNamespaceTable (w : World ρ) (namespace_str : List UInt8) : Option Object × World ρ :=
  resolveLoop host (cstring namespace_str) [] (.table w.root) w

/-- `_OP_NAMESPACE` in a closure whose unqualified names are looked up in the table `root_obj`. -/
def opNamespace (w : World ρ) (root_obj : Option Ref) (path : List UInt8) : World ρ :=
  let (current_table, w) := BuildNamespaceTables host w path
  match root_obj with
  | some r => w.setSlot r ns_key current_table
  | none => w

end Namespace

/-! ### Imports -/

/-- `MAX_NATIVE_CALLS`, the bound on calls of `Execute` within each other. -/
def MAX_NATIVE_CALLS : Nat := 100

/-- `MIN_STACK_OVERHEAD`. -/
def MIN_STACK_OVERHEAD : Nat := 15

/-- `NUMBER_MAX_CHAR`. -/
def NUMBER_MAX_CHAR : Nat := 50

/-- The counters of the machine at an import, with the size of its stack. -/
structure CallSite where
  nnativecalls : Nat
  nmetamethodscall : Nat
  top : Nat
  stacksize : Nat
deriving DecidableEq, Repr

/-- What is found under a file name: no file, one that does not compile, or a function whose
state at its first instruction depends on the table it gets as `this`. -/
inductive Source (S : Type) where
  | missing
  | broken
  | compiled (bgenerator : Bool) (stacksize : Nat) (start : Ref → S)

/-- What a script does next. `namespace` and `import` are the instructions; `run` is any other
step. An import goes on with the next statement or with the error it raises. -/
inductive Step (ρ S : Type) where
  | run (s : S) (w : World ρ)
  | «namespace» (root_obj : Option Ref) (path : List UInt8) (s : S)
  | «import» (site : CallSite) (path : List UInt8) (k : Except (List UInt8) Unit → S)
  | done
  | fail

/-- The scripts of a machine and the files they come from. -/
structure Code (ρ S : Type) where
  step : S → World ρ → Step ρ S
  source : List UInt8 → Source S
  /-- `GSClosure::Create`. -/
  newClosure : ρ → Ref × ρ

/-- The file of a module: at most 1019 characters of its path, and the extension. -/
def filepath (path : List UInt8) : List UInt8 := (cstring path).take 1019 ++ sc ".gs"

/-- The text of an error: `scvsprintf` into a buffer for the format and two numbers. -/
def errorText (format : String) (text : List UInt8) : List UInt8 :=
  text.take (format.length + 2 * NUMBER_MAX_CHAR - 1)

def compileError (path : List UInt8) : List UInt8 :=
  errorText "failed to compile imported module '%s'"
    (sc "failed to compile imported module '" ++ cstring path ++ sc "'")

def loadError (path : List UInt8) : List UInt8 :=
  errorText "cannot load imported module '%s' (file not found: %s)"
    (sc "cannot load imported module '" ++ cstring path ++ sc "' (file not found: " ++
      filepath path ++ sc ")")

/-- How `_OP_IMPORT` goes on: with the next statement, without having called anything or after
a call that came back at once; with an error; in the body of the module; or in the frame of a
call that failed without giving its frame up, which was never set up. -/
inductive Imported (ρ S : Type) where
  | next (w : World ρ)
  | raised (err : List UInt8) (w : World ρ)
  | started (body : S) (w : World ρ)
  | stray

variable (host : Host ρ) (code : Code ρ S)

/-- The table of the modules, made at the first import. -/
def modulesTable (w : World ρ) : Object × World ρ :=
  match Get host w (.table w.root) modules_key with
  | (some modules_table, w) => (modules_table, w)
  | (none, w) =>
      let modules_table := Object.table w.heap.size
      let (_, w) := NewSlot host (w.create .empty false) (.table w.root) modules_key modules_table
      (modules_table, w)

/-- The lookup of a path in the table of the modules. -/
def cachedModule (w : World ρ) (path : List UInt8) : Option Object × World ρ :=
  let (modules_table, w) := modulesTable host w
  Get host w modules_table (.string path)

/-- The scope of a module: its `__namespace` is itself. It is at `w.heap.size`. -/
def createSandbox (w : World ρ) : World ρ :=
  (w.create .empty true).setSlot w.heap.size ns_key (.table w.heap.size)

/-- What is done before the body of a module is called: its scope, its closure and its entry
in the table of the modules. -/
def enterModule (w : World ρ) (modules_table : Object) (path : List UInt8) : World ρ :=
  let w := createSandbox w
  let closure := code.newClosure w.rest
  (NewSlot host (w.withRest closure.2) modules_table (.string path) (.closure closure.1)).2

/-- `Execute` refuses to run within so many calls. -/
def CallSite.tooDeep (site : CallSite) : Prop := site.nnativecalls + 1 > MAX_NATIVE_CALLS

/-- `EnterFrame` fails: the stack is too small and may not be moved. -/
def CallSite.noRoom (site : CallSite) (stacksize : Nat) : Prop :=
  site.top + stacksize + MIN_STACK_OVERHEAD > site.stacksize ∧ site.nmetamethodscall ≠ 0

instance (site : CallSite) : Decidable site.tooDeep := by
  unfold CallSite.tooDeep; infer_instance

instance (site : CallSite) (stacksize : Nat) : Decidable (site.noRoom stacksize) := by
  unfold CallSite.noRoom; infer_instance

/-- `_OP_IMPORT`, which drops the result of `Call`. The call of a generator function makes the
generator and returns. -/
def opImport (w : World ρ) (site : CallSite) (path : List UInt8) : Imported ρ S :=
  let (modules_table, w) := modulesTable host w
  match Get host w modules_table (.string path) with
  | (some _, w) => .next w
  | (none, w) =>
      match code.source (filepath path) with
      | .missing => .raised (loadError path) w
      | .broken => .raised (compileError path) w
      | .compiled bgenerator stacksize start =>
          let sandbox := w.heap.size
          let w := enterModule host code w modules_table path
          if site.tooDeep then .next w
          else if site.noRoom stacksize then .stray
          else if bgenerator then .next w
          else .started (start sandbox) w

/-! ### Runs -/

/-- A machine in the middle of a run: the script that runs and, innermost first, the states in
which the scripts go on whose imports it runs under. `started` are the paths whose bodies were
started, the last one first. -/
structure Config (ρ S : Type) where
  active : S
  waiting : List S
  world : World ρ
  started : List (List UInt8)

/-- One step of a run; `none` when the main script has ended, or when what comes next is
undefined. -/
def Config.step (c : Config ρ S) : Option (Config ρ S) :=
  match code.step c.active c.world with
  | .run s w => some { c with active := s, world := w }
  | .namespace root_obj path s =>
      some { c with active := s, world := opNamespace host c.world root_obj path }
  | .import site path k =>
      match opImport host code c.world site path with
      | .next w => some { c with active := k (.ok ()), world := w }
      | .raised err w => some { c with active := k (.error err), world := w }
      | .started body w =>
          some { active := body, waiting := k (.ok ()) :: c.waiting, world := w,
                 started := path :: c.started }
      | .stray => none
  | .done | .fail =>
      match c.waiting with
      | [] => none
      | s :: waiting => some { c with active := s, waiting := waiting }

/-- The start of a run: the main script, before its first instruction. -/
def Config.main (s : S) (w : World ρ) : Config ρ S :=
  { active := s, waiting := [], world := w, started := [] }

/-- `n` steps of a run. -/
def Config.run (host : Host ρ) (code : Code ρ S) : Nat → Config ρ S → Option (Config ρ S)
  | 0, c => some c
  | n + 1, c => (c.step host code).bind (Config.run host code n)

/-- `c` comes to `c'`. -/
def Config.Reaches : Config ρ S → Config ρ S → Prop :=
  Relation.ReflTransGen fun c c' => c.step host code = some c'

/-- The run from `c` comes to an end. -/
def Config.Halts (c : Config ρ S) : Prop :=
  ∃ c', c.Reaches host code c' ∧ c'.step host code = none

variable {host code}

/-- What a step can be. -/
inductive Config.Move (host : Host ρ) (code : Code ρ S) (c : Config ρ S) : Config ρ S → Prop where
  | run {s : S} {w : World ρ} (hact : code.step c.active c.world = .run s w) :
      c.Move host code { c with active := s, world := w }
  | «namespace» {root_obj : Option Ref} {path : List UInt8} {s : S}
      (hact : code.step c.active c.world = .namespace root_obj path s) :
      c.Move host code { c with active := s, world := opNamespace host c.world root_obj path }
  | next {site : CallSite} {path : List UInt8} {k : Except (List UInt8) Unit → S} {w : World ρ}
      (hact : code.step c.active c.world = .import site path k)
      (himport : opImport host code c.world site path = .next w) :
      c.Move host code { c with active := k (.ok ()), world := w }
  | raised {site : CallSite} {path : List UInt8} {k : Except (List UInt8) Unit → S}
      {err : List UInt8} {w : World ρ}
      (hact : code.step c.active c.world = .import site path k)
      (himport : opImport host code c.world site path = .raised err w) :
      c.Move host code { c with active := k (.error err), world := w }
  | started {site : CallSite} {path : List UInt8} {k : Except (List UInt8) Unit → S} {body : S}
      {w : World ρ} (hact : code.step c.active c.world = .import site path k)
      (himport : opImport host code c.world site path = .started body w) :
      c.Move host code { active := body, waiting := k (.ok ()) :: c.waiting, world := w,
                         started := path :: c.started }
  | back {s : S} {waiting : List S}
      (hact : code.step c.active c.world = .done ∨ code.step c.active c.world = .fail)
      (hwaiting : c.waiting = s :: waiting) :
      c.Move host code { c with active := s, waiting := waiting }

theorem Config.move_of_step {c c' : Config ρ S} (h : c.step host code = some c') :
    c.Move host code c' := by
  have hback : (code.step c.active c.world = .done ∨ code.step c.active c.world = .fail) →
      (match c.waiting with
        | [] => none
        | s :: waiting => some { c with active := s, waiting := waiting }) = some c' →
          c.Move host code c' := by
    intro hact h
    cases hwaiting : c.waiting with
    | nil =>
        rw [hwaiting] at h
        cases h
    | cons s waiting =>
        rw [hwaiting] at h
        obtain rfl := Option.some.inj h
        exact .back hact hwaiting
  rw [Config.step] at h
  cases hact : code.step c.active c.world with
  | run s w =>
      rw [hact] at h
      exact Option.some.inj h ▸ .run hact
  | «namespace» root_obj path s =>
      rw [hact] at h
      exact Option.some.inj h ▸ .namespace hact
  | «import» site path k =>
      rw [hact] at h
      simp only at h
      cases himport : opImport host code c.world site path with
      | next w =>
          rw [himport] at h
          exact Option.some.inj h ▸ .next hact himport
      | raised err w =>
          rw [himport] at h
          exact Option.some.inj h ▸ .raised hact himport
      | started body w =>
          rw [himport] at h
          exact Option.some.inj h ▸ .started hact himport
      | stray =>
          rw [himport] at h
          cases h
  | done =>
      rw [hact] at h
      exact hback (.inl hact) h
  | fail =>
      rw [hact] at h
      exact hback (.inr hact) h

theorem Config.Reaches.exists_run {c c' : Config ρ S} (h : c.Reaches host code c') :
    ∃ n, c.run host code n = some c' := by
  induction h using Relation.ReflTransGen.head_induction_on with
  | refl => exact ⟨0, rfl⟩
  | head hstep _ ih =>
      obtain ⟨n, hn⟩ := ih
      exact ⟨n + 1, by rw [Config.run, hstep]; exact hn⟩

theorem Config.run_eq_none {c : Config ρ S} {n m : Nat} (h : c.run host code n = none)
    (hle : n ≤ m) : c.run host code m = none := by
  induction n generalizing c m with
  | zero => cases h
  | succ n ih =>
      obtain ⟨m, rfl⟩ : ∃ m', m = m' + 1 := ⟨m - 1, by omega⟩
      rw [Config.run] at h ⊢
      cases hstep : c.step host code with
      | none => rfl
      | some c' =>
          rw [hstep] at h
          exact ih h (by omega)

theorem Config.reaches_of_run {c c' : Config ρ S} {n : Nat}
    (h : c.run host code n = some c') : c.Reaches host code c' := by
  induction n generalizing c with
  | zero =>
      obtain rfl := Option.some.inj h
      exact .refl
  | succ n ih =>
      obtain ⟨c'', hstep, hrun⟩ := Option.bind_eq_some_iff.mp h
      exact .head hstep (ih hrun)

theorem Config.Halts.step {c c' : Config ρ S} (hstep : c.step host code = some c')
    (h : c'.Halts host code) : c.Halts host code := by
  obtain ⟨c'', hreach, hnone⟩ := h
  exact ⟨c'', .head hstep hreach, hnone⟩

end GameScript.Scope
