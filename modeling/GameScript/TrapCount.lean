import Mathlib.Logic.Relation
import GameScript.VM.TrapStep

/-!
The traps over a whole `Execute`. It is entered by a call, by the resumption of a generator
from outside or by waking a machine that a native function suspended. What runs before and
after on the same machine, and what its natives run nested, finds and leaves the traps of its
own frames.
-/

namespace GameScript.VM

open Effect

section

variable (rt : Runtime)

/-! ### Runs of `Execute` -/

/-- The entry of `Execute` by a call. A generator function has given its frame up, so there is
nothing to run. `Execute` sees that from `ci`, a pointer to the frame, which is another one when
the frames have `moved` because the call stack grew. -/
def beginCall (moved : Bool) (p : Ref) (target : Int) (args stackbase : Nat) :
    VMM rt.Heap Bool := do
  modify fun vm => { vm with traps := 0 }
  let depth := (← get).callstack.length
  StartCall rt p target args stackbase false
  -- without a frame both pointers are null
  if (← get).callstack.length = depth ∧ (moved = true → depth = 0) then return false
  modifyCi fun ci => { ci with root := true }
  return true

/-- The entry of `Execute` by the resumption of a generator. -/
def beginResume (p : Ref) (target : Nat) : VMM rt.Heap Unit := do
  modify fun vm => { vm with traps := 0 }
  resumeGenerator rt p target
  modifyCi fun ci => { ci with root := true }
  let ci ← getCi
  modify fun vm => { vm with traps := vm.traps + ci.etraps }

/-- The stack of traps is that of all frames, and of the suspended generators. -/
structure Balanced {Heap : Type} (vm : VM Heap) : Prop where
  window : vm.stackbase ≤ vm.top
  owned : Owned vm.stackbase vm.callstack vm.etraps
  saved : ∀ g ∈ vm.generators, Saved g

/-- A state in which the loop of `Execute` starts over the frames `below`. Of the calls, `enters`
says which are considered. -/
inductive Entry (enters : Bool → Ref → VM rt.Heap → Prop) : List CallInfo → VM rt.Heap → Prop where
  | call {vm vm' : VM rt.Heap} {moved : Bool} {p : Ref} {target : Int} {args stackbase : Nat} :
      Balanced vm → vm.stackbase ≤ stackbase → enters moved p vm →
      beginCall rt moved p target args stackbase vm = .ok true vm' → Entry enters vm.callstack vm'
  | resume {vm vm' : VM rt.Heap} {p : Ref} {target : Nat} :
      Balanced vm → beginResume rt p target vm = .ok () vm' →
      Entry enters vm.callstack vm'

/-- What the host does while the machine is suspended: it runs other code on it, and stores the
value it wakes it with. -/
inductive HostStep : VM rt.Heap → VM rt.Heap → Prop where
  | serve (vm : VM rt.Heap) (q : Request) : HostStep vm (vm.absorb (served rt vm q))
  | store (vm : VM rt.Heap) (n : Nat) (v : Object) : HostStep vm (vm.setSlot n v)

/-- An error that an instruction raises, or with which the host wakes the machine. -/
inductive Raised (vm : VM rt.Heap) : Object → VM rt.Heap → Prop where
  | exec {err : Object} {vm₁ : VM rt.Heap} :
      (do exec rt (← fetch)) vm = .error (.raise err) vm₁ → Raised vm err vm₁
  | wakeup {v err : Object} {vm₁ vm₂ : VM rt.Heap} : step rt vm = .suspended v vm₁ →
      Relation.ReflTransGen (HostStep rt) vm₁ vm₂ → Raised vm err vm₂

/-- The next state of the loop. -/
inductive Next (vm vm' : VM rt.Heap) : Prop where
  | exec : (do exec rt (← fetch)) vm = .ok .next vm' → Next vm vm'
  | caught {err : Object} {vm₁ : VM rt.Heap} : Raised rt vm err vm₁ →
      exceptionTrap rt err vm₁ = .next vm' → Next vm vm'
  | wakeup {v : Object} {vm₁ : VM rt.Heap} : step rt vm = .suspended v vm₁ →
      Relation.ReflTransGen (HostStep rt) vm₁ vm' → Next vm vm'

/-! ### What is counted -/

variable {rt}

/-- The local counter counts the traps of the frames of this `Execute`, and the stack of traps
those of all frames. -/
def Counted (below : List CallInfo) (vm : VM rt.Heap) : Prop :=
  ∃ mine, vm.callstack = mine ++ below ∧ vm.traps = trapsOf mine ∧
    vm.etraps.length = trapsOf vm.callstack

/-- An error with which the handler is told to deal leaves `Execute` with no trap left; any other
is caught by the innermost try block. -/
def Handled (below : List CallInfo) (vm : VM rt.Heap) : Prop :=
  ∀ err vm₁, Raised rt vm err vm₁ → Counted below vm₁ ∧
    (vm₁.traps = 0 → ∃ vm', exceptionTrap rt err vm₁ = .failed err vm' ∧ vm'.traps = 0 ∧
      vm'.callstack = below ∧ vm'.etraps.length = trapsOf below) ∧
    (vm₁.traps ≠ 0 → ∃ vm', exceptionTrap rt err vm₁ = .next vm' ∧ Caught vm₁ vm')

/-- `assert(traps == 0)`. -/
def ReturnsCounted (below : List CallInfo) (vm : VM rt.Heap) : Prop :=
  ∀ v vm', step rt vm = .returned v vm' → vm'.traps = 0 ∧ vm'.callstack = below ∧
    vm'.etraps.length = trapsOf below

variable (rt) in
/-- The traps are accounted for in every run that a call of `enters` or a resumption starts and
whose steps start in states that meet `guard`. -/
def TrapsAccounted (enters : Bool → Ref → VM rt.Heap → Prop) (guard : VM rt.Heap → Prop) : Prop :=
  ∀ below vm₀ vm, Entry rt enters below vm₀ → Guarded guard (Next rt) vm₀ vm →
    Counted below vm ∧ (guard vm → Handled below vm ∧ ReturnsCounted below vm)

/-- If the frames move, the function is no generator's or there is no frame. -/
def EntersOwnFrame (moved : Bool) (p : Ref) (vm : VM rt.Heap) : Prop :=
  moved = true → vm.callstack ≠ [] →
    ∀ c, vm.closures[p]? = some c → c.function.bgenerator = false

variable {below : List CallInfo} {vm vm' : VM rt.Heap}

theorem Balanced.trapped (h : Balanced vm) :
    Trapped (· = []) vm.callstack { vm with traps := 0 } where
  window := h.window
  owned := h.owned
  frames := ⟨[], rfl, rfl, rfl⟩
  saved := h.saved

theorem Trapped.counted {P : List Bool → Prop} (h : Trapped P below vm) : Counted below vm := by
  obtain ⟨mine, hstack, -, htraps⟩ := h.frames
  exact ⟨mine, hstack, htraps, h.owned.length⟩

theorem Trapped.left (h : Trapped (· = []) below vm) :
    vm.traps = 0 ∧ vm.callstack = below ∧ vm.etraps.length = trapsOf below := by
  obtain ⟨mine, hstack, hnil, htraps⟩ := h.frames
  obtain rfl := List.map_eq_nil_iff.mp hnil
  rw [List.nil_append] at hstack
  refine ⟨htraps, hstack, ?_⟩
  rw [h.owned.length, hstack]

/-- The first frame of an `Execute`. -/
theorem Trapped.root {b : Bool} (h : Trapped (Pushed b (· = [])) below vm) :
    Trapped Rooted below { vm with
      callstack := vm.callstack.modifyHead fun ci => { ci with root := true } } := by
  obtain ⟨ci, mine, hstack, ⟨roots, hroots, hnil⟩, htraps⟩ := h.head not_pushed_nil
  obtain ⟨-, rfl⟩ := List.cons.inj hroots
  obtain rfl := List.map_eq_nil_iff.mp hnil
  have howned := h.owned
  rw [hstack] at howned
  have hstack' : vm.callstack.modifyHead (fun ci => { ci with root := true }) =
      { ci with root := true } :: ([] ++ below) := by
    rw [hstack]
    rfl
  refine ⟨h.window, ?_, ⟨[{ ci with root := true }], hstack', ⟨0, rfl⟩, ?_⟩, h.saved⟩
  · rw [hstack']
    exact howned
  · simpa [trapsOf] using htraps

/-- A call that goes on into the loop has made its own frame. -/
theorem trapped_of_beginCall (hrt : Sound rt) {vm₀ : VM rt.Heap} {moved : Bool} {p : Ref}
    {target : Int} {args stackbase : Nat} (hbalanced : Balanced vm₀) (hbase : vm₀.stackbase ≤ stackbase)
    (henters : EntersOwnFrame moved p vm₀)
    (hcall : beginCall rt moved p target args stackbase vm₀ = .ok true vm) :
    Trapped Rooted vm₀.callstack vm := by
  unfold beginCall at hcall
  rw [bind_apply, modify_apply] at hcall
  dsimp only at hcall
  rw [get_bind_apply] at hcall
  obtain ⟨_, vm₁, hstart, hroot⟩ := bind_eq_ok.mp hcall
  have hclosure : ∃ c, vm₀.closures[p]? = some c := by
    cases hc : vm₀.closures[p]? with
    | none =>
        unfold StartCall at hstart
        rw [bind_apply, getClosure_undefined (by exact hc)] at hstart
        cases hstart
    | some c => exact ⟨c, rfl⟩
  obtain ⟨c, hc⟩ := hclosure
  have htrapped := (ends_StartCall_closure hrt p target hbase c).ok
    ⟨⟨hbalanced.trapped, rfl⟩, hc⟩ hstart
  rw [get_bind_apply] at hroot
  dsimp only at hroot
  split at hroot
  · cases hroot
  · rename_i hdepth
    obtain ⟨_, vm₂, hmodify, hpure⟩ := bind_eq_ok.mp hroot
    cases hmodify
    cases hpure
    obtain ⟨mine, hstack, hroots, htraps⟩ := htrapped.frames
    apply Trapped.root (b := false)
    unfold Called at hroots
    split at hroots
    · -- the frame of a generator function is not there any more
      rename_i hgenerator
      obtain rfl := List.map_eq_nil_iff.mp hroots
      refine absurd ⟨congrArg List.length hstack, fun hmoved => ?_⟩ hdepth
      refine Classical.byContradiction fun hframes => ?_
      have hfalse := henters hmoved (fun hnil => hframes (by rw [hnil]; rfl)) c hc
      rw [hfalse] at hgenerator
      cases hgenerator
    · exact ⟨htrapped.window, htrapped.owned, ⟨mine, hstack, hroots, htraps⟩, htrapped.saved⟩

theorem Entry.trapped (hrt : Sound rt) (h : Entry rt EntersOwnFrame below vm) :
    Trapped Rooted below vm := by
  cases h with
  | @call vm₀ _ moved p target args stackbase hbalanced hbase henters hcall =>
      exact trapped_of_beginCall hrt hbalanced hbase henters hcall
  | @resume vm₀ _ p target hbalanced hresume =>
      unfold beginResume at hresume
      rw [bind_apply, modify_apply] at hresume
      dsimp only at hresume
      obtain ⟨_, vm₁, hgen, hroot⟩ := bind_eq_ok.mp hresume
      cases hg : vm₀.generators[p]? with
      | none =>
          rw [resumeGenerator_undefined (by exact hg)] at hgen
          cases hgen
      | some g =>
          obtain ⟨htrapped, hhead, -⟩ :=
            (ends_resumeGenerator hrt p target g).ok ⟨hbalanced.trapped, hg⟩ hgen
          obtain ⟨ci, mine, hstack, -⟩ := htrapped.head not_pushed_nil
          have hstack₁ : vm₁.callstack = ci :: (mine ++ vm₀.callstack) := hstack
          have hci := hhead ci (by rw [hstack₁]; rfl)
          have hstack₂ : vm₁.callstack.modifyHead (fun ci => { ci with root := true }) =
              { ci with root := true } :: (mine ++ vm₀.callstack) := by
            rw [hstack₁]
            rfl
          rw [VM.modifyCi, bind_apply, modify_apply] at hroot
          dsimp only at hroot
          rw [bind_apply, getCi_apply hstack₂] at hroot
          cases hroot
          refine htrapped.root.congr rfl id rfl rfl ?_ htrapped.saved
          change vm₁.traps + (ci.etraps : Int) = vm₁.traps + (g.ci.etraps : Int)
          rw [hci]

theorem HostStep.calm (hrt : Sound rt) (h : HostStep rt vm vm') : Calm vm vm' := by
  cases h with
  | serve q => exact calm_serve hrt vm q
  | store n v => exact calm_stack vm _

theorem host_calm (hrt : Sound rt) (h : Relation.ReflTransGen (HostStep rt) vm vm') :
    Calm vm vm' := by
  induction h with
  | refl => exact Std.Refl.refl vm
  | tail _ hstep ih => exact IsTrans.trans _ _ _ ih (hstep.calm hrt)

theorem suspended_trapped (hrt : Sound rt) {v : Object} {vm₁ : VM rt.Heap}
    (htrapped : Trapped Rooted below vm) (hacc : Accountable vm)
    (hsuspended : step rt vm = .suspended v vm₁)
    (hhost : Relation.ReflTransGen (HostStep rt) vm₁ vm') : Trapped Rooted below vm' := by
  have hsettled := settled_step hrt htrapped hacc
  rw [hsuspended] at hsettled
  exact Trapped.calm hsettled (host_calm hrt hhost)

theorem Raised.trapped (hrt : Sound rt) {err : Object} {vm₁ : VM rt.Heap}
    (h : Raised rt vm err vm₁) (htrapped : Trapped Rooted below vm) (hacc : Accountable vm) :
    Trapped Rooted below vm₁ := by
  cases h with
  | exec hexec => exact (ends_round hrt).error ⟨htrapped, hacc⟩ hexec
  | wakeup hsuspended hhost => exact suspended_trapped hrt htrapped hacc hsuspended hhost

theorem Next.trapped (hrt : Sound rt) (h : Next rt vm vm') (htrapped : Trapped Rooted below vm)
    (hacc : Accountable vm) : Trapped Rooted below vm' := by
  cases h with
  | exec hexec => exact (ends_round hrt).ok ⟨htrapped, hacc⟩ hexec
  | @caught err vm₁ hraised hcaught =>
      have hvm₁ := hraised.trapped hrt htrapped hacc
      obtain ⟨hfail, hcatch⟩ := hvm₁.exceptionTrap hrt err
      by_cases hzero : vm₁.traps = 0
      · obtain ⟨vm₂, hfailed, -⟩ := hfail hzero
        rw [hfailed] at hcaught
        cases hcaught
      · obtain ⟨vm₂, hnext, htrapped₂, -⟩ := hcatch hzero
        rw [hnext] at hcaught
        cases hcaught
        exact htrapped₂
  | wakeup hsuspended hhost => exact suspended_trapped hrt htrapped hacc hsuspended hhost

end

/-! ### A generator with a try block -/

theorem next_of_step {rt : Runtime} {vm vm' : VM rt.Heap} (h : step rt vm = .next vm') :
    Next rt vm vm' := by
  unfold step at h
  split at h
  · rename_i hexec
    cases h
    exact .exec hexec
  · cases h
  · cases h
  · rename_i hraise
    exact .caught (.exec hraise) h
  · cases h

/-- A runtime whose references are the objects they refer to. -/
def referring : Runtime where
  Heap := Unit
  fl := FloatOps.unused
  strcmp _ _ := 0
  serve q _ _ generators _ :=
    match q with
    | .weakRef o | .strongRef o =>
        { result := .ok (.values [o]), heap := (), generators := generators }
    | _ => { result := .ok (.values []), heap := (), generators := generators }

theorem sound_referring : Sound referring where
  saved q heap closures generators outers h := by
    unfold referring
    dsimp only
    split <;> exact h
  weakRef _ _ _ _ _ := rfl
  strongRef o _ _ _ _ := ⟨o, rfl, rfl⟩

/-- A function of eight registers. -/
def assembled (parameters : List Object) (bgenerator : Bool) (instructions : List Instruction) :
    Closure where
  function := {
    sourcename := .null
    name := .null
    stacksize := 8
    bgenerator := bgenerator
    varparams := 0
    rettype := some 0
    localvarinfos := []
    lineinfos := []
    literals := []
    parameters := parameters
    functions := []
    outervalues := []
    defaultparams := []
    instructions := instructions }
  outervalues := []
  defaultparams := []
  env := none

/-- `try { yield } catch(e) { }` as a generator function. -/
def yieldsInTry : Closure := assembled [.null] true [
  { op := .PUSHTRAP, arg0 := 1, arg1 := 3 },
  { op := .YIELD, arg0 := 0xFF, arg2 := 1 },
  { op := .POPTRAP, arg0 := 1 },
  { op := .JMP },
  { op := .RETURN, arg0 := 0xFF }]

/-- `foreach(x in g()) { }` for a parameter `g`. -/
def iterates : Closure := assembled [.null, .null] false [
  { op := .CALL, arg0 := 2, arg1 := 1, arg2 := 3, arg3 := 1 },
  { op := .FOREACH, arg0 := 2, arg1 := 2, arg2 := 4 },
  { op := .POSTFOREACH, arg0 := 2, arg1 := 2 },
  { op := .JMP, arg1 := -3 },
  { op := .RETURN, arg0 := 0xFF }]

/-- `local x = g(); resume x; resume x` for a parameter `g`. -/
def resumesTwice : Closure := assembled [.null, .null] false [
  { op := .CALL, arg0 := 2, arg1 := 1, arg2 := 3, arg3 := 1 },
  { op := .RESUME, arg0 := 4, arg1 := 2 },
  { op := .RESUME, arg0 := 4, arg1 := 2 },
  { op := .RETURN, arg0 := 0xFF }]

/-- An empty machine with `main` and the generator function to call it with. -/
def machine (main : Closure) : VM referring.Heap where
  stack n := if n = 1 then .closure 1 else .null
  stacksize := 64
  stackbase := 0
  top := 2
  callstack := []
  etraps := []
  traps := 0
  openouters := []
  outers := []
  closures := [main, yieldsInTry]
  generators := []
  nmetamethodscall := 0
  heap := ()

theorem balanced_machine (main : Closure) : Balanced (machine main) where
  window := Nat.zero_le 2
  owned := rfl
  saved _ hg := by cases hg

/-- The state in which the loop is after `n` rounds, and whether they met `guard`. -/
def rounds (guard : VM referring.Heap → Bool) : Nat → VM referring.Heap → Option (VM referring.Heap)
  | 0, vm => some vm
  | n + 1, vm =>
    match guard vm, step referring vm with
    | true, .next vm' => rounds guard n vm'
    | _, _ => none

theorem guarded_of_rounds {guard : VM referring.Heap → Bool} {p : VM referring.Heap → Prop}
    (hguard : ∀ vm, guard vm = true → p vm) {n : Nat} {vm vm' : VM referring.Heap}
    (h : rounds guard n vm = some vm') : Guarded p (Next referring) vm vm' := by
  induction n generalizing vm with
  | zero =>
      cases h
      exact .refl _
  | succ n ih =>
      unfold rounds at h
      split at h
      · rename_i vm₁ hg hstep
        exact .step (hguard vm hg) (next_of_step hstep) (ih h)
      · cases h

/-- The machine after the call of `main` and `n` rounds. -/
def play (guard : VM referring.Heap → Bool) (main : Closure) (n : Nat) :
    Option (VM referring.Heap) :=
  match beginCall referring false 0 0 2 0 (machine main) with
  | .ok true vm => rounds guard n vm
  | _ => none

theorem run_of_play (enters : Bool → Ref → VM referring.Heap → Prop)
    (henters : ∀ p vm, enters false p vm) {guard : VM referring.Heap → Bool}
    {p : VM referring.Heap → Prop} (hguard : ∀ vm, guard vm = true → p vm) {main : Closure}
    {n : Nat} {vm : VM referring.Heap} (h : play guard main n = some vm) :
    ∃ vm₀, Entry referring enters [] vm₀ ∧ Guarded p (Next referring) vm₀ vm := by
  unfold play at h
  split at h
  · rename_i vm₀ hcall
    exact ⟨vm₀, .call (balanced_machine main) (Nat.le_refl 0) (henters 0 _) hcall,
      guarded_of_rounds hguard h⟩
  · cases h

/-- The local counter, and what the frames count. -/
def counts (vm : VM referring.Heap) : Int × List Nat := (vm.traps, vm.callstack.map (·.etraps))

end GameScript.VM
