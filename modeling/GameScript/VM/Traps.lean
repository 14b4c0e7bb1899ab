import GameScript.VM.Frames

/-!
The exception traps. Each frame counts its own, `etraps` holds those of all frames, and `traps`
is the number of those of one `Execute`. `Trapped` says that the three agree, and that the traps
of a frame lie on those of the frames below it and restore its registers.
-/

namespace GameScript.VM

open Effect

variable {Heap : Type} {α : Type}

/-! ### Counting -/

/-- The number of traps of some frames. -/
def trapsOf (frames : List CallInfo) : Nat := (frames.map (·.etraps)).sum

/-- The traps of the first frame, whose registers are at `base`, come first. -/
def Owned : Nat → List CallInfo → List ExceptionTrap → Prop
  | _, [], etraps => etraps = []
  | base, ci :: rest, etraps =>
      ci.etraps ≤ etraps.length ∧
        (∀ et ∈ etraps.take ci.etraps, et.stackbase = base ∧ base ≤ et.stacksize) ∧
        Owned (base - ci.prevstkbase) rest (etraps.drop ci.etraps)

/-- The traps of a suspended generator are those that its frame counts, relative to the frame. -/
def Saved (g : Generator) : Prop :=
  match g.state with
  | .eRunning => g.etraps = []
  | .eSuspended => g.etraps.length = g.ci.etraps ∧ ∀ et ∈ g.etraps, et.stackbase = 0
  | .eDead => True

/-- The counts agree where the frames of this `Execute` are those over `below`. Which of its
frames are the first of an `Execute` satisfies `P`. -/
structure Trapped (P : List Bool → Prop) (below : List CallInfo) (vm : VM Heap) : Prop where
  window : vm.stackbase ≤ vm.top
  owned : Owned vm.stackbase vm.callstack vm.etraps
  frames : ∃ mine, vm.callstack = mine ++ below ∧ P (mine.map (·.root)) ∧ vm.traps = trapsOf mine
  saved : ∀ g ∈ vm.generators, Saved g

/-- Only the last of the frames is the first of an `Execute`. -/
def Rooted (roots : List Bool) : Prop := ∃ n, roots = List.replicate n false ++ [true]

/-- One frame more than `P` asks for. -/
def Pushed (b : Bool) (P : List Bool → Prop) (roots : List Bool) : Prop :=
  ∃ roots', roots = b :: roots' ∧ P roots'

/-- The current frame has no trap. -/
def HeadZero (vm : VM Heap) : Prop := ∀ ci ∈ vm.callstack.head?, ci.etraps = 0

/-- The traps on the list are as many as the frames count. -/
theorem Owned.length {base : Nat} {frames : List CallInfo} {etraps : List ExceptionTrap}
    (h : Owned base frames etraps) : etraps.length = trapsOf frames := by
  induction frames generalizing base etraps with
  | nil =>
      rw [Owned] at h
      rw [h]
      rfl
  | cons ci rest ih =>
      obtain ⟨hle, -, hrest⟩ := h
      have hlen := ih hrest
      rw [List.length_drop] at hlen
      rw [trapsOf, List.map_cons, List.sum_cons, ← trapsOf, ← hlen]
      omega

theorem Owned.head_congr {base : Nat} {ci ci' : CallInfo} {rest : List CallInfo}
    {etraps : List ExceptionTrap} (h : Owned base (ci :: rest) etraps)
    (hetraps : ci'.etraps = ci.etraps) (hprev : ci'.prevstkbase = ci.prevstkbase) :
    Owned base (ci' :: rest) etraps := by
  rw [Owned] at h ⊢
  rwa [hetraps, hprev]

theorem trapsOf_cons (ci : CallInfo) (rest : List CallInfo) :
    trapsOf (ci :: rest) = ci.etraps + trapsOf rest := by
  rw [trapsOf, List.map_cons, List.sum_cons, ← trapsOf]

/-- The first of an Execute's frames is its last one. -/
theorem rooted_cons {b : Bool} {roots : List Bool} (h : Rooted (b :: roots)) :
    (b = false ∧ Rooted roots) ∨ (b = true ∧ roots = []) := by
  obtain ⟨n, hn⟩ := h
  cases n with
  | zero =>
      rw [List.replicate_zero, List.nil_append] at hn
      obtain ⟨rfl, rfl⟩ := List.cons.inj hn
      exact .inr ⟨rfl, rfl⟩
  | succ n =>
      rw [List.replicate_succ, List.cons_append] at hn
      obtain ⟨rfl, rfl⟩ := List.cons.inj hn
      exact .inl ⟨rfl, n, rfl⟩

theorem Rooted.cons {roots : List Bool} (h : Rooted roots) : Rooted (false :: roots) := by
  obtain ⟨n, rfl⟩ := h
  exact ⟨n + 1, rfl⟩

theorem not_rooted_nil : ¬ Rooted [] := by
  rintro ⟨n, hn⟩
  simp at hn

section

variable {P Q : List Bool → Prop} {below : List CallInfo} {vm vm' : VM Heap} {b : Bool}

theorem not_pushed_nil : ¬ Pushed b P [] := by
  rintro ⟨roots, h, _⟩
  cases h

/-- What is known of the frames' marks may be weakened. -/
theorem Trapped.mono (h : Trapped P below vm) (hle : ∀ roots, P roots → Q roots) :
    Trapped Q below vm where
  window := h.window
  owned := h.owned
  frames := by
    obtain ⟨mine, hstack, hP, htraps⟩ := h.frames
    exact ⟨mine, hstack, hle _ hP, htraps⟩
  saved := h.saved

/-- Only these parts of the state matter. -/
theorem Trapped.congr (h : Trapped P below vm) (hbase : vm'.stackbase = vm.stackbase)
    (hwindow : vm.stackbase ≤ vm.top → vm'.stackbase ≤ vm'.top)
    (hstack : vm'.callstack = vm.callstack)
    (hetraps : vm'.etraps = vm.etraps) (htraps : vm'.traps = vm.traps)
    (hsaved : ∀ g ∈ vm'.generators, Saved g) : Trapped P below vm' where
  window := hwindow h.window
  owned := by
    rw [hbase, hstack, hetraps]
    exact h.owned
  frames := by
    rw [hstack, htraps]
    exact h.frames
  saved := hsaved

/-- The traps of the current frame, which is one of this `Execute`. -/
theorem Trapped.head (h : Trapped P below vm) (hP : ¬ P []) :
    ∃ ci mine, vm.callstack = ci :: (mine ++ below) ∧ P (ci.root :: mine.map (·.root)) ∧
      vm.traps = ci.etraps + trapsOf mine := by
  obtain ⟨mine, hstack, hroots, htraps⟩ := h.frames
  cases mine with
  | nil => exact absurd hroots hP
  | cons ci mine =>
      exact ⟨ci, mine, hstack, hroots, by simpa [trapsOf_cons] using htraps⟩

end

/-! ### What leaves the traps alone -/

/-- The parts of a frame that no instruction but a return or a trap changes. -/
def Alike (ci ci' : CallInfo) : Prop :=
  ci'.root = ci.root ∧ ci'.prevstkbase = ci.prevstkbase ∧ ci'.etraps = ci.etraps

theorem Alike.refl (ci : CallInfo) : Alike ci ci := ⟨rfl, rfl, rfl⟩

theorem Alike.trans {ci ci' ci'' : CallInfo} (h : Alike ci ci') (h' : Alike ci' ci'') :
    Alike ci ci'' :=
  ⟨h'.1.trans h.1, h'.2.1.trans h.2.1, h'.2.2.trans h.2.2⟩

theorem Alike.of_fixed {ci ci' : CallInfo} (hfixed : ci'.fixed = ci.fixed)
    (hetraps : ci'.etraps = ci.etraps) : Alike ci ci' := by
  have hroot := congrArg CallInfo.root hfixed
  have hprev := congrArg CallInfo.prevstkbase hfixed
  exact ⟨hroot, hprev, hetraps⟩

/-- What happens to a state while an instruction stays in its frame and leaves the traps alone. -/
structure Quiet (vm vm' : VM Heap) : Prop where
  stackbase : vm'.stackbase = vm.stackbase
  window : vm.stackbase ≤ vm.top → vm'.stackbase ≤ vm'.top
  etraps : vm'.etraps = vm.etraps
  traps : vm'.traps = vm.traps
  callstack : ∃ f : CallInfo → CallInfo,
    (∀ ci, Alike ci (f ci)) ∧ vm'.callstack = vm.callstack.modifyHead f
  closures : vm.closures <+: vm'.closures
  saved : (∀ g ∈ vm.generators, Saved g) → ∀ g ∈ vm'.generators, Saved g

/-- Nor does it move in its frame. -/
def Calm (vm vm' : VM Heap) : Prop := Quiet vm vm' ∧ vm'.callstack = vm.callstack

instance : Std.Refl (@Quiet Heap) where
  refl vm := {
    stackbase := rfl
    window := id
    etraps := rfl
    traps := rfl
    callstack := ⟨id, fun _ => .refl _, by simp⟩
    closures := List.prefix_refl _
    saved := fun h => h }

instance : IsTrans (VM Heap) Quiet where
  trans _ _ _ h h' := {
    stackbase := h'.stackbase.trans h.stackbase
    window := fun hwindow => h'.window (h.window hwindow)
    etraps := h'.etraps.trans h.etraps
    traps := h'.traps.trans h.traps
    callstack := by
      obtain ⟨f, hf, hstack⟩ := h.callstack
      obtain ⟨g, hg, hstack'⟩ := h'.callstack
      refine ⟨g ∘ f, fun ci => (hf ci).trans (hg (f ci)), ?_⟩
      rw [hstack', hstack, List.modifyHead_modifyHead]
    closures := h.closures.trans h'.closures
    saved := fun hsaved => h'.saved (h.saved hsaved) }

instance : Std.Refl (@Calm Heap) where
  refl vm := ⟨Std.Refl.refl vm, rfl⟩

instance : IsTrans (VM Heap) Calm where
  trans _ _ _ h h' := ⟨IsTrans.trans _ _ _ h.1 h'.1, h'.2.trans h.2⟩

/-! ### Operations on the stack and on outer variables -/

section

variable (vm : VM Heap)

theorem writeOuter_eq (p : Ref) (v : Object) :
    ∃ stack outers, vm.writeOuter p v = { vm with stack := stack, outers := outers } := by
  unfold writeOuter
  split
  · exact ⟨_, _, rfl⟩
  · exact ⟨_, _, rfl⟩
  · exact ⟨_, _, rfl⟩

/-- Assigning to outer variables changes the stack and the cells only. -/
theorem writeOuters_eq (written : List (Ref × Object)) :
    ∃ stack outers, vm.writeOuters written = { vm with stack := stack, outers := outers } := by
  unfold writeOuters
  induction written generalizing vm with
  | nil => exact ⟨_, _, rfl⟩
  | cons w written ih =>
    obtain ⟨stack, outers, heq⟩ := writeOuter_eq vm w.1 w.2
    obtain ⟨stack', outers', heq'⟩ := ih (vm.writeOuter w.1 w.2)
    refine ⟨stack', outers', heq'.trans ?_⟩
    rw [heq]

theorem absorb_eq (r : Response Heap) :
    ∃ stack outers, vm.absorb r = { vm with
      stack := stack, outers := outers, heap := r.heap
      closures := vm.closures ++ r.closures, generators := r.generators } := by
  obtain ⟨stack, outers, heq⟩ := writeOuters_eq vm r.written
  refine ⟨stack, outers ++ r.outers.map .closed, ?_⟩
  rw [absorb, heq]

/-- Closing outer variables changes the cells and the list of open ones only.
-/
theorem closeFrom_eq (stackindex : Nat) (ps : List Ref) :
    ∃ outers openouters,
      vm.closeFrom stackindex ps = { vm with outers := outers, openouters := openouters } := by
  induction ps generalizing vm with
  | nil => exact ⟨_, _, rfl⟩
  | cons p ps ih =>
    unfold closeFrom
    split
    · split
      · obtain ⟨outers, openouters, heq⟩ := ih _
        exact ⟨outers, openouters, heq⟩
      · exact ⟨_, _, rfl⟩
    · exact ⟨_, _, rfl⟩

theorem closeOuters_eq (stackindex : Nat) :
    ∃ outers openouters,
      vm.closeOuters stackindex = { vm with outers := outers, openouters := openouters } :=
  closeFrom_eq vm stackindex _

/-- A frame that is left gives its registers up. -/
theorem leaveFrame_eq {ci : CallInfo} {rest : List CallInfo} (h : vm.callstack = ci :: rest) :
    ∃ stack outers openouters, vm.leaveFrame = { vm with
      stackbase := vm.stackbase - ci.prevstkbase
      top := vm.stackbase - ci.prevstkbase + ci.prevtop
      callstack := rest, stack := stack, outers := outers, openouters := openouters } := by
  unfold leaveFrame
  rw [h]
  obtain ⟨outers, openouters, heq⟩ := closeOuters_eq { vm with
    stackbase := vm.stackbase - ci.prevstkbase
    top := vm.stackbase - ci.prevstkbase + ci.prevtop
    callstack := rest } vm.stackbase
  refine ⟨fun m => if vm.stackbase - ci.prevstkbase + ci.prevtop ≤ m ∧ m ≤ vm.top then .null
    else vm.stack m, outers, openouters, ?_⟩
  dsimp only
  rw [heq]
  rfl

end

/-! ### Quiet operations -/

/-- What the rest of the system promises: code that runs nested leaves the generators with the
traps of their frames, and references are made and followed without running any. -/
structure Sound (rt : Runtime) : Prop where
  saved : ∀ q heap closures generators outers, (∀ g ∈ generators, Saved g) →
    ∀ g ∈ (rt.serve q heap closures generators outers).generators, Saved g
  weakRef : ∀ o heap closures generators outers,
    (rt.serve (.weakRef o) heap closures generators outers).generators = generators
  strongRef : ∀ o heap closures generators outers, ∃ v,
    (rt.serve (.strongRef o) heap closures generators outers).result = .ok (.values [v]) ∧
      (rt.serve (.strongRef o) heap closures generators outers).generators = generators

theorem calm_stack (vm : VM Heap) (stack : Nat → Object) : Calm vm { vm with stack := stack } :=
  ⟨⟨rfl, id, rfl, rfl, ⟨id, fun _ => .refl _, by simp⟩, List.prefix_refl _, fun h => h⟩, rfl⟩

theorem calm_outers (vm : VM Heap) (stack : Nat → Object) (outers : List Outer)
    (openouters : List Ref) :
    Calm vm { vm with stack := stack, outers := outers, openouters := openouters } :=
  ⟨⟨rfl, id, rfl, rfl, ⟨id, fun _ => .refl _, by simp⟩, List.prefix_refl _, fun h => h⟩, rfl⟩

theorem calm_close (vm : VM Heap) (stackindex : Nat) : Calm vm (vm.closeOuters stackindex) := by
  obtain ⟨outers, openouters, heq⟩ := closeOuters_eq vm stackindex
  rw [heq]
  exact calm_outers vm _ outers openouters

theorem calm_generators (vm : VM Heap) (generators : List Generator)
    (hsaved : (∀ g ∈ vm.generators, Saved g) → ∀ g ∈ generators, Saved g) :
    Calm vm { vm with generators := generators } :=
  ⟨⟨rfl, id, rfl, rfl, ⟨id, fun _ => .refl _, by simp⟩, List.prefix_refl _, hsaved⟩, rfl⟩

theorem calm_serve {rt : Runtime} (hrt : Sound rt) (vm : VM rt.Heap) (q : Request) :
    Calm vm (vm.absorb (served rt vm q)) := by
  obtain ⟨stack, outers, heq⟩ := absorb_eq vm (served rt vm q)
  rw [heq]
  exact ⟨⟨rfl, id, rfl, rfl, ⟨id, fun _ => .refl _, by simp⟩, List.prefix_append _ _,
    hrt.saved q _ _ _ _⟩, rfl⟩

theorem quiet_modifyHead (vm : VM Heap) {f : CallInfo → CallInfo} (hf : ∀ ci, Alike ci (f ci)) :
    Quiet vm { vm with callstack := vm.callstack.modifyHead f } :=
  ⟨rfl, id, rfl, rfl, ⟨f, hf, rfl⟩, List.prefix_refl _, fun h => h⟩

theorem quiet_top (vm : VM Heap) {n : Nat} (hn : vm.top ≤ n) : Quiet vm { vm with top := n } :=
  ⟨rfl, fun hwindow => Nat.le_trans hwindow hn, rfl, rfl, ⟨id, fun _ => .refl _, by simp⟩,
    List.prefix_refl _, fun h => h⟩

/-- Whatever an instruction does without a trap is quiet. -/
theorem quiet_trapless {rt : Runtime} (hrt : Sound rt) :
    Trapless rt (fun _ => True) Quiet where
  set vm a v _ := (calm_stack vm _).1
  ip vm f hf := quiet_modifyHead vm fun ci => .of_fixed (hf ci).1 (hf ci).2
  serve vm q := (calm_serve hrt vm q).1
  write vm p v := by
    obtain ⟨stack, outers, heq⟩ := writeOuter_eq vm p v
    rw [heq]
    exact (calm_outers vm stack outers _).1
  close vm stackindex := (calm_close vm stackindex).1

section

variable {P : List Bool → Prop} {below : List CallInfo} {vm vm' : VM Heap}

theorem Trapped.calm (h : Trapped P below vm) (hcalm : Calm vm vm') : Trapped P below vm' :=
  h.congr hcalm.1.stackbase hcalm.1.window hcalm.2 hcalm.1.etraps hcalm.1.traps
    (hcalm.1.saved h.saved)

/-- The counters of the current frame may change, but not its traps. -/
theorem Trapped.modifyHead (h : Trapped P below vm) (hP : ¬ P []) {f : CallInfo → CallInfo}
    (hf : ∀ ci, Alike ci (f ci)) :
    Trapped P below { vm with callstack := vm.callstack.modifyHead f } := by
  obtain ⟨ci, mine, hstack, hroots, htraps⟩ := h.head hP
  have hstack' : vm.callstack.modifyHead f = f ci :: (mine ++ below) := by rw [hstack]; rfl
  refine ⟨h.window, ?_, ⟨f ci :: mine, hstack', ?_, ?_⟩, h.saved⟩
  · have howned := h.owned
    rw [hstack] at howned
    rw [hstack']
    exact howned.head_congr (hf ci).2.2 (hf ci).2.1
  · rw [List.map_cons, (hf ci).1]
    exact hroots
  · simpa [trapsOf_cons, (hf ci).2.2] using htraps

theorem Trapped.quiet (h : Trapped P below vm) (hP : ¬ P []) (hquiet : Quiet vm vm') :
    Trapped P below vm' := by
  obtain ⟨f, hf, hstack⟩ := hquiet.callstack
  exact (h.modifyHead hP hf).congr hquiet.stackbase hquiet.window hstack hquiet.etraps hquiet.traps
    (hquiet.saved h.saved)

theorem HeadZero.modifyHead (h : HeadZero vm) {f : CallInfo → CallInfo}
    (hf : ∀ ci, Alike ci (f ci)) :
    HeadZero { vm with callstack := vm.callstack.modifyHead f } := by
  intro ci hci
  cases hcs : vm.callstack with
  | nil => simp [hcs] at hci
  | cons ci' rest =>
      simp only [hcs, List.modifyHead_cons, List.head?_cons, Option.mem_some_iff] at hci
      obtain rfl := hci
      rw [(hf ci').2.2]
      exact h ci' (by rw [hcs]; rfl)

theorem HeadZero.quiet (h : HeadZero vm) (hquiet : Quiet vm vm') : HeadZero vm' := by
  obtain ⟨f, hf, hstack⟩ := hquiet.callstack
  intro ci hci
  rw [hstack] at hci
  exact h.modifyHead hf ci hci

end

/-! ### Frames -/

/-- The errors a script can catch come with a state that meets `p`. -/
def Raises (p : VM Heap → Prop) : Stop → VM Heap → Prop
  | .raise _, vm => p vm
  | .undefined, _ => True

section

variable {P : List Bool → Prop} {below : List CallInfo} {b : Bool}

theorem Raises.mono {e e' : VM Heap → Prop} (h : ∀ vm, e vm → e' vm) (x : Stop)
    (vm : VM Heap) (hx : Raises e x vm) : Raises e' x vm := by
  cases x with
  | raise err => exact h vm hx
  | undefined => trivial

theorem raises_of {p : VM Heap → Prop} (x : Stop) (vm : VM Heap) (h : p vm) : Raises p x vm := by
  cases x with
  | raise err => exact h
  | undefined => trivial

theorem ends_undefined {p : VM Heap → Prop} {q : α → VM Heap → Prop} {e : VM Heap → Prop} :
    Ends p (undefined : VMM Heap α) q (Raises e) := fun _ _ => trivial

theorem ends_raiseError {p : VM Heap → Prop} {q : α → VM Heap → Prop} {e : VM Heap → Prop}
    (h : ∀ vm, p vm → e vm) (msg : String) :
    Ends p (raiseError msg : VMM Heap α) q (Raises e) := fun vm hvm => h vm hvm

/-- A quiet operation, with what it keeps. -/
theorem quiet_ends {m : VMM Heap α} (h : Within Quiet m) {p e : VM Heap → Prop}
    (hp : ∀ vm vm', Quiet vm vm' → p vm → p vm') (he : ∀ vm, p vm → e vm) :
    Ends p m (fun _ => p) (Raises e) :=
  h.ends hp fun x vm hvm => raises_of x vm (he vm hvm)

/-- A new frame. -/
theorem Trapped.push {vm : VM Heap} (h : Trapped P below vm) {newbase newtop : Nat}
    (hbase : vm.stackbase ≤ newbase) (htop : newbase ≤ newtop) :
    Trapped (Pushed false P) below { vm with
      callstack := {
        prevstkbase := newbase - vm.stackbase
        prevtop := vm.top - vm.stackbase } :: vm.callstack
      stackbase := newbase
      top := newtop } where
  window := htop
  owned := by
    refine ⟨Nat.zero_le _, fun et het => ?_, ?_⟩
    · cases het
    · dsimp only
      rw [List.drop_zero, Nat.sub_sub_self hbase]
      exact h.owned
  frames := by
    obtain ⟨mine, hstack, hP, htraps⟩ := h.frames
    refine ⟨_ :: mine, by rw [hstack]; rfl, ⟨_, rfl, hP⟩, ?_⟩
    simpa [trapsOf_cons] using htraps
  saved := h.saved

/-- What is true of the state left behind holds however the computation ends. -/
theorem ends_leaves {m : VMM Heap α} {p q e : VM Heap → Prop}
    (h : ∀ vm, p vm → q (leaves m vm)) (he : ∀ vm, q vm → e vm) :
    Ends p m (fun _ => q) (Raises e) := by
  intro vm hvm
  have hq := h vm hvm
  unfold leaves at hq
  cases hm : m vm with
  | ok a vm' =>
      rw [hm] at hq
      exact hq
  | error x vm' =>
      rw [hm] at hq
      exact raises_of x vm' (he vm' hq)

/-- The stack may have grown. -/
def Resized (vm vm' : VM Heap) : Prop := ∃ n, vm' = { vm with stacksize := n }

instance : Std.Refl (@Resized Heap) where
  refl vm := ⟨vm.stacksize, rfl⟩

instance : IsTrans (VM Heap) Resized where
  trans _ _ _ h h' := by
    obtain ⟨n, rfl⟩ := h
    obtain ⟨m, rfl⟩ := h'
    exact ⟨m, rfl⟩

/-- Moving the window may also have the stack grow. -/
theorem leaves_setWindow (newbase newtop : Nat) (vm : VM Heap) :
    ∃ n, leaves (setWindow newbase newtop) vm =
      { vm with stackbase := newbase, top := newtop, stacksize := n } := by
  have hgrow : Within Resized (do
      let vm ← get
      when (vm.stacksize < newtop + MIN_STACK_OVERHEAD) do
        when (vm.nmetamethodscall ≠ 0) do
          raiseError "stack overflow, cannot resize stack while in a metamethod"
        modify fun vm => { vm with stacksize := newtop + MIN_STACK_OVERHEAD * 4 } : VMM Heap Unit) := by
    refine within_bind within_get fun vm => within_when fun _ => ?_
    refine within_bind (within_when fun _ => within_raiseError _) fun _ => ?_
    exact within_modify fun vm => ⟨_, rfl⟩
  obtain ⟨n, hn⟩ := hgrow { vm with stackbase := newbase, top := newtop }
  exact ⟨n, hn⟩

/-- A frame is pushed with no trap of its own. -/
theorem leaves_enterFrame (newbase newtop : Nat) (vm : VM Heap) :
    ∃ n, leaves (enterFrame newbase newtop false) vm = { vm with
      callstack := {
        prevstkbase := newbase - vm.stackbase
        prevtop := vm.top - vm.stackbase } :: vm.callstack
      stackbase := newbase
      top := newtop
      stacksize := n } := by
  obtain ⟨n, hn⟩ := leaves_setWindow newbase newtop { vm with
    callstack := {
      prevstkbase := newbase - vm.stackbase
      prevtop := vm.top - vm.stackbase } :: vm.callstack }
  exact ⟨n, hn⟩

/-- `EnterFrame` makes a frame without traps, if only to fail. -/
theorem ends_enterFrame {newbase newtop base : Nat} (hbase : base ≤ newbase)
    (htop : newbase ≤ newtop) :
    Ends (fun vm : VM Heap => Trapped P below vm ∧ vm.stackbase = base)
      (enterFrame newbase newtop false : VMM Heap Unit)
      (fun _ vm => Trapped (Pushed false P) below vm ∧ HeadZero vm ∧ vm.stackbase = newbase)
      (Raises (Trapped (Pushed false P) below)) := by
  apply ends_leaves (fun vm h => ?_) fun vm h => h.1
  obtain ⟨htrapped, rfl⟩ := h
  obtain ⟨n, hn⟩ := leaves_enterFrame newbase newtop vm
  rw [hn]
  refine ⟨(htrapped.push hbase htop).congr rfl id rfl rfl rfl htrapped.saved, ?_, rfl⟩
  intro ci hci
  obtain rfl := Option.some.inj hci
  rfl

/-- A frame that is taken over keeps its traps. -/
theorem quiet_enterFrame_tailcall {newbase newtop : Nat} (htop : newbase ≤ newtop) {vm : VM Heap}
    (hbase : vm.stackbase = newbase) : Quiet vm (leaves (enterFrame newbase newtop true) vm) := by
  subst hbase
  obtain ⟨n, hn⟩ := leaves_setWindow vm.stackbase newtop { vm with
    callstack := vm.callstack.modifyHead fun ci => { ci with ncalls := ci.ncalls + 1 } }
  have hleaves : leaves (enterFrame vm.stackbase newtop true) vm =
      leaves (setWindow vm.stackbase newtop) { vm with
        callstack := vm.callstack.modifyHead fun ci => { ci with ncalls := ci.ncalls + 1 } } := rfl
  rw [hleaves, hn]
  exact ⟨rfl, fun _ => htop, rfl, rfl, ⟨fun ci => { ci with ncalls := ci.ncalls + 1 },
    fun _ => ⟨rfl, rfl, rfl⟩, rfl⟩, List.prefix_refl _, fun h => h⟩

/-- Without the current frame the counts agree. -/
structure Leaving (b : Bool) (P : List Bool → Prop) (below : List CallInfo) (vm : VM Heap) :
    Prop where
  frames : ∃ ci mine, vm.callstack = ci :: (mine ++ below) ∧ ci.root = b ∧
    P (mine.map (·.root)) ∧ vm.traps = trapsOf mine ∧
    Owned (vm.stackbase - ci.prevstkbase) (mine ++ below) vm.etraps
  saved : ∀ g ∈ vm.generators, Saved g

/-- A frame without traps may be left. -/
theorem Trapped.leaving {vm : VM Heap} (h : Trapped (Pushed b P) below vm)
    (hzero : HeadZero vm) : Leaving b P below vm := by
  obtain ⟨ci, mine, hstack, ⟨roots, hroots, hP⟩, htraps⟩ := h.head not_pushed_nil
  obtain ⟨hroot, rfl⟩ := List.cons.inj hroots
  have hci : ci.etraps = 0 := hzero ci (by rw [hstack]; rfl)
  have howned := h.owned
  rw [hstack, Owned, hci, List.drop_zero] at howned
  exact ⟨⟨ci, mine, hstack, hroot, hP, by simpa [hci] using htraps, howned.2.2⟩, h.saved⟩

theorem Leaving.calm {vm vm' : VM Heap} (h : Leaving b P below vm) (hcalm : Calm vm vm') :
    Leaving b P below vm' := by
  obtain ⟨ci, mine, hstack, hroot, hP, htraps, howned⟩ := h.frames
  refine ⟨⟨ci, mine, hcalm.2.trans hstack, hroot, hP, hcalm.1.traps.trans htraps, ?_⟩,
    hcalm.1.saved h.saved⟩
  rw [hcalm.1.stackbase, hcalm.1.etraps]
  exact howned

theorem Leaving.leaveFrame {vm : VM Heap} (h : Leaving b P below vm) :
    Trapped P below vm.leaveFrame := by
  obtain ⟨ci, mine, hstack, -, hP, htraps, howned⟩ := h.frames
  obtain ⟨stack, outers, openouters, heq⟩ := leaveFrame_eq vm hstack
  rw [heq]
  exact ⟨Nat.le_add_right _ _, howned, ⟨mine, rfl, hP, htraps⟩, h.saved⟩

/-- A result goes to a register of the caller, if there is one. -/
theorem storeResult_apply (c : Prop) [Decidable c] (callerbase : Nat) (target : Int) (v : Object)
    (vm : VM Heap) :
    (∃ vm', (when c do
        let slot ← resultSlot callerbase target
        modify fun vm => vm.setSlot slot v : VMM Heap Unit) vm = .ok () vm' ∧ Calm vm vm') ∨
      (when c do
        let slot ← resultSlot callerbase target
        modify fun vm => vm.setSlot slot v : VMM Heap Unit) vm = .error .undefined vm := by
  unfold when
  split
  · unfold resultSlot
    dsimp only
    split
    · exact .inl ⟨_, rfl, calm_stack vm _⟩
    · exact .inr rfl
  · exact .inl ⟨vm, rfl, Std.Refl.refl vm⟩

/-- The result of `Return` is for the caller of `Execute` if the frame is the first one. -/
theorem ends_Return (arg0 arg1 : Nat) :
    Ends (Leaving b P below) (Return arg0 arg1 : VMM Heap (Option Object))
      (fun o vm => Trapped P below vm ∧ o.isSome = b) (Raises fun _ => False) := by
  intro vm h
  obtain ⟨ci, mine, hstack, hroot, -⟩ := h.frames
  have hvalue : (if ci.root then some (vm.returnValue arg0 arg1) else none).isSome = b := by
    cases hr : ci.root <;> simp [← hroot, hr]
  rw [Return, get_bind_apply, bind_apply, getCi_apply hstack]
  dsimp only
  rw [bind_apply]
  rcases storeResult_apply (!ci.root ∧ ci.target ≠ -1) (vm.stackbase - ci.prevstkbase) ci.target
    (vm.returnValue arg0 arg1) vm with ⟨vm', hstore, hcalm⟩ | hstore
  · rw [hstore]
    exact ⟨(h.calm hcalm).leaveFrame, hvalue⟩
  · rw [hstore]
    trivial

/-! ### Setting and removing traps -/

theorem when_undefined_bind (c : Prop) [Decidable c] (f : Unit → VMM Heap α) (vm : VM Heap) :
    (when c undefined >>= f) vm = if c then .error .undefined vm else f () vm := by
  unfold when
  split <;> rfl

/-- PUSHTRAP counts its trap in all three places. -/
theorem ends_pushTrap (hP : ¬ P []) (i : Instruction) :
    Ends (Trapped P below) (pushTrap i : VMM Heap Unit) (fun _ => Trapped P below)
      (Raises (Trapped P below)) := by
  intro vm h
  obtain ⟨ci, mine, hstack, hroots, htraps⟩ := h.head hP
  rw [pushTrap, get_bind_apply, bind_apply, getCi_apply hstack]
  dsimp only
  rw [when_undefined_bind]
  by_cases hip : (ci.ip : Int) + i.arg1.toInt < 0
  · rw [if_pos hip]
    trivial
  · rw [if_neg hip]
    have howned := h.owned
    rw [hstack] at howned
    obtain ⟨hle, hbase, hrest⟩ := howned
    have hnew : Trapped P below { vm with
        etraps := {
          stackbase := vm.stackbase
          stacksize := vm.top
          ip := ((ci.ip : Int) + i.arg1.toInt).toNat
          extarget := i.arg0.toNat } :: vm.etraps
        traps := vm.traps + 1
        callstack := { ci with etraps := ci.etraps + 1 } :: (mine ++ below) } := by
      refine ⟨h.window, ⟨Nat.succ_le_succ hle, ?_, hrest⟩,
        ⟨{ ci with etraps := ci.etraps + 1 } :: mine, rfl, hroots, ?_⟩, h.saved⟩
      · intro et het
        rw [List.take_succ_cons] at het
        rcases List.mem_cons.mp het with rfl | het
        · exact ⟨rfl, h.window⟩
        · exact hbase et het
      · simp only [trapsOf_cons]
        push_cast
        omega
    refine hnew.congr rfl id ?_ rfl rfl h.saved
    change vm.callstack.modifyHead _ = _
    rw [hstack]
    rfl

/-- POPTRAP takes off in all three places what its frame has. -/
theorem ends_popTraps (hP : ¬ P []) (n : Nat) :
    Ends (fun vm => Trapped P below vm ∧ ∀ ci ∈ vm.callstack.head?, n ≤ ci.etraps)
      (popTraps n : VMM Heap Unit) (fun _ => Trapped P below) (Raises (Trapped P below)) := by
  rintro vm ⟨h, hn⟩
  obtain ⟨ci, mine, hstack, hroots, htraps⟩ := h.head hP
  have hnci : n ≤ ci.etraps := hn ci (by rw [hstack]; rfl)
  rw [popTraps, get_bind_apply, when_undefined_bind]
  by_cases hlen : vm.etraps.length < n
  · rw [if_pos hlen]
    trivial
  · rw [if_neg hlen]
    have howned := h.owned
    rw [hstack] at howned
    obtain ⟨hle, hbase, hrest⟩ := howned
    have hnew : Trapped P below { vm with
        etraps := vm.etraps.drop n
        traps := vm.traps - n
        callstack := { ci with etraps := ci.etraps - n } :: (mine ++ below) } := by
      refine ⟨h.window, ⟨?_, ?_, ?_⟩,
        ⟨{ ci with etraps := ci.etraps - n } :: mine, rfl, hroots, ?_⟩, h.saved⟩
      · dsimp only
        rw [List.length_drop]
        omega
      · intro et het
        dsimp only at het
        rw [← List.drop_take] at het
        exact hbase et (List.mem_of_mem_drop het)
      · dsimp only
        rw [List.drop_drop, Nat.add_sub_cancel' hnci]
        exact hrest
      · simp only [trapsOf_cons]
        push_cast
        omega
    refine hnew.congr rfl id ?_ rfl rfl h.saved
    change vm.callstack.modifyHead _ = _
    rw [hstack]
    rfl

/-! ### Suspending and resuming -/

theorem mem_modify {l : List α} {n : Nat} {f : α → α} {a : α} (h : a ∈ l.modify n f) :
    a ∈ l ∨ ∃ b, l[n]? = some b ∧ a = f b := by
  obtain ⟨m, hm⟩ := List.mem_iff_getElem?.mp h
  rw [List.getElem?_modify] at hm
  obtain ⟨b, hb, hf⟩ := Option.map_eq_some_iff.mp hm
  by_cases hn : n = m
  · rw [if_pos hn] at hf
    exact .inr ⟨b, hn ▸ hb, hf.symm⟩
  · rw [if_neg hn] at hf
    exact .inl (hf ▸ List.mem_of_getElem? hb)

/-- What is asked leaves its answer in the state, whether it fails or not. -/
theorem leaves_ask1 (rt : Runtime) (q : Request) (vm : VM rt.Heap) :
    leaves (rt.ask1 q) vm = vm.absorb (served rt vm q) := by
  have hnative : leaves (rt.askNative q) vm = vm.absorb (served rt vm q) := by
    unfold leaves Runtime.askNative
    dsimp only
    cases (rt.serve q vm.heap vm.closures vm.generators vm.outerValues).result <;> rfl
  have hask : leaves (rt.ask q) vm = vm.absorb (served rt vm q) := by
    rw [Runtime.ask, leaves_bind, ← hnative]
    cases hr : rt.askNative q vm with
    | error x vm' => rw [leaves_error hr]
    | ok answer vm' =>
        rw [leaves_ok hr]
        cases answer <;> rfl
  rw [Runtime.ask1, leaves_bind, ← hask]
  cases hr : rt.ask q vm with
  | error x vm' => rw [leaves_error hr]
  | ok vs vm' =>
      rw [leaves_ok hr]
      dsimp only
      split <;> rfl

theorem absorb_generators (vm : VM Heap) (r : Response Heap) :
    (vm.absorb r).generators = r.generators := by
  obtain ⟨stack, outers, heq⟩ := absorb_eq vm r
  rw [heq]

/-- The object behind a reference. -/
theorem ask1_strongRef {rt : Runtime} (hrt : Sound rt) (o : Object) (vm : VM rt.Heap) :
    ∃ v vm', rt.ask1 (.strongRef o) vm = .ok v vm' ∧ Calm vm vm' ∧
      vm'.generators = vm.generators := by
  obtain ⟨v, hv, hsame⟩ := hrt.strongRef o vm.heap vm.closures vm.generators vm.outerValues
  have hnative : rt.askNative (.strongRef o) vm =
      .ok (.values [v]) (vm.absorb (served rt vm (.strongRef o))) := by
    unfold Runtime.askNative
    dsimp only
    rw [hv]
    rfl
  refine ⟨v, vm.absorb (served rt vm (.strongRef o)), ?_, calm_serve hrt vm _, ?_⟩
  · rw [Runtime.ask1, bind_apply, Runtime.ask, bind_apply, hnative]
    rfl
  · rw [absorb_generators]
    exact hsame

/-- The frame of a generator that is suspended can be left. -/
theorem Trapped.suspend {vm : VM Heap} (h : Trapped (Pushed b P) below vm) {ci : CallInfo}
    {rest : List CallInfo} (hstack : vm.callstack = ci :: rest) {p : Ref}
    (hgen : ∀ g, vm.generators[p]? = some g → g.etraps = []) (stack : Nat → Object)
    (values : List Object) {etraps : List ExceptionTrap} (hlen : etraps.length = ci.etraps)
    (hbase : ∀ et ∈ etraps, et.stackbase = 0) :
    Leaving b P below { vm with
      stack := stack
      etraps := vm.etraps.drop ci.etraps
      traps := vm.traps - ci.etraps
      generators := vm.generators.modify p fun g => { g with
        state := .eSuspended
        stack := values
        ci := { ci with generator := none }
        etraps := etraps.reverse ++ g.etraps } } := by
  obtain ⟨ci', mine, hstack', ⟨roots, hroots, hP⟩, htraps⟩ := h.head not_pushed_nil
  obtain ⟨hroot, rfl⟩ := List.cons.inj hroots
  rw [hstack] at hstack'
  obtain ⟨rfl, rfl⟩ := List.cons.inj hstack'
  have howned := h.owned
  rw [hstack] at howned
  refine ⟨⟨ci, mine, hstack, hroot, hP, ?_, howned.2.2⟩, ?_⟩
  · dsimp only
    omega
  · intro g hg
    rcases mem_modify hg with hg | ⟨g', hg', rfl⟩
    · exact h.saved g hg
    · have hnil := hgen g' hg'
      refine ⟨?_, ?_⟩
      · simp [hnil, hlen]
      · intro et het
        rw [hnil, List.append_nil, List.mem_reverse] at het
        exact hbase et het

/-- A generator takes the traps of its frame with it. -/
theorem ends_yieldGenerator {rt : Runtime} (hrt : Sound rt) (p : Ref) (target n : Nat) :
    Ends (fun vm => Trapped (Pushed b P) below vm ∧ ∀ ci ∈ vm.callstack.head?, ci.etraps = n)
      (yieldGenerator rt p target)
      (fun _ vm => Leaving b P below { vm with traps := vm.traps - n })
      (Raises (Trapped (Pushed b P) below)) := by
  rintro vm ⟨h, hn⟩
  obtain ⟨ci, mine, hstack, -⟩ := h.head not_pushed_nil
  have hci : ci.etraps = n := hn ci (by rw [hstack]; rfl)
  have howned := h.owned
  rw [hstack] at howned
  obtain ⟨hle, hbase, -⟩ := howned
  rw [yieldGenerator, get_bind_apply, bind_apply, getCi_apply hstack]
  dsimp only
  cases hg : vm.generators[p]? with
  | none => trivial
  | some g =>
      have hsaved := h.saved g (List.mem_of_getElem? hg)
      rcases hstate : g.state with _ | _ | _
      all_goals simp only [hstate]
      · have hnil : g.etraps = [] := by
          rw [Saved, hstate] at hsaved
          exact hsaved
        have hcalm := calm_serve hrt vm (.weakRef (vm.stack vm.stackbase))
        have hleaves := leaves_ask1 rt (.weakRef (vm.stack vm.stackbase)) vm
        have hgen := absorb_generators vm (served rt vm (.weakRef (vm.stack vm.stackbase)))
        have hsame : (served rt vm (.weakRef (vm.stack vm.stackbase))).generators = vm.generators :=
          hrt.weakRef _ _ _ _ _
        rw [hsame] at hgen
        rw [bind_apply]
        cases hask : rt.ask1 (.weakRef (vm.stack vm.stackbase)) vm with
        | error x vm₁ =>
            rw [leaves_error hask] at hleaves
            rw [hleaves]
            exact raises_of x _ (h.calm hcalm)
        | ok this vm₁ =>
            rw [leaves_ok hask] at hleaves
            rw [← hleaves] at hcalm hgen
            have hetraps := hcalm.1.etraps
            have hsuspend := (h.calm hcalm).suspend (hcalm.2.trans hstack) (p := p)
              (fun g' hg' => by
                rw [hgen, hg] at hg'
                exact Option.some.inj hg' ▸ hnil)
            have htake : vm.etraps.take ci.etraps = vm₁.etraps.take ci.etraps := by rw [hetraps]
            obtain rfl := hci
            exact hsuspend _ _ (by simp [hle]) (by
              intro et het
              obtain ⟨et', het', rfl⟩ := List.mem_map.mp het
              simp [(hbase et' het').1])
      · exact h
      · exact h

/-- Perhaps one frame more than `P` asks for. -/
def Grown (P : List Bool → Prop) (roots : List Bool) : Prop := P roots ∨ Pushed false P roots

/-- The frame of a suspended generator comes back with its traps. -/
theorem Trapped.resume {vm : VM Heap} {root : Bool} (h : Trapped (Pushed root P) below vm)
    {ci : CallInfo} (ci' : CallInfo) {rest : List CallInfo} (hstack : vm.callstack = ci :: rest)
    (hzero : ci.etraps = 0) (hprev : ci'.prevstkbase = ci.prevstkbase)
    {etraps : List ExceptionTrap} (hlen : etraps.length = ci'.etraps)
    (hbase : ∀ et ∈ etraps, et.stackbase = vm.stackbase ∧ vm.stackbase ≤ et.stacksize) :
    Trapped (Pushed ci'.root P) below { vm with
      callstack := ci' :: rest
      etraps := etraps.reverse ++ vm.etraps
      traps := vm.traps + ci'.etraps } := by
  obtain ⟨ci₀, mine, hstack', ⟨roots, hroots, hP⟩, htraps⟩ := h.head not_pushed_nil
  obtain ⟨-, rfl⟩ := List.cons.inj hroots
  rw [hstack] at hstack'
  obtain ⟨rfl, rfl⟩ := List.cons.inj hstack'
  have howned := h.owned
  rw [hstack, Owned, hzero, List.drop_zero] at howned
  have hlen' : etraps.reverse.length = ci'.etraps := by rw [List.length_reverse, hlen]
  refine ⟨h.window, ⟨?_, ?_, ?_⟩, ⟨ci' :: mine, rfl, ⟨_, rfl, hP⟩, ?_⟩, h.saved⟩
  · dsimp only
    rw [List.length_append, hlen']
    exact Nat.le_add_right _ _
  · intro et het
    rw [← hlen', List.take_left, List.mem_reverse] at het
    exact hbase et het
  · dsimp only
    rw [← hlen', List.drop_left, hprev]
    exact howned.2.2
  · simp only [trapsOf_cons]
    push_cast
    omega

theorem Trapped.grown {vm : VM Heap} (h : Trapped P below vm) : Trapped (Grown P) below vm :=
  h.mono fun _ => .inl

theorem Trapped.grown_pushed {vm : VM Heap} (h : Trapped (Pushed false P) below vm) :
    Trapped (Grown P) below vm := h.mono fun _ => .inr

/-- The frame as `Resume` fills it in. -/
def resumed (g : Generator) (p : Ref) (target : Nat) (ci : CallInfo) : CallInfo :=
  { ci with
    generator := some p
    target := target
    closure := g.ci.closure
    ip := g.ci.ip
    ncalls := g.ci.ncalls
    etraps := g.ci.etraps
    root := g.ci.root }

/-- `Resume` gives the traps back to the frame, but does not count them. -/
theorem ends_resumeGenerator {rt : Runtime} (hrt : Sound rt) (p : Ref) (target : Nat)
    (g : Generator) :
    Ends (fun vm => Trapped P below vm ∧ vm.generators[p]? = some g)
      (resumeGenerator rt p target)
      (fun _ vm => Trapped (Pushed g.ci.root P) below { vm with traps := vm.traps + g.ci.etraps } ∧
        (∀ ci ∈ vm.callstack.head?, ci.etraps = g.ci.etraps) ∧ g.state = .eSuspended)
      (Raises (Trapped (Grown P) below)) := by
  rintro vm ⟨h, hg⟩
  rw [resumeGenerator, get_bind_apply]
  dsimp only
  rw [hg]
  have hsaved := h.saved g (List.mem_of_getElem? hg)
  rcases hstate : g.state with _ | _ | _
  all_goals simp only [hstate]
  · exact h.grown
  · rw [Saved, hstate] at hsaved
    obtain ⟨hlen, hbase⟩ := hsaved
    have hle : vm.top ≤ vm.top + g.stack.length := Nat.le_add_right _ _
    obtain ⟨n, hn⟩ := leaves_enterFrame vm.top (vm.top + g.stack.length) vm
    have hpush : Trapped (Pushed false P) below
        (leaves (enterFrame vm.top (vm.top + g.stack.length) false) vm) := by
      rw [hn]
      exact (h.push h.window hle).congr rfl id rfl rfl rfl h.saved
    rw [bind_apply]
    cases hr : enterFrame vm.top (vm.top + g.stack.length) false vm with
    | error x vm₁ =>
        rw [leaves_error hr] at hpush
        exact raises_of x _ hpush.grown_pushed
    | ok _ vm₁ =>
        rw [leaves_ok hr] at hn hpush
        obtain ⟨this, vm₂, hthis, hcalm, hgen⟩ := ask1_strongRef hrt (g.stack.headD .null)
          { vm₁ with callstack := vm₁.callstack.modifyHead (resumed g p target) }
        have hbind (f : Object → VMM rt.Heap Unit) :
            (rt.ask1 (.strongRef (g.stack.headD .null)) >>= f)
              { vm₁ with callstack := vm₁.callstack.modifyHead (resumed g p target) } =
              f this vm₂ := by
          rw [bind_apply, hthis]
        unfold resumed at hbind
        dsimp only
        rw [VM.modifyCi, bind_apply, modify_apply]
        dsimp only
        rw [hbind]
        have hstack₁ : vm₁.callstack = {
            prevstkbase := vm.top - vm.stackbase
            prevtop := vm.top - vm.stackbase } :: vm.callstack := by rw [hn]
        have hstack₂ : vm₂.callstack = resumed g p target {
            prevstkbase := vm.top - vm.stackbase
            prevtop := vm.top - vm.stackbase } :: vm.callstack := by
          rw [hcalm.2]
          dsimp only
          rw [hstack₁]
          rfl
        have hbase₂ : vm₂.stackbase = vm.top := by
          rw [hcalm.1.stackbase]
          dsimp only
          rw [hn]
        have hframe : Trapped (Pushed false P) below { vm₂ with callstack := vm₁.callstack } :=
          hpush.congr hcalm.1.stackbase hcalm.1.window rfl hcalm.1.etraps hcalm.1.traps
            (hcalm.1.saved hpush.saved)
        have hgen₂ : vm₂.generators[p]? = some g := by
          rw [hgen, hn]
          exact hg
        have hetraps : ∀ et ∈ (g.etraps.take g.ci.etraps).map fun et => { et with
              stackbase := et.stackbase + vm.top
              stacksize := et.stacksize + vm.top },
            et.stackbase = vm₂.stackbase ∧ vm₂.stackbase ≤ et.stacksize := by
          intro et het
          obtain ⟨et', het', rfl⟩ := List.mem_map.mp het
          rw [hbase₂]
          exact ⟨by simp [hbase et' (List.mem_of_mem_take het')], Nat.le_add_left _ _⟩
        have hresume := hframe.resume (resumed g p target {
            prevstkbase := vm.top - vm.stackbase
            prevtop := vm.top - vm.stackbase }) hstack₁ rfl rfl (by simp [resumed, hlen]) hetraps
        refine ⟨hresume.congr rfl id hstack₂ rfl rfl fun g' hg' => ?_, fun ci hci => ?_, trivial⟩
        · rcases mem_modify hg' with hg' | ⟨g'', hg'', rfl⟩
          · exact hframe.saved g' hg'
          · obtain rfl := Option.some.inj (hgen₂.symm.trans hg'')
            exact List.drop_of_length_le (Nat.le_of_eq hlen)
        · change ci ∈ vm₂.callstack.head? at hci
          rw [hstack₂] at hci
          obtain rfl := Option.some.inj hci
          rfl
  · exact h.grown

end

end GameScript.VM
