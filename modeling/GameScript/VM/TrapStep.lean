import GameScript.VM.Traps

/-!
What each instruction does to the traps. Calls, returns and suspended generators move frames
with their traps; everything else is quiet. An error goes to the last frame that has a trap.
-/

namespace GameScript.VM

open Effect

variable {rt : Runtime} {α : Type} {P : List Bool → Prop} {below : List CallInfo}

theorem not_grown_nil (hP : ¬ P []) : ¬ Grown P [] := by
  rintro (h | h)
  · exact hP h
  · exact not_pushed_nil h

theorem grown_rooted {roots : List Bool} (h : Grown Rooted roots) : Rooted roots := by
  rcases h with h | ⟨roots, rfl, h⟩
  · exact h
  · exact h.cons

theorem rooted_of_grown {vm : VM rt.Heap} (h : Trapped (Grown Rooted) below vm) :
    Trapped Rooted below vm := h.mono fun _ => grown_rooted

/-- The counts agree before and after `m`, whether it fails or not. -/
def Counts (P : List Bool → Prop) (below : List CallInfo) (m : VMM rt.Heap α) : Prop :=
  Ends (Trapped P below) m (fun _ => Trapped P below) (Raises (Trapped P below))

theorem Counts.ends {m : VMM rt.Heap α} (h : Counts P below m) {e : VM rt.Heap → Prop}
    (he : ∀ vm, Trapped P below vm → e vm) :
    Ends (Trapped P below) m (fun _ => Trapped P below) (Raises e) := by
  exact Ends.mono h (fun _ h => h) (fun _ _ h => h) (Raises.mono he)

theorem counts_calm {m : VMM rt.Heap α} (h : Within Calm m) : Counts P below m :=
  h.ends (fun _ _ hcalm htrapped => htrapped.calm hcalm) raises_of

theorem counts_quiet (hP : ¬ P []) {m : VMM rt.Heap α} (h : Within Quiet m) :
    Counts P below m :=
  h.ends (fun _ _ hquiet htrapped => htrapped.quiet hP hquiet) raises_of

/-- The counts agree after an instruction. With the last frame of this `Execute` its traps are
gone. -/
def Steady (below : List CallInfo) : Control → VM rt.Heap → Prop
  | .returned _ => Trapped (· = []) below
  | .next | .suspended _ => Trapped Rooted below

/-- `m` ends an instruction with the counts in agreement. -/
def Steadies (below : List CallInfo) (p : VM rt.Heap → Prop) (m : VMM rt.Heap Control) : Prop :=
  Ends p m (Steady below) (Raises (Trapped Rooted below))

/-- The counts agree in a frame whose registers are at `base`. -/
def AtBase (base : Nat) (below : List CallInfo) (vm : VM rt.Heap) : Prop :=
  Trapped Rooted below vm ∧ vm.stackbase = base

theorem steadies_of_atBase {m : VMM rt.Heap Control} (h : ∀ base, Steadies below (AtBase base below) m) :
    Steadies below (Trapped Rooted below) m :=
  fun vm hvm => h vm.stackbase vm ⟨hvm, rfl⟩

section

variable {base : Nat}

theorem atBase_quiet {m : VMM rt.Heap α} (h : Within Quiet m) :
    Ends (AtBase base below) m (fun _ => AtBase base below) (Raises (Trapped Rooted below)) :=
  quiet_ends h (fun _ _ hquiet hvm =>
    ⟨hvm.1.quiet not_rooted_nil hquiet, hquiet.stackbase.trans hvm.2⟩) fun _ hvm => hvm.1

theorem steadies_bind {m : VMM rt.Heap α} (h : Within Quiet m) {f : α → VMM rt.Heap Control}
    (hf : ∀ a, Steadies below (AtBase base below) (f a)) :
    Steadies below (AtBase base below) (m >>= f) := Ends.bind (atBase_quiet h) hf

theorem steady_of {o : Control} {vm : VM rt.Heap} (h : Trapped Rooted below vm)
    (ho : ∀ v, o ≠ .returned v) : Steady below o vm := by
  cases o with
  | returned v => exact absurd rfl (ho v)
  | next => exact h
  | suspended v => exact h

/-- The second part may use where the registers are. -/
theorem steadies_get_bind {f : VM rt.Heap → VMM rt.Heap Control}
    (hf : ∀ vm, vm.stackbase = base → Steadies below (AtBase base below) (f vm)) :
    Steadies below (AtBase base below) (get >>= f) := fun vm hvm => hf vm hvm.2 vm hvm

theorem steadies_next : Steadies below (AtBase base below) (pure .next : VMM rt.Heap Control) :=
  ends_pure fun _ h => h.1

theorem steadies_raiseError (msg : String) :
    Steadies below (AtBase base below) (raiseError msg : VMM rt.Heap Control) :=
  ends_raiseError (fun _ h => h.1) msg

end

/-! ### Calls -/

section

variable (hrt : Sound rt)
include hrt

theorem calm_bindArguments (c : Closure) (args stackbase : Nat) :
    Within Calm (bindArguments rt c args stackbase) :=
  within_bindArguments (calm_serve hrt) (fun vm stack => calm_stack vm stack) c args stackbase

/-- A frame without traps, over those that `P` asks for. -/
def Fresh (P : List Bool → Prop) (below : List CallInfo) (vm : VM rt.Heap) : Prop :=
  Trapped (Pushed false P) below vm ∧ HeadZero vm

omit hrt in
theorem fresh_quiet {m : VMM rt.Heap α} (h : Within Quiet m) :
    Ends (Fresh P below) m (fun _ => Fresh P below) (Raises (Trapped (Grown P) below)) :=
  quiet_ends h (fun _ _ hquiet hfresh =>
    ⟨hfresh.1.quiet not_pushed_nil hquiet, hfresh.2.quiet hquiet⟩) fun _ hfresh => hfresh.1.grown_pushed

/-- The frame of a generator function is given up at once. -/
theorem ends_startGenerator (p : Ref) (target : Int) (stacksize : Nat) :
    Ends (Fresh P below) (startGenerator rt p target stacksize)
      (fun _ => Trapped P below) (Raises (Trapped (Grown P) below)) := by
  have hgen : Within Calm (modify fun vm => { vm with
      generators := vm.generators ++ [{ closure := p }] } : VMM rt.Heap Unit) := by
    apply within_modify
    intro vm
    apply calm_generators
    intro hsaved g hg
    rcases List.mem_append.mp hg with hg | hg
    · exact hsaved g hg
    · obtain rfl := List.mem_singleton.mp hg
      rfl
  apply Ends.bind (fresh_quiet within_get)
  intro vm
  apply Ends.bind (fresh_quiet (hgen.mono fun _ _ h => h.1))
  intro _
  apply Ends.bind (q := fun _ => Leaving false P below)
  · apply (ends_yieldGenerator hrt vm.generators.length stacksize 0).mono
    · exact fun vm h => h
    · intro _ vm h
      simpa using h
    · exact Raises.mono fun vm h => h.grown_pushed
  intro _
  apply Ends.bind (q := fun _ => Trapped P below)
  · apply (ends_Return 1 target.toNat).mono (fun _ h => h) (fun _ _ h => h.1)
    exact Raises.mono fun _ h => h.elim
  intro _
  have hslot : Within Calm (do
      let slot ← resultSlot (← get).stackbase target
      modify fun vm' => vm'.setSlot slot (.generator vm.generators.length)
      : VMM rt.Heap Unit) := by
    refine within_bind within_get fun vm' => ?_
    refine within_bind (within_resultSlot _ _) fun slot => ?_
    exact within_modify fun vm' => calm_stack vm' _
  exact (counts_calm hslot).ends fun _ h => h.grown

/-- The frames after a call of `c`: a generator function has given its own up. -/
def Called (c : Closure) (P : List Bool → Prop) : List Bool → Prop :=
  if c.function.bgenerator then P else Pushed false P

omit hrt in
theorem Called.grown {c : Closure} (roots : List Bool) (h : Called c P roots) : Grown P roots := by
  unfold Called at h
  split at h
  · exact .inl h
  · exact .inr h

/-- The end of `StartCall`, in the frame of the callee. -/
theorem ends_enterClosure (p : Ref) (c : Closure) (target : Int) (stacksize : Nat) :
    Ends (Fresh P below) (do
        modifyCi (·.start p target)
        when c.function.bgenerator (startGenerator rt p target stacksize))
      (fun _ => Trapped (Called c P) below) (Raises (Trapped (Grown P) below)) := by
  apply Ends.bind (q := fun _ => Fresh P below)
  · apply ends_modify
    intro vm h
    exact ⟨h.1.modifyHead not_pushed_nil fun _ => ⟨rfl, rfl, rfl⟩,
      h.2.modifyHead fun _ => ⟨rfl, rfl, rfl⟩⟩
  · intro _
    unfold when Called
    split
    · exact ends_startGenerator hrt p target stacksize
    · exact ends_pure fun _ h => h.1

/-- A call makes a frame over those that are there, unless the function is that of a generator. -/
theorem ends_StartCall_closure (p : Ref) (target : Int) {args base stackbase : Nat}
    (hbase : base ≤ stackbase) (c : Closure) :
    Ends (fun vm => (Trapped P below vm ∧ vm.stackbase = base) ∧ vm.closures[p]? = some c)
      (StartCall rt p target args stackbase false)
      (fun _ => Trapped (Called c P) below) (Raises (Trapped (Grown P) below)) := by
  have hcalm {β : Type} {m : VMM rt.Heap β} (h : Within Calm m) :
      Ends (fun vm => Trapped P below vm ∧ vm.stackbase = base) m
        (fun _ vm => Trapped P below vm ∧ vm.stackbase = base)
        (Raises (Trapped (Grown P) below)) :=
    h.ends (fun _ _ hcalm hvm => ⟨hvm.1.calm hcalm, hcalm.1.stackbase.trans hvm.2⟩)
      fun x vm hvm => raises_of x vm hvm.1.grown
  apply Ends.bind (q := fun c' vm => c' = c ∧ Trapped P below vm ∧ vm.stackbase = base)
  · rintro vm ⟨hvm, hc⟩
    rw [getClosure_apply hc]
    exact ⟨rfl, hvm⟩
  rintro _ vm ⟨rfl, hvm⟩
  refine (Ends.bind (hcalm (calm_bindArguments hrt _ args stackbase)) fun _ => ?_) vm hvm
  apply Ends.bind (hcalm (within_bindEnvironment (fun vm stack => calm_stack vm stack) _ stackbase))
  intro _
  apply Ends.bind (q := fun _ => Fresh P below)
  · apply (ends_enterFrame hbase (Nat.le_add_right _ _)).mono (fun _ h => h)
    · exact fun _ _ h => ⟨h.1, h.2.1⟩
    · exact Raises.mono fun _ h => h.grown_pushed
  · exact fun _ => ends_enterClosure hrt p _ target _

/-- A call makes a frame over those that are there. -/
theorem ends_StartCall (p : Ref) (target : Int) {args base stackbase : Nat}
    (hbase : base ≤ stackbase) :
    Ends (fun vm => Trapped P below vm ∧ vm.stackbase = base)
      (StartCall rt p target args stackbase false)
      (fun _ => Trapped (Grown P) below) (Raises (Trapped (Grown P) below)) := by
  intro vm hvm
  cases hc : vm.closures[p]? with
  | none =>
      unfold StartCall
      rw [bind_apply, getClosure_undefined hc]
      trivial
  | some c =>
      refine (ends_StartCall_closure hrt p target hbase c).mono (fun _ h => h) (fun _ _ h => ?_)
        (fun _ _ h => h) vm ⟨hvm, hc⟩
      exact h.mono Called.grown

/-- A closure takes over a frame, of which it keeps everything that quiet operations keep. It
gives it up if it is a generator function. -/
theorem ends_takeOver {p q e : VM rt.Heap → Prop} (hp : ∀ vm vm', Quiet vm vm' → p vm → p vm')
    (hq : ∀ vm vm', Quiet vm vm' → q vm → q vm') (he : ∀ vm, p vm → e vm) {f : Ref}
    (ok : Closure → Prop) {target : Int} {args stackbase last_top : Nat}
    (hstart : ∀ c, ok c → Ends p (when c.function.bgenerator
      (startGenerator rt f target c.function.stacksize.toInt.toNat)) (fun _ => q) (Raises e)) :
    Ends (fun vm => p vm ∧ vm.stackbase = stackbase ∧ ∀ c, vm.closures[f]? = some c → ok c)
      (takeOver rt f target args stackbase last_top) (fun _ => q) (Raises e) := by
  have hquiet {β : Type} {m : VMM rt.Heap β} (h : Within Quiet m) :
      Ends (fun vm => p vm ∧ vm.stackbase = stackbase) m
        (fun _ vm => p vm ∧ vm.stackbase = stackbase) (Raises e) :=
    quiet_ends h (fun vm vm' hquiet hvm => ⟨hp vm vm' hquiet hvm.1, hquiet.stackbase.trans hvm.2⟩)
      fun vm hvm => he vm hvm.1
  apply Ends.bind (q := fun _ => q)
  · apply Ends.bind (q := fun c vm => ok c ∧ p vm ∧ vm.stackbase = stackbase)
    · rintro vm ⟨hvm, hbase, hok⟩
      cases hc : vm.closures[f]? with
      | none =>
          rw [getClosure_undefined hc]
          trivial
      | some c =>
          rw [getClosure_apply hc]
          exact ⟨hok c hc, hvm, hbase⟩
    · rintro c vm ⟨hc, hvm⟩
      refine (Ends.bind (hquiet ((calm_bindArguments hrt c args stackbase).mono
        fun _ _ h => h.1)) fun _ => ?_) vm hvm
      apply Ends.bind (hquiet (within_bindEnvironment (fun vm stack => (calm_stack vm stack).1)
        c stackbase))
      intro _
      apply Ends.bind (q := fun _ => p)
      · apply ends_leaves (fun vm hvm => ?_) he
        exact hp vm _ (quiet_enterFrame_tailcall (Nat.le_add_right _ _) hvm.2) hvm.1
      · intro _
        apply Ends.bind (q := fun _ => p) (quiet_ends (within_modify fun vm => ?_) hp he)
        · exact fun _ => hstart c hc
        · exact quiet_modifyHead vm fun _ => ⟨rfl, rfl, rfl⟩
  · intro _
    apply ends_modify
    intro vm hvm
    exact hq vm _ (quiet_top vm (Nat.le_max_left _ _)) hvm

/-- A tail call gives the frame of its caller to the callee. -/
theorem ends_takeOver_fresh (hP : ¬ P []) (f : Ref) (target : Int)
    (args stackbase last_top : Nat) :
    Ends (fun vm => Fresh P below vm ∧ vm.stackbase = stackbase)
      (takeOver rt f target args stackbase last_top)
      (fun _ => Trapped (Grown P) below) (Raises (Trapped (Grown P) below)) := by
  have hstart : ∀ c : Closure, True → Ends (Fresh P below) (when c.function.bgenerator
      (startGenerator rt f target c.function.stacksize.toInt.toNat))
      (fun _ => Trapped (Grown P) below) (Raises (Trapped (Grown P) below)) := by
    intro c _
    unfold when
    split
    · exact (ends_startGenerator hrt f target _).mono (fun _ h => h) (fun _ _ h => h.grown)
        fun _ _ h => h
    · exact ends_pure fun _ h => h.1.grown_pushed
  apply (ends_takeOver hrt (p := Fresh P below) (q := Trapped (Grown P) below) ?_ ?_ ?_
    (fun _ => True) hstart).mono
  · exact fun vm h => ⟨h.1, h.2, fun _ _ => trivial⟩
  · exact fun _ _ h => h
  · exact fun _ _ h => h
  · exact fun vm vm' hquiet h => ⟨h.1.quiet not_pushed_nil hquiet, h.2.quiet hquiet⟩
  · exact fun vm vm' hquiet h => h.quiet (not_grown_nil hP) hquiet
  · exact fun vm h => h.1.grown_pushed

section

variable {base : Nat}

/-- A call pushes its frame above the others and keeps the counts. -/
theorem steadies_StartCall (p : Ref) (target : Int) {args stackbase : Nat}
    (hbase : base ≤ stackbase) :
    Steadies below (AtBase base below) (do
      StartCall rt p target args stackbase false
      return .next) := by
  apply Ends.bind (q := fun _ => Trapped Rooted below)
  · apply (ends_StartCall hrt p target hbase).mono (fun _ h => h)
    · exact fun _ _ => rooted_of_grown
    · exact Raises.mono fun _ => rooted_of_grown
  · exact fun _ => ends_pure fun _ h => h

/-- A native function may hand a fresh frame to a closure. -/
theorem ends_CallNative (clo : Object) {args newbase : Nat} (arg0 : Nat) (target : Int)
    (hbase : base ≤ newbase) :
    Ends (AtBase base below) (CallNative rt clo args newbase arg0 target)
      (fun o vm => Trapped Rooted below vm ∧ ∀ v, o ≠ .returned v)
      (Raises (Trapped Rooted below)) := by
  have hl := quiet_trapless hrt
  apply Ends.bind (atBase_quiet within_get)
  intro vm
  apply Ends.bind (atBase_quiet (hl.askNative _))
  intro answer
  cases answer with
  | values vs =>
      apply Ends.bind (atBase_quiet (within_when fun _ => hl.setSTK trivial _))
      exact fun _ => ends_pure fun _ h => ⟨h.1, fun _ => Control.noConfusion⟩
  | suspended v => exact ends_pure fun _ h => ⟨h.1, fun _ => Control.noConfusion⟩
  | tailcall p vs =>
      apply Ends.bind (q := fun _ vm => Fresh Rooted below vm ∧ vm.stackbase = newbase)
      · apply (ends_enterFrame hbase (Nat.le_add_right _ _)).mono (fun _ h => h)
        · exact fun _ _ h => ⟨⟨h.1, h.2.1⟩, h.2.2⟩
        · exact Raises.mono fun _ h => rooted_of_grown h.grown_pushed
      intro _
      apply Ends.bind (q := fun _ vm => Fresh Rooted below vm ∧ vm.stackbase = newbase)
      · exact ends_modify fun vm h => ⟨⟨h.1.1.calm (calm_stack vm _), h.1.2⟩, h.2⟩
      intro _
      apply Ends.bind (q := fun _ => Trapped Rooted below)
      · apply (ends_takeOver_fresh hrt not_rooted_nil p target _ _ _).mono (fun _ h => h)
        · exact fun _ _ => rooted_of_grown
        · exact Raises.mono fun _ => rooted_of_grown
      · exact fun _ => ends_pure fun _ h => ⟨h, fun _ => Control.noConfusion⟩

theorem steadies_callMeta (i : Instruction) (clo : Object) (args : List Object) :
    Steadies below (AtBase base below) (callMeta rt i clo args) := by
  have hl := quiet_trapless hrt
  refine steadies_bind (hl.ask _) fun vs => ?_
  split
  · exact steadies_bind (within_when fun _ => hl.setTarget trivial _) fun _ => steadies_next
  · exact steadies_raiseError _

/-- The call instruction, in every form. -/
theorem steadies_call (i : Instruction) : Steadies below (AtBase base below) (call rt i) := by
  have hl := quiet_trapless hrt
  refine steadies_bind (within_STK1 i) fun clo => ?_
  refine steadies_get_bind fun vm hbase => ?_
  have hle : base ≤ vm.stackbase + i.arg2.toNat := by omega
  split
  · exact steadies_StartCall hrt _ _ hle
  · apply (ends_CallNative hrt _ _ _ hle).mono (fun _ h => h)
    · exact fun o vm h => steady_of h.1 h.2
    · exact fun _ _ h => h
  · refine steadies_bind (hl.ask _) fun vs => ?_
    split
    · refine steadies_bind (within_when fun _ => hl.setTarget trivial _) fun _ => ?_
      split
      · refine steadies_bind (within_modify fun vm => (calm_stack vm _).1) fun _ => ?_
        exact steadies_StartCall hrt _ _ hle
      · refine steadies_bind (within_modify fun vm => (calm_stack vm _).1) fun _ => ?_
        apply Ends.bind (ends_CallNative hrt _ _ _ hle)
        exact fun _ => ends_pure fun _ h => h.1
      · exact steadies_next
    · exact ends_undefined
  · exact steadies_bind within_get fun vm => steadies_callMeta hrt i _ _
  · exact steadies_bind within_get fun vm => steadies_callMeta hrt i _ _
  · exact steadies_bind within_get fun vm => steadies_callMeta hrt i _ _
  · exact steadies_raiseError _

/-- `f` is a closure that is no generator function. -/
def Plain (f : Ref) (vm : VM rt.Heap) : Prop :=
  ∃ c, vm.closures[f]? = some c ∧ c.function.bgenerator = false

omit hrt in
/-- A quiet change keeps a plain frame plain. -/
theorem Plain.quiet {f : Ref} {vm vm' : VM rt.Heap} (h : Plain f vm) (hquiet : Quiet vm vm') :
    Plain f vm' := by
  obtain ⟨c, hc, hgen⟩ := h
  obtain ⟨new, hnew⟩ := hquiet.closures
  have hlt := (List.getElem?_eq_some_iff.mp hc).1
  refine ⟨c, ?_, hgen⟩
  rw [← hnew, List.getElem?_append_left hlt]
  exact hc

/-- A frame keeps its traps when a closure takes it over. -/
theorem steadies_reuseFrame (i : Instruction) (f : Ref) :
    Steadies below (fun vm => AtBase base below vm ∧ Plain f vm) (reuseFrame rt i f) := by
  have hl := quiet_trapless hrt
  have hkeeps (vm vm' : VM rt.Heap) (hquiet : Quiet vm vm') (h : AtBase base below vm ∧ Plain f vm) :
      AtBase base below vm' ∧ Plain f vm' :=
    ⟨⟨h.1.1.quiet not_rooted_nil hquiet, hquiet.stackbase.trans h.1.2⟩, h.2.quiet hquiet⟩
  have hquiet {β : Type} {m : VMM rt.Heap β} (h : Within Quiet m) :
      Ends (fun vm => AtBase base below vm ∧ Plain f vm) m (fun _ vm => AtBase base below vm ∧ Plain f vm)
        (Raises (Trapped Rooted below)) :=
    quiet_ends h hkeeps fun _ h => h.1.1
  apply ends_get_bind
  intro vm hvm
  apply Ends.mono (p := fun vm => AtBase base below vm ∧ Plain f vm) (q := Steady below)
    (e := Raises (Trapped Rooted below))
  · apply Ends.bind (hquiet (within_modify fun vm => hl.close vm _))
    intro _
    apply Ends.bind (hquiet (within_forM_mem fun n _ =>
      within_bind (within_STK _) fun v => hl.setSTK trivial v))
    intro _
    apply Ends.bind (hquiet within_getCi)
    intro ci
    apply Ends.bind (q := fun _ vm => AtBase base below vm ∧ Plain f vm)
    · apply (ends_takeOver hrt hkeeps hkeeps
        (fun _ h => h.1.1) (fun c => c.function.bgenerator = false) ?_).mono
      · rintro vm' ⟨hat, c, hc, hgen⟩
        refine ⟨⟨hat, c, hc, hgen⟩, hat.2.trans hvm.1.2.symm, fun c' hc' => ?_⟩
        obtain rfl := Option.some.inj (hc.symm.trans hc')
        exact hgen
      · exact fun _ _ h => h
      · exact fun _ _ h => h
      · intro c hc
        rw [hc]
        exact ends_pure fun _ h => h
    · exact fun _ => ends_pure fun _ h => h.1.1
  · rintro _ rfl
    exact hvm
  · exact fun _ _ h => h
  · exact fun _ _ h => h

/-- A tail call, of which only closures take the frame over. -/
theorem steadies_tailCall (i : Instruction) :
    Steadies below (AtBase base below) (tailCall rt i) := by
  refine steadies_bind (within_STK1 i) fun o => ?_
  split
  · rename_i p
    apply Ends.bind (q := fun c vm => AtBase base below vm ∧ vm.closures[p]? = some c)
    · intro vm h
      cases hc : vm.closures[p]? with
      | none =>
          rw [getClosure_undefined hc]
          trivial
      | some c =>
          rw [getClosure_apply hc]
          exact ⟨h, hc⟩
    · intro c
      split
      · exact (steadies_call hrt i).mono (fun _ h => h.1) (fun _ _ h => h) fun _ _ h => h
      · rename_i hgen
        apply (@steadies_reuseFrame rt below hrt base i p).mono (fun vm h => ?_) (fun _ _ h => h)
          fun _ _ h => h
        exact ⟨h.1, c, h.2, by simpa using hgen⟩
  · exact steadies_call hrt i

end

end

/-! ### The instructions that end a frame -/

/-- The frames of this `Execute` without the current one, which is the first of them or not. -/
def Rest : Bool → List Bool → Prop
  | true => (· = [])
  | false => Rooted

/-- The mark of the frame on top is told apart from the others'. -/
theorem Trapped.split {vm : VM rt.Heap} (h : Trapped Rooted below vm) :
    ∃ b, Trapped (Pushed b (Rest b)) below vm := by
  obtain ⟨mine, hstack, hroots, htraps⟩ := h.frames
  cases mine with
  | nil => exact absurd hroots not_rooted_nil
  | cons ci mine =>
      refine ⟨ci.root, h.window, h.owned, ⟨ci :: mine, hstack, ⟨_, rfl, ?_⟩, htraps⟩, h.saved⟩
      rcases rooted_cons (b := ci.root) hroots with ⟨hroot, hrest⟩ | ⟨hroot, hrest⟩
      · rw [hroot]
        exact hrest
      · rw [hroot]
        exact hrest

/-- Whatever the mark of the frame on top, the counts hold. -/
theorem Trapped.unsplit {b : Bool} {vm : VM rt.Heap} (h : Trapped (Pushed b (Rest b)) below vm) :
    Trapped Rooted below vm := by
  apply h.mono
  rintro _ ⟨roots, rfl, hroots⟩
  cases b with
  | true =>
      obtain rfl := hroots
      exact ⟨0, rfl⟩
  | false => exact hroots.cons

/-- The end of a generator keeps frames and traps. -/
theorem calm_killGenerator : Within Calm (killGenerator : VMM rt.Heap Unit) := by
  refine within_bind within_getCi fun ci => ?_
  split
  · refine within_modify fun vm => calm_generators vm _ fun hsaved g hg => ?_
    rcases mem_modify hg with hg | ⟨g', -, rfl⟩
    · exact hsaved g hg
    · trivial
  · exact within_pure _

/-- `Return` gives the result to whoever called `Execute` with the last of its frames. -/
theorem steadies_finish {b : Bool} (i : Instruction) :
    Steadies below (Leaving b (Rest b) below) (finish i : VMM rt.Heap Control) := by
  apply Ends.bind (q := fun _ => Leaving b (Rest b) below)
  · unfold index1
    split
    · exact ends_pure fun _ h => h
    · exact ends_undefined
  intro n
  apply Ends.bind (q := fun o vm => Trapped (Rest b) below vm ∧ o.isSome = b)
  · apply (ends_Return i.arg0.toNat n).mono (fun _ h => h) (fun _ _ h => h)
    exact Raises.mono fun _ h => h.elim
  intro o
  cases o with
  | none =>
      apply ends_pure
      rintro vm ⟨h, rfl⟩
      exact h
  | some v =>
      apply ends_pure
      rintro vm ⟨h, rfl⟩
      exact h

/-- `RETURN` is for a frame that has given up its traps. -/
theorem steadies_returnOp (i : Instruction) :
    Steadies below (fun vm => Trapped Rooted below vm ∧ HeadZero vm)
      (returnOp i : VMM rt.Heap Control) := by
  have hquiet {β : Type} {m : VMM rt.Heap β} (h : Within Quiet m) :
      Ends (fun vm => Trapped Rooted below vm ∧ HeadZero vm) m
        (fun _ vm => Trapped Rooted below vm ∧ HeadZero vm) (Raises (Trapped Rooted below)) :=
    quiet_ends h (fun _ _ hquiet hvm => ⟨hvm.1.quiet not_rooted_nil hquiet, hvm.2.quiet hquiet⟩)
      fun _ hvm => hvm.1
  apply Ends.bind (hquiet (calm_killGenerator.mono fun _ _ h => h.1))
  intro _
  apply Ends.bind (hquiet (within_checkReturnType i))
  intro _ vm hvm
  obtain ⟨b, hb⟩ := hvm.1.split
  exact steadies_finish i vm (hb.leaving hvm.2)

/-- The traps of the current frame are `n`. -/
def HeadTraps (n : Nat) (vm : VM rt.Heap) : Prop := ∀ ci ∈ vm.callstack.head?, ci.etraps = n

theorem HeadTraps.calm {n : Nat} {vm vm' : VM rt.Heap} (h : HeadTraps n vm) (hcalm : Calm vm vm') :
    HeadTraps n vm' := by
  intro ci hci
  rw [hcalm.2] at hci
  exact h ci hci

/-- `YIELD` counts the traps that the generator takes with it. -/
theorem steadies_yieldOp (hrt : Sound rt) (i : Instruction) :
    Steadies below (Trapped Rooted below) (yieldOp rt i) := by
  intro vm hvm
  obtain ⟨b, hb⟩ := hvm.split
  obtain ⟨ci, mine, hstack, -⟩ := hb.head not_pushed_nil
  rw [yieldOp, bind_apply, getCi_apply hstack]
  dsimp only
  cases ci.generator with
  | none => exact hvm
  | some p =>
      have hcalm {β : Type} {m : VMM rt.Heap β} (h : Within Calm m) :
          Ends (fun vm => Trapped (Pushed b (Rest b)) below vm ∧ HeadTraps ci.etraps vm) m
            (fun _ vm => Trapped (Pushed b (Rest b)) below vm ∧ HeadTraps ci.etraps vm)
            (Raises (Trapped Rooted below)) :=
        h.ends (fun _ _ hcalm hvm => ⟨hvm.1.calm hcalm, hvm.2.calm hcalm⟩)
          fun x vm hvm => raises_of x vm hvm.1.unsplit
      have hhead : HeadTraps ci.etraps vm := by
        intro ci' hci'
        rw [hstack] at hci'
        obtain rfl := Option.some.inj hci'
        rfl
      refine (Ends.bind (hcalm (within_index1 i)) fun arg1 => ?_) vm ⟨hb, hhead⟩
      apply Ends.bind (hcalm (within_STK arg1))
      intro temp_reg
      apply Ends.bind (hcalm (within_modify fun vm => calm_close vm _))
      intro _
      apply Ends.bind ((ends_yieldGenerator hrt p i.arg2.toNat ci.etraps).mono (fun _ h => h)
        (fun _ _ h => h) (Raises.mono fun _ h => h.unsplit))
      intro _
      apply Ends.bind (q := fun _ => Leaving b (Rest b) below)
      · exact ends_modify fun vm h => h
      intro _
      apply Ends.bind (q := fun _ => Leaving b (Rest b) below)
      · unfold when
        split
        · exact ends_modify fun vm h => h.calm (calm_stack vm _)
        · exact ends_pure fun _ h => h
      · exact fun _ => steadies_finish i

/-! ### Resuming -/

/-- The suspended generator that is resumed through `o`. -/
def suspendedGenerator (vm : VM rt.Heap) : Object → Option Generator
  | .generator p => (vm.generators[p]?).filter (·.state = .eSuspended)
  | _ => none

theorem mem_suspendedGenerator {vm : VM rt.Heap} {p : Ref} {g : Generator}
    (hg : vm.generators[p]? = some g) (hstate : g.state = .eSuspended) :
    g ∈ suspendedGenerator vm (.generator p) := by
  simp [suspendedGenerator, hg, hstate]

theorem resumeGenerator_undefined {p : Ref} {target : Nat} {vm : VM rt.Heap}
    (h : vm.generators[p]? = none) : resumeGenerator rt p target vm = .error .undefined vm := by
  rw [resumeGenerator, get_bind_apply, h]
  rfl

/-- `RESUME` counts the traps that the generator brings back. -/
theorem counts_resumeOp (hrt : Sound rt) (i : Instruction) :
    Ends (fun vm => Trapped Rooted below vm ∧
        ∀ g ∈ suspendedGenerator vm (vm.stack (vm.stackbase + i.arg1.toInt.toNat)),
          g.ci.root = false)
      (resumeOp rt i) (fun _ => Trapped Rooted below) (Raises (Trapped Rooted below)) := by
  apply Ends.bind (q := fun o vm => Trapped Rooted below vm ∧
    ∀ g ∈ suspendedGenerator vm o, g.ci.root = false)
  · intro vm h
    by_cases harg1 : 0 ≤ i.arg1.toInt
    · rw [STK1_apply harg1]
      exact h
    · rw [STK1_undefined harg1]
      trivial
  intro o
  split
  · rename_i p
    rintro vm ⟨hvm, hroot⟩
    cases hg : vm.generators[p]? with
    | none =>
        rw [bind_apply, resumeGenerator_undefined hg]
        trivial
    | some g =>
        have hresume := ends_resumeGenerator hrt p i.arg0.toNat g vm ⟨hvm, hg⟩
        rw [bind_apply]
        cases hr : resumeGenerator rt p i.arg0.toNat vm with
        | error x vm₁ =>
            rw [hr] at hresume
            exact Raises.mono (fun _ => rooted_of_grown) x vm₁ hresume
        | ok _ vm₁ =>
            rw [hr] at hresume
            obtain ⟨htrapped, hhead, hstate⟩ := hresume
            have hg0 := hroot g (mem_suspendedGenerator hg hstate)
            obtain ⟨ci, mine, hstack, -⟩ := htrapped.head not_pushed_nil
            have hstack₁ : vm₁.callstack = ci :: (mine ++ below) := hstack
            have hci := hhead ci (by rw [hstack₁]; rfl)
            dsimp only
            rw [bind_apply, getCi_apply hstack₁]
            rw [hg0] at htrapped
            refine (rooted_of_grown htrapped.grown_pushed).congr rfl id rfl rfl ?_ htrapped.saved
            change vm₁.traps + (ci.etraps : Int) = vm₁.traps + (g.ci.etraps : Int)
            rw [hci]
  · exact ends_raiseError (fun _ h => h.1) _

/-- Where a failure is thrown away, what holds on both ways holds behind. -/
theorem ends_ignoreFailure {m : VMM rt.Heap α} {p q e : VM rt.Heap → Prop}
    (h : Ends p m (fun _ => q) (Raises q)) :
    Ends p (ignoreFailure m) (fun _ => q) (Raises e) := by
  intro vm hvm
  have hm := h vm hvm
  unfold ignoreFailure
  cases hr : m vm with
  | ok a vm' =>
      rw [hr] at hm
      exact hm
  | error x vm' =>
      rw [hr] at hm
      cases x with
      | raise err => exact hm
      | undefined => trivial

/-- `FOREACH` does not count them. -/
theorem counts_foreachOp (hrt : Sound rt) (i : Instruction) :
    Ends (fun vm => Trapped Rooted below vm ∧
        ∀ g ∈ suspendedGenerator vm (vm.stack (vm.stackbase + i.arg0.toNat)),
          g.ci.root = false ∧ g.ci.etraps = 0)
      (foreachOp rt i) (fun _ => Trapped Rooted below) (Raises (Trapped Rooted below)) := by
  have hl := quiet_trapless hrt
  apply Ends.bind (q := fun o vm => Trapped Rooted below vm ∧
    ∀ g ∈ suspendedGenerator vm o, g.ci.root = false ∧ g.ci.etraps = 0)
  · exact fun vm h => h
  intro o
  split
  · rename_i p
    rintro vm ⟨hvm, hroot⟩
    rw [get_bind_apply]
    cases hg : vm.generators[p]? with
    | none => trivial
    | some g =>
        dsimp only
        rcases hstate : g.state with _ | _ | _
        · exact hvm
        · have hset {v : Object} {a : Nat} :
              Ends (fun vm : VM rt.Heap => Trapped Rooted below vm ∧ vm.generators[p]? = some g)
                (VM.setSTK a v) (fun _ vm => Trapped Rooted below vm ∧ vm.generators[p]? = some g)
                (Raises (Trapped Rooted below)) :=
            ends_modify fun vm h => ⟨h.1.calm (calm_stack vm _), h.2⟩
          refine (Ends.bind (q := fun _ vm => Trapped Rooted below vm ∧ vm.generators[p]? = some g)
            (fun _ h => h) fun n => ?_) vm ⟨hvm, hg⟩
          apply Ends.bind hset
          intro _
          apply Ends.bind hset
          intro _
          apply Ends.bind (q := fun _ => Trapped Rooted below)
          · apply ends_ignoreFailure
            apply (ends_resumeGenerator hrt p _ g).mono (fun _ h => h)
            · rintro _ vm' ⟨htrapped, -, -⟩
              obtain ⟨hg0, hz⟩ := hroot g (mem_suspendedGenerator hg hstate)
              rw [hg0, hz] at htrapped
              refine (rooted_of_grown htrapped.grown_pushed).congr rfl id rfl rfl ?_ htrapped.saved
              simp
            · exact Raises.mono fun _ => rooted_of_grown
          · exact fun _ => ends_pure fun _ h => h
        · exact counts_quiet not_rooted_nil (hl.jump _) vm hvm
  · refine Ends.mono (p := Trapped Rooted below) (counts_quiet not_rooted_nil ?_) (fun _ h => h.1)
      (fun _ _ h => h) fun _ _ h => h
    refine within_bind (within_STK _) fun n => ?_
    refine within_bind (hl.ask _) fun vs => ?_
    split
    · refine within_bind (hl.setSTK trivial _) fun _ => ?_
      refine within_bind (hl.setSTK trivial _) fun _ => ?_
      exact within_bind (hl.setSTK trivial _) fun _ => hl.jump _
    · exact hl.jump _

/-! ### Steps -/

/-- What the instruction `i` asks for the traps to be counted. -/
def Accounted (vm : VM rt.Heap) (i : Instruction) : Prop :=
  match i.op with
  | .RETURN => HeadZero vm
  | .POPTRAP => ∀ ci ∈ vm.callstack.head?, i.arg0.toNat ≤ ci.etraps
  | .RESUME => ∀ g ∈ suspendedGenerator vm (vm.stack (vm.stackbase + i.arg1.toInt.toNat)),
      g.ci.root = false
  | .FOREACH => ∀ g ∈ suspendedGenerator vm (vm.stack (vm.stackbase + i.arg0.toNat)),
      g.ci.root = false ∧ g.ci.etraps = 0
  | _ => True

instance (vm : VM rt.Heap) (i : Instruction) : Decidable (Accounted vm i) :=
  if hreturn : i.op = .RETURN then
    decidable_of_iff (∀ ci ∈ vm.callstack.head?, ci.etraps = 0)
      (by simp only [Accounted, hreturn, HeadZero])
  else if hpop : i.op = .POPTRAP then
    decidable_of_iff (∀ ci ∈ vm.callstack.head?, i.arg0.toNat ≤ ci.etraps)
      (by simp only [Accounted, hpop])
  else if hresume : i.op = .RESUME then
    decidable_of_iff (∀ g ∈ suspendedGenerator vm (vm.stack (vm.stackbase + i.arg1.toInt.toNat)),
      g.ci.root = false) (by simp only [Accounted, hresume])
  else if hforeach : i.op = .FOREACH then
    decidable_of_iff (∀ g ∈ suspendedGenerator vm (vm.stack (vm.stackbase + i.arg0.toNat)),
      g.ci.root = false ∧ g.ci.etraps = 0) (by simp only [Accounted, hforeach])
  else
    isTrue (by
      unfold Accounted
      split
      · exact absurd ‹_› hreturn
      · exact absurd ‹_› hpop
      · exact absurd ‹_› hresume
      · exact absurd ‹_› hforeach
      · trivial)

theorem quiet_findOuter (n : Nat) : Within Quiet (findOuter n : VMM rt.Heap Ref) :=
  fun vm => (calm_outers vm vm.stack _ _).1

/-- **An instruction that moves data keeps the counts**, POPTRAP if its frame
has the traps. -/
theorem counts_execData (hrt : Sound rt) (i : Instruction) :
    Ends (fun vm => Trapped Rooted below vm ∧
        (i.op = .POPTRAP → ∀ ci ∈ vm.callstack.head?, i.arg0.toNat ≤ ci.etraps))
      (execData rt i) (fun _ => Trapped Rooted below) (Raises (Trapped Rooted below)) := by
  have hl := quiet_trapless hrt
  have hquiet (h : Within Quiet (execData rt i)) : Ends (fun vm => Trapped Rooted below vm ∧
        (i.op = .POPTRAP → ∀ ci ∈ vm.callstack.head?, i.arg0.toNat ≤ ci.etraps))
      (execData rt i) (fun _ => Trapped Rooted below) (Raises (Trapped Rooted below)) :=
    (counts_quiet not_rooted_nil h).mono (fun _ h => h.1) (fun _ _ h => h) fun _ _ h => h
  by_cases hclosure : i.op = .CLOSURE
  · apply hquiet
    unfold execData
    rw [hclosure]
    refine within_closureOp quiet_findOuter (fun vm c => ?_) fun v => hl.setTarget trivial v
    exact ⟨rfl, id, rfl, rfl, ⟨id, fun _ => .refl _, by simp⟩, List.prefix_append _ _, fun h => h⟩
  by_cases hpush : i.op = .PUSHTRAP
  · unfold execData
    rw [hpush]
    exact (ends_pushTrap not_rooted_nil i).mono (fun _ h => h.1) (fun _ _ h => h) fun _ _ h => h
  by_cases hpop : i.op = .POPTRAP
  · unfold execData
    rw [hpop]
    exact (ends_popTraps not_rooted_nil i.arg0.toNat).mono (fun _ h => ⟨h.1, h.2 rfl⟩)
      (fun _ _ h => h) fun _ _ h => h
  · exact hquiet (hl.execData (fun _ _ => trivial) hclosure hpush hpop)

/-- Every instruction that asks for no more keeps the counts. -/
theorem steadies_exec (hrt : Sound rt) (i : Instruction) :
    Steadies below (fun vm => Trapped Rooted below vm ∧ Accounted vm i) (exec rt i) := by
  have hnext {m : VMM rt.Heap Unit} {p : VM rt.Heap → Prop}
      (h : Ends p m (fun _ => Trapped Rooted below) (Raises (Trapped Rooted below))) :
      Steadies below p (do m; return .next) :=
    Ends.bind h fun _ => ends_pure fun _ h => h
  have hweaken {m : VMM rt.Heap Control} {p : VM rt.Heap → Prop} (h : Steadies below p m)
      (hp : ∀ vm, Accounted vm i → Trapped Rooted below vm → p vm) :
      Steadies below (fun vm => Trapped Rooted below vm ∧ Accounted vm i) m :=
    h.mono (fun vm hvm => hp vm hvm.2 hvm.1) (fun _ _ h => h) fun _ _ h => h
  unfold exec
  split
  · exact hweaken (steadies_of_atBase fun _ => steadies_call hrt i) fun _ _ h => h
  · exact hweaken (steadies_of_atBase fun _ => steadies_tailCall hrt i) fun _ _ h => h
  · rename_i hop
    refine hweaken (steadies_returnOp i) fun vm hacc h => ⟨h, ?_⟩
    simpa only [Accounted, hop] using hacc
  · exact hweaken (steadies_yieldOp hrt i) fun _ _ h => h
  · rename_i hop
    refine hweaken (hnext (counts_resumeOp hrt i)) fun vm hacc h => ⟨h, ?_⟩
    simpa only [Accounted, hop] using hacc
  · rename_i hop
    refine hweaken (hnext (counts_foreachOp hrt i)) fun vm hacc h => ⟨h, ?_⟩
    simpa only [Accounted, hop] using hacc
  · refine hweaken (hnext (counts_execData hrt i)) fun vm hacc h => ⟨h, fun hop => ?_⟩
    simpa only [Accounted, hop] using hacc

theorem quiet_fetch : Within Quiet (fetch : VMM rt.Heap Instruction) := by
  refine within_bind within_currentClosure fun c => ?_
  refine within_bind within_getCi fun ci => ?_
  split
  · refine within_bind (within_modify fun vm => ?_) fun _ => within_pure _
    exact quiet_modifyHead vm fun _ => ⟨rfl, rfl, rfl⟩
  · exact within_undefined

/-! ### Errors -/

/-- The last trap of the first frame that has one catches the error: the frames over it are
gone, and the frame goes on where the trap says. -/
def Caught (vm vm' : VM rt.Heap) : Prop :=
  ∃ inner ci outer et etraps, vm.callstack = inner ++ ci :: outer ∧
    (∀ ci ∈ inner, ci.etraps = 0) ∧ 0 < ci.etraps ∧ vm.etraps = et :: etraps ∧
    vm'.etraps = etraps ∧ vm'.stackbase = et.stackbase ∧ vm'.top = et.stacksize ∧
    vm'.callstack = { ci with ip := et.ip, etraps := ci.etraps - 1 } :: outer

theorem calm_killGeneratorOf (vm : VM rt.Heap) (ci : CallInfo) :
    Calm vm (vm.killGeneratorOf ci) := by
  unfold killGeneratorOf
  split
  · apply calm_generators
    intro hsaved g hg
    rcases mem_modify hg with hg | ⟨g', -, rfl⟩
    · exact hsaved g hg
    · trivial
  · exact Std.Refl.refl vm

/-- A trap of the current frame is entered. -/
theorem Trapped.enterTrap {err : Object} {last_top : Nat} {vm : VM rt.Heap} {ci : CallInfo}
    {mine : List CallInfo} (h : Trapped Rooted below vm)
    (hstack : vm.callstack = ci :: (mine ++ below)) (hpos : 0 < ci.etraps) :
    ∃ vm', vm.enterTrap err last_top ci (mine ++ below) = .next vm' ∧
      Trapped Rooted below vm' ∧ Caught vm vm' := by
  obtain ⟨ci', mine', hstack', hroots, htraps⟩ := h.head not_rooted_nil
  rw [hstack] at hstack'
  obtain ⟨rfl, happ⟩ := List.cons.inj hstack'
  obtain rfl := List.append_cancel_right happ
  have howned := h.owned
  rw [hstack] at howned
  obtain ⟨hle, hbase, hrest⟩ := howned
  cases het : vm.etraps with
  | nil =>
      rw [het] at hle
      exact absurd hpos (Nat.not_lt.mpr hle)
  | cons et etraps =>
      obtain ⟨n, hn⟩ := Nat.exists_eq_succ_of_ne_zero (Nat.ne_of_gt hpos)
      rw [het, hn] at hle hrest hbase
      obtain ⟨hetbase, hetsize⟩ := hbase et (by simp)
      unfold VM.enterTrap
      rw [het]
      refine ⟨_, rfl, ?_, [], ci, mine ++ below, et, etraps, hstack, by simp, hpos, het, rfl, rfl,
        rfl, rfl⟩
      have hbelow : Trapped Rooted below { vm with
          callstack := { ci with ip := et.ip, etraps := ci.etraps - 1 } :: (mine ++ below)
          stackbase := et.stackbase
          top := et.stacksize
          etraps := etraps
          traps := vm.traps - 1 } := by
        refine ⟨?_, ⟨?_, ?_, ?_⟩, ⟨_ :: mine, rfl, hroots, ?_⟩, h.saved⟩
        · rw [hetbase]
          exact hetsize
        · rw [hn]
          exact Nat.le_of_succ_le_succ hle
        · intro et' het'
          rw [hn] at het'
          rw [hetbase]
          exact hbase et' (by simpa using .inr het')
        · rw [hn, hetbase]
          simpa using hrest
        · simp only [trapsOf_cons]
          omega
      exact hbelow.calm (calm_stack _ _)

/-- Without a trap the frames of this `Execute` are left; otherwise the error is caught. -/
theorem Trapped.unwind {n : Nat} {vm : VM rt.Heap} (h : Trapped Rooted below vm)
    (err : Object) (last_top : Nat) (hn : vm.callstack.length ≤ n) :
    (vm.traps = 0 → ∃ vm', unwind err last_top n vm = .failed err vm' ∧
      Trapped (· = []) below vm') ∧
    (vm.traps ≠ 0 → ∃ vm', unwind err last_top n vm = .next vm' ∧
      Trapped Rooted below vm' ∧ Caught vm vm') := by
  induction n generalizing vm with
  | zero =>
      obtain ⟨ci, mine, hstack, -⟩ := h.head not_rooted_nil
      rw [hstack] at hn
      exact absurd hn (Nat.not_succ_le_zero _)
  | succ n ih =>
      obtain ⟨b, hb⟩ := h.split
      obtain ⟨ci, mine, hstack, ⟨roots, hroots, hrest⟩, htraps⟩ := hb.head not_pushed_nil
      obtain ⟨hroot, rfl⟩ := List.cons.inj hroots
      unfold VM.unwind
      rw [hstack]
      dsimp only
      by_cases hpos : 0 < ci.etraps
      · rw [if_pos hpos]
        exact ⟨fun hzero => by omega, fun _ => h.enterTrap hstack hpos⟩
      · rw [if_neg hpos]
        have hzero : HeadZero vm := by
          intro ci' hci'
          rw [hstack] at hci'
          obtain rfl := Option.some.inj hci'
          omega
        have hleft := ((hb.leaving hzero).calm (calm_killGeneratorOf vm ci)).leaveFrame
        cases b with
        | true =>
            rw [if_pos hroot]
            obtain rfl : mine = [] := by simpa [Rest] using hrest
            refine ⟨fun _ => ⟨_, rfl, hleft⟩, fun hne => ?_⟩
            exact absurd (by simpa [trapsOf] using htraps) (by omega)
        | false =>
            rw [if_neg (by simp [hroot])]
            have hcalm := calm_killGeneratorOf vm ci
            obtain ⟨stack, outers, openouters, heq⟩ :=
              leaveFrame_eq (vm.killGeneratorOf ci) (hcalm.2.trans hstack)
            have htraps' : (vm.killGeneratorOf ci).leaveFrame.traps = vm.traps := by
              rw [heq]
              exact hcalm.1.traps
            have hetraps' : (vm.killGeneratorOf ci).leaveFrame.etraps = vm.etraps := by
              rw [heq]
              exact hcalm.1.etraps
            have hstack' : (vm.killGeneratorOf ci).leaveFrame.callstack = mine ++ below := by
              rw [heq]
            have hlen : (vm.killGeneratorOf ci).leaveFrame.callstack.length ≤ n := by
              rw [hstack']
              rw [hstack] at hn
              exact Nat.le_of_succ_le_succ hn
            obtain ⟨hfail, hcatch⟩ := ih hleft hlen
            rw [htraps'] at hfail hcatch
            refine ⟨hfail, fun hne => ?_⟩
            obtain ⟨vm', hnext, htrapped, inner, ci', outer, et, etraps, hinner, hnone, hcaught⟩ :=
              hcatch hne
            rw [hstack'] at hinner
            rw [hetraps'] at hcaught
            refine ⟨vm', hnext, htrapped, ci :: inner, ci', outer, et, etraps, ?_, ?_, hcaught⟩
            · rw [hstack, hinner]
              rfl
            · intro ci'' hci''
              rcases List.mem_cons.mp hci'' with rfl | hmem
              · omega
              · exact hnone ci'' hmem

/-- The error handler is told whether the error is caught, and so it is. -/
theorem Trapped.exceptionTrap (hrt : Sound rt) {vm : VM rt.Heap} (h : Trapped Rooted below vm)
    (err : Object) :
    (vm.traps = 0 → ∃ vm', exceptionTrap rt err vm = .failed err vm' ∧
      Trapped (· = []) below vm') ∧
    (vm.traps ≠ 0 → ∃ vm', exceptionTrap rt err vm = .next vm' ∧
      Trapped Rooted below vm' ∧ Caught vm vm') := by
  have hask : Within Calm (ignoreFailure (rt.ask (.exception err (vm.traps ≠ 0)))) :=
    within_ignoreFailure (within_ask (calm_serve hrt) _)
  have hcalm := hask vm
  have hunwind : VM.exceptionTrap rt err vm = VM.unwind err
      (leaves (ignoreFailure (rt.ask (.exception err (vm.traps ≠ 0)))) vm).top
      (leaves (ignoreFailure (rt.ask (.exception err (vm.traps ≠ 0)))) vm).callstack.length
      (leaves (ignoreFailure (rt.ask (.exception err (vm.traps ≠ 0)))) vm) := by
    unfold VM.exceptionTrap leaves
    cases ignoreFailure (rt.ask (.exception err (vm.traps ≠ 0))) vm <;> rfl
  rw [hunwind]
  generalize leaves (ignoreFailure (rt.ask (.exception err (vm.traps ≠ 0)))) vm = vm₁ at hcalm
  obtain ⟨hfail, hcatch⟩ := (h.calm hcalm).unwind err vm₁.top (Nat.le_refl _)
  rw [hcalm.1.traps] at hfail hcatch
  refine ⟨hfail, fun hne => ?_⟩
  obtain ⟨vm', hnext, htrapped, hcaught⟩ := hcatch hne
  refine ⟨vm', hnext, htrapped, ?_⟩
  unfold Caught at hcaught ⊢
  rwa [hcalm.2, hcalm.1.etraps] at hcaught

/-- What the next instruction asks for. -/
def Accountable (vm : VM rt.Heap) : Prop := ∀ i vm₁, fetch vm = .ok i vm₁ → Accounted vm₁ i

instance (vm : VM rt.Heap) : Decidable (Accountable vm) :=
  match h : fetch vm with
  | .ok i vm₁ => decidable_of_iff (Accounted vm₁ i) (by simp [Accountable, h])
  | .error _ _ => isTrue (by simp [Accountable, h])

/-- The counts agree after a step. -/
def Settled (below : List CallInfo) : Outcome rt.Heap → Prop
  | .next vm | .suspended _ vm => Trapped Rooted below vm
  | .returned _ vm | .failed _ vm => Trapped (· = []) below vm
  | .undefined => True

/-- **A round of Execute keeps the counts.** -/
theorem ends_round (hrt : Sound rt) :
    Ends (fun vm => Trapped Rooted below vm ∧ Accountable vm) (do exec rt (← fetch))
      (Steady below) (Raises (Trapped Rooted below)) := by
  rintro vm ⟨hvm, hacc⟩
  rw [bind_apply]
  cases hf : fetch vm with
  | error x vm₁ => exact raises_of x vm₁ (hvm.quiet not_rooted_nil (quiet_fetch.error hf))
  | ok i vm₁ =>
      have hvm₁ := hvm.quiet not_rooted_nil (quiet_fetch.ok hf)
      exact steadies_exec hrt i vm₁ ⟨hvm₁, hacc i vm₁ hf⟩

/-- One round of the loop keeps the counts. -/
theorem settled_step (hrt : Sound rt) {vm : VM rt.Heap} (h : Trapped Rooted below vm)
    (hacc : Accountable vm) : Settled below (step rt vm) := by
  have hround := ends_round hrt vm ⟨h, hacc⟩
  unfold step
  split
  · rename_i hr
    rw [hr] at hround
    exact hround
  · rename_i hr
    rw [hr] at hround
    exact hround
  · rename_i hr
    rw [hr] at hround
    exact hround
  · rename_i err vm₁ hr
    rw [hr] at hround
    have hvm₁ : Trapped Rooted below vm₁ := hround
    obtain ⟨hfail, hcatch⟩ := hvm₁.exceptionTrap hrt err
    by_cases hzero : vm₁.traps = 0
    · obtain ⟨vm', heq, htrapped⟩ := hfail hzero
      rw [heq]
      exact htrapped
    · obtain ⟨vm', heq, htrapped, -⟩ := hcatch hzero
      rw [heq]
      exact htrapped
  · trivial

end GameScript.VM
