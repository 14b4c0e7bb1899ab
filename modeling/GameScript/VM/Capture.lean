import Mathlib.Data.List.Forall2
import Mathlib.Tactic.Tauto
import GameScript.VM.Local

/-!
The cells that a new closure captures (`CLOSURE_OP` and `FindOuter` of `GSvm.cpp`). An outer
variable of its prototype is a register of the frame that runs or an outer variable of the
closure that runs; the closure gets the cell that is open on the register, or the cell of the
running closure. Main results:

* `closureOp_ok`: what `CLOSURE` makes, and that it leaves what is open;
* `OpenOn.proceeds`: while the frame of a slot runs, the cell of the slot stays the same;
* `getOuter_ok`, `setOuter_ok`: what the cell of an outer variable is read and written for.
-/

namespace GameScript.VM

open Effect

variable {Heap : Type} {vm vm' : VM Heap}

/-! ### Open cells -/

/-- The cells are open, and ordered by their slots, the highest first. -/
def Ordered (vm : VM Heap) : List Ref → Prop
  | [] => True
  | p :: ps =>
    (∃ i, vm.outerIdx p = some i ∧ ∀ q ∈ ps, ∀ j, vm.outerIdx q = some j → j < i) ∧ vm.Ordered ps

/-- The cells that are open stay open on their slots. -/
def KeepsOpen (vm vm' : VM Heap) : Prop :=
  ∀ p idx, vm.outerIdx p = some idx → vm'.outerIdx p = some idx

/-- The cell `p` is open on the slot. -/
def OpenOn (vm : VM Heap) (idx : Nat) (p : Ref) : Prop :=
  p ∈ vm.openouters ∧ vm.outerIdx p = some idx

theorem Ordered.isOpen {ps : List Ref} (h : vm.Ordered ps) {p : Ref} (hp : p ∈ ps) :
    ∃ i, vm.outerIdx p = some i := by
  induction ps with
  | nil => cases hp
  | cons first rest ih =>
      obtain ⟨⟨i, hi, -⟩, hrest⟩ := h
      rcases List.mem_cons.mp hp with rfl | hp
      · exact ⟨i, hi⟩
      · exact ih hrest hp

/-- Cells that stay open on their slots stay in order. -/
theorem Ordered.of_mem {ps : List Ref} (h : vm.Ordered ps)
    (hkeeps : ∀ p ∈ ps, ∀ idx, vm.outerIdx p = some idx → vm'.outerIdx p = some idx) :
    vm'.Ordered ps := by
  induction ps with
  | nil => trivial
  | cons p ps ih =>
      obtain ⟨⟨i, hi, hbelow⟩, hrest⟩ := h
      refine ⟨⟨i, hkeeps p (by simp) i hi, fun q hq j hj => ?_⟩,
        ih hrest fun q hq => hkeeps q (List.mem_cons_of_mem _ hq)⟩
      obtain ⟨j', hj'⟩ := hrest.isOpen hq
      cases hj.symm.trans (hkeeps q (List.mem_cons_of_mem _ hq) j' hj')
      exact hbelow q hq _ hj'

theorem Ordered.keepsOpen {ps : List Ref} (h : vm.Ordered ps) (hkeeps : KeepsOpen vm vm') :
    vm'.Ordered ps :=
  h.of_mem fun p _ => hkeeps p

theorem outerIdx_lt {p : Ref} {idx : Nat} (h : vm.outerIdx p = some idx) :
    p < vm.outers.length := by
  unfold outerIdx at h
  split at h
  · rename_i idx' hp
    exact (List.getElem?_eq_some_iff.mp hp).1
  · cases h

theorem keepsOpen_append (outers : List Outer) :
    KeepsOpen vm { vm with outers := vm.outers ++ outers } := by
  intro p idx h
  have hlt := outerIdx_lt h
  unfold outerIdx at h ⊢
  rwa [List.getElem?_append_left hlt]

/-- `FindOuter` finds the cell that is open on the slot, or is told to take the new one. -/
theorem searchOuter_fst (vm : VM Heap) (stackindex : Nat) (p : Ref) (ps : List Ref) :
    vm.outerIdx (vm.searchOuter stackindex p ps).1 = some stackindex ∨
      (vm.searchOuter stackindex p ps).1 = p := by
  induction ps with
  | nil => exact .inr rfl
  | cons q qs ih =>
      unfold searchOuter
      cases hq : vm.outerIdx q with
      | none => exact .inr rfl
      | some idx =>
          dsimp only
          split
          · rename_i heq
            exact .inl (heq ▸ hq)
          · split
            · exact ih
            · exact .inr rfl

/-- The list with the cell that `FindOuter` gives. -/
theorem mem_searchOuter (stackindex : Nat) (p : Ref) (ps : List Ref) {q : Ref} :
    q ∈ (vm.searchOuter stackindex p ps).2 ↔
      q = (vm.searchOuter stackindex p ps).1 ∨ q ∈ ps := by
  induction ps with
  | nil => simp [searchOuter]
  | cons first rest ih =>
      unfold searchOuter
      cases hfirst : vm.outerIdx first with
      | none => simp
      | some idx =>
          dsimp only
          split
          · simp
          · split
            · simp only [List.mem_cons, ih]
              tauto
            · simp

/-- The search keeps the list in order. -/
theorem Ordered.searchOuter {stackindex : Nat} {p : Ref} {ps : List Ref} (h : vm.Ordered ps)
    (hkeeps : KeepsOpen vm vm')
    (hfound : vm'.outerIdx (vm.searchOuter stackindex p ps).1 = some stackindex) :
    vm'.Ordered (vm.searchOuter stackindex p ps).2 := by
  induction ps with
  | nil => exact ⟨⟨stackindex, hfound, fun q hq => by cases hq⟩, trivial⟩
  | cons q qs ih =>
      have hall := h.keepsOpen hkeeps
      obtain ⟨⟨i, hi, hbelow⟩, hrest⟩ := h
      unfold VM.searchOuter at hfound ⊢
      rw [hi] at hfound ⊢
      dsimp only at hfound ⊢
      split at hfound
      · rename_i heq
        rwa [if_pos heq]
      · rename_i hne
        rw [if_neg hne]
        split at hfound
        · rename_i hlt
          rw [if_pos hlt]
          refine ⟨⟨i, hkeeps q i hi, fun x hx j hj => ?_⟩, ih hrest hfound⟩
          rcases (mem_searchOuter stackindex p qs).mp hx with rfl | hx
          · cases hj.symm.trans hfound
            exact hlt
          · obtain ⟨j', hj'⟩ := hrest.isOpen hx
            cases hj.symm.trans (hkeeps x j' hj')
            exact hbelow x hx _ hj'
        · rename_i hle
          rw [if_neg hle]
          refine ⟨⟨stackindex, hfound, fun x hx j hj => ?_⟩, hall⟩
          have hlt : i < stackindex := by omega
          rcases List.mem_cons.mp hx with rfl | hx
          · cases hj.symm.trans (hkeeps x i hi)
            exact hlt
          · obtain ⟨j', hj'⟩ := hrest.isOpen hx
            cases hj.symm.trans (hkeeps x j' hj')
            exact Nat.lt_trans (hbelow x hx _ hj') hlt

/-- The state after `FindOuter`. -/
def withOuter (vm : VM Heap) (stackindex : Nat) : VM Heap :=
  let found := vm.searchOuter stackindex vm.outers.length vm.openouters
  { vm with
    openouters := found.2
    outers := if found.1 = vm.outers.length then vm.outers ++ [Outer.open stackindex]
      else vm.outers }

theorem findOuter_apply (stackindex : Nat) (vm : VM Heap) :
    findOuter stackindex vm =
      .ok (vm.searchOuter stackindex vm.outers.length vm.openouters).1 (vm.withOuter stackindex) :=
  rfl

theorem withOuter_keepsOpen (vm : VM Heap) (stackindex : Nat) :
    KeepsOpen vm (vm.withOuter stackindex) := by
  intro p idx h
  unfold withOuter
  dsimp only
  split
  · exact keepsOpen_append [.open stackindex] p idx h
  · exact h

/-- The cell that `FindOuter` gives is open on the slot. -/
theorem openOn_findOuter (vm : VM Heap) (stackindex : Nat) :
    (vm.withOuter stackindex).OpenOn stackindex
      (vm.searchOuter stackindex vm.outers.length vm.openouters).1 := by
  constructor
  · exact (mem_searchOuter stackindex _ _).mpr (.inl rfl)
  · rcases searchOuter_fst vm stackindex vm.outers.length vm.openouters with h | h
    · exact withOuter_keepsOpen vm stackindex _ _ h
    · unfold withOuter
      dsimp only
      rw [if_pos h, h]
      simp [outerIdx]

theorem OpenOn.withOuter {idx : Nat} {p : Ref} (h : vm.OpenOn idx p) (stackindex : Nat) :
    (vm.withOuter stackindex).OpenOn idx p :=
  ⟨(mem_searchOuter stackindex _ _).mpr (.inr h.1), withOuter_keepsOpen vm stackindex p idx h.2⟩

theorem Ordered.withOuter (h : vm.Ordered vm.openouters) (stackindex : Nat) :
    (vm.withOuter stackindex).Ordered (vm.withOuter stackindex).openouters :=
  h.searchOuter (withOuter_keepsOpen vm stackindex) (openOn_findOuter vm stackindex).2

/-- A slot has one open cell. -/
theorem Ordered.unique {ps : List Ref} (h : vm.Ordered ps) {p q : Ref} (hp : p ∈ ps) (hq : q ∈ ps)
    {idx : Nat} (hpidx : vm.outerIdx p = some idx) (hqidx : vm.outerIdx q = some idx) : p = q := by
  induction ps with
  | nil => cases hp
  | cons first rest ih =>
      obtain ⟨⟨i, hi, hbelow⟩, hrest⟩ := h
      rcases List.mem_cons.mp hp with rfl | hp' <;> rcases List.mem_cons.mp hq with rfl | hq'
      · rfl
      · cases hi.symm.trans hpidx
        exact absurd (hbelow q hq' _ hqidx) (Nat.lt_irrefl _)
      · cases hi.symm.trans hqidx
        exact absurd (hbelow p hp' _ hpidx) (Nat.lt_irrefl _)
      · exact ih hrest hp' hq'

/-- Closing the cells of the slots from `stackindex` on leaves the cell of a slot below open. -/
theorem closeFrom_below {stackindex idx : Nat} (hlt : idx < stackindex) {ps : List Ref}
    (h : vm.Ordered ps) {p : Ref} (hp : p ∈ ps) (hidx : vm.outerIdx p = some idx) :
    (vm.closeFrom stackindex ps).OpenOn idx p ∧
      (vm.closeFrom stackindex ps).Ordered (vm.closeFrom stackindex ps).openouters := by
  induction ps generalizing vm with
  | nil => cases hp
  | cons first rest ih =>
      obtain ⟨⟨i, hi, hbelow⟩, hrest⟩ := id h
      unfold closeFrom
      rw [hi]
      dsimp only
      split
      · rename_i hle
        -- the cell at the head is closed; those behind it are other cells
        have hother (q : Ref) (hq : q ∈ rest) (j : Nat) (hj : vm.outerIdx q = some j) :
            outerIdx { vm with outers := vm.outers.set first (.closed (vm.stack i)) } q = some j := by
          have hne : first ≠ q := by
            rintro rfl
            exact absurd (hbelow _ hq _ hi) (Nat.lt_irrefl _)
          unfold outerIdx at hj ⊢
          rwa [List.getElem?_set_ne hne]
        have hmem : p ∈ rest := by
          rcases List.mem_cons.mp hp with rfl | hp
          · cases hi.symm.trans hidx
            omega
          · exact hp
        exact ih (hrest.of_mem hother) hmem (hother p hmem idx hidx)
      · exact ⟨⟨hp, hidx⟩, h.keepsOpen fun _ _ hq => hq⟩

/-! ### Outer variables of a closure -/

/-- The cell of an outer variable of a closure that is made while `current` runs in the frame at
`base`: it is open on the register, or it is the cell of `current`. -/
def Bound (vm : VM Heap) (base : Nat) (current : Closure) (v : OuterVar) (p : Ref) : Prop :=
  match v.type with
  | .otLOCAL => vm.OpenOn (base + capturedIndex v) p
  | .otOUTER => current.outervalues[capturedIndex v]? = some p

/-- What is open stays open, in order, and nothing else changes. -/
structure Captures (vm vm' : VM Heap) : Prop where
  openOn : ∀ idx p, vm.OpenOn idx p → vm'.OpenOn idx p
  ordered : vm.Ordered vm.openouters → vm'.Ordered vm'.openouters
  stackbase : vm'.stackbase = vm.stackbase
  closures : vm'.closures = vm.closures
  stack : vm'.stack = vm.stack

theorem captures_refl (vm : VM Heap) : Captures vm vm :=
  ⟨fun _ _ h => h, fun h => h, rfl, rfl, rfl⟩

theorem Captures.trans {vm₁ vm₂ vm₃ : VM Heap} (h : Captures vm₁ vm₂) (h' : Captures vm₂ vm₃) :
    Captures vm₁ vm₃ where
  openOn idx p hp := h'.openOn idx p (h.openOn idx p hp)
  ordered hordered := h'.ordered (h.ordered hordered)
  stackbase := h'.stackbase.trans h.stackbase
  closures := h'.closures.trans h.closures
  stack := h'.stack.trans h.stack

theorem Bound.captures {base : Nat} {current : Closure} {v : OuterVar} {p : Ref}
    (h : Bound vm base current v p) (hcaptures : Captures vm vm') : Bound vm' base current v p := by
  unfold Bound at h ⊢
  cases htype : v.type with
  | otLOCAL =>
      rw [htype] at h
      exact hcaptures.openOn _ p h
  | otOUTER =>
      rw [htype] at h
      exact h

theorem captureOuter_ok {current : Closure} {v : OuterVar} {p : Ref}
    (h : captureOuter current v vm = .ok p vm') :
    Captures vm vm' ∧ Bound vm' vm.stackbase current v p := by
  unfold captureOuter at h
  unfold Bound
  cases htype : v.type with
  | otLOCAL =>
      rw [htype] at h
      dsimp only at h
      rw [get_bind_apply, findOuter_apply] at h
      cases h
      exact ⟨⟨fun idx p hp => hp.withOuter _, fun hordered => hordered.withOuter _, rfl, rfl, rfl⟩,
        openOn_findOuter _ _⟩
  | otOUTER =>
      rw [htype] at h
      dsimp only at h ⊢
      cases hcell : current.outervalues[capturedIndex v]? with
      | none =>
          rw [hcell] at h
          cases h
      | some q =>
          rw [hcell] at h
          cases h
          exact ⟨captures_refl vm, rfl⟩

theorem captureOuters_ok {current : Closure} {vs : List OuterVar} {ps : List Ref}
    (h : captureOuters current vs vm = .ok ps vm') :
    Captures vm vm' ∧ List.Forall₂ (Bound vm' vm.stackbase current) vs ps := by
  induction vs generalizing vm ps with
  | nil =>
      cases h
      exact ⟨captures_refl _, .nil⟩
  | cons v vs ih =>
      unfold captureOuters at h
      obtain ⟨p, vm₁, hfirst, h⟩ := bind_eq_ok.mp h
      obtain ⟨ps', vm₂, hrest, h⟩ := bind_eq_ok.mp h
      cases h
      obtain ⟨hcaptures₁, hbound⟩ := captureOuter_ok hfirst
      obtain ⟨hcaptures₂, hall⟩ := ih hrest
      rw [hcaptures₁.stackbase] at hall
      exact ⟨hcaptures₁.trans hcaptures₂, .cons (hbound.captures hcaptures₂) hall⟩

/-- The environment is only looked up. -/
theorem boundEnvironment_ok {i : Instruction} {env : Option Object}
    (h : boundEnvironment i vm = .ok env vm') : vm' = vm := by
  unfold boundEnvironment at h
  split at h
  · cases h
    rfl
  · obtain ⟨o, vm₁, hread, hbind⟩ := bind_eq_ok.mp h
    cases hread
    cases ho : vm.stack (vm.stackbase + i.arg2.toNat) <;> rw [ho] at hbind <;> cases hbind <;> rfl

theorem currentClosure_same {current : Closure} (h : currentClosure vm = .ok current vm') :
    vm' = vm := by
  have hwithin := (within_currentClosure (r := fun s s' : VM Heap => s' = s)).ok h
  exact hwithin

/-- `child` is a closure that `CLOSURE` has made while `current` ran in the frame at `base`. -/
def Makes (vm : VM Heap) (base : Nat) (current child : Closure) : Prop :=
  List.Forall₂ (Bound vm base current) child.function.outervalues child.outervalues

/-- `CLOSURE` makes a closure of a function of the running one and binds every outer variable. -/
theorem closureOp_ok {i : Instruction} (h : closureOp i vm = .ok () vm') :
    ∃ current n func closure, currentClosure vm = .ok current vm ∧ index1 i vm = .ok n vm ∧
      current.function.functions[n]? = some func ∧ closure.function = func ∧
      vm'.closures = vm.closures ++ [closure] ∧
      vm'.stack (vm.stackbase + i.arg0.toNat) = .closure vm.closures.length ∧
      Makes vm' vm.stackbase current closure ∧ (∀ idx p, vm.OpenOn idx p → vm'.OpenOn idx p) ∧
      (vm.Ordered vm.openouters → vm'.Ordered vm'.openouters) := by
  unfold closureOp at h
  obtain ⟨current, vm₁, hcurrent, hindex⟩ := bind_eq_ok.mp h
  obtain rfl := currentClosure_same hcurrent
  obtain ⟨n, vm₂, hn, hmake⟩ := bind_eq_ok.mp hindex
  have hvm₂ : vm₂ = vm₁ := by
    unfold index1 at hn
    split at hn <;> cases hn
    rfl
  subst hvm₂
  cases hfunc : current.function.functions[n]? with
  | none =>
      rw [hfunc] at hmake
      cases hmake
  | some func =>
      rw [hfunc] at hmake
      obtain ⟨outervalues, vm₃, hcapture, hrest⟩ := bind_eq_ok.mp hmake
      obtain ⟨hcaptures, hbound⟩ := captureOuters_ok hcapture
      rw [get_bind_apply] at hrest
      obtain ⟨env, vm₄, henv, hstore⟩ := bind_eq_ok.mp hrest
      obtain rfl := boundEnvironment_ok henv
      cases hstore
      let closure : Closure := {
        function := func
        outervalues := outervalues
        defaultparams := func.defaultparams.map fun pos =>
          vm₄.stack (vm₄.stackbase + pos.toInt.toNat)
        env := env }
      refine ⟨current, n, func, closure, hcurrent, hn, hfunc, rfl, ?_, ?_, ?_, ?_, ?_⟩
      · exact congrArg (· ++ _) hcaptures.closures
      · rw [← hcaptures.stackbase]
        exact (if_pos rfl).trans (congrArg (fun cs => Object.closure cs.length) hcaptures.closures)
      · exact hbound
      · exact fun idx p hp => hcaptures.openOn idx p hp
      · exact fun hordered => (hcaptures.ordered hordered).keepsOpen fun _ _ hidx => hidx

/-! ### Runs on which a cell stays open -/

/-- What a machine does while the frame that has the slot `idx` runs: it makes closures, closes the
cells of slots above, and does whatever leaves the open cells as they are (every instruction on
registers, and the code of frames above). -/
inductive Proceeds (idx : Nat) (vm : VM Heap) : VM Heap → Prop where
  | refl : Proceeds idx vm vm
  | closure {vm₁ vm₂ : VM Heap} {i : Instruction} : Proceeds idx vm vm₁ →
      closureOp i vm₁ = .ok () vm₂ → Proceeds idx vm vm₂
  | close {vm₁ : VM Heap} {stackindex : Nat} : Proceeds idx vm vm₁ → idx < stackindex →
      Proceeds idx vm (vm₁.closeOuters stackindex)
  | leaves {vm₁ vm₂ : VM Heap} : Proceeds idx vm vm₁ → vm₂.openouters = vm₁.openouters →
      (∀ p, vm₂.outerIdx p = vm₁.outerIdx p) → Proceeds idx vm vm₂

/-- On such a run the cell of the slot stays the one that is open on it. -/
theorem OpenOn.proceeds {idx : Nat} {p : Ref} (h : vm.OpenOn idx p)
    (hordered : vm.Ordered vm.openouters) (hproceeds : Proceeds idx vm vm') :
    vm'.OpenOn idx p ∧ vm'.Ordered vm'.openouters := by
  induction hproceeds with
  | refl => exact ⟨h, hordered⟩
  | closure _ hclosure ih =>
      obtain ⟨_, _, _, _, -, -, -, -, -, -, -, hkeeps, hafter⟩ := closureOp_ok hclosure
      exact ⟨hkeeps idx p ih.1, hafter ih.2⟩
  | close _ hlt ih => exact closeFrom_below hlt ih.2 ih.1.1 ih.1.2
  | leaves _ hopen hidx ih =>
      refine ⟨⟨hopen ▸ ih.1.1, (hidx p).trans ih.1.2⟩, ?_⟩
      rw [hopen]
      exact ih.2.keepsOpen fun q j hq => (hidx q).trans hq

/-! ### Reading and writing a captured variable -/

theorem readOuter_writeOuter {p : Ref} (hp : p < vm.outers.length) (v : Object) :
    (vm.writeOuter p v).readOuter p = v := by
  unfold writeOuter
  rw [List.getElem?_eq_getElem hp]
  cases hcell : vm.outers[p] with
  | «open» idx =>
      dsimp only
      unfold readOuter setSlot
      rw [List.getElem?_eq_getElem hp, hcell]
      exact if_pos rfl
  | closed w =>
      dsimp only
      unfold readOuter
      rw [List.getElem?_set_self hp]

theorem writeOuter_stackbase (p : Ref) (v : Object) :
    (vm.writeOuter p v).stackbase = vm.stackbase := by
  unfold writeOuter
  split <;> rfl

/-- A slot that holds the value already holds it still. -/
theorem writeOuter_stack (p : Ref) {v : Object} {a : Nat} (h : vm.stack a = v) :
    (vm.writeOuter p v).stack a = v := by
  unfold writeOuter
  split
  · exact ite_eq_left_iff.mpr fun _ => h
  · exact h
  · exact h

/-- So does a cell when the value is put into a slot. -/
theorem readOuter_setSlot {p : Ref} {v : Object} (a : Nat) (h : vm.readOuter p = v) :
    (vm.setSlot a v).readOuter p = v := by
  unfold readOuter at h ⊢
  have houters : (vm.setSlot a v).outers = vm.outers := rfl
  rw [houters]
  cases hcell : vm.outers[p]? with
  | none =>
      rw [hcell] at h
      exact h
  | some cell =>
      rw [hcell] at h
      cases cell with
      | «open» idx => exact ite_eq_left_iff.mpr fun _ => h
      | closed w => exact h

variable {current : Closure} {n : Nat} {p : Ref} {i : Instruction}

/-- `GETOUTER` loads what the cell holds. -/
theorem getOuter_ok (hcurrent : currentClosure vm = .ok current vm)
    (hindex : index1 i vm = .ok n vm) (hp : current.outervalues[n]? = some p)
    (h : getOuter i vm = .ok () vm') :
    vm'.stack (vm.stackbase + i.arg0.toNat) = vm.readOuter p := by
  unfold getOuter at h
  rw [bind_apply, hcurrent] at h
  dsimp only at h
  rw [bind_apply, hindex] at h
  dsimp only at h
  rw [hp] at h
  cases h
  exact if_pos rfl

/-- `SETOUTER` leaves the value of its register in the cell. -/
theorem setOuter_ok (hcurrent : currentClosure vm = .ok current vm)
    (hindex : index1 i vm = .ok n vm) (hp : current.outervalues[n]? = some p)
    (hlt : p < vm.outers.length) (h : setOuter i vm = .ok () vm') :
    vm'.readOuter p = vm.stack (vm.stackbase + i.arg2.toNat) := by
  unfold setOuter at h
  rw [bind_apply, hcurrent] at h
  dsimp only at h
  rw [bind_apply, hindex] at h
  dsimp only at h
  rw [hp] at h
  have hread := readOuter_writeOuter hlt (vm.stack (vm.stackbase + i.arg2.toNat))
  by_cases harg : i.arg0 ≠ 0xFF
  · -- the register is read again behind the cell
    have hreg : (vm.writeOuter p (vm.stack (vm.stackbase + i.arg2.toNat))).stack
        ((vm.writeOuter p (vm.stack (vm.stackbase + i.arg2.toNat))).stackbase + i.arg2.toNat) =
        vm.stack (vm.stackbase + i.arg2.toNat) := by
      rw [writeOuter_stackbase]
      exact writeOuter_stack p rfl
    rw [when, if_pos harg] at h
    cases h
    refine readOuter_setSlot _ ?_ |>.trans hreg
    exact hread.trans hreg.symm
  · rw [when, if_neg harg] at h
    cases h
    exact hread

end GameScript.VM
