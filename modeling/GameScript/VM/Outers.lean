import Mathlib.Data.List.Perm.Subperm
import Mathlib.Tactic.Tauto
import GameScript.Object
import GameScript.Lib.Linked

/-!
The cells of captured variables (`GSOuter`) and the stack of a machine they point into:
`FindOuter`, `CloseOuters`, `EnterFrame`, `LeaveFrame` and `RelocateOuters` of `GSvm.cpp` and
`GS_reservestack` of `GSapi.cpp`.

The stack is a buffer at the address `vals`. Growing it gives a buffer at an address that
`realloc` chooses, which may be the old one; what is left of the old one must not be read. An
operation gives `none` where the source would read through a pointer into it, or would not
come back.
-/

namespace GameScript.Outers

open LinkedList

/-- `_valptr`: an address in the stack, or the cell's own `_value`. -/
inductive ValPtr where
  | stack (addr : Nat)
  | own
deriving DecidableEq, Repr

/-- `GSOuter`. -/
structure Outer where
  valptr : ValPtr := .own
  idx : Nat := 0
  value : Object := .null
  next : Option Ref := none

/-- `CallInfo`, as far as the stack goes. -/
structure CallInfo where
  prevstkbase : Int
  prevtop : Int

/-- `GSVM`. `slot` is what the buffer holds; the cells from `cells` on are in no use. -/
structure Machine where
  vals : Nat
  size : Nat
  slot : Nat → Object
  stackbase : Nat
  top : Nat
  callsstack : List CallInfo
  nmetamethodscall : Nat
  cell : Ref → Outer
  cells : Nat
  openouters : Option Ref

def MIN_STACK_OVERHEAD : Nat := 15

/-- `sizeof(GSObjectPtr)`. -/
def OBJECT_SIZE : Nat := 16

namespace Machine

variable (s : Machine)

/-- `&_stack._vals[i]`. -/
def addr (i : Nat) : Nat := s.vals + OBJECT_SIZE * i

/-- The slot of the buffer that an address is that of. -/
def slotAt (a : Nat) : Option Nat :=
  let i := (a - s.vals) / OBJECT_SIZE
  if s.addr i = a ∧ i < s.size then some i else none

def links : Ref → Option Ref := fun p => (s.cell p).next

/-- `p->_valptr >= stackindex` for a cell that is open. -/
def above (stackindex : Nat) (p : Ref) : Bool :=
  match (s.cell p).valptr with
  | .stack a => a ≥ stackindex
  | .own => false

def setCell (p : Ref) (o : Outer) : Machine := { s with cell := Function.update s.cell p o }

def setSlot (i : Nat) (v : Object) : Machine := { s with slot := Function.update s.slot i v }

/-- `*(p->_valptr)`. -/
def getOuter (p : Ref) : Option Object :=
  match (s.cell p).valptr with
  | .stack a => (s.slotAt a).map s.slot
  | .own => some (s.cell p).value

/-- `*(p->_valptr) = v`. -/
def setOuter (p : Ref) (v : Object) : Option Machine :=
  match (s.cell p).valptr with
  | .stack a => (s.slotAt a).map fun i => s.setSlot i v
  | .own => some (s.setCell p { s.cell p with value := v })

/-- `otr->_next = *pp; *pp = otr`, where `pp` is the link behind `prev` or the head. -/
def insertOuter (prev rest : Option Ref) (o : Outer) : Machine :=
  let otr := s.cells
  let s := { s.setCell otr { o with next := rest } with cells := s.cells + 1 }
  match prev with
  | some p => s.setCell p { s.cell p with next := some otr }
  | none => { s with openouters := some otr }

/-- `FindOuter` for the slot `i`: the cell there is, or a new one. The walk goes on while the
cells are above `stackindex`. -/
def FindOuter (i : Nat) : Option (Machine × Ref) := do
  let stackindex := s.addr i
  let stop (p : Ref) : Bool := !s.above stackindex p || (s.cell p).valptr = .stack stackindex
  let (prev, p) ← find s.links stop s.cells none s.openouters
  match p with
  | some p =>
      if (s.cell p).valptr = .stack stackindex then return (s, p)
      else return (s.insertOuter prev (some p) { valptr := .stack stackindex, idx := i }, s.cells)
  | none => return (s.insertOuter prev none { valptr := .stack stackindex, idx := i }, s.cells)

/-- The loop of `CloseOuters`. -/
def closeLoop (stackindex : Nat) : Nat → Machine → Option Machine
  | 0, _ => none
  | fuel + 1, s =>
      match s.openouters with
      | none => some s
      | some p =>
          if s.above stackindex p then do
            let v ← s.getOuter p
            let s' := s.setCell p { s.cell p with value := v, valptr := .own }
            closeLoop stackindex fuel { s' with openouters := (s.cell p).next }
          else some s

/-- `CloseOuters`, from the slot `i` upwards. -/
def CloseOuters (i : Nat) : Option Machine := closeLoop (s.addr i) (s.cells + 1) s

/-- `_stack.resize` to more than the buffer holds: the slots move to the address `moved`. -/
def resize (newsize moved : Nat) : Machine :=
  { s with
    vals := moved
    size := newsize
    slot := fun i => if i < s.size then s.slot i else .null }

/-- The loop of `RelocateOuters`. -/
def relocateLoop : Nat → Option Ref → Machine → Option Machine
  | _, none, s => some s
  | 0, some _, _ => none
  | fuel + 1, some p, s =>
      relocateLoop fuel (s.cell p).next
        (s.setCell p { s.cell p with valptr := .stack (s.addr (s.cell p).idx) })

/-- `RelocateOuters`. -/
def RelocateOuters : Option Machine := relocateLoop s.cells s.openouters s

/-- `EnterFrame`. `moved` is the address of the buffer, should it grow. When it may not grow the
frame stays. -/
def EnterFrame (newbase newtop : Nat) (tailcall : Bool) (moved : Nat) : Option (Machine × Bool) :=
  let frame : CallInfo := { prevstkbase := newbase - s.stackbase, prevtop := s.top - s.stackbase }
  let callsstack := if tailcall then s.callsstack else frame :: s.callsstack
  let s := { s with callsstack := callsstack, stackbase := newbase, top := newtop }
  if newtop + MIN_STACK_OVERHEAD > s.size then
    if s.nmetamethodscall ≠ 0 then some (s, false)
    else do
      let s ← (s.resize (newtop + MIN_STACK_OVERHEAD * 4) moved).RelocateOuters
      return (s, true)
  else some (s, true)

/-- The end of `LeaveFrame`: the slots of the frame are emptied. -/
def clearFrame (last_top : Nat) : Machine :=
  { s with slot := fun i => if s.top ≤ i ∧ i ≤ last_top then .null else s.slot i }

/-- `LeaveFrame`. -/
def LeaveFrame : Option Machine :=
  match s.callsstack with
  | [] => none
  | ci :: callsstack => do
      let last_top := s.top
      let last_stackbase := s.stackbase
      let stackbase := (s.stackbase - ci.prevstkbase).toNat
      let s := { s with callsstack := callsstack, stackbase := stackbase,
                        top := (stackbase + ci.prevtop).toNat }
      let s ← (if s.openouters.isSome then s.CloseOuters last_stackbase else some s)
      return s.clearFrame last_top

/-- `GS_reservestack`. -/
def GS_reservestack (nsize moved : Nat) : Machine × Bool :=
  if s.top + nsize > s.size then
    if s.nmetamethodscall ≠ 0 then (s, false)
    else (s.resize (s.size + ((s.top + nsize) - s.size)) moved, true)
  else (s, true)

end Machine

/-! ### Runs -/

/-- What is done to the stack of a machine. -/
inductive Op where
  | findOuter (i : Nat)
  | closeOuters (i : Nat)
  | enterFrame (newbase newtop : Nat) (tailcall : Bool) (moved : Nat)
  | leaveFrame
  | reserveStack (nsize moved : Nat)
  /-- Assignments to a slot through the frame, and to a variable through its cell. -/
  | setSlot (i : Nat) (v : Object)
  | setOuter (p : Ref) (v : Object)
  /-- `Push` and `Pop`. -/
  | setTop (top : Nat)
  /-- The calls of metamethods the machine is in. -/
  | setMetaMethodsCall (n : Nat)

def Machine.step (s : Machine) : Op → Option Machine
  | .findOuter i => (s.FindOuter i).map (·.1)
  | .closeOuters i => s.CloseOuters i
  | .enterFrame newbase newtop tailcall moved =>
      (s.EnterFrame newbase newtop tailcall moved).map (·.1)
  | .leaveFrame => s.LeaveFrame
  | .reserveStack nsize moved => some (s.GS_reservestack nsize moved).1
  | .setSlot i v => some (s.setSlot i v)
  | .setOuter p v => s.setOuter p v
  | .setTop top => some { s with top := top }
  | .setMetaMethodsCall n => some { s with nmetamethodscall := n }

/-- A slot is one of the stack, a frame is left that was entered, and a variable is one that a closure
has. -/
def Op.Valid (s : Machine) : Op → Prop
  | .findOuter i => i < s.size
  | .leaveFrame => s.callsstack ≠ []
  | .setOuter p _ => p < s.cells
  | _ => True

/-- A machine at the start: nothing is captured. -/
def Machine.init (vals size : Nat) : Machine where
  vals := vals
  size := size
  slot _ := .null
  stackbase := 0
  top := 0
  callsstack := []
  nmetamethodscall := 0
  cell _ := {}
  cells := 0
  openouters := none

/-! ### The open list -/

variable {s s' : Machine} {l : List Ref} {p : Ref} {i : Nat}

/-- The open cells from the head on: each for a slot of the stack below the one before. A cell
that is not open has its own value. -/
structure OpenList (s : Machine) (l : List Ref) : Prop where
  isList : IsList s.links s.openouters l
  descending : l.Pairwise fun p q => (s.cell q).idx < (s.cell p).idx
  in_stack : ∀ p ∈ l, (s.cell p).idx < s.size
  below : ∀ p ∈ l, p < s.cells
  closed : ∀ p < s.cells, p ∉ l → (s.cell p).valptr = .own

/-- Every open cell points to its slot of the stack. -/
structure Pointing (s : Machine) (l : List Ref) : Prop extends OpenList s l where
  valptr : ∀ p ∈ l, (s.cell p).valptr = .stack (s.addr (s.cell p).idx)

/-- The open outer list is as it should be. -/
def Machine.Coherent (s : Machine) : Prop := ∃ l, Pointing s l

theorem OpenList.nodup (h : OpenList s l) : l.Nodup := by
  apply h.descending.imp
  rintro p q hlt rfl
  exact Nat.lt_irrefl _ hlt

/-- The list is no longer than there are cells. -/
theorem OpenList.length_le (h : OpenList s l) : l.length ≤ s.cells := by
  have hsub : l ⊆ List.range s.cells := fun p hp => List.mem_range.mpr (h.below p hp)
  have hle := (h.nodup.subperm hsub).length_le
  rwa [List.length_range] at hle

theorem addr_lt_addr {j : Nat} : s.addr i < s.addr j ↔ i < j := by
  simp only [Machine.addr, OBJECT_SIZE]
  omega

theorem addr_inj {j : Nat} (h : s.addr i = s.addr j) : i = j := by
  simp only [Machine.addr, OBJECT_SIZE] at h
  omega

theorem slotAt_addr (hi : i < s.size) : s.slotAt (s.addr i) = some i := by
  have hdiv : (s.addr i - s.vals) / OBJECT_SIZE = i := by
    simp only [Machine.addr, OBJECT_SIZE]
    omega
  simp [Machine.slotAt, hdiv, hi]

theorem Pointing.above_iff (h : Pointing s l) (hp : p ∈ l) :
    s.above (s.addr i) p ↔ i ≤ (s.cell p).idx := by
  have hle := addr_lt_addr (s := s) (i := (s.cell p).idx) (j := i)
  simp only [Machine.above, h.valptr p hp, ge_iff_le, decide_eq_true_eq]
  omega

/-- Through an open cell one reads the slot. -/
theorem Pointing.getOuter_eq (h : Pointing s l) (hp : p ∈ l) :
    s.getOuter p = some (s.slot (s.cell p).idx) := by
  simp [Machine.getOuter, h.valptr p hp, slotAt_addr (h.in_stack p hp)]

/-- Through an open cell one writes the slot. -/
theorem Pointing.setOuter_eq (h : Pointing s l) (hp : p ∈ l) (v : Object) :
    s.setOuter p v = some (s.setSlot (s.cell p).idx v) := by
  simp [Machine.setOuter, h.valptr p hp, slotAt_addr (h.in_stack p hp)]

/-- The stack and the cells alone decide. -/
theorem Pointing.congr (h : Pointing s l) (hvals : s'.vals = s.vals) (hsize : s'.size = s.size)
    (hcell : s'.cell = s.cell) (hcells : s'.cells = s.cells)
    (hopen : s'.openouters = s.openouters) : Pointing s' l := by
  have hlinks : s'.links = s.links := by
    funext q
    rw [Machine.links, Machine.links, hcell]
  have haddr : s'.addr = s.addr := by
    funext j
    rw [Machine.addr, Machine.addr, hvals]
  refine ⟨⟨?_, ?_, ?_, ?_, ?_⟩, ?_⟩
  · rw [hlinks, hopen]
    exact h.isList
  · rw [hcell]
    exact h.descending
  · rw [hcell, hsize]
    exact h.in_stack
  · rw [hcells]
    exact h.below
  · rw [hcells, hcell]
    exact h.closed
  · rw [hcell, haddr]
    exact h.valptr

/-! ### `FindOuter` -/

section

variable {prev rest : Option Ref} {o : Outer}

@[simp] theorem insertOuter_vals : (s.insertOuter prev rest o).vals = s.vals := by
  cases prev <;> rfl

@[simp] theorem insertOuter_size : (s.insertOuter prev rest o).size = s.size := by
  cases prev <;> rfl

@[simp] theorem insertOuter_cells : (s.insertOuter prev rest o).cells = s.cells + 1 := by
  cases prev <;> rfl

@[simp] theorem insertOuter_addr : (s.insertOuter prev rest o).addr = s.addr := by
  funext j
  rw [Machine.addr, Machine.addr, insertOuter_vals]

/-- The new cell, whichever the one before it is. -/
theorem insertOuter_self : ((s.insertOuter prev rest o).cell s.cells).valptr = o.valptr ∧
    ((s.insertOuter prev rest o).cell s.cells).idx = o.idx := by
  cases prev with
  | none => simp [Machine.insertOuter, Machine.setCell]
  | some q =>
      by_cases hq : s.cells = q
      · subst hq
        simp [Machine.insertOuter, Machine.setCell]
      · simp [Machine.insertOuter, Machine.setCell, hq]

/-- Of the other cells only a link changes. -/
theorem insertOuter_other (hp : p ≠ s.cells) :
    ((s.insertOuter prev rest o).cell p).valptr = (s.cell p).valptr ∧
      ((s.insertOuter prev rest o).cell p).idx = (s.cell p).idx := by
  cases prev with
  | none => simp [Machine.insertOuter, Machine.setCell, hp]
  | some q =>
      by_cases hpq : p = q
      · subst hpq
        simp [Machine.insertOuter, Machine.setCell, hp]
      · simp [Machine.insertOuter, Machine.setCell, hp, hpq]

theorem insertOuter_links :
    (s.insertOuter prev rest o).links = linkBehind s.links prev s.cells rest := by
  funext p
  cases prev with
  | none =>
      by_cases hp : p = s.cells
      · subst hp
        simp [Machine.links, Machine.insertOuter, Machine.setCell, linkBehind]
      · simp [Machine.links, Machine.insertOuter, Machine.setCell, linkBehind, hp]
  | some q =>
      by_cases hpq : p = q
      · subst hpq
        simp [Machine.links, Machine.insertOuter, Machine.setCell, linkBehind]
      · by_cases hp : p = s.cells
        · subst hp
          simp [Machine.links, Machine.insertOuter, Machine.setCell, linkBehind, hpq]
        · simp [Machine.links, Machine.insertOuter, Machine.setCell, linkBehind, hp, hpq]

theorem insertOuter_openouters (l₁ : List Ref) :
    (s.insertOuter l₁.getLast? rest o).openouters =
      if l₁ = [] then some s.cells else s.openouters := by
  rcases l₁.eq_nil_or_concat' with rfl | ⟨l₀, q, rfl⟩
  · rfl
  · simp [Machine.insertOuter, Machine.setCell]

end

/-- An element between those before it and those behind it. -/
theorem pairwise_insert {α : Type} {R : α → α → Prop} {l₁ l₂ : List α} {a : α}
    (h : (l₁ ++ l₂).Pairwise R) (hbefore : ∀ b ∈ l₁, R b a) (hbehind : ∀ b ∈ l₂, R a b) :
    (l₁ ++ a :: l₂).Pairwise R := by
  rw [List.pairwise_append] at h ⊢
  refine ⟨h.1, List.pairwise_cons.mpr ⟨hbehind, h.2.1⟩, fun b hb c hc => ?_⟩
  rcases List.mem_cons.mp hc with rfl | hc
  · exact hbefore b hb
  · exact h.2.2 b hb c hc

/-- A new cell between the cells above its slot and those below. -/
theorem Pointing.insertOuter {l₁ l₂ : List Ref} (h : Pointing s (l₁ ++ l₂)) (hi : i < s.size)
    (habove : ∀ p ∈ l₁, i < (s.cell p).idx) (hbelow : ∀ p ∈ l₂, (s.cell p).idx < i) :
    Pointing (s.insertOuter l₁.getLast? l₂.head? { valptr := .stack (s.addr i), idx := i })
      (l₁ ++ s.cells :: l₂) := by
  have hfresh : ∀ p ∈ l₁ ++ l₂, p ≠ s.cells := fun p hp => Nat.ne_of_lt (h.below p hp)
  have hnew : s.cells ∉ l₁ ++ l₂ := fun hp => hfresh _ hp rfl
  generalize hs' : s.insertOuter l₁.getLast? l₂.head? _ = s'
  have hself : (s'.cell s.cells).valptr = .stack (s.addr i) ∧ (s'.cell s.cells).idx = i :=
    hs' ▸ insertOuter_self
  have hother : ∀ p, p ≠ s.cells →
      (s'.cell p).valptr = (s.cell p).valptr ∧ (s'.cell p).idx = (s.cell p).idx :=
    fun p hp => hs' ▸ insertOuter_other hp
  have hidx : ∀ p ∈ l₁ ++ l₂, (s'.cell p).idx = (s.cell p).idx :=
    fun p hp => (hother p (hfresh p hp)).2
  have hrest : IsList s.links l₂.head? l₂ := by
    have hlist := h.isList
    cases l₂ with
    | nil => exact .nil
    | cons b l₂ => exact .cons hlist.suffix
  have hmem : ∀ p, p ∈ l₁ ++ s.cells :: l₂ ↔ p = s.cells ∨ p ∈ l₁ ++ l₂ := by
    intro p
    simp only [List.mem_append, List.mem_cons]
    tauto
  refine ⟨⟨?_, ?_, ?_, ?_, ?_⟩, ?_⟩
  · rw [← hs', insertOuter_links, insertOuter_openouters]
    exact h.isList.insert hrest hnew h.nodup
  · refine pairwise_insert ?_ (fun p hp => ?_) fun q hq => ?_
    · apply h.descending.imp_of_mem
      intro p q hp hq hlt
      rwa [hidx p hp, hidx q hq]
    · rw [hself.2, hidx p (List.mem_append_left _ hp)]
      exact habove p hp
    · rw [hself.2, hidx q (List.mem_append_right _ hq)]
      exact hbelow q hq
  · intro p hp
    rw [← hs', insertOuter_size, hs']
    rcases (hmem p).mp hp with rfl | hp
    · rw [hself.2]
      exact hi
    · rw [hidx p hp]
      exact h.in_stack p hp
  · intro p hp
    rw [← hs', insertOuter_cells]
    rcases (hmem p).mp hp with rfl | hp
    · exact Nat.lt_succ_self _
    · exact Nat.lt_succ_of_lt (h.below p hp)
  · intro p hp hpl
    rw [hmem p, not_or] at hpl
    rw [(hother p hpl.1).1]
    apply h.closed p _ hpl.2
    rw [← hs', insertOuter_cells] at hp
    exact Nat.lt_of_le_of_ne (Nat.le_of_lt_succ hp) hpl.1
  · intro p hp
    have haddr : s'.addr = s.addr := hs' ▸ insertOuter_addr
    rw [haddr]
    rcases (hmem p).mp hp with rfl | hp
    · rw [hself.1, hself.2]
    · rw [(hother p (hfresh p hp)).1, hidx p hp]
      exact h.valptr p hp

/-- `FindOuter` gives the one open cell of the slot. -/
theorem Pointing.FindOuter_eq (h : Pointing s l) (hi : i < s.size) :
    ∃ s' p l', s.FindOuter i = some (s', p) ∧ Pointing s' l' ∧ p ∈ l' ∧ (s'.cell p).idx = i := by
  have hat : ∀ p ∈ l, (s.cell p).valptr = .stack (s.addr i) ↔ (s.cell p).idx = i := by
    intro p hp
    rw [h.valptr p hp, ValPtr.stack.injEq]
    constructor
    · exact addr_inj
    · intro heq
      rw [heq]
  have hstop : ∀ p ∈ l, (!s.above (s.addr i) p || (s.cell p).valptr = .stack (s.addr i)) =
      decide ((s.cell p).idx ≤ i) := by
    intro p hp
    have habove := h.above_iff (i := i) hp
    rw [Bool.eq_iff_iff, Bool.or_eq_true, Bool.not_eq_true', ← Bool.not_eq_true, habove,
      decide_eq_true_eq, hat p hp, decide_eq_true_eq]
    omega
  have hnew : ∀ l₁ l₂, l = l₁ ++ l₂ → (∀ p ∈ l₁, i < (s.cell p).idx) →
      (∀ p ∈ l₂, (s.cell p).idx < i) → ∃ l', s.cells ∈ l' ∧
        Pointing (s.insertOuter l₁.getLast? l₂.head? { valptr := .stack (s.addr i), idx := i }) l' := by
    rintro l₁ l₂ rfl habove hbelow
    exact ⟨_, by simp, h.insertOuter hi habove hbelow⟩
  have hidx : ∀ prev rest, ((s.insertOuter prev rest
      { valptr := .stack (s.addr i), idx := i }).cell s.cells).idx = i :=
    fun _ _ => insertOuter_self.2
  by_cases hex : ∃ p ∈ l, (s.cell p).idx ≤ i
  · obtain ⟨p, hp, hpi⟩ := hex
    have hpstop : (!s.above (s.addr i) p || (s.cell p).valptr = .stack (s.addr i)) = true := by
      rw [hstop p hp]
      exact decide_eq_true hpi
    obtain ⟨l₁, b, l₂, rfl, hbefore, hb⟩ := exists_first
      (fun p => !s.above (s.addr i) p || (s.cell p).valptr = .stack (s.addr i)) hp hpstop
    have hbmem : b ∈ l₁ ++ b :: l₂ := by simp
    have hlen := h.length_le
    have hfuel : l₁.length < s.cells := by
      simp at hlen
      omega
    have hfind := find_of_mem none h.isList hfuel hbefore hb
    rw [Option.or_none] at hfind
    rw [hstop b hbmem, decide_eq_true_eq] at hb
    by_cases hbi : (s.cell b).idx = i
    · refine ⟨s, b, l₁ ++ b :: l₂, ?_, h, hbmem, hbi⟩
      simp [Machine.FindOuter, hfind, (hat b hbmem).mpr hbi]
    · have habove : ∀ q ∈ l₁, i < (s.cell q).idx := by
        intro q hq
        have hq' := hbefore q hq
        rw [hstop q (List.mem_append_left _ hq), decide_eq_true_eq] at hq'
        omega
      have hbelow : ∀ q ∈ b :: l₂, (s.cell q).idx < i := by
        intro q hq
        rcases List.mem_cons.mp hq with rfl | hq
        · omega
        · have hpw := (List.pairwise_append.mp h.descending).2.1
          have hlt := List.rel_of_pairwise_cons hpw hq
          omega
      obtain ⟨l', hmem, hl'⟩ := hnew _ _ rfl habove hbelow
      refine ⟨_, s.cells, l', ?_, hl', hmem, hidx _ _⟩
      have hne : ¬ (s.cell b).valptr = .stack (s.addr i) := fun heq => hbi ((hat b hbmem).mp heq)
      simp [Machine.FindOuter, hfind, hne]
  · have habove : ∀ q ∈ l, i < (s.cell q).idx := by
      intro q hq
      by_contra hle
      exact hex ⟨q, hq, by omega⟩
    have hfind := find_of_not_mem none h.isList h.length_le
      (p := fun p => !s.above (s.addr i) p || (s.cell p).valptr = .stack (s.addr i)) (by
        intro q hq
        rw [hstop q hq, decide_eq_true_eq]
        have := habove q hq
        omega)
    rw [Option.or_none] at hfind
    obtain ⟨l', hmem, hl'⟩ := hnew l [] (by simp) habove (by simp)
    refine ⟨_, s.cells, l', ?_, hl', hmem, hidx _ _⟩
    simp [Machine.FindOuter, hfind]

/-! ### `CloseOuters` -/

/-- The first open cell takes the value of its slot along. -/
theorem Pointing.close_head (h : Pointing s (p :: l)) :
    Pointing { s.setCell p { s.cell p with value := s.slot (s.cell p).idx, valptr := .own } with
      openouters := (s.cell p).next } l := by
  obtain ⟨hpl, hnodup⟩ := List.nodup_cons.mp h.nodup
  have hne : ∀ q ∈ l, q ≠ p := fun q hq heq => hpl (heq ▸ hq)
  have hother : ∀ o, ∀ q ∈ l, Function.update s.cell p o q = s.cell q := by
    intro o q hq
    rw [Function.update_of_ne (hne q hq)]
  have hrest : IsList s.links (s.links p) l := by
    have hlist := h.isList
    generalize s.openouters = head at hlist
    cases hlist with
    | cons hrest => exact hrest
  refine ⟨⟨?_, ?_, ?_, ?_, ?_⟩, ?_⟩
  · apply hrest.congr
    intro q hq
    simp only [Machine.links, Machine.setCell, hother _ q hq]
  · apply (List.pairwise_cons.mp h.descending).2.imp_of_mem
    intro q r hq hr hlt
    simp only [Machine.setCell, hother _ q hq, hother _ r hr]
    exact hlt
  · intro q hq
    simp only [Machine.setCell, hother _ q hq]
    exact h.in_stack q (List.mem_cons_of_mem _ hq)
  · exact fun q hq => h.below q (List.mem_cons_of_mem _ hq)
  · intro q hq hql
    by_cases hqp : q = p
    · subst hqp
      simp [Machine.setCell]
    · simp only [Machine.setCell, Function.update_of_ne hqp]
      apply h.closed q hq
      rw [List.mem_cons, not_or]
      exact ⟨hqp, hql⟩
  · intro q hq
    simp only [Machine.setCell, hother _ q hq]
    exact h.valptr q (List.mem_cons_of_mem _ hq)

/-- `CloseOuters` comes to an end, reads the stack only, and leaves the rest of the list open. -/
theorem Pointing.closeLoop_eq (h : Pointing s l) {fuel : Nat} (hfuel : l.length < fuel) :
    ∃ s' l', Machine.closeLoop (s.addr i) fuel s = some s' ∧ Pointing s' l' := by
  induction l generalizing s fuel with
  | nil =>
      obtain ⟨fuel, rfl⟩ : ∃ n, fuel = n + 1 := ⟨fuel - 1, by simp at hfuel; omega⟩
      have hnone : s.openouters = none := by
        rw [h.isList.head_eq]
        rfl
      exact ⟨s, [], by simp [Machine.closeLoop, hnone], h⟩
  | cons p l ih =>
      obtain ⟨fuel, rfl⟩ : ∃ n, fuel = n + 1 := ⟨fuel - 1, by simp at hfuel; omega⟩
      have hhead : s.openouters = some p := h.isList.head_eq
      by_cases habove : s.above (s.addr i) p
      · obtain ⟨s', l', heq, hs'⟩ := ih h.close_head (by simpa using hfuel)
        refine ⟨s', l', ?_, hs'⟩
        rw [Machine.closeLoop, hhead]
        simp only [habove, if_true, h.getOuter_eq List.mem_cons_self]
        exact heq
      · refine ⟨s, p :: l, ?_, h⟩
        simp [Machine.closeLoop, hhead, habove]

theorem Pointing.CloseOuters_eq (h : Pointing s l) (i : Nat) :
    ∃ s' l', s.CloseOuters i = some s' ∧ Pointing s' l' :=
  h.closeLoop_eq (Nat.lt_succ_of_le h.length_le)

/-! ### Growing the stack -/

/-- A buffer somewhere else keeps the list, but not where its cells point. -/
theorem OpenList.resize (h : OpenList s l) {newsize : Nat} (hsize : s.size ≤ newsize) (moved : Nat) :
    OpenList (s.resize newsize moved) l := by
  refine ⟨h.isList, h.descending, ?_, h.below, h.closed⟩
  intro p hp
  have hlt := h.in_stack p hp
  simp only [Machine.resize]
  omega

/-- The loop of `RelocateOuters` turns the cells of `l` to the buffer, those of `done` being there
already. -/
theorem relocateLoop_eq (done : List Ref) {fuel : Nat} {head : Option Ref}
    (h : OpenList s (done ++ l)) (hlist : IsList s.links head l) (hfuel : l.length ≤ fuel)
    (hdone : ∀ p ∈ done, (s.cell p).valptr = .stack (s.addr (s.cell p).idx)) :
    ∃ s', Machine.relocateLoop fuel head s = some s' ∧ Pointing s' (done ++ l) := by
  induction l generalizing s done fuel head with
  | nil =>
      cases hlist
      refine ⟨s, by cases fuel <;> rfl, h, ?_⟩
      simpa using hdone
  | cons p l ih =>
      obtain ⟨fuel, rfl⟩ : ∃ n, fuel = n + 1 := ⟨fuel - 1, by simp at hfuel; omega⟩
      cases hlist with
      | cons hrest =>
          let s₁ := s.setCell p { s.cell p with valptr := .stack (s.addr (s.cell p).idx) }
          have hcell : ∀ q, (s₁.cell q).idx = (s.cell q).idx ∧ (s₁.cell q).next = (s.cell q).next := by
            intro q
            by_cases hq : q = p
            · subst hq
              simp [s₁, Machine.setCell]
            · simp [s₁, Machine.setCell, hq]
          have hlinks : s₁.links = s.links := funext fun q => (hcell q).2
          have h₁ : OpenList s₁ ((done ++ [p]) ++ l) := by
            rw [List.append_assoc]
            refine ⟨?_, ?_, ?_, h.below, ?_⟩
            · rw [hlinks]
              exact h.isList
            · apply h.descending.imp
              intro q r hlt
              rw [(hcell q).1, (hcell r).1]
              exact hlt
            · intro q hq
              rw [(hcell q).1]
              exact h.in_stack q hq
            · intro q hq hql
              have hqp : q ≠ p := by
                rintro rfl
                simp at hql
              have hvalptr : (s₁.cell q).valptr = (s.cell q).valptr := by
                simp [s₁, Machine.setCell, hqp]
              rw [hvalptr]
              exact h.closed q hq hql
          have hdone₁ : ∀ q ∈ done ++ [p],
              (s₁.cell q).valptr = .stack (s₁.addr (s₁.cell q).idx) := by
            intro q hq
            rw [(hcell q).1]
            by_cases hqp : q = p
            · subst hqp
              simp [s₁, Machine.setCell, Machine.addr]
            · have hqd : q ∈ done := by simpa [hqp] using hq
              have hvalptr : (s₁.cell q).valptr = (s.cell q).valptr := by
                simp [s₁, Machine.setCell, hqp]
              rw [hvalptr]
              exact hdone q hqd
          have hrest₁ : IsList s₁.links (s.cell p).next l := by
            rw [hlinks]
            exact hrest
          obtain ⟨s', heq, hs'⟩ := ih _ h₁ hrest₁ (by simpa using hfuel) hdone₁
          refine ⟨s', heq, ?_⟩
          rw [List.append_assoc] at hs'
          exact hs'

/-- `RelocateOuters` makes up for a buffer that has moved. -/
theorem OpenList.RelocateOuters_eq (h : OpenList s l) :
    ∃ s', s.RelocateOuters = some s' ∧ Pointing s' l := by
  apply relocateLoop_eq [] h h.isList h.length_le
  intro p hp
  cases hp

/-! ### Every operation -/

/-- A reservation that moves the stack is harmless only while nothing is captured: the cells that
are open are not relocated. -/
def Machine.Harmless (s : Machine) : Op → Prop
  | .reserveStack nsize moved =>
      s.top + nsize ≤ s.size ∨ s.nmetamethodscall ≠ 0 ∨ moved = s.vals ∨ s.openouters = none
  | _ => True

theorem Pointing.EnterFrame_eq (h : Pointing s l) (newbase newtop : Nat) (tailcall : Bool)
    (moved : Nat) :
    ∃ s' ok, s.EnterFrame newbase newtop tailcall moved = some (s', ok) ∧ Pointing s' l := by
  simp only [Machine.EnterFrame]
  generalize hcalls : (if tailcall then s.callsstack else _ : List CallInfo) = callsstack
  have hframe : Pointing { s with callsstack := callsstack, stackbase := newbase, top := newtop } l :=
    h.congr rfl rfl rfl rfl rfl
  split
  · next hlarge =>
      split
      · exact ⟨_, _, rfl, hframe⟩
      · have hsize : s.size ≤ newtop + MIN_STACK_OVERHEAD * 4 := by
          simp only [MIN_STACK_OVERHEAD] at hlarge ⊢
          omega
        obtain ⟨s', heq, hs'⟩ := (hframe.toOpenList.resize hsize moved).RelocateOuters_eq
        exact ⟨s', true, by simp [heq], hs'⟩
  · exact ⟨_, _, rfl, hframe⟩

theorem Pointing.LeaveFrame_eq (h : Pointing s l) (hcalls : s.callsstack ≠ []) :
    ∃ s' l', s.LeaveFrame = some s' ∧ Pointing s' l' := by
  obtain ⟨ci, callsstack, hcons⟩ := List.exists_cons_of_ne_nil hcalls
  let stackbase := (s.stackbase - ci.prevstkbase).toNat
  let s₁ : Machine := { s with callsstack := callsstack, stackbase := stackbase,
                               top := (stackbase + ci.prevtop).toNat }
  have h₁ : Pointing s₁ l := h.congr rfl rfl rfl rfl rfl
  obtain ⟨s₂, l₂, heq, h₂⟩ : ∃ s₂ l₂, (if s₁.openouters.isSome then s₁.CloseOuters s.stackbase
      else some s₁) = some s₂ ∧ Pointing s₂ l₂ := by
    split
    · exact h₁.CloseOuters_eq s.stackbase
    · exact ⟨s₁, l, rfl, h₁⟩
  refine ⟨s₂.clearFrame s.top, l₂, ?_, h₂.congr rfl rfl rfl rfl rfl⟩
  simp only [Machine.LeaveFrame, hcons]
  exact congrArg (fun o => Option.bind o fun s' => some (s'.clearFrame s.top)) heq

/-- A reservation keeps the list as it should be exactly when it is harmless. -/
theorem Pointing.reservestack_iff (h : Pointing s l) (nsize moved : Nat) :
    (s.GS_reservestack nsize moved).1.Coherent ↔ s.Harmless (.reserveStack nsize moved) := by
  simp only [Machine.GS_reservestack, Machine.Harmless]
  split
  · next hlarge =>
      split
      · next hmeta =>
          constructor
          · intro _
            exact .inr (.inl hmeta)
          · intro _
            exact ⟨l, h⟩
      · next hmeta =>
          have hsize : s.size ≤ s.size + ((s.top + nsize) - s.size) := by omega
          have hopen := h.toOpenList.resize hsize moved
          constructor
          · rintro ⟨l', h'⟩
            obtain rfl : l = l' := hopen.isList.unique h'.isList
            cases l with
            | nil =>
                right; right; right
                exact h.isList.head_eq
            | cons p l =>
                -- the first open cell still points to the old buffer
                right; right; left
                have hold := h.valptr p List.mem_cons_self
                have hnew := h'.valptr p List.mem_cons_self
                have heq := ValPtr.stack.inj (hnew.symm.trans hold)
                simp only [Machine.addr, Machine.resize] at heq
                omega
          · rintro (hroom | hmeta' | rfl | hnone)
            · omega
            · exact absurd hmeta' hmeta
            · exact ⟨l, hopen, h.valptr⟩
            · have hnil : l = [] := by
                have hlist := h.isList
                rw [hnone, isList_none] at hlist
                exact hlist
              subst hnil
              exact ⟨[], hopen, fun p hp => by cases hp⟩
  · next hroom =>
      constructor
      · intro _
        exact .inl (by omega)
      · intro _
        exact ⟨l, h⟩

theorem Pointing.setOuter_pointing (h : Pointing s l) (hp : p < s.cells) (v : Object) :
    ∃ s', s.setOuter p v = some s' ∧ Pointing s' l := by
  by_cases hpl : p ∈ l
  · exact ⟨_, h.setOuter_eq hpl v, h.congr rfl rfl rfl rfl rfl⟩
  · refine ⟨s.setCell p { s.cell p with value := v },
      by simp [Machine.setOuter, h.closed p hp hpl], ?_⟩
    have hcell : ∀ q, ((s.setCell p { s.cell p with value := v }).cell q).valptr = (s.cell q).valptr ∧
        ((s.setCell p { s.cell p with value := v }).cell q).idx = (s.cell q).idx ∧
        ((s.setCell p { s.cell p with value := v }).cell q).next = (s.cell q).next := by
      intro q
      by_cases hq : q = p
      · subst hq
        simp [Machine.setCell]
      · simp [Machine.setCell, hq]
    have hlinks : (s.setCell p { s.cell p with value := v }).links = s.links :=
      funext fun q => (hcell q).2.2
    refine ⟨⟨?_, ?_, ?_, h.below, ?_⟩, ?_⟩
    · rw [hlinks]
      exact h.isList
    · apply h.descending.imp
      intro q r hlt
      rw [(hcell q).2.1, (hcell r).2.1]
      exact hlt
    · intro q hq
      rw [(hcell q).2.1]
      exact h.in_stack q hq
    · intro q hq hql
      rw [(hcell q).1]
      exact h.closed q hq hql
    · intro q hq
      rw [(hcell q).1, (hcell q).2.1]
      exact h.valptr q hq

/-- Every valid operation comes back, and it keeps the list as it should be exactly when it is
harmless. -/
theorem Pointing.step_eq (h : Pointing s l) {op : Op} (hop : op.Valid s) :
    ∃ s', s.step op = some s' ∧ (s'.Coherent ↔ s.Harmless op) := by
  cases op with
  | findOuter i =>
      obtain ⟨s', p, l', heq, hs', -⟩ := h.FindOuter_eq hop
      exact ⟨s', by simp [Machine.step, heq], iff_of_true ⟨l', hs'⟩ trivial⟩
  | closeOuters i =>
      obtain ⟨s', l', heq, hs'⟩ := h.CloseOuters_eq i
      exact ⟨s', heq, iff_of_true ⟨l', hs'⟩ trivial⟩
  | enterFrame newbase newtop tailcall moved =>
      obtain ⟨s', ok, heq, hs'⟩ := h.EnterFrame_eq newbase newtop tailcall moved
      exact ⟨s', by simp [Machine.step, heq], iff_of_true ⟨l, hs'⟩ trivial⟩
  | leaveFrame =>
      obtain ⟨s', l', heq, hs'⟩ := h.LeaveFrame_eq hop
      exact ⟨s', heq, iff_of_true ⟨l', hs'⟩ trivial⟩
  | reserveStack nsize moved => exact ⟨_, rfl, h.reservestack_iff nsize moved⟩
  | setSlot i v =>
      exact ⟨_, rfl, iff_of_true ⟨l, h.congr rfl rfl rfl rfl rfl⟩ trivial⟩
  | setOuter p v =>
      obtain ⟨s', heq, hs'⟩ := h.setOuter_pointing hop v
      exact ⟨s', heq, iff_of_true ⟨l, hs'⟩ trivial⟩
  | setTop top =>
      exact ⟨_, rfl, iff_of_true ⟨l, h.congr rfl rfl rfl rfl rfl⟩ trivial⟩
  | setMetaMethodsCall n =>
      exact ⟨_, rfl, iff_of_true ⟨l, h.congr rfl rfl rfl rfl rfl⟩ trivial⟩

theorem init_pointing (vals size : Nat) : Pointing (Machine.init vals size) [] := by
  refine ⟨⟨.nil, List.Pairwise.nil, ?_, ?_, ?_⟩, ?_⟩
  · intro p hp
    cases hp
  · intro p hp
    cases hp
  · intro p hp _
    exact absurd hp (Nat.not_lt_zero p)
  · intro p hp
    cases hp

/-- The states of the runs whose steps are all harmless. -/
inductive HarmlessRun : Machine → Prop
  | init (vals size : Nat) : HarmlessRun (Machine.init vals size)
  | step {s s' : Machine} {op : Op} : HarmlessRun s → op.Valid s → s.Harmless op →
      s.step op = some s' → HarmlessRun s'

theorem HarmlessRun.coherent (h : HarmlessRun s) : s.Coherent := by
  induction h with
  | init vals size => exact ⟨[], init_pointing vals size⟩
  | step _ hop hharmless hstep ih =>
      obtain ⟨l, hl⟩ := ih
      obtain ⟨s', heq, hiff⟩ := hl.step_eq hop
      rw [heq] at hstep
      obtain rfl := Option.some.inj hstep
      exact hiff.mpr hharmless

/-- In every state of a run whose steps are all harmless the open list is as it should be, and
a captured variable is the slot, read and written through its cell. The next step comes back, and
it is the harmless steps that keep the list so. -/
theorem outers_coherent_iff_harmless (h : HarmlessRun s) :
    (∃ l, Pointing s l ∧ ∀ p ∈ l, s.getOuter p = some (s.slot (s.cell p).idx) ∧
      ∀ v, s.setOuter p v = some (s.setSlot (s.cell p).idx v)) ∧
    ∀ op : Op, op.Valid s → ∃ s', s.step op = some s' ∧ (s'.Coherent ↔ s.Harmless op) := by
  obtain ⟨l, hl⟩ := h.coherent
  constructor
  · exact ⟨l, hl, fun p hp => ⟨hl.getOuter_eq hp, hl.setOuter_eq hp⟩⟩
  · intro op hop
    exact hl.step_eq hop

/-- A stack of 32 slots, with the first one captured. -/
def capturedFirst : Machine :=
  (Machine.init 0 32).insertOuter none none { valptr := .stack 0, idx := 0 }

/-- The first slot is captured and a frame entered for which the stack moves. -/
theorem outers_coherent_iff_harmless_first :
    ∃ s l, (capturedFirst.step (.enterFrame 0 40 false 4096)) = some s ∧ Pointing s l := by
  have hfind : (Machine.init 0 32).step (.findOuter 0) = some capturedFirst := by rfl
  have hvalid : (Op.findOuter 0).Valid (Machine.init 0 32) := by
    change 0 < 32
    decide
  have hrun : HarmlessRun capturedFirst := (HarmlessRun.init 0 32).step hvalid trivial hfind
  obtain ⟨s, heq, -⟩ := (outers_coherent_iff_harmless hrun).2 (.enterFrame 0 40 false 4096) trivial
  have hvalid' : (Op.enterFrame 0 40 false 4096).Valid capturedFirst := trivial
  obtain ⟨l, hl, -⟩ := (outers_coherent_iff_harmless (hrun.step hvalid' trivial heq)).1
  exact ⟨s, l, heq, hl⟩

/-- A reservation that moves the stack leaves the cell of the first slot pointing to the old
buffer: it reads what is no longer there. -/
theorem not_coherent_reservestack :
    ∃ s, (Machine.init 0 32).step (.findOuter 0) = some capturedFirst ∧
      capturedFirst.step (.reserveStack 64 4096) = some s ∧ ¬ s.Coherent ∧
      s.getOuter 0 = none := by
  refine ⟨_, rfl, rfl, ?_, by decide⟩
  rintro ⟨l, hl⟩
  have hmem : 0 ∈ l := by
    have hhead : some 0 = l.head? := hl.isList.head_eq
    obtain ⟨l', rfl⟩ := List.head?_eq_some_iff.mp hhead.symm
    exact List.mem_cons_self
  have hvalptr := hl.valptr 0 hmem
  exact absurd hvalptr (by decide)

end GameScript.Outers
