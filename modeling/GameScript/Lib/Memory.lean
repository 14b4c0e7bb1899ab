import Mathlib.Logic.Function.Basic

/-!
Memory made of blocks of cells, as C's allocation functions hand them out. A pointer is
the beginning of a block or null. Reading and writing name a range of a block and fail
unless the block is there and the range lies inside it; copying fails as well when the two
ranges overlap.

`Block p n` says that `p` points to `n` cells. The rules say when an operation succeeds and
which blocks remain, so what holds of the blocks a program does not touch is kept without
looking at cells.
-/

namespace GameScript

/-- A pointer to the beginning of a block, or the null pointer. -/
abbrev Pointer := Option Nat

structure Memory (β : Type) where
  blocks : Nat → Option (List β) := fun _ => none
  /-- The address of the next block. -/
  next : Nat := 0
  fresh : ∀ r, next ≤ r → blocks r = none := by intros; rfl

namespace Memory

variable {β : Type}

/-- `p` points to `n` cells, the null pointer to none. -/
def Block (m : Memory β) (p : Pointer) (n : Nat) : Prop :=
  match p with
  | none => n = 0
  | some r => ∃ cells, m.blocks r = some cells ∧ cells.length = n

/-- Everything allocated in the first memory is still there in the second. -/
def Extends (m m' : Memory β) : Prop := ∀ p n, m.Block p n → m'.Block p n

theorem Extends.refl (m : Memory β) : m.Extends m := fun _ _ h => h

theorem Extends.trans {m m₁ m₂ : Memory β} (h : m.Extends m₁) (h' : m₁.Extends m₂) :
    m.Extends m₂ :=
  fun p n hp => h' p n (h p n hp)

/-- `p` and `q` do not point to the same block. -/
def Apart (p q : Pointer) : Prop := ∀ r, p = some r → q ≠ some r

theorem Apart.symm {p q : Pointer} (h : Apart p q) : Apart q p := fun r hq hp => h r hp hq

/-- A block starts at an address that has been handed out. -/
theorem Block.lt_next {m : Memory β} {r n : Nat} (h : m.Block (some r) n) : r < m.next := by
  obtain ⟨cells, hcells, -⟩ := h
  by_contra hge
  rw [m.fresh r (by omega)] at hcells
  cases hcells

theorem Block.apart_next {m : Memory β} {p : Pointer} {n : Nat} (h : m.Block p n) :
    Apart p (some m.next) := by
  rintro r rfl heq
  cases heq
  exact Nat.lt_irrefl _ h.lt_next

/-! ### Allocation -/

/-- The memory with a new block, which starts at `m.next`. -/
def alloc (m : Memory β) (cells : List β) : Memory β where
  blocks := Function.update m.blocks m.next (some cells)
  next := m.next + 1
  fresh := by
    intro r hr
    rw [Function.update_of_ne (by omega)]
    exact m.fresh r (by omega)

theorem alloc_block (m : Memory β) (cells : List β) :
    (m.alloc cells).Block (some m.next) cells.length :=
  ⟨cells, Function.update_self .., rfl⟩

theorem alloc_extends (m : Memory β) (cells : List β) : m.Extends (m.alloc cells) := by
  intro p n hp
  cases p with
  | none => exact hp
  | some r =>
    obtain ⟨old, hold, hlen⟩ := hp
    have hne : r ≠ m.next := Nat.ne_of_lt (Block.lt_next ⟨old, hold, hlen⟩)
    have hkept : (m.alloc cells).blocks r = m.blocks r := Function.update_of_ne hne ..
    exact ⟨old, hkept.trans hold, hlen⟩

def free (m : Memory β) : Pointer → Memory β
  | none => m
  | some r =>
    { blocks := Function.update m.blocks r none
      next := m.next
      fresh := by
        intro q hq
        by_cases hqr : q = r
        · rw [hqr, Function.update_self]
        · rw [Function.update_of_ne hqr]
          exact m.fresh q hq }

/-- The other blocks remain. -/
theorem Block.free {m : Memory β} {p q : Pointer} {n : Nat} (h : m.Block p n) (hne : Apart p q) :
    (m.free q).Block p n := by
  cases q with
  | none => exact h
  | some r =>
    cases p with
    | none => exact h
    | some s =>
      obtain ⟨cells, hcells, hlen⟩ := h
      have hs : s ≠ r := fun heq => hne s rfl (by rw [heq])
      have hkept : (m.free (some r)).blocks s = m.blocks s := Function.update_of_ne hs ..
      exact ⟨cells, hkept.trans hcells, hlen⟩

/-! ### Reading and writing -/

/-- The `n` cells from the offset `off` on. -/
def load (m : Memory β) (p : Pointer) (off : Int) (n : Nat) : Option (List β) :=
  if n = 0 then some []
  else
    match p.bind m.blocks with
    | none => none
    | some cells =>
      if 0 ≤ off ∧ off + n ≤ cells.length then some ((cells.drop off.toNat).take n) else none

/-- Writes cells from the offset `off` on. -/
def store (m : Memory β) (p : Pointer) (off : Int) (new : List β) : Option (Memory β) :=
  if new.length = 0 then some m
  else
    match p with
    | none => none
    | some r =>
      match h : m.blocks r with
      | none => none
      | some cells =>
        if 0 ≤ off ∧ off + new.length ≤ cells.length then
          some
            { blocks := Function.update m.blocks r
                (some (cells.take off.toNat ++ new ++ cells.drop (off.toNat + new.length)))
              next := m.next
              fresh := by
                intro q hq
                by_cases hqr : q = r
                · rw [hqr] at hq
                  rw [m.fresh r hq] at h
                  cases h
                · rw [Function.update_of_ne hqr]
                  exact m.fresh q hq }
        else none

/-- Copies `n` cells between ranges that do not overlap. -/
def copy (m : Memory β) (dst : Pointer) (dstOff : Int) (src : Pointer) (srcOff : Int) (n : Nat) :
    Option (Memory β) :=
  if n = 0 then some m
  else if dst = src ∧ dstOff < srcOff + n ∧ srcOff < dstOff + n then none
  else (m.load src srcOff n).bind (m.store dst dstOff)

section

variable {m : Memory β} {p : Pointer} {size : Nat}

/-- A range inside a block can be read. -/
theorem Block.load (h : m.Block p size) (off : Int) (n : Nat) (hoff : 0 ≤ off)
    (hroom : off + n ≤ size) :
    ∃ cells, m.load p off n = some cells ∧ cells.length = n := by
  unfold Memory.load
  by_cases hn : n = 0
  · exact ⟨[], by rw [if_pos hn], by simp [hn]⟩
  · cases p with
    | none =>
      have hsize : size = 0 := h
      omega
    | some r =>
      obtain ⟨cells, hcells, hlen⟩ := h
      have hin : 0 ≤ off ∧ off + n ≤ cells.length := ⟨hoff, by omega⟩
      have hblock : (some r : Pointer).bind m.blocks = some cells := hcells
      rw [if_neg hn, hblock]
      simp only [if_pos hin]
      exact ⟨_, rfl, by simp only [List.length_take, List.length_drop]; omega⟩

/-- Reading past the end fails. -/
theorem Block.load_eq_none {off : Int} {n : Nat} (h : m.Block p size) (hn : n ≠ 0)
    (hroom : size < off + n) :
    m.load p off n = none := by
  unfold Memory.load
  rw [if_neg hn]
  cases p with
  | none => rfl
  | some r =>
    obtain ⟨cells, hcells, hlen⟩ := h
    have hblock : (some r : Pointer).bind m.blocks = some cells := hcells
    rw [hblock]
    simp only
    rw [if_neg (by omega)]

/-- A range inside a block can be written, and every block remains. -/
theorem Block.store (h : m.Block p size) (off : Int) (new : List β) (hoff : 0 ≤ off)
    (hroom : off + new.length ≤ size) :
    ∃ m', m.store p off new = some m' ∧ m.Extends m' ∧ m'.next = m.next := by
  unfold Memory.store
  by_cases hn : new.length = 0
  · exact ⟨m, by rw [if_pos hn], .refl m, rfl⟩
  · cases p with
    | none =>
      have hsize : size = 0 := h
      omega
    | some r =>
      obtain ⟨cells, hcells, hlen⟩ := h
      have hin : 0 ≤ off ∧ off + new.length ≤ cells.length := ⟨hoff, by omega⟩
      simp only [if_neg hn]
      split
      · rename_i hnone
        rw [hcells] at hnone
        cases hnone
      · rename_i found hfound
        rw [hcells] at hfound
        cases hfound
        rw [if_pos hin]
        refine ⟨_, rfl, ?_, rfl⟩
        intro q k hq
        cases q with
        | none => exact hq
        | some s =>
          obtain ⟨old, hold, hk⟩ := hq
          by_cases hs : s = r
          · subst hs
            rw [hcells] at hold
            cases hold
            refine ⟨_, Function.update_self .., ?_⟩
            simp only [List.length_append, List.length_take, List.length_drop]
            omega
          · exact ⟨old, (Function.update_of_ne hs ..).trans hold, hk⟩

/-- Ranges inside two blocks, or apart in one, can be copied, and every block remains. -/
theorem Block.copy {src : Pointer} {srcSize n : Nat} {off srcOff : Int} (h : m.Block p size)
    (hsrc : m.Block src srcSize) (hoff : 0 ≤ off) (hroom : off + n ≤ size)
    (hsrcOff : 0 ≤ srcOff) (hsrcRoom : srcOff + n ≤ srcSize)
    (hapart : p = src → n = 0 ∨ srcOff + n ≤ off ∨ off + n ≤ srcOff) :
    ∃ m', m.copy p off src srcOff n = some m' ∧ m.Extends m' ∧ m'.next = m.next := by
  unfold Memory.copy
  by_cases hn : n = 0
  · exact ⟨m, by rw [if_pos hn], .refl m, rfl⟩
  · have happart : ¬ (p = src ∧ off < srcOff + n ∧ srcOff < off + n) := by
      rintro ⟨hsame, h₁, h₂⟩
      have := hapart hsame
      omega
    obtain ⟨cells, hload, hlen⟩ := hsrc.load srcOff n hsrcOff hsrcRoom
    rw [if_neg hn, if_neg happart, hload]
    exact h.store off cells hoff (by omega)

/-- Copying from past the end fails. -/
theorem Block.copy_eq_none {dst : Pointer} {dstOff off : Int} {n : Nat} (h : m.Block p size) (hn : n ≠ 0)
    (hroom : size < off + n) : m.copy dst dstOff p off n = none := by
  unfold Memory.copy
  rw [if_neg hn, h.load_eq_none hn hroom]
  split <;> rfl

end

/-! ### What the blocks hold -/

/-- The cells that `p` points to. -/
def cells (m : Memory β) (p : Pointer) : List β := (p.bind m.blocks).getD []

/-- A list with `new` in place of its elements from `off` on, and longer where that reaches past
its end. -/
def overwrite (old : List β) (off : Nat) (new : List β) : List β :=
  old.take off ++ new ++ old.drop (off + new.length)

theorem overwrite_nil (old : List β) (off : Nat) : overwrite old off [] = old := by
  unfold overwrite
  rw [List.append_nil]
  exact List.take_append_drop off old

theorem overwrite_all {old new : List β} (h : old.length ≤ new.length) :
    overwrite old 0 new = new := by
  unfold overwrite
  rw [List.take_zero, List.nil_append, List.drop_eq_nil_of_le (by omega), List.append_nil]

theorem length_overwrite {old : List β} {off : Nat} (h : off ≤ old.length) (new : List β) :
    (overwrite old off new).length = max old.length (off + new.length) := by
  unfold overwrite
  rw [List.length_append, List.length_append, List.length_take, List.length_drop]
  omega

/-- What was written is read back. -/
theorem take_drop_overwrite {old : List β} {off : Nat} (h : off ≤ old.length) (new : List β) :
    ((overwrite old off new).drop off).take new.length = new := by
  have hlen : (old.take off).length = off := List.length_take_of_le h
  unfold overwrite
  rw [List.append_assoc, List.drop_append_of_le_length (Nat.le_of_eq hlen.symm),
    List.drop_eq_nil_of_le (Nat.le_of_eq hlen), List.nil_append, List.take_left]

/-- Overwriting a list and overwriting a beginning of it is the same, up to where that ends. -/
theorem take_overwrite {old : List β} {off size : Nat} (hoff : off ≤ size)
    (hsize : size ≤ old.length) (new : List β) :
    (overwrite old off new).take (max size (off + new.length)) =
      overwrite (old.take size) off new := by
  have hlen : (old.take off ++ new).length = off + new.length := by
    rw [List.length_append, List.length_take_of_le (Nat.le_trans hoff hsize)]
  unfold overwrite
  rw [List.take_append, List.take_of_length_le (by omega), hlen, List.take_take,
    Nat.min_eq_left hoff, List.drop_take]
  congr 2
  omega

variable {m m' : Memory β} {p : Pointer}

theorem Block.length_cells {n : Nat} (h : m.Block p n) : (m.cells p).length = n := by
  cases p with
  | none => exact h.symm
  | some r =>
    obtain ⟨cells, hcells, hlen⟩ := h
    have hblock : m.cells (some r) = cells := by
      show (m.blocks r).getD [] = cells
      rw [hcells]
      rfl
    rw [hblock, hlen]

/-- The other blocks hold what they held. -/
def KeepsOthers (p : Pointer) (m m' : Memory β) : Prop :=
  ∀ q, Apart q p → m'.cells q = m.cells q

theorem KeepsOthers.refl (p : Pointer) (m : Memory β) : KeepsOthers p m m := fun _ _ => rfl

theorem keepsOthers_update {r : Nat} {value : Option (List β)}
    (h : m'.blocks = Function.update m.blocks r value) : KeepsOthers (some r) m m' := by
  intro q hq
  cases q with
  | none => rfl
  | some s =>
    have hne : s ≠ r := fun heq => hq s rfl (by rw [heq])
    show (m'.blocks s).getD [] = (m.blocks s).getD []
    rw [h, Function.update_of_ne hne]

theorem alloc_cells (m : Memory β) (new : List β) :
    (m.alloc new).cells (some m.next) = new ∧ KeepsOthers (some m.next) m (m.alloc new) := by
  refine ⟨?_, keepsOthers_update rfl⟩
  show ((m.alloc new).blocks m.next).getD [] = new
  rw [show (m.alloc new).blocks m.next = some new from Function.update_self ..]
  rfl

theorem free_cells (m : Memory β) (p : Pointer) : KeepsOthers p m (m.free p) := by
  cases p with
  | none => exact .refl _ m
  | some r => exact keepsOthers_update rfl

theorem load_cells {off : Int} {n : Nat} {found : List β} (h : m.load p off n = some found) :
    found = ((m.cells p).drop off.toNat).take n := by
  unfold load at h
  split at h
  · next hn =>
    cases h
    rw [hn, List.take_zero]
  · split at h
    · cases h
    · next cells hcells =>
      split at h
      · cases h
        unfold Memory.cells
        rw [hcells]
        rfl
      · cases h

theorem store_cells {off : Int} {new : List β} (h : m.store p off new = some m') :
    m'.cells p = overwrite (m.cells p) off.toNat new ∧ KeepsOthers p m m' := by
  unfold store at h
  split at h
  · next hn =>
    cases h
    rw [List.length_eq_zero_iff.mp hn, overwrite_nil]
    exact ⟨rfl, .refl p m⟩
  · cases p with
    | none => cases h
    | some r =>
      dsimp only at h
      split at h
      · cases h
      · next cells hcells =>
        split at h
        · cases h
          refine ⟨?_, keepsOthers_update rfl⟩
          have hold : m.cells (some r) = cells := by
            show (m.blocks r).getD [] = cells
            rw [hcells]
            rfl
          rw [hold]
          show (Function.update m.blocks r _ r).getD [] = _
          rw [Function.update_self]
          rfl
        · cases h

theorem copy_cells {src : Pointer} {dstOff srcOff : Int} {n : Nat}
    (h : m.copy p dstOff src srcOff n = some m') :
    m'.cells p = overwrite (m.cells p) dstOff.toNat (((m.cells src).drop srcOff.toNat).take n) ∧
      KeepsOthers p m m' := by
  unfold copy at h
  split at h
  · next hn =>
    cases h
    rw [hn, List.take_zero, overwrite_nil]
    exact ⟨rfl, .refl p m⟩
  · split at h
    · cases h
    · obtain ⟨found, hload, hstore⟩ := Option.bind_eq_some_iff.mp h
      rw [← load_cells hload]
      exact store_cells hstore

end Memory

end GameScript
