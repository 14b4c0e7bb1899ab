import Mathlib.Data.List.Find
import Mathlib.Data.List.Induction

/-!
Lexical scopes of nested functions, and the registers of a compiler that reads a program once.
A function keeps its variables in a stack of registers, some of which have names; a block gives
the registers above its mark back when it ends. `Describes` says that the named registers are
the variables that can be seen.
-/

namespace GameScript.Scopes

variable {ν : Type}

/-- The names that registers have, the last register first. -/
def named (registers : List (Option ν)) : List (ν × Nat) :=
  (registers.zipIdx.filterMap fun r => r.1.map fun x => (x, r.2)).reverse

variable (rs : List (Option ν))

@[simp] theorem named_nil : named ([] : List (Option ν)) = [] := rfl

@[simp] theorem named_concat_none : named (rs ++ [none]) = named rs := by
  simp [named, List.zipIdx_append]

@[simp] theorem named_concat_some (x : ν) :
    named (rs ++ [some x]) = (x, rs.length) :: named rs := by
  simp [named, List.zipIdx_append]

theorem lt_of_mem_named {d : ν × Nat} (h : d ∈ named rs) : d.2 < rs.length := by
  induction rs using List.reverseRecOn with
  | nil => cases h
  | append_singleton rs r ih =>
      rw [List.length_append, List.length_singleton]
      cases r with
      | none => exact Nat.lt_succ_of_lt (ih (by simpa using h))
      | some x =>
          rw [named_concat_some, List.mem_cons] at h
          rcases h with rfl | h
          · exact Nat.lt_succ_self _
          · exact Nat.lt_succ_of_lt (ih h)

/-- The registers from `n` on, and those below. -/
theorem named_split (n : Nat) :
    named rs = (named rs).filter (n ≤ ·.2) ++ named (rs.take n) := by
  induction rs using List.reverseRecOn with
  | nil => simp
  | append_singleton rs r ih =>
      by_cases hn : n ≤ rs.length
      · rw [List.take_append_of_le_length hn]
        cases r with
        | none => rwa [named_concat_none]
        | some x =>
            rw [named_concat_some, List.filter_cons_of_pos (by simpa using hn),
              List.cons_append, ← ih]
      · have htake : (rs ++ [r]).take n = rs ++ [r] := by
          apply List.take_of_length_le
          rw [List.length_append, List.length_singleton]
          omega
        have hnone : (named (rs ++ [r])).filter (n ≤ ·.2) = [] := by
          apply List.filter_eq_nil_iff.mpr
          intro d hd
          have hlt := lt_of_mem_named _ hd
          rw [List.length_append, List.length_singleton] at hlt
          simp only [decide_eq_true_eq]
          omega
        rw [htake, hnone, List.nil_append]

/-- The search for a name from the last register down. -/
theorem find_named [DecidableEq ν] (x : ν) :
    ((named rs).find? (·.1 = x)).map (·.2) =
      (List.range rs.length).reverse.find? fun n => rs[n]? = some (some x) := by
  induction rs using List.reverseRecOn with
  | nil => rfl
  | append_singleton rs r ih =>
      have hbelow : (List.range rs.length).reverse.find? (fun n => (rs ++ [r])[n]? = some (some x)) =
          (List.range rs.length).reverse.find? (fun n => rs[n]? = some (some x)) := by
        apply List.find?_congr
        intro n hn
        rw [List.getElem?_append_left (by simpa using hn)]
      rw [List.length_append, List.length_singleton, List.range_succ, List.reverse_append,
        List.reverse_singleton, List.singleton_append, List.find?_cons, hbelow, ← ih,
        List.getElem?_concat_length]
      cases r with
      | none => simp
      | some y =>
          rw [named_concat_some, List.find?_cons]
          by_cases hxy : y = x <;> simp [hxy]

/-! ### Functions and blocks -/

/-- A block that is open: how many registers were in use where it begins, and what was declared
around it, up to the block around. -/
structure Block (ν : Type) where
  mark : Nat
  around : List (ν × Nat)

/-- A function: what is declared in its innermost block, the last declaration first, and the
blocks that are open in it. -/
structure Function (ν : Type) where
  decls : List (ν × Nat) := []
  blocks : List (Block ν) := []

namespace Function

/-- The declarations that can be seen, innermost first. -/
def visible (f : Function ν) : List (ν × Nat) := f.decls ++ f.blocks.flatMap (·.around)

/-- A variable is declared in the register `r`. -/
def declare (f : Function ν) (x : ν) (r : Nat) : Function ν :=
  { f with decls := (x, r) :: f.decls }

/-- A block begins. -/
def enter (f : Function ν) (mark : Nat) : Function ν :=
  { decls := [], blocks := { mark := mark, around := f.decls } :: f.blocks }

/-- The innermost block ends. -/
def leave (f : Function ν) : Function ν :=
  match f.blocks with
  | [] => f
  | b :: bs => { decls := b.around, blocks := bs }

/-- Where the innermost block begins. -/
def mark (f : Function ν) : Nat := (f.blocks.head?.map (·.mark)).getD 0

/-- A function with parameters, in the first registers. -/
def ofParameters (parameters : List ν) : Function ν :=
  { decls := named (parameters.map some) }

/-- The innermost declaration of a name. -/
def find [DecidableEq ν] (f : Function ν) (x : ν) : Option Nat :=
  (f.visible.find? (·.1 = x)).map (·.2)

end Function

/-- The innermost declaration of a name that can be seen in the first of the functions, each of
which is nested in the next: how many functions it is away, and its register there. -/
def lookup [DecidableEq ν] : List (Function ν) → ν → Option (Nat × Nat)
  | [], _ => none
  | f :: fs, x =>
    match f.find x with
    | some r => some (0, r)
    | none => (lookup fs x).map fun found => (found.1 + 1, found.2)

/-- The registers with names are those of the variables that can be seen, and a block that ends
leaves those of the variables around it. -/
def Registered : List (ν × Nat) → List (Block ν) → List (Option ν) → Prop
  | decls, [], rs => decls = named rs
  | decls, b :: bs, rs =>
    b.mark ≤ rs.length ∧ decls = (named rs).filter (b.mark ≤ ·.2) ∧
      Registered b.around bs (rs.take b.mark)

def Describes (f : Function ν) (rs : List (Option ν)) : Prop := Registered f.decls f.blocks rs

variable {rs} {f : Function ν} {decls : List (ν × Nat)} {blocks : List (Block ν)}

theorem Registered.visible (h : Registered decls blocks rs) :
    decls ++ blocks.flatMap (·.around) = named rs := by
  induction blocks generalizing decls rs with
  | nil =>
      rw [List.flatMap_nil, List.append_nil]
      exact h
  | cons b bs ih =>
      obtain ⟨-, rfl, hrest⟩ := h
      rw [List.flatMap_cons, ih hrest]
      exact (named_split rs b.mark).symm

theorem Describes.visible (h : Describes f rs) : f.visible = named rs := Registered.visible h

theorem Describes.find [DecidableEq ν] (h : Describes f rs) (x : ν) :
    f.find x = (List.range rs.length).reverse.find? fun n => rs[n]? = some (some x) := by
  rw [Function.find, h.visible, find_named]

theorem describes_ofParameters (parameters : List ν) :
    Describes (Function.ofParameters parameters) (parameters.map some) := rfl

/-- A register for a temporary value is added. -/
theorem Describes.push (h : Describes f rs) : Describes f (rs ++ [none]) := by
  unfold Describes at h ⊢
  cases hb : f.blocks with
  | nil =>
      rw [hb] at h
      exact h.trans (named_concat_none rs).symm
  | cons b bs =>
      rw [hb] at h
      obtain ⟨hmark, hdecls, hrest⟩ := h
      refine ⟨?_, ?_, ?_⟩
      · rw [List.length_append]
        exact Nat.le_add_right_of_le hmark
      · rwa [named_concat_none]
      · rwa [List.take_append_of_le_length hmark]

/-- A register for a temporary value goes, which is one of the innermost block. -/
theorem Describes.pop (h : Describes f (rs ++ [none])) (hmark : f.mark ≤ rs.length) :
    Describes f rs := by
  unfold Describes at h ⊢
  unfold Function.mark at hmark
  cases hb : f.blocks with
  | nil =>
      rw [hb] at h
      exact h.trans (named_concat_none rs)
  | cons b bs =>
      rw [hb] at h hmark
      have hle : b.mark ≤ rs.length := hmark
      obtain ⟨-, hdecls, hrest⟩ := h
      rw [named_concat_none] at hdecls
      rw [List.take_append_of_le_length hle] at hrest
      exact ⟨hle, hdecls, hrest⟩

/-- A variable is declared. -/
theorem Describes.declare (h : Describes f rs) (x : ν) :
    Describes (f.declare x rs.length) (rs ++ [some x]) := by
  unfold Describes Function.declare at *
  dsimp only
  cases hb : f.blocks with
  | nil =>
      rw [hb] at h
      rw [Registered, named_concat_some, ← h]
  | cons b bs =>
      rw [hb] at h
      obtain ⟨hmark, hdecls, hrest⟩ := h
      refine ⟨?_, ?_, ?_⟩
      · rw [List.length_append]
        exact Nat.le_add_right_of_le hmark
      · rw [named_concat_some, List.filter_cons_of_pos (by simpa using hmark), hdecls]
      · rwa [List.take_append_of_le_length hmark]

theorem Describes.enter (h : Describes f rs) : Describes (f.enter rs.length) rs := by
  refine ⟨Nat.le_refl _, ?_, ?_⟩
  · apply Eq.symm
    apply List.filter_eq_nil_iff.mpr
    intro d hd
    have hlt := lt_of_mem_named _ hd
    simp only [decide_eq_true_eq]
    omega
  · rw [List.take_length]
    exact h

/-- The registers above the mark of the innermost block are given back. -/
theorem Describes.leave (h : Describes f rs) (hblocks : f.blocks ≠ []) :
    Describes f.leave (rs.take f.mark) := by
  unfold Describes Function.leave Function.mark at *
  cases hb : f.blocks with
  | nil => exact absurd hb hblocks
  | cons b bs =>
      rw [hb] at h
      exact h.2.2

/-- A block in which something is declared has registers of its own. -/
theorem Describes.mark_lt (h : Describes f rs) (hdecls : f.decls ≠ []) : f.mark < rs.length := by
  obtain ⟨d, hd⟩ := List.exists_mem_of_ne_nil _ hdecls
  unfold Describes at h
  unfold Function.mark
  cases hb : f.blocks with
  | nil =>
      rw [hb] at h
      rw [h] at hd
      exact Nat.zero_lt_of_lt (lt_of_mem_named _ hd)
  | cons b bs =>
      rw [hb] at h
      rw [h.2.1, List.mem_filter] at hd
      have hle : b.mark ≤ d.2 := by simpa using hd.2
      exact Nat.lt_of_le_of_lt hle (lt_of_mem_named _ hd.1)

end GameScript.Scopes
