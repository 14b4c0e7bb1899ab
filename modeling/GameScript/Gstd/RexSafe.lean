import GameScript.Gstd.RexCompiled

/-!
The compilation of a pattern is safe, unless the pattern is empty or stops where
two more characters are read without a look at the first: behind `\m`, and behind
the backslash that ends a range.
-/

namespace GameScript.Rex

open Effect

/-- The compilation ends, with an expression whose links are valid or with an error, and
stays within the pattern and the nodes it has room for. -/
def CompilesSafely (pattern : List UInt8) : Prop :=
  match gstd_rex_compile pattern with
  | .ok rex => rex.Valid
  | .error (.error _) => True
  | .error _ => False

/-- A pattern is compiled safely, unless it is empty or stops behind `\m` or behind a backslash
that ends a range. -/
theorem compile_safe_iff (pattern : List UInt8) : CompilesSafely pattern ↔
    zeroTerminated pattern ≠ [] ∧ ¬ CutShort (zeroTerminated pattern) := by
  unfold CompilesSafely gstd_rex_compile
  cases htext : zeroTerminated pattern with
  | nil =>
      -- there is no room for the first node, and twice no room is none
      exact iff_of_false id fun h => h.1 rfl
  | cons c s =>
      have hp : (Compiling.start (c :: s)).p = some (c :: s) := rfl
      have hreads := compileText_reads hp ⟨Nat.succ_pos _, Nat.zero_le _⟩
      unfold Reads at hreads
      split at hreads
      · next first exp' hrun =>
          obtain ⟨q', s', -, hcut, hmade, hnot, -⟩ := hreads
          rw [hrun]
          refine iff_of_true ⟨hmade.lt, fun n hn => ?_⟩ ⟨List.cons_ne_nil c s, mt hcut.mp hnot⟩
          obtain ⟨j, hj, rfl⟩ := List.mem_iff_getElem.mp hn
          exact hmade.valid j _ (Nat.zero_le j) (List.getElem?_eq_getElem hj)
      · next msg exp' hrun =>
          rw [hrun]
          exact iff_of_true trivial ⟨List.cons_ne_nil c s, hreads⟩
      · next exp' hrun =>
          rw [hrun]
          exact iff_of_false id fun h => h.2 hreads
      · exact hreads.elim

/-- The empty pattern, and a balanced match without its characters. -/
theorem not_compile_safe : ¬ CompilesSafely [] ∧ ¬ CompilesSafely (sc "\\m") := by
  have hempty : gstd_rex_compile [] = .error .undefined := rfl
  have hbalanced : gstd_rex_compile (sc "\\m") = .error .undefined := rfl
  unfold CompilesSafely
  rw [hempty, hbalanced]
  exact ⟨id, id⟩

end GameScript.Rex
