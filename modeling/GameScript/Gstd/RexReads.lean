import GameScript.Gstd.RexScan
import GameScript.Gstd.RexGraph

/-!
What it means that a function of `gstdrex.cpp` reads a part of a pattern, and the rules
for the steps that these functions are made of.
-/

namespace GameScript.Rex

open Effect

/-- From a text `s` that begins in `q`, `m` goes on to a text and a result as in `post`. It
gives the text up only where that does not stop short, and reads on only where it does. -/
def Reads {α : Type} (q : Scan) (s : List UInt8) (exp : Compiling) (m : RexM α)
    (post : α → Scan → List UInt8 → Compiling → Prop) : Prop :=
  match m exp with
  | .ok a exp' => ∃ q' s', exp'.p = some s' ∧ (Cut q s ↔ Cut q' s') ∧ post a q' s' exp'
  | .error (.error _) _ => ¬ Cut q s
  | .error .undefined _ => Cut q s
  | .error .timeout _ => False

/-- In `q`, a text ends or goes on with a character as in `f`. -/
structure At (q : Scan) (s : List UInt8) (f : UInt8 → Scan) : Prop where
  readsOn : q.readsOn = false
  step : ∀ c s', s = c :: s' → q.step c = f c

section

variable {α β : Type} {q : Scan} {s : List UInt8} {exp : Compiling}
  {post : α → Scan → List UInt8 → Compiling → Prop}

theorem Reads.bind {m : RexM α} {f : α → RexM β}
    {post' : β → Scan → List UInt8 → Compiling → Prop} (hm : Reads q s exp m post)
    (hf : ∀ a q' s' exp', exp'.p = some s' → post a q' s' exp' →
      Reads q' s' exp' (f a) post') : Reads q s exp (m >>= f) post' := by
  unfold Reads at hm ⊢
  rw [bind_apply]
  cases hrun : m exp with
  | ok a exp₁ =>
      rw [hrun] at hm
      obtain ⟨q₁, s₁, hp, hcut, hpost⟩ := hm
      have h := hf a q₁ s₁ exp₁ hp hpost
      unfold Reads at h
      simp only [hcut]
      exact h
  | error e exp₁ =>
      rw [hrun] at hm
      cases e <;> exact hm

theorem Reads.mono {m : RexM α} {post' : α → Scan → List UInt8 → Compiling → Prop}
    (hm : Reads q s exp m post) (h : ∀ a q' s' exp', post a q' s' exp' → post' a q' s' exp') :
    Reads q s exp m post' := by
  unfold Reads at hm ⊢
  cases hrun : m exp with
  | ok a exp₁ =>
      rw [hrun] at hm
      obtain ⟨q₁, s₁, hp, hcut, hpost⟩ := hm
      exact ⟨q₁, s₁, hp, hcut, h a q₁ s₁ exp₁ hpost⟩
  | error e exp₁ =>
      rw [hrun] at hm
      cases e <;> exact hm

theorem reads_pure {a : α} (hp : exp.p = some s) (h : post a q s exp) :
    Reads q s exp (pure a) post := ⟨q, s, hp, Iff.rfl, h⟩

theorem reads_error {msg : String} (h : ¬ Cut q s) : Reads q s exp (gstd_rex_error msg) post := h

theorem eq_cons_of_headD {c : UInt8} (hc : c ≠ 0) (h : s.headD 0 = c) : ∃ t, s = c :: t := by
  cases s with
  | nil => exact absurd h.symm hc
  | cons a t => exact ⟨t, by rw [← h, List.headD_cons]⟩

theorem peek_apply (hp : exp.p = some s) : peek exp = .ok (s.headD 0) exp := by
  unfold peek
  rw [get_bind_apply, hp]
  rfl

theorem advance_apply {c : UInt8} (hp : exp.p = some (c :: s)) :
    advance exp = .ok () { exp with p := some s } := by
  unfold advance
  rw [modify_apply, hp]

theorem reads_peek_nil {f : UInt8 → RexM α} (hp : exp.p = some [])
    (h : Reads q [] exp (f 0) post) : Reads q [] exp (peek >>= f) post := by
  unfold Reads at h ⊢
  rw [bind_apply, peek_apply hp]
  exact h

theorem reads_peek_cons {f : UInt8 → RexM α} {c : UInt8} (hp : exp.p = some (c :: s))
    (h : Reads q (c :: s) exp (f c) post) : Reads q (c :: s) exp (peek >>= f) post := by
  unfold Reads at h ⊢
  rw [bind_apply, peek_apply hp]
  exact h

theorem reads_peek_bind {f : UInt8 → RexM α} (hp : exp.p = some s)
    (h : Reads q s exp (f (s.headD 0)) post) : Reads q s exp (peek >>= f) post := by
  cases s with
  | nil => exact reads_peek_nil hp h
  | cons c s => exact reads_peek_cons hp h

theorem reads_advance_bind {f : Unit → RexM α} {c : UInt8} {q' : Scan} (hstep : q.step c = q')
    (hp : exp.p = some (c :: s)) (h : Reads q' s { exp with p := some s } (f ()) post) :
    Reads q (c :: s) exp (advance >>= f) post := by
  subst hstep
  unfold Reads at h ⊢
  rw [bind_apply, advance_apply hp]
  exact h

end

section

variable {α : Type} {q : Scan} {s : List UInt8} {exp : Compiling}
  {post : α → Scan → List UInt8 → Compiling → Prop}

theorem reads_newnode_bind {type : NodeType} {f : Nat → RexM α} (hp : exp.p = some s)
    (hfits : exp.Fits)
    (h : ∀ exp', exp'.p = some s → Pushed exp (newNode type exp.nsubexpr) exp' →
      exp'.nsubexpr = (if type = .OP_EXPR then exp.nsubexpr + 1 else exp.nsubexpr) →
      Reads q s exp' (f exp.nodes.length) post) :
    Reads q s exp (gstd_rex_newnode type >>= f) post := by
  obtain ⟨exp', hrun, hp', hpushed, hsub⟩ := newnode_apply exp hfits type
  have hrest := h exp' (hp'.trans hp) hpushed hsub
  unfold Reads at hrest ⊢
  rw [bind_apply, hrun]
  exact hrest

theorem reads_assign_bind {i : Nat} {g : Node → Node} {f : Unit → RexM α}
    (hi : i < exp.nodes.length) (h : Reads q s (exp.assigned i g) (f ()) post) :
    Reads q s exp (assign i g >>= f) post := by
  unfold Reads at h ⊢
  rw [bind_apply, assign_apply g hi]
  exact h

/-- A node without links. -/
theorem reads_leaf {type : NodeType} (hp : exp.p = some s) (hfits : exp.Fits)
    (hleaf : type.IsLeaf) :
    Reads q s exp (gstd_rex_newnode type) fun i q' s' exp' => q' = q ∧ s' = s ∧ Made exp i exp' ∧
      exp'.nsubexpr = exp.nsubexpr ∧ exp'.nodes[i]? = some (newNode type exp.nsubexpr) := by
  obtain ⟨exp', hrun, hp', hpushed, hsub⟩ := newnode_apply exp hfits type
  unfold Reads
  rw [hrun]
  exact ⟨q, s, hp'.trans hp, Iff.rfl, rfl, rfl, hpushed.grown (valid_leaf hleaf rfl),
    hsub.trans (if_neg hleaf.ne_expr), hpushed.getElem?⟩

/-- A node without links, with values in its fields. -/
theorem reads_leaf_assign {type : NodeType} {g : Node → Node} (hp : exp.p = some s)
    (hfits : exp.Fits) (hleaf : type.IsLeaf) (htype : ∀ n, (g n).type = n.type)
    (hnext : ∀ n, (g n).next = n.next) :
    Reads q s exp (do
        let n ← gstd_rex_newnode type
        assign n g
        return n)
      fun i q' s' exp' => q' = q ∧ s' = s ∧ Made exp i exp' ∧ exp'.nsubexpr = exp.nsubexpr ∧
        exp'.nodes[i]? = some (g (newNode type exp.nsubexpr)) := by
  refine reads_newnode_bind hp hfits fun exp' hp' hpushed hsub => ?_
  have hpushed' := hpushed.assigned (f := g)
  refine reads_assign_bind (by rw [hpushed.length]; exact Nat.lt_succ_self _) ?_
  refine reads_pure hp' ⟨rfl, rfl, hpushed'.grown (valid_leaf ?_ ?_),
    hsub.trans (if_neg hleaf.ne_expr), hpushed'.getElem?⟩
  · rw [htype]
    exact hleaf
  · rw [hnext]
    rfl

end

/-- What the compiler does at the end of the text or at the next character. -/
theorem At.not_cut_nil {q : Scan} {f : UInt8 → Scan} (h : At q [] f) : ¬ Cut q [] := by
  have hq := h.readsOn
  show ¬ q.readsOn = true
  rw [hq]
  exact Bool.false_ne_true

theorem At.cut_cons {q : Scan} {c : UInt8} {s : List UInt8} {f : UInt8 → Scan}
    (h : At q (c :: s) f) : Cut q (c :: s) ↔ Cut (f c) s := by
  rw [← h.step c s rfl]
  exact Iff.rfl

end GameScript.Rex
