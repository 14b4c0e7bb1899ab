/-!
Computations that change a state and may fail. What was changed before a failure
stays changed, so an invariant has to hold of the state a failed computation
leaves as well. `Keeps inv m q` says that `m` keeps `inv` either way and that a
result satisfies `q`; its rules follow the structure of a computation.
-/

namespace GameScript

/-- A computation on a state that may fail. -/
abbrev Fallible (σ : Type) := OptionT (StateM σ)

namespace Fallible

variable {σ α β : Type} {inv : σ → Prop}

/-- The result, if there is one, and the state left behind. -/
def exec (m : Fallible σ α) (s : σ) : Option α × σ := m.run.run s

@[simp] theorem exec_pure (a : α) (s : σ) : exec (pure a) s = (some a, s) := rfl

@[simp] theorem exec_failure (s : σ) : exec (failure : Fallible σ α) s = (none, s) := rfl

@[simp] theorem exec_get (s : σ) : exec (get : Fallible σ σ) s = (some s, s) := rfl

@[simp] theorem exec_modify (f : σ → σ) (s : σ) :
    exec (modify f : Fallible σ Unit) s = (some (), f s) := rfl

theorem exec_bind (m : Fallible σ α) (f : α → Fallible σ β) (s : σ) :
    exec (m >>= f) s =
      match exec m s with
      | (none, s') => (none, s')
      | (some a, s') => exec (f a) s' := by
  unfold exec
  rw [OptionT.run_bind, Option.elimM, StateT.run_bind]
  generalize (m.run.run s : Option α × σ) = r
  obtain ⟨_ | a, s'⟩ := r <;> rfl

/-- `m` keeps `inv` whether it fails or not, and its result satisfies `q`. -/
def Keeps (inv : σ → Prop) (m : Fallible σ α) (q : α → σ → Prop) : Prop :=
  ∀ s, inv s → inv (exec m s).2 ∧ ∀ a, (exec m s).1 = some a → q a (exec m s).2

theorem keeps_pure {a : α} {q : α → σ → Prop} (hq : ∀ s, inv s → q a s) :
    Keeps inv (pure a) q := by
  intro s hs
  refine ⟨hs, fun b hb => ?_⟩
  obtain rfl : a = b := Option.some.inj hb
  exact hq s hs

theorem keeps_failure {q : α → σ → Prop} : Keeps inv (failure : Fallible σ α) q :=
  fun _ hs => ⟨hs, fun _ hb => by cases hb⟩

theorem keeps_get {q : σ → σ → Prop} (hq : ∀ s, inv s → q s s) :
    Keeps inv (get : Fallible σ σ) q := by
  intro s hs
  refine ⟨hs, fun b hb => ?_⟩
  obtain rfl : s = b := Option.some.inj hb
  exact hq s hs

/-- The second computation starts where the first one ended, and may use what is
known of that state and of the first result. -/
theorem keeps_bind_at {m : Fallible σ α} {f : α → Fallible σ β} {q : α → σ → Prop}
    {r : β → σ → Prop} (hm : Keeps inv m q)
    (hf : ∀ a s, inv s → q a s →
      inv (exec (f a) s).2 ∧ ∀ b, (exec (f a) s).1 = some b → r b (exec (f a) s).2) :
    Keeps inv (m >>= f) r := by
  intro s hs
  obtain ⟨hs', hq⟩ := hm s hs
  rw [exec_bind]
  generalize exec m s = result at hs' hq ⊢
  obtain ⟨_ | a, s'⟩ := result
  · exact ⟨hs', fun _ hb => by cases hb⟩
  · exact hf a s' hs' (hq a rfl)

theorem keeps_bind {m : Fallible σ α} {f : α → Fallible σ β} {q : α → σ → Prop}
    {r : β → σ → Prop} (hm : Keeps inv m q) (hf : ∀ a, Keeps inv (f a) r) :
    Keeps inv (m >>= f) r :=
  keeps_bind_at hm fun a s hs _ => hf a s hs

end Fallible

end GameScript
