import GameScript.Lib.Effect

/-!
Two computations in lockstep, each with a state and errors of its own. `Mirrors r fault R m m'`
says that from states that `r` relates both end in the same way: with results that `R` relates
and states that `r` relates again, or with errors that `fault` relates.
-/

namespace GameScript.Effect

variable {ε ε' σ τ α β γ δ : Type} {r : σ → τ → Prop} {fault : ε → ε' → Prop}

/-- From the states `s` and `t`, both computations end in the same way. -/
def MirrorsAt (r : σ → τ → Prop) (fault : ε → ε' → Prop) (R : α → β → Prop)
    (m : EStateM ε σ α) (m' : EStateM ε' τ β) (s : σ) (t : τ) : Prop :=
  match m s, m' t with
  | .ok a s', .ok b t' => R a b ∧ r s' t'
  | .error e _, .error e' _ => fault e e'
  | _, _ => False

def Mirrors (r : σ → τ → Prop) (fault : ε → ε' → Prop) (R : α → β → Prop)
    (m : EStateM ε σ α) (m' : EStateM ε' τ β) : Prop :=
  ∀ s t, r s t → MirrorsAt r fault R m m' s t

section

variable {R : α → β → Prop} {S : γ → δ → Prop} {m : EStateM ε σ α} {m' : EStateM ε' τ β}
  {f : α → EStateM ε σ γ} {f' : β → EStateM ε' τ δ} {s : σ} {t : τ}

theorem mirrorsAt_of_ok {a : α} {b : β} {s' : σ} {t' : τ} (hm : m s = .ok a s')
    (hm' : m' t = .ok b t') (hR : R a b) (hr : r s' t') : MirrorsAt r fault R m m' s t := by
  unfold MirrorsAt
  rw [hm, hm']
  exact ⟨hR, hr⟩

theorem mirrorsAt_of_error {e : ε} {e' : ε'} {s' : σ} {t' : τ} (hm : m s = .error e s')
    (hm' : m' t = .error e' t') (he : fault e e') : MirrorsAt r fault R m m' s t := by
  unfold MirrorsAt
  rw [hm, hm']
  exact he

/-- Where the first computation has a result, the second has one that is related to it. -/
theorem MirrorsAt.of_ok (h : MirrorsAt r fault R m m' s t) {a : α} {s' : σ}
    (hm : m s = .ok a s') : ∃ b t', m' t = .ok b t' ∧ R a b ∧ r s' t' := by
  unfold MirrorsAt at h
  rw [hm] at h
  cases ht : m' t with
  | ok b t' =>
      rw [ht] at h
      exact ⟨b, t', rfl, h⟩
  | error e' t' =>
      rw [ht] at h
      exact h.elim

/-- Where the first computation has an error, so has the second. -/
theorem MirrorsAt.of_error (h : MirrorsAt r fault R m m' s t) {e : ε} {s' : σ}
    (hm : m s = .error e s') : ∃ e' t', m' t = .error e' t' ∧ fault e e' := by
  unfold MirrorsAt at h
  rw [hm] at h
  cases ht : m' t with
  | ok b t' =>
      rw [ht] at h
      exact h.elim
  | error e' t' =>
      rw [ht] at h
      exact ⟨e', t', rfl, h⟩

/-- What is bound to the results goes on in lockstep, though it may relate states in another
way. The runs that led there may be used. -/
theorem MirrorsAt.bind {r' : σ → τ → Prop} (hm : MirrorsAt r fault R m m' s t)
    (hf : ∀ a b s' t', R a b → r s' t' → m s = .ok a s' → m' t = .ok b t' →
      MirrorsAt r' fault S (f a) (f' b) s' t') :
    MirrorsAt r' fault S (m >>= f) (m' >>= f') s t := by
  unfold MirrorsAt at hm ⊢
  rw [bind_apply, bind_apply]
  cases hs : m s with
  | ok a s' =>
      cases ht : m' t with
      | ok b t' =>
          rw [hs, ht] at hm
          exact hf a b s' t' hm.1 hm.2 hs ht
      | error e' t' =>
          rw [hs, ht] at hm
          exact hm.elim
  | error e s' =>
      cases ht : m' t with
      | ok b t' =>
          rw [hs, ht] at hm
          exact hm.elim
      | error e' t' =>
          rw [hs, ht] at hm
          exact hm

/-- A step of the first computation alone. -/
theorem mirrorsAt_bind_left {k : EStateM ε σ γ} {g : γ → EStateM ε σ α} {c : γ} {s' : σ}
    (hk : k s = .ok c s') (h : MirrorsAt r fault R (g c) m' s' t) :
    MirrorsAt r fault R (k >>= g) m' s t := by
  unfold MirrorsAt at h ⊢
  rw [bind_apply, hk]
  exact h

/-- A step of the second computation alone. -/
theorem mirrorsAt_bind_right {k : EStateM ε' τ δ} {g : δ → EStateM ε' τ β} {d : δ} {t' : τ}
    (hk : k t = .ok d t') (h : MirrorsAt r fault R m (g d) s t') :
    MirrorsAt r fault R m (k >>= g) s t := by
  unfold MirrorsAt at h ⊢
  rw [bind_apply, hk]
  exact h

theorem Mirrors.bind (hm : Mirrors r fault R m m')
    (hf : ∀ a b, R a b → Mirrors r fault S (f a) (f' b)) :
    Mirrors r fault S (m >>= f) (m' >>= f') := fun s t hst =>
  (hm s t hst).bind fun a b s' t' hab hst' _ _ => hf a b hab s' t' hst'

theorem mirrors_pure {a : α} {b : β} (h : R a b) :
    Mirrors r fault R (pure a : EStateM ε σ α) (pure b : EStateM ε' τ β) := fun _ _ hst =>
  ⟨h, hst⟩

/-- Results and states that are related may be related in another way. -/
theorem MirrorsAt.mono {R' : α → β → Prop} {r' : σ → τ → Prop}
    (hm : MirrorsAt r fault R m m' s t) (h : ∀ a b, R a b → R' a b)
    (hr : ∀ s' t', r s' t' → r' s' t') : MirrorsAt r' fault R' m m' s t := by
  unfold MirrorsAt at hm ⊢
  cases hs : m s with
  | ok a s' =>
      cases ht : m' t with
      | ok b t' =>
          rw [hs, ht] at hm
          exact ⟨h a b hm.1, hr s' t' hm.2⟩
      | error e' t' =>
          rw [hs, ht] at hm
          exact hm.elim
  | error e s' =>
      cases ht : m' t with
      | ok b t' =>
          rw [hs, ht] at hm
          exact hm.elim
      | error e' t' =>
          rw [hs, ht] at hm
          exact hm

end

end GameScript.Effect
