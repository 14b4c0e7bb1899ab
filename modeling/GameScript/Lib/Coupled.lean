import GameScript.Lib.Effect

/-!
Two computations side by side. `Coupled r R m m'` says that from states that `r` relates,
results of `m` and `m'` are related by `R`, and the states behind them by `r` again.
`Steady r m` is this for one computation and equal results: what `r` does not look at has
no influence on what `m` returns.
-/

namespace GameScript.Effect

variable {ε σ α β γ δ : Type} {r : σ → σ → Prop}

/-- From states that `r` relates, results are related by `R` and states by `r`. -/
def Coupled (r : σ → σ → Prop) (R : α → β → Prop) (m : EStateM ε σ α) (m' : EStateM ε σ β) :
    Prop :=
  ∀ s t, r s t → ∀ a s' b t', m s = .ok a s' → m' t = .ok b t' → R a b ∧ r s' t'

/-- The result of `m` is the same in states that `r` relates. -/
def Steady (r : σ → σ → Prop) (m : EStateM ε σ α) : Prop := Coupled r Eq m m

theorem Coupled.bind {R : α → β → Prop} {S : γ → δ → Prop} {m : EStateM ε σ α}
    {m' : EStateM ε σ β} {f : α → EStateM ε σ γ} {f' : β → EStateM ε σ δ}
    (hm : Coupled r R m m') (hf : ∀ a b, R a b → Coupled r S (f a) (f' b)) :
    Coupled r S (m >>= f) (m' >>= f') := by
  intro s t hst c s₂ d t₂ hc hd
  obtain ⟨a, s₁, ha, hc⟩ := bind_eq_ok.mp hc
  obtain ⟨b, t₁, hb, hd⟩ := bind_eq_ok.mp hd
  obtain ⟨hab, hst₁⟩ := hm s t hst a s₁ b t₁ ha hb
  exact hf a b hab s₁ t₁ hst₁ c s₂ d t₂ hc hd

theorem coupled_pure {R : α → β → Prop} {a : α} {b : β} (h : R a b) :
    Coupled r R (pure a : EStateM ε σ α) (pure b) := by
  rintro s t hst _ _ _ _ ⟨⟩ ⟨⟩
  exact ⟨h, hst⟩

theorem coupled_throw {R : α → β → Prop} (e : ε) (m : EStateM ε σ β) :
    Coupled r R (throw e : EStateM ε σ α) m := by
  rintro s t hst _ _ _ _ ⟨⟩

theorem coupled_get_bind {R : α → β → Prop} {f : σ → EStateM ε σ α} {f' : σ → EStateM ε σ β}
    (h : ∀ s t, r s t → Coupled r R (f s) (f' t)) : Coupled r R (get >>= f) (get >>= f') := by
  intro s t hst a s' b t' ha hb
  exact h s t hst s t hst a s' b t' ha hb

/-- Two computations that stay within `r` leave related states related. -/
theorem coupled_of_within [IsTrans σ r] (hsymm : ∀ s t, r s t → r t s) {m : EStateM ε σ α}
    {m' : EStateM ε σ β} (hm : Within r m) (hm' : Within r m') :
    Coupled r (fun _ _ => True) m m' := by
  intro s t hst a s' b t' ha hb
  refine ⟨trivial, IsTrans.trans _ _ _ (hsymm _ _ (hm.ok ha)) ?_⟩
  exact IsTrans.trans _ _ _ hst (hm'.ok hb)

theorem Steady.bind {m : EStateM ε σ α} {f : α → EStateM ε σ β} (hm : Steady r m)
    (hf : ∀ a, Steady r (f a)) : Steady r (m >>= f) :=
  Coupled.bind hm fun a _ hab => hab ▸ hf a

theorem steady_pure (a : α) : Steady r (pure a : EStateM ε σ α) := coupled_pure rfl

theorem steady_throw (e : ε) : Steady r (throw e : EStateM ε σ α) := coupled_throw e _

/-- What `r` relates only to itself may be read. -/
theorem steady_get_bind {f : σ → EStateM ε σ α} (hsame : ∀ s t, r s t → f s = f t)
    (hf : ∀ s, Steady r (f s)) : Steady r (get >>= f) :=
  coupled_get_bind fun s t hst => hsame s t hst ▸ hf s

end GameScript.Effect
