import Mathlib.Order.Defs.Unbundled

/-!
Effects of computations with a state and errors. `Within r m` says that `m` takes
every state to a state that `r` relates it to, whether it ends with a result or
with an error. With `r` reflexive and transitive the rules follow the structure
of `m`, so a computation stays within `r` as soon as the operations it is built
from do.

`Guarded` is the same for runs of a transition relation all of whose steps start
in states that meet a condition.
-/

namespace GameScript.Effect

variable {ε σ α β : Type} {r : σ → σ → Prop}

/-- The state `m` leaves behind. -/
def leaves (m : EStateM ε σ α) (s : σ) : σ :=
  match m s with
  | .ok _ s' | .error _ s' => s'

theorem leaves_ok {m : EStateM ε σ α} {s s' : σ} {a : α} (h : m s = .ok a s') :
    leaves m s = s' := by
  rw [leaves, h]

theorem leaves_error {m : EStateM ε σ α} {s s' : σ} {e : ε} (h : m s = .error e s') :
    leaves m s = s' := by
  rw [leaves, h]

/-- The result of `m`, where it has one. -/
def result (m : EStateM ε σ α) (s : σ) : Option α :=
  match m s with
  | .ok a _ => some a
  | .error _ _ => none

theorem result_eq_some {m : EStateM ε σ α} {s : σ} {a : α} :
    result m s = some a ↔ ∃ s', m s = .ok a s' := by
  unfold result
  cases m s with
  | ok b s' => simp
  | error e s' => simp

theorem bind_apply (m : EStateM ε σ α) (f : α → EStateM ε σ β) (s : σ) :
    (m >>= f) s =
      match m s with
      | .ok a s' => f a s'
      | .error e s' => .error e s' := rfl

/-- From a result of a sequence, the results of its parts. -/
theorem bind_eq_ok {m : EStateM ε σ α} {f : α → EStateM ε σ β} {s s' : σ} {b : β} :
    (m >>= f) s = .ok b s' ↔ ∃ a s₁, m s = .ok a s₁ ∧ f a s₁ = .ok b s' := by
  rw [bind_apply]
  cases h : m s with
  | ok a s₁ =>
    constructor
    · exact fun hf => ⟨a, s₁, rfl, hf⟩
    · rintro ⟨_, _, hm, hf⟩
      cases hm
      exact hf
  | error e s₁ =>
    constructor
    · intro hf
      cases hf
    · rintro ⟨_, _, hm, _⟩
      cases hm

/-- An error of a sequence is an error of one of its parts. -/
theorem bind_eq_error {m : EStateM ε σ α} {f : α → EStateM ε σ β} {s s' : σ} {e : ε} :
    (m >>= f) s = .error e s' ↔
      m s = .error e s' ∨ ∃ a s₁, m s = .ok a s₁ ∧ f a s₁ = .error e s' := by
  rw [bind_apply]
  cases h : m s with
  | ok a s₁ =>
    constructor
    · exact fun hf => .inr ⟨a, s₁, rfl, hf⟩
    · rintro (hm | ⟨_, _, hm, hf⟩)
      · cases hm
      · cases hm
        exact hf
  | error e s₁ =>
    constructor
    · rintro ⟨⟩
      exact .inl rfl
    · rintro (hm | ⟨_, _, hm, _⟩)
      · cases hm
        rfl
      · cases hm

theorem get_bind_apply (f : σ → EStateM ε σ β) (s : σ) : (get >>= f) s = f s s := rfl

theorem modify_bind_apply (g : σ → σ) (f : PUnit → EStateM ε σ β) (s : σ) :
    (modify g >>= f) s = f ⟨⟩ (g s) := rfl

theorem modify_apply (f : σ → σ) (s : σ) : (modify f : EStateM ε σ Unit) s = .ok () (f s) := rfl

theorem pure_apply (a : α) (s : σ) : (pure a : EStateM ε σ α) s = .ok a s := rfl

/-- `b` is the only result `m` can have. -/
def Gives (b : β) (m : EStateM ε σ β) : Prop := ∀ s a s', m s = .ok a s' → a = b

theorem gives_pure (b : β) : Gives b (pure b : EStateM ε σ β) := by
  intro s a s' h
  cases h
  rfl

theorem gives_bind {b : β} {m : EStateM ε σ α} {f : α → EStateM ε σ β} (hf : ∀ a, Gives b (f a)) :
    Gives b (m >>= f) := by
  intro s a s' h
  obtain ⟨x, s₁, -, h⟩ := bind_eq_ok.mp h
  exact hf x s₁ a s' h

/-! ### Computations -/

def Within (r : σ → σ → Prop) (m : EStateM ε σ α) : Prop := ∀ s, r s (leaves m s)

theorem Within.ok {m : EStateM ε σ α} (h : Within r m) {s s' : σ} {a : α}
    (hm : m s = .ok a s') : r s s' := by
  have hr := h s
  rwa [leaves_ok hm] at hr

theorem Within.error {m : EStateM ε σ α} (h : Within r m) {s s' : σ} {e : ε}
    (hm : m s = .error e s') : r s s' := by
  have hr := h s
  rwa [leaves_error hm] at hr

theorem Within.mono {r' : σ → σ → Prop} {m : EStateM ε σ α} (h : Within r m)
    (hr : ∀ s s', r s s' → r' s s') : Within r' m :=
  fun s => hr _ _ (h s)

theorem within_modify {f : σ → σ} (h : ∀ s, r s (f s)) :
    Within r (modify f : EStateM ε σ Unit) := h

section

variable [Std.Refl r]

theorem within_pure (a : α) : Within r (pure a : EStateM ε σ α) := fun s => Std.Refl.refl s

theorem within_throw (e : ε) : Within r (throw e : EStateM ε σ α) := fun s => Std.Refl.refl s

theorem within_get : Within r (get : EStateM ε σ σ) := fun s => Std.Refl.refl s

end

theorem leaves_bind (m : EStateM ε σ α) (f : α → EStateM ε σ β) (s : σ) :
    leaves (m >>= f) s =
      match m s with
      | .ok a s' => leaves (f a) s'
      | .error _ s' => s' := by
  unfold leaves
  rw [bind_apply]
  cases m s <;> rfl

/-- The second computation may use that the state is the one it was given. -/
theorem within_get_bind {f : σ → EStateM ε σ β} (hf : ∀ s, r s (leaves (f s) s)) :
    Within r (get >>= f) := hf

section

variable [IsTrans σ r]

theorem within_bind {m : EStateM ε σ α} {f : α → EStateM ε σ β} (hm : Within r m)
    (hf : ∀ a, Within r (f a)) : Within r (m >>= f) := by
  intro s
  rw [leaves_bind]
  cases h : m s with
  | error e s₁ => exact hm.error h
  | ok a s₁ => exact IsTrans.trans _ _ _ (hm.ok h) (hf a s₁)

theorem within_forM_mem [Std.Refl r] {f : α → EStateM ε σ PUnit} {l : List α}
    (hf : ∀ a ∈ l, Within r (f a)) : Within r (l.forM f) := by
  induction l with
  | nil => exact within_pure _
  | cons a l ih =>
    have ha := hf a List.mem_cons_self
    have hl := ih fun b hb => hf b (List.mem_cons_of_mem a hb)
    exact within_bind ha fun _ => hl

end

/-! ### Properties of the state -/

/-- The effects that keep a property. -/
def Keeps (p : σ → Prop) : σ → σ → Prop := fun s s' => p s → p s'

instance (p : σ → Prop) : Std.Refl (Keeps p) := ⟨fun _ h => h⟩

instance (p : σ → Prop) : IsTrans σ (Keeps p) := ⟨fun _ _ _ h₁ h₂ h => h₂ (h₁ h)⟩

/-- From a state that meets `p`, a result comes with a state that meets `q`, an error with
one that meets `e`. -/
def Triple (p : σ → Prop) (m : EStateM ε σ α) (q : α → σ → Prop) (e : σ → Prop) : Prop :=
  ∀ s, p s → match m s with
    | .ok a s' => q a s'
    | .error _ s' => e s'

section

variable {p p' e e' : σ → Prop} {q q' : α → σ → Prop} {m : EStateM ε σ α}

/-- What keeps `p` may be part of a computation whose errors promise less. -/
theorem Within.triple_le (h : Within (Keeps p) m) (he : ∀ s, p s → e s) :
    Triple p m (fun _ => p) e := by
  intro s hs
  have hm := h s hs
  unfold leaves at hm
  cases hr : m s with
  | ok a s' => simpa only [hr] using hm
  | error x s' =>
    rw [hr] at hm
    exact he s' hm

theorem Within.triple (h : Within (Keeps p) m) : Triple p m (fun _ => p) p :=
  h.triple_le fun _ hs => hs

theorem Triple.leaves (h : Triple p m (fun _ => p') p') {s : σ} (hs : p s) :
    p' (leaves m s) := by
  have hm := h s hs
  unfold Effect.leaves
  cases hr : m s <;> simpa only [hr] using hm

theorem Triple.ok (h : Triple p m q e) {s s' : σ} {a : α} (hs : p s) (hm : m s = .ok a s') :
    q a s' := by
  have hq := h s hs
  rwa [hm] at hq

/-- Less may be asked for and more be allowed. -/
theorem Triple.mono (h : Triple p m q e) (hp : ∀ s, p' s → p s) (hq : ∀ a s, q a s → q' a s)
    (he : ∀ s, e s → e' s) : Triple p' m q' e' := by
  intro s hs
  have hm := h s (hp s hs)
  cases hr : m s with
  | ok a s' =>
    rw [hr] at hm
    exact hq a s' hm
  | error x s' =>
    rw [hr] at hm
    exact he s' hm

/-- What holds between two computations connects them. -/
theorem Triple.bind {f : α → EStateM ε σ β} {q' : β → σ → Prop} (hm : Triple p m q e)
    (hf : ∀ a, Triple (q a) (f a) q' e) : Triple p (m >>= f) q' e := by
  intro s hs
  have hq := hm s hs
  rw [bind_apply]
  cases hr : m s with
  | error x s₁ => rwa [hr] at hq
  | ok a s₁ =>
    rw [hr] at hq
    exact hf a s₁ hq

theorem triple_pure {a : α} (h : ∀ s, p s → q a s) :
    Triple p (pure a : EStateM ε σ α) q e := h

theorem triple_throw {x : ε} (h : ∀ s, p s → e s) :
    Triple p (throw x : EStateM ε σ α) q e := h

theorem triple_modify {f : σ → σ} {q : PUnit → σ → Prop} (h : ∀ s, p s → q ⟨⟩ (f s)) :
    Triple p (modify f : EStateM ε σ PUnit) q e := h

/-- The second computation may use that the state is the one it was given. -/
theorem triple_get_bind {f : σ → EStateM ε σ α}
    (hf : ∀ s, p s → Triple (fun s' => s' = s) (f s) q e) : Triple p (get >>= f) q e :=
  fun s hs => hf s hs s rfl

end

/-- From a state that meets `p`, a result comes with a state that meets `q`, and the error `x`
with one that meets `e x`. -/
def Ends (p : σ → Prop) (m : EStateM ε σ α) (q : α → σ → Prop) (e : ε → σ → Prop) : Prop :=
  ∀ s, p s → match m s with
    | .ok a s' => q a s'
    | .error x s' => e x s'

section

variable {p p' : σ → Prop} {q q' : α → σ → Prop} {e e' : ε → σ → Prop} {m : EStateM ε σ α}

/-- Less may be asked for and more be allowed, of errors, too. -/
theorem Ends.mono (h : Ends p m q e) (hp : ∀ s, p' s → p s) (hq : ∀ a s, q a s → q' a s)
    (he : ∀ x s, e x s → e' x s) : Ends p' m q' e' := by
  intro s hs
  have hm := h s (hp s hs)
  cases hr : m s with
  | ok a s' =>
    rw [hr] at hm
    exact hq a s' hm
  | error x s' =>
    rw [hr] at hm
    exact he x s' hm

/-- What holds between two computations connects them. -/
theorem Ends.bind {f : α → EStateM ε σ β} {q' : β → σ → Prop} (hm : Ends p m q e)
    (hf : ∀ a, Ends (q a) (f a) q' e) : Ends p (m >>= f) q' e := by
  intro s hs
  have hq := hm s hs
  rw [bind_apply]
  cases hr : m s with
  | error x s₁ => rwa [hr] at hq
  | ok a s₁ =>
    rw [hr] at hq
    exact hf a s₁ hq

theorem Ends.ok (h : Ends p m q e) {s s' : σ} {a : α} (hs : p s) (hm : m s = .ok a s') :
    q a s' := by
  have hq := h s hs
  rwa [hm] at hq

theorem Ends.error (h : Ends p m q e) {s s' : σ} {x : ε} (hs : p s)
    (hm : m s = .error x s') : e x s' := by
  have hq := h s hs
  rwa [hm] at hq

theorem ends_pure {a : α} (h : ∀ s, p s → q a s) : Ends p (pure a : EStateM ε σ α) q e := h

theorem ends_modify {f : σ → σ} {q : PUnit → σ → Prop} (h : ∀ s, p s → q ⟨⟩ (f s)) :
    Ends p (modify f : EStateM ε σ PUnit) q e := h

/-- The second computation may use that the state is the one it was given. -/
theorem ends_get_bind {f : σ → EStateM ε σ α}
    (hf : ∀ s, p s → Ends (fun s' => s' = s) (f s) q e) : Ends p (get >>= f) q e :=
  fun s hs => hf s hs s rfl

/-- What an effect keeps holds however the computation ends. -/
theorem Within.ends {r : σ → σ → Prop} (h : Within r m)
    (hr : ∀ s s', r s s' → p s → p' s') (he : ∀ x s, p' s → e x s) :
    Ends p m (fun _ => p') e := by
  intro s hs
  have hm := hr _ _ (h s) hs
  unfold Effect.leaves at hm
  cases hm' : m s with
  | ok a s' => simpa only [hm'] using hm
  | error x s' =>
    rw [hm'] at hm
    exact he x s' hm

end

/-- From `s`, `m` ends with a result and a state as in `q`. -/
def Delivers (m : EStateM ε σ α) (s : σ) (q : α → σ → Prop) : Prop :=
  ∃ a s', m s = .ok a s' ∧ q a s'

theorem delivers_pure {a : α} {s : σ} {q : α → σ → Prop} (h : q a s) :
    Delivers (pure a : EStateM ε σ α) s q := ⟨a, s, rfl, h⟩

theorem delivers_get_bind {f : σ → EStateM ε σ α} {s : σ} {q : α → σ → Prop}
    (h : Delivers (f s) s q) : Delivers (get >>= f) s q := h

theorem Delivers.bind {m : EStateM ε σ α} {f : α → EStateM ε σ β} {s : σ} {q : α → σ → Prop}
    {r : β → σ → Prop} (hm : Delivers m s q) (hf : ∀ a s', q a s' → Delivers (f a) s' r) :
    Delivers (m >>= f) s r := by
  obtain ⟨a, s₁, hrun, hq⟩ := hm
  obtain ⟨b, s₂, hrun', hr⟩ := hf a s₁ hq
  exact ⟨b, s₂, by rw [bind_apply, hrun]; exact hrun', hr⟩

/-- The first computation may be carried out. -/
theorem delivers_bind_of_ok {m : EStateM ε σ α} {f : α → EStateM ε σ β} {s s₁ : σ} {a : α}
    {r : β → σ → Prop} (hm : m s = .ok a s₁) (hf : Delivers (f a) s₁ r) :
    Delivers (m >>= f) s r := by
  obtain ⟨b, s₂, hrun, hr⟩ := hf
  exact ⟨b, s₂, by rw [bind_apply, hm]; exact hrun, hr⟩

theorem Delivers.mono {m : EStateM ε σ α} {s : σ} {q r : α → σ → Prop} (h : Delivers m s q)
    (hqr : ∀ a s', q a s' → r a s') : Delivers m s r := by
  obtain ⟨a, s', hrun, hq⟩ := h
  exact ⟨a, s', hrun, hqr a s' hq⟩

/-! ### Parts of the state that do not matter -/

/-- The result in the state that `f` gives. -/
def mapState (f : σ → σ) : EStateM.Result ε σ α → EStateM.Result ε σ α
  | .ok a s => .ok a (f s)
  | .error e s => .error e (f s)

/-- In the states that `f` gives, `m` does what `m'` does in the states before. -/
def ActsAs (f : σ → σ) (m m' : EStateM ε σ α) : Prop := ∀ s, m (f s) = mapState f (m' s)

/-- It is the same whether `f` changes the state before or after `m`. -/
def Commutes (f : σ → σ) (m : EStateM ε σ α) : Prop := ActsAs f m m

section

variable {f : σ → σ}

/-- A result with a changed state is a result with the state before. -/
theorem mapState_eq_ok {x : EStateM.Result ε σ α} {a : α} {s : σ} :
    mapState f x = .ok a s ↔ ∃ s', x = .ok a s' ∧ s = f s' := by
  cases x with
  | ok b s' =>
      constructor
      · rintro ⟨⟩
        exact ⟨s', rfl, rfl⟩
      · rintro ⟨_, ⟨⟩, rfl⟩
        rfl
  | error e s' => simp [mapState]

theorem ActsAs.bind {m m' : EStateM ε σ α} {k k' : α → EStateM ε σ β} (hm : ActsAs f m m')
    (hk : ∀ a, ActsAs f (k a) (k' a)) : ActsAs f (m >>= k) (m' >>= k') := by
  intro s
  rw [bind_apply, bind_apply, hm s]
  cases m' s with
  | ok a s' => exact hk a s'
  | error e s' => rfl

/-- A second computation that does nothing may follow. -/
theorem ActsAs.bind_pure {m m' : EStateM ε σ α} {k : α → EStateM ε σ α} (hm : ActsAs f m m')
    (hk : ∀ a, ActsAs f (k a) (pure a)) : ActsAs f (m >>= k) m' := by
  intro s
  rw [bind_apply, hm s]
  cases m' s with
  | ok a s' => exact hk a s'
  | error e s' => rfl

theorem commutes_pure (a : α) : Commutes f (pure a : EStateM ε σ α) := fun _ => rfl

theorem commutes_throw (e : ε) : Commutes f (throw e : EStateM ε σ α) := fun _ => rfl

theorem commutes_modify {g : σ → σ} (h : ∀ s, g (f s) = f (g s)) :
    Commutes f (modify g : EStateM ε σ PUnit) := fun s =>
  congrArg (EStateM.Result.ok PUnit.unit) (h s)

theorem Commutes.bind {m : EStateM ε σ α} {k : α → EStateM ε σ β} (hm : Commutes f m)
    (hk : ∀ a, Commutes f (k a)) : Commutes f (m >>= k) :=
  ActsAs.bind hm hk

/-- The second computation may look at what `f` does not change. -/
theorem commutes_get_bind {k : σ → EStateM ε σ α} (hsame : ∀ s, k (f s) = k s)
    (hk : ∀ s, Commutes f (k s)) : Commutes f (get >>= k) := by
  intro s
  rw [get_bind_apply, get_bind_apply, hsame]
  exact hk s s

end

/-! ### Runs -/

/-- A run along `next` whose steps start in states that meet `guard`. -/
inductive Guarded (guard : σ → Prop) (next : σ → σ → Prop) : σ → σ → Prop where
  | refl (s : σ) : Guarded guard next s s
  | step {s s₁ s₂ : σ} : guard s → next s s₁ → Guarded guard next s₁ s₂ → Guarded guard next s s₂

/-- What every guarded step keeps, a run keeps. -/
theorem Guarded.keeps {guard inv : σ → Prop} {next : σ → σ → Prop}
    (hstep : ∀ s s', inv s → guard s → next s s' → inv s') {s s' : σ}
    (hrun : Guarded guard next s s') (hs : inv s) : inv s' := by
  induction hrun with
  | refl => exact hs
  | step hg hn _ ih => exact ih (hstep _ _ hs hg hn)

end GameScript.Effect
