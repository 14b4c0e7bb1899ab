/-!
Code whose jumps lead forward. An instruction takes a state to a new one and
skips some of the instructions behind it, or it raises an error. `enter k code`
runs a piece of code from its instruction `k`; a jump may leave the piece, and
then the result says how far behind its end it leads. So a piece of code means
the same wherever it stands, and two pieces mean what they mean one after the
other.
-/

namespace GameScript.Forward

/-- How an instruction or a piece of code ends. `stuck` is what the effect says nothing about. -/
inductive Exit (σ ε : Type) where
  | goes (skip : Nat) (s : σ)
  | raises (e : ε)
  | stuck
deriving DecidableEq

variable {ι σ ε : Type}

def Exit.bind (o : Exit σ ε) (f : Nat → σ → Exit σ ε) : Exit σ ε :=
  match o with
  | .goes k s => f k s
  | .raises e => .raises e
  | .stuck => .stuck

@[simp] theorem Exit.bind_goes (k : Nat) (s : σ) (f : Nat → σ → Exit σ ε) :
    (Exit.goes k s).bind f = f k s := rfl

@[simp] theorem Exit.bind_raises (e : ε) (f : Nat → σ → Exit σ ε) :
    (Exit.raises e).bind f = .raises e := rfl

section

variable (effect : ι → σ → Exit σ ε)

/-- Runs `code` from its instruction `k` on. -/
def enter : Nat → List ι → σ → Exit σ ε
  | k, [], s => .goes k s
  | 0, i :: code, s => (effect i s).bind fun k s => enter k code s
  | k + 1, _ :: code, s => enter k code s

@[simp] theorem enter_nil (k : Nat) (s : σ) : enter effect k [] s = .goes k s := by
  cases k <;> rfl

@[simp] theorem enter_zero_cons (i : ι) (code : List ι) (s : σ) :
    enter effect 0 (i :: code) s = (effect i s).bind fun k s => enter effect k code s := rfl

@[simp] theorem enter_succ_cons (k : Nat) (i : ι) (code : List ι) (s : σ) :
    enter effect (k + 1) (i :: code) s = enter effect k code s := rfl

/-- Two pieces of code run one after the other. -/
theorem enter_append (a b : List ι) (k : Nat) (s : σ) :
    enter effect k (a ++ b) s = (enter effect k a s).bind fun k s => enter effect k b s := by
  induction a generalizing k s with
  | nil => simp
  | cons i a ih =>
      cases k with
      | zero =>
          rw [List.cons_append, enter_zero_cons, enter_zero_cons]
          cases effect i s <;> simp [Exit.bind, ih]
      | succ k => simpa using ih k s

/-- A jump behind the end of a piece of code does not run any of it. -/
theorem enter_length (code : List ι) (k : Nat) (s : σ) :
    enter effect (code.length + k) code s = .goes k s := by
  induction code with
  | nil => simp
  | cons i code ih => rwa [List.length_cons, Nat.add_right_comm, enter_succ_cons]

end

variable {effect : ι → σ → Exit σ ε} {a b : List ι} {s s' : σ} {e : ε} {k : Nat}

theorem enter_append_of_goes (h : enter effect 0 a s = .goes k s') :
    enter effect 0 (a ++ b) s = enter effect k b s' := by
  simp [enter_append, h]

theorem enter_append_of_raises (h : enter effect 0 a s = .raises e) :
    enter effect 0 (a ++ b) s = .raises e := by
  simp [enter_append, h]

theorem enter_concat {i : ι} (h : enter effect 0 a s = .goes 0 s') :
    enter effect 0 (a ++ [i]) s = effect i s' := by
  rw [enter_append_of_goes h, enter_zero_cons]
  cases effect i s' <;> simp [Exit.bind]

/-! ### The last instruction

A piece of code to which more is added may have its last instruction changed. That is right when
the run does the last instruction last; where jumps lead to the end, it is not. -/

/-- `code` takes `s` to `s'`, and with its last instruction last where `opt` holds. -/
def Settles (effect : ι → σ → Exit σ ε) (opt : Bool) (code : List ι) (s s' : σ) : Prop :=
  if opt then
    code = [] ∧ s = s' ∨ ∃ init i s₀, code = init ++ [i] ∧ enter effect 0 init s = .goes 0 s₀ ∧
      effect i s₀ = .goes 0 s'
  else enter effect 0 code s = .goes 0 s'

variable {opt : Bool} {s₀ : σ}

theorem settles_false : Settles effect false a s s' ↔ enter effect 0 a s = .goes 0 s' := by
  simp [Settles]

theorem settles_nil : Settles effect true [] s s' ↔ s = s' := by
  simp [Settles]

theorem settles_concat {i : ι} : Settles effect true (a ++ [i]) s s' ↔
    ∃ s₀, enter effect 0 a s = .goes 0 s₀ ∧ effect i s₀ = .goes 0 s' := by
  constructor
  · intro h
    rcases h with ⟨hnil, -⟩ | ⟨init, j, s₀, hcode, hinit, hlast⟩
    · simp at hnil
    · obtain ⟨rfl, hij⟩ := List.append_inj' hcode rfl
      cases hij
      exact ⟨s₀, hinit, hlast⟩
  · rintro ⟨s₀, hinit, hlast⟩
    exact .inr ⟨a, i, s₀, rfl, hinit, hlast⟩

theorem Settles.goes (h : Settles effect opt a s s') : enter effect 0 a s = .goes 0 s' := by
  cases opt with
  | false => exact settles_false.mp h
  | true =>
      rcases h with ⟨rfl, rfl⟩ | ⟨init, i, s₀, rfl, hinit, hlast⟩
      · rfl
      · rw [enter_concat hinit, hlast]

variable (effect opt) in
theorem Settles.refl (s : σ) : Settles effect opt [] s s := by
  cases opt
  · exact settles_false.mpr rfl
  · exact settles_nil.mpr rfl

/-- One more instruction. -/
theorem Settles.concat {i : ι} (h : Settles effect opt a s s₀) (hi : effect i s₀ = .goes 0 s') :
    Settles effect true (a ++ [i]) s s' :=
  settles_concat.mpr ⟨s₀, h.goes, hi⟩

/-- An error of the code as it is, or of its last instruction. -/
theorem raises_concat {i : ι} (h : enter effect 0 (a ++ [i]) s = .raises e) :
    enter effect 0 a s = .raises e ∨ ∃ s₀, enter effect 0 a s = .goes 0 s₀ ∧
      effect i s₀ = .raises e := by
  rw [enter_append] at h
  cases ha : enter effect 0 a s with
  | goes k s₀ =>
      rw [ha, Exit.bind_goes] at h
      cases k with
      | zero =>
          rw [enter_zero_cons] at h
          cases hi : effect i s₀ with
          | goes k s₁ => simp [hi] at h
          | raises e' => exact .inr ⟨s₀, rfl, by simpa [hi] using h⟩
          | stuck => simp [hi, Exit.bind] at h
      | succ k => simp at h
  | raises e' => exact .inl (by simpa [ha] using h)
  | stuck => simp [ha, Exit.bind] at h

/-- The last instruction may be replaced by one that raises the same errors. -/
theorem raises_replace {i j : ι} (hij : ∀ s, effect i s = .raises e → effect j s = .raises e)
    (h : enter effect 0 (a ++ [i]) s = .raises e) : enter effect 0 (a ++ [j]) s = .raises e := by
  rcases raises_concat h with ha | ⟨s₀, ha, hraise⟩
  · exact enter_append_of_raises ha
  · rw [enter_concat ha, hij s₀ hraise]

end GameScript.Forward
