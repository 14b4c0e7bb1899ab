import GameScript.Gstd.Pattern

/-!
A pattern is read in one way: what a text is read as, and what is left of it, follow from
its characters.
-/

namespace GameScript.Rex

theorem CharReads.unique {isclass : Bool} {s t t' : List UInt8} {a b : Atom}
    (h : CharReads isclass s a t) (h' : CharReads isclass s b t') : a = b ∧ t = t' := by
  have hm : controlOf (SC 'm') = none ∧ ¬ isClassLetter (SC 'm') = true := by decide
  have hboundary : ∀ {t : UInt8}, t = SC 'b' ∨ t = SC 'B' →
      controlOf t = none ∧ ¬ isClassLetter t = true ∧ t ≠ SC 'm' := by
    rintro t (rfl | rfl) <;> decide
  cases h <;> cases h' <;> grind

theorem RangeEndReads.unique {s t t' : List UInt8} {c c' : UInt8} (h : RangeEndReads s c t)
    (h' : RangeEndReads s c' t') : c = c' ∧ t = t' := by
  cases h <;> cases h' <;> simp_all

/-- The members of a class are told by the text. -/
theorem MembersRead.unique {a : Option Atom} {s t t' : List UInt8} {ms ms' : List Member}
    (h : MembersRead a s ms t) (h' : MembersRead a s ms' t') : ms = ms' ∧ t = t' := by
  induction h generalizing ms' t' with
  | done => cases h' <;> simp_all
  | last => cases h' with
    | last => exact ⟨rfl, rfl⟩
    | next h => exact absurd rfl h
  | first hs hread _ ih =>
      cases h' with
      | done => exact absurd rfl hs
      | first _ hread' hmembers' =>
          obtain ⟨rfl, rfl⟩ := hread.unique hread'
          exact ih hmembers'
  | next hs hs' hread _ ih =>
      cases h' with
      | last => exact absurd rfl hs
      | next _ _ hread' hmembers' =>
          obtain ⟨rfl, rfl⟩ := hread.unique hread'
          obtain ⟨rfl, rfl⟩ := ih hmembers'
          exact ⟨rfl, rfl⟩
      | range => exact absurd rfl hs'
  | range hle hread _ ih =>
      cases h' with
      | next _ hs' => exact absurd rfl hs'
      | range _ hread' hmembers' =>
          obtain ⟨rfl, rfl⟩ := hread.unique hread'
          obtain ⟨rfl, rfl⟩ := ih hmembers'
          exact ⟨rfl, rfl⟩

/-- A number is told by the text. -/
theorem NumberReads.unique {s t t' : List UInt8} {n n' : Nat} (h : NumberReads s n t)
    (h' : NumberReads s n' t') : n = n' ∧ t = t' := by
  obtain ⟨d, ds, hs, hds, hend, rfl⟩ := h
  obtain ⟨d', ds', hs', hds', hend', rfl⟩ := h'
  have hsplit : ∀ {xs ys : List UInt8}, (∀ x ∈ xs, isDigit x = true) → isDigit (ys.headD 0) = false →
      (xs ++ ys).takeWhile isDigit = xs := by
    intro xs ys hxs hys
    rw [List.takeWhile_append_of_pos hxs]
    cases ys with
    | nil => simp
    | cons y ys =>
        rw [List.takeWhile_cons_of_neg (by simpa using hys), List.append_nil]
  have heq : d :: ds = d' :: ds' := by
    rw [← hsplit hds hend, ← hsplit hds' hend', List.cons_append, List.cons_append, ← hs, ← hs']
  refine ⟨by rw [heq], ?_⟩
  have happend : (d :: ds) ++ t = (d' :: ds') ++ t' := hs.symm.trans hs'
  rw [heq] at happend
  exact List.append_cancel_left happend

/-- A quantifier is told by the text. -/
theorem QuantifierReads.unique {s t t' : List UInt8} {q q' : Option (Nat × Option Nat)}
    (h : QuantifierReads s q t) (h' : QuantifierReads s q' t') : q = q' ∧ t = t' := by
  cases h with
  | none h1 h2 h3 h4 =>
      cases h' with
      | none => exact ⟨rfl, rfl⟩
      | star => exact absurd rfl h1
      | plus => exact absurd rfl h2
      | question => exact absurd rfl h3
      | exactly | least | between => exact absurd rfl h4
  | star =>
      cases h' with
      | none h1 => exact absurd rfl h1
      | star => exact ⟨rfl, rfl⟩
  | plus =>
      cases h' with
      | none _ h2 => exact absurd rfl h2
      | plus => exact ⟨rfl, rfl⟩
  | question =>
      cases h' with
      | none _ _ h3 => exact absurd rfl h3
      | question => exact ⟨rfl, rfl⟩
  | exactly hn =>
      cases h' with
      | none _ _ _ h4 => exact absurd rfl h4
      | exactly hn' =>
          obtain ⟨rfl, ht⟩ := hn.unique hn'
          exact ⟨rfl, (List.cons.inj ht).2⟩
      | least hn' =>
          obtain ⟨_, ht⟩ := hn.unique hn'
          exact absurd (List.cons.inj ht).1 (by decide)
      | between hn' =>
          obtain ⟨_, ht⟩ := hn.unique hn'
          exact absurd (List.cons.inj ht).1 (by decide)
  | least hn =>
      cases h' with
      | none _ _ _ h4 => exact absurd rfl h4
      | exactly hn' =>
          obtain ⟨_, ht⟩ := hn.unique hn'
          exact absurd (List.cons.inj ht).1 (by decide)
      | least hn' =>
          obtain ⟨rfl, ht⟩ := hn.unique hn'
          exact ⟨rfl, (List.cons.inj (List.cons.inj ht).2).2⟩
      | between hn' hm' =>
          obtain ⟨_, ht⟩ := hn.unique hn'
          obtain ⟨x, xs, hx, hdigits, -⟩ := hm'
          rw [← (List.cons.inj ht).2] at hx
          exact absurd (hdigits x List.mem_cons_self) (by rw [← (List.cons.inj hx).1]; decide)
  | between hn hm =>
      cases h' with
      | none _ _ _ h4 => exact absurd rfl h4
      | exactly hn' =>
          obtain ⟨_, ht⟩ := hn.unique hn'
          exact absurd (List.cons.inj ht).1 (by decide)
      | least hn' =>
          obtain ⟨_, ht⟩ := hn.unique hn'
          obtain ⟨x, xs, hx, hdigits, -⟩ := hm
          rw [(List.cons.inj ht).2] at hx
          exact absurd (hdigits x List.mem_cons_self) (by rw [← (List.cons.inj hx).1]; decide)
      | between hn' hm' =>
          obtain ⟨rfl, ht⟩ := hn.unique hn'
          rw [← (List.cons.inj ht).2] at hm'
          obtain ⟨rfl, ht⟩ := hm.unique hm'
          exact ⟨rfl, (List.cons.inj ht).2⟩

mutual

/-- An element without its quantifier is told by the text. -/
theorem HeadReads.unique {k k₁ k₂ : Nat} {s t₁ t₂ : List UInt8} {e₁ e₂ : Regex} :
    HeadReads k s e₁ k₁ t₁ → HeadReads k s e₂ k₂ t₂ → e₁ = e₂ ∧ k₁ = k₂ ∧ t₁ = t₂
  | .group hs h, h' => by
      cases h' with
      | group _ h' =>
          obtain ⟨rfl, rfl, ht⟩ := h.unique h'
          exact ⟨rfl, rfl, (List.cons.inj ht).2⟩
      | uncaptured => exact absurd rfl hs
      | char h' => exact absurd rfl h'
  | .uncaptured h, h' => by
      cases h' with
      | group hs => exact absurd rfl hs
      | uncaptured h' =>
          obtain ⟨rfl, rfl, ht⟩ := h.unique h'
          exact ⟨rfl, rfl, (List.cons.inj ht).2⟩
      | char h' => exact absurd rfl h'
  | .negated _ h, h' => by
      cases h' with
      | negated _ h' =>
          obtain ⟨rfl, ht⟩ := h.unique h'
          exact ⟨rfl, rfl, (List.cons.inj ht).2⟩
      | «class» hs => exact absurd rfl hs
      | char _ h' => exact absurd rfl h'
  | .class hs _ h, h' => by
      cases h' with
      | negated => exact absurd rfl hs
      | «class» _ _ h' =>
          obtain ⟨rfl, ht⟩ := h.unique h'
          exact ⟨rfl, rfl, (List.cons.inj ht).2⟩
      | char _ h' => exact absurd rfl h'
  | .eol, h' => by
      cases h' with
      | eol => exact ⟨rfl, rfl, rfl⟩
      | char _ _ h' => exact absurd rfl h'
  | .dot, h' => by
      cases h' with
      | dot => exact ⟨rfl, rfl, rfl⟩
      | char _ _ _ h' => exact absurd rfl h'
  | .char h1 h2 h3 h4 h, h' => by
      cases h' with
      | group | uncaptured => exact absurd rfl h1
      | negated | «class» => exact absurd rfl h2
      | eol => exact absurd rfl h3
      | dot => exact absurd rfl h4
      | char _ _ _ _ h' =>
          obtain ⟨rfl, rfl⟩ := h.unique h'
          exact ⟨rfl, rfl, rfl⟩
termination_by structural h => h

/-- A sequence of elements is told by the text. -/
theorem ElementsRead.unique {k k₁ k₂ : Nat} {s t₁ t₂ : List UInt8} {r₁ r₂ : Regex} :
    ElementsRead k s r₁ k₁ t₁ → ElementsRead k s r₂ k₂ t₂ → r₁ = r₂ ∧ k₁ = k₂ ∧ t₁ = t₂
  | .last hhead hq hends, h' => by
      cases h' with
      | last hhead' hq' =>
          obtain ⟨rfl, rfl, rfl⟩ := hhead.unique hhead'
          obtain ⟨rfl, rfl⟩ := hq.unique hq'
          exact ⟨rfl, rfl, rfl⟩
      | cons hhead' hq' hends' =>
          obtain ⟨rfl, rfl, rfl⟩ := hhead.unique hhead'
          obtain ⟨rfl, rfl⟩ := hq.unique hq'
          exact absurd hends hends'
  | .cons hhead hq hends h, h' => by
      cases h' with
      | last hhead' hq' hends' =>
          obtain ⟨rfl, rfl, rfl⟩ := hhead.unique hhead'
          obtain ⟨rfl, rfl⟩ := hq.unique hq'
          exact absurd hends' hends
      | cons hhead' hq' _ h' =>
          obtain ⟨rfl, rfl, rfl⟩ := hhead.unique hhead'
          obtain ⟨rfl, rfl⟩ := hq.unique hq'
          obtain ⟨rfl, rfl, rfl⟩ := h.unique h'
          exact ⟨rfl, rfl, rfl⟩
termination_by structural h => h

/-- An alternative is told by the text. -/
theorem AlternativeReads.unique {k k₁ k₂ : Nat} {s t₁ t₂ : List UInt8} {r₁ r₂ : Regex} :
    AlternativeReads k s r₁ k₁ t₁ → AlternativeReads k s r₂ k₂ t₂ → r₁ = r₂ ∧ k₁ = k₂ ∧ t₁ = t₂
  | .bol h, h' => by
      cases h' with
      | bol h' =>
          obtain ⟨rfl, rfl, rfl⟩ := h.unique h'
          exact ⟨rfl, rfl, rfl⟩
      | elements hs => exact absurd rfl hs
  | .elements hs h, h' => by
      cases h' with
      | bol => exact absurd rfl hs
      | elements _ h' => exact h.unique h'
termination_by structural h => h

/-- **A pattern is read in one way.** -/
theorem ListReads.unique {k k₁ k₂ : Nat} {s t₁ t₂ : List UInt8} {r₁ r₂ : Regex} :
    ListReads k s r₁ k₁ t₁ → ListReads k s r₂ k₂ t₂ → r₁ = r₂ ∧ k₁ = k₂ ∧ t₁ = t₂
  | .last h hs, h' => by
      cases h' with
      | last h' => exact h.unique h'
      | or h' =>
          obtain ⟨_, _, rfl⟩ := h.unique h'
          exact absurd rfl hs
  | .or hleft hright, h' => by
      cases h' with
      | last h' hs =>
          obtain ⟨_, _, rfl⟩ := hleft.unique h'
          exact absurd rfl hs
      | or hleft' hright' =>
          obtain ⟨rfl, rfl, ht⟩ := hleft.unique hleft'
          obtain rfl := (List.cons.inj ht).2
          obtain ⟨rfl, rfl, rfl⟩ := hright.unique hright'
          exact ⟨rfl, rfl, rfl⟩
termination_by structural h => h

end

/-- A pattern is read in one way. -/
theorem PatternReads.unique {pattern : List UInt8} {r r' : Regex} (h : PatternReads pattern r)
    (h' : PatternReads pattern r') : r = r' := by
  obtain ⟨k, s, body, hlist, -, rfl⟩ := h
  obtain ⟨k', s', body', hlist', -, rfl⟩ := h'
  rw [(hlist.unique hlist').1]

end GameScript.Rex
