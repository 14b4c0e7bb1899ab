import GameScript.Gstd.RexClass

/-!
The functions of `gstdrex.cpp` that compile quantifiers, elements and lists of them.
-/

namespace GameScript.Rex

open Effect

/-! ### Quantifiers -/

section

variable {d : Nat} {q : Scan} {s : List UInt8} {exp exp₀ : Compiling} {place : Nat → Place}

/-- A number is read as far as the scan reads digits. -/
theorem numberLoop_reads
    (hstep : ∀ n c, isDigit c = true → Scan.step ⟨place n, d⟩ c = Scan.digit d place n)
    {fuel : Nat} : ∀ {s : List UInt8} {exp : Compiling} {ret n : Nat}, s.length < fuel →
      exp.p = some s → n ≤ 8 →
      Reads ⟨place n, d⟩ s exp (numberLoop fuel ret (10 ^ (n + 1))) fun m q' s' exp' =>
        (∃ m, q' = ⟨place m, d⟩) ∧ exp' = { exp with p := some s' } ∧
          isDigit (s'.headD 0) = false ∧ ∃ ds, s = ds ++ s' ∧ (∀ x ∈ ds, isDigit x = true) ∧
            m = ds.foldl (fun n x => n * 10 + (x.toNat - (SC '0').toNat)) ret := by
  induction fuel with
  | zero =>
      intro s exp ret n hfuel
      exact absurd hfuel (Nat.not_lt_zero _)
  | succ fuel ih =>
      intro s exp ret n hfuel hp hn
      unfold numberLoop
      refine reads_peek_bind hp ?_
      by_cases hdigit : isDigit (s.headD 0) = true
      · rw [if_pos hdigit]
        cases s with
        | nil => cases hdigit
        | cons c s =>
            have hstep' := hstep n c hdigit
            by_cases hmax : n = 8
            · subst hmax
              refine reads_advance_bind hstep' hp ?_
              rw [if_pos (by decide)]
              exact reads_error (not_cut_rejected s)
            · have hpos : 10 ^ (n + 1) ≠ 1000000000 := by
                have hlt : 10 ^ (n + 1) < 10 ^ 9 := Nat.pow_lt_pow_right (by decide) (by omega)
                exact Nat.ne_of_lt hlt
              refine reads_advance_bind (hstep'.trans (if_neg hmax)) hp ?_
              rw [if_neg hpos, ← Nat.pow_succ]
              refine Reads.mono (ih (Nat.lt_of_succ_lt_succ hfuel) rfl (by omega)) ?_
              rintro m q' s' exp' ⟨hq, rfl, hend, ds, rfl, hds, rfl⟩
              refine ⟨hq, rfl, hend, c :: ds, rfl, ?_, rfl⟩
              exact List.forall_mem_cons.mpr ⟨hdigit, hds⟩
      · rw [if_neg hdigit]
        refine reads_pure hp ⟨⟨n, rfl⟩, ?_, Bool.eq_false_iff.mpr hdigit, [], rfl, nofun, rfl⟩
        rw [← hp]

theorem NumberReads.length_lt {s s' : List UInt8} {n : Nat} (h : NumberReads s n s') :
    s'.length < s.length := by
  obtain ⟨x, ds, rfl, -⟩ := h
  simp only [List.length_cons, List.length_append]
  omega

/-- A number is read to its last digit. -/
theorem parsenumber_reads
    (hstep : ∀ n c, isDigit c = true → Scan.step ⟨place n, d⟩ c = Scan.digit d place n)
    {fuel : Nat} {c : UInt8} (hfuel : s.length < fuel) (hp : exp.p = some (c :: s))
    (hdigit : isDigit c = true) (hq : q.step c = ⟨place 0, d⟩) :
    Reads q (c :: s) exp (gstd_rex_parsenumber fuel) fun m q' s' exp' =>
      (∃ n, q' = ⟨place n, d⟩) ∧ exp' = { exp with p := some s' } ∧
        isDigit (s'.headD 0) = false ∧ NumberReads (c :: s) m s' := by
  unfold gstd_rex_parsenumber
  refine reads_peek_cons hp (reads_advance_bind hq hp ?_)
  refine Reads.mono (numberLoop_reads hstep (n := 0) hfuel rfl (Nat.zero_le 8)) ?_
  rintro m q' s' exp' ⟨hq', rfl, hend, ds, rfl, hds, rfl⟩
  refine ⟨hq', rfl, hend, c, ds, rfl, List.forall_mem_cons.mpr ⟨hdigit, hds⟩, hend, ?_⟩
  rw [List.foldl_cons, Nat.zero_mul, Nat.zero_add]

end

section

variable {d : Nat} {q : Scan} {s : List UInt8} {exp exp₀ : Compiling}

/-- An expected character is read, or the pattern is refused. -/
theorem reads_expect_bind {α : Type} {c : UInt8} {f : Unit → RexM α}
    {post : α → Scan → List UInt8 → Compiling → Prop} (hc : c ≠ 0) (hp : exp.p = some s)
    (hother : s.headD 0 ≠ c → ¬ Cut q s)
    (h : ∀ t, s = c :: t → Reads (q.step c) t { exp with p := some t } (f ()) post) :
    Reads q s exp (gstd_rex_expect c >>= f) post := by
  unfold Reads
  have hrun : gstd_rex_expect c exp = if s.headD 0 ≠ c then
      .error (.error (sc "expected paren")) exp else advance exp := by
    unfold gstd_rex_expect
    rw [bind_apply, peek_apply hp]
    by_cases hs : s.headD 0 = c
    · simp only [hs, ne_eq, not_true_eq_false, if_false]
    · simp only [ne_eq, hs, not_false_eq_true, if_true]
      rfl
  rw [bind_apply, hrun]
  by_cases hs : s.headD 0 = c
  · obtain ⟨t, rfl⟩ := eq_cons_of_headD hc hs
    rw [if_neg (not_not_intro hs), advance_apply hp]
    exact h t rfl
  · rw [if_pos hs]
    exact hother hs

/-- What a function that only reads does: it comes to where `f` goes on. -/
def ReadTo (f : UInt8 → Scan) (s : List UInt8) (exp : Compiling) (q' : Scan) (s' : List UInt8)
    (exp' : Compiling) : Prop :=
  exp' = { exp with p := some s' } ∧ s'.length ≤ s.length ∧ At q' s' f

theorem at_quantified (s : List UInt8) : At ⟨.quantified, d⟩ s (Scan.quantified d) :=
  ⟨rfl, fun _ _ _ => rfl⟩

/-- The place of a count rejects all but what goes on with it. -/
theorem not_cut_of_step (hq : q.readsOn = false)
    (h : ∀ c s', s = c :: s' → q.step c = ⟨.rejected, d⟩) : ¬ Cut q s := by
  have hat : At q s fun _ => ⟨.rejected, d⟩ := ⟨hq, h⟩
  cases s with
  | nil => exact hat.not_cut_nil
  | cons c s =>
      rw [hat.cut_cons]
      exact not_cut_rejected s

/-- What a maximum is read from, behind its comma. -/
def MaximumReads (s : List UInt8) (maximum : Option Nat) (s' : List UInt8) : Prop :=
  match maximum with
  | some m => NumberReads s m (SC '\x7d' :: s')
  | none => s = SC '\x7d' :: s'

/-- The upper bound of a count is a number or left open. -/
theorem maximum_reads {fuel : Nat} (hfuel : s.length < fuel) (hp : exp.p = some s) :
    Reads ⟨.comma, d⟩ s exp (maximum fuel) fun p q' s' exp' =>
      ReadTo (Scan.quantified d) s exp q' s' exp' ∧
        ∃ m, p = bound m ∧ MaximumReads s m s' := by
  unfold maximum
  refine reads_peek_bind hp ?_
  by_cases hdigit : isDigit (s.headD 0) = true
  · rw [if_pos hdigit]
    cases s with
    | nil => cases hdigit
    | cons c t =>
        have hq : Scan.step ⟨.comma, d⟩ c = ⟨.maximum 0, d⟩ := if_pos hdigit
        have hdigits : ∀ n c, isDigit c = true →
            Scan.step ⟨.maximum n, d⟩ c = Scan.digit d .maximum n := fun n c hc => if_pos hc
        refine (parsenumber_reads hdigits (Nat.lt_of_succ_lt hfuel) hp hdigit hq).bind ?_
        rintro m q' s' exp' hp' ⟨⟨n, rfl⟩, rfl, hend, hnumber⟩
        have hlt := hnumber.length_lt
        refine reads_expect_bind (by decide) rfl (fun hother => ?_) ?_
        · refine not_cut_of_step (d := d) rfl ?_
          rintro x u rfl
          have hx : isDigit x = false := hend
          simp only [Scan.step, hx, Bool.false_eq_true, if_false]
          exact if_neg hother
        · rintro u rfl
          refine reads_pure rfl ⟨⟨rfl, ?_, at_quantified u⟩, some m, rfl, hnumber⟩
          exact Nat.le_of_lt (Nat.lt_trans (Nat.lt_succ_self _) hlt)
  · rw [if_neg hdigit]
    refine reads_expect_bind (by decide) hp (fun hother => ?_) ?_
    · refine not_cut_of_step (d := d) rfl ?_
      rintro x u rfl
      exact (if_neg hdigit).trans (if_neg hother)
    · rintro u rfl
      exact reads_pure rfl ⟨⟨rfl, Nat.le_succ _, at_quantified u⟩, none, rfl, rfl⟩

/-- The fields of a repetition for the bounds that a quantifier has. -/
def boundsOf (q : Nat × Option Nat) : Nat × Nat := (q.1 % 0x10000, bound q.2)

/-- A count in braces gives its two bounds. -/
theorem countBounds_reads {fuel : Nat} (hfuel : s.length < fuel) (hp : exp.p = some s) :
    Reads ⟨.countOpen, d⟩ s exp (countBounds fuel) fun p q' s' exp' =>
      ReadTo (Scan.quantified d) s exp q' s' exp' ∧
        ∃ m, p = boundsOf m ∧ QuantifierReads (SC '\x7b' :: s) (some m) s' := by
  unfold countBounds
  refine reads_peek_bind hp ?_
  by_cases hdigit : isDigit (s.headD 0) = true
  · rw [if_neg (not_not_intro hdigit)]
    cases s with
    | nil => cases hdigit
    | cons c t =>
        have hq : Scan.step ⟨.countOpen, d⟩ c = ⟨.count 0, d⟩ := if_pos hdigit
        have hdigits : ∀ n c, isDigit c = true →
            Scan.step ⟨.count n, d⟩ c = Scan.digit d .count n := fun n c hc => if_pos hc
        refine (parsenumber_reads hdigits (Nat.lt_of_succ_lt hfuel) hp hdigit hq).bind ?_
        rintro m q' s' exp' hp' ⟨⟨n, rfl⟩, rfl, hend, hnumber⟩
        have hlt := hnumber.length_lt
        have hstep : ∀ x u, s' = x :: u → Scan.step ⟨.count n, d⟩ x =
            if x = SC '\x7d' then ⟨.quantified, d⟩ else if x = SC ',' then ⟨.comma, d⟩
            else ⟨.rejected, d⟩ := by
          rintro x u rfl
          have hx : isDigit x = false := hend
          simp only [Scan.step, hx, Bool.false_eq_true, if_false]
        refine reads_peek_bind rfl ?_
        by_cases hbrace : s'.headD 0 = SC '\x7d'
        · rw [if_pos hbrace]
          obtain ⟨u, rfl⟩ := eq_cons_of_headD (by decide) hbrace
          refine reads_advance_bind (hstep _ u rfl) rfl (reads_pure rfl
            ⟨⟨rfl, ?_, at_quantified u⟩, (m, some m), rfl, .exactly hnumber⟩)
          exact Nat.le_of_lt (Nat.lt_trans (Nat.lt_succ_self _) hlt)
        · rw [if_neg hbrace]
          by_cases hcomma : s'.headD 0 = SC ','
          · rw [if_pos hcomma]
            obtain ⟨u, rfl⟩ := eq_cons_of_headD (by decide) hcomma
            simp only [List.length_cons] at hlt hfuel
            refine reads_advance_bind (hstep _ u rfl) rfl ?_
            refine (maximum_reads (by omega) rfl).bind ?_
            rintro p q' s' exp' hp' ⟨⟨rfl, hle', hat'⟩, maximum, rfl, hmaximum⟩
            refine reads_pure rfl ⟨⟨rfl, ?_, hat'⟩, (m, maximum), rfl, ?_⟩
            · simp only [List.length_cons]
              omega
            · cases maximum with
              | some k => exact .between hnumber hmaximum
              | none =>
                  obtain rfl : u = SC '\x7d' :: s' := hmaximum
                  exact .least hnumber
          · rw [if_neg hcomma]
            refine reads_error ?_
            refine not_cut_of_step (d := d) rfl ?_
            rintro x u rfl
            rw [hstep x u rfl]
            exact (if_neg hbrace).trans (if_neg hcomma)
  · rw [if_pos hdigit]
    refine reads_error ?_
    refine not_cut_of_step (d := d) rfl ?_
    rintro x u rfl
    exact if_neg hdigit

/-- A quantifier gives its two bounds, anything else none. -/
theorem bounds_reads {fuel : Nat} (hfuel : s.length < fuel) (hp : exp.p = some s)
    (hat : At q s (Scan.atom d)) :
    Reads q s exp (bounds fuel) fun p q' s' exp' =>
      ReadTo (Scan.quantified d) s exp q' s' exp' ∧
        ∃ m, p = m.map boundsOf ∧ QuantifierReads s m s' := by
  unfold bounds
  refine reads_peek_bind hp ?_
  by_cases hstar : s.headD 0 = SC '*'
  · rw [if_pos hstar]
    obtain ⟨t, rfl⟩ := eq_cons_of_headD (by decide) hstar
    exact reads_advance_bind (hat.step _ t rfl) hp
      (reads_pure rfl ⟨⟨rfl, Nat.le_succ _, at_quantified t⟩, some (0, none), rfl, .star⟩)
  · rw [if_neg hstar]
    by_cases hplus : s.headD 0 = SC '+'
    · rw [if_pos hplus]
      obtain ⟨t, rfl⟩ := eq_cons_of_headD (by decide) hplus
      exact reads_advance_bind (hat.step _ t rfl) hp
        (reads_pure rfl ⟨⟨rfl, Nat.le_succ _, at_quantified t⟩, some (1, none), rfl, .plus⟩)
    · rw [if_neg hplus]
      by_cases hquestion : s.headD 0 = SC '?'
      · rw [if_pos hquestion]
        obtain ⟨t, rfl⟩ := eq_cons_of_headD (by decide) hquestion
        exact reads_advance_bind (hat.step _ t rfl) hp (reads_pure rfl
          ⟨⟨rfl, Nat.le_succ _, at_quantified t⟩, some (0, some 1), rfl, .question⟩)
      · rw [if_neg hquestion]
        by_cases hbrace : s.headD 0 = SC '\x7b'
        · rw [if_pos hbrace]
          obtain ⟨t, rfl⟩ := eq_cons_of_headD (by decide) hbrace
          refine reads_advance_bind (hat.step _ t rfl) hp ?_
          refine (countBounds_reads (Nat.lt_of_succ_lt hfuel) rfl).bind ?_
          rintro p q' s' exp' hp' ⟨⟨rfl, hle, hat'⟩, m, rfl, hquantifier⟩
          exact reads_pure rfl ⟨⟨rfl, Nat.le_succ_of_le hle, hat'⟩, some m, rfl, hquantifier⟩
        · rw [if_neg hbrace]
          refine reads_pure hp ⟨⟨?_, Nat.le_refl _, hat.readsOn, ?_⟩, none, rfl,
            .none hstar hplus hquestion hbrace⟩
          · rw [← hp]
          · rintro c t rfl
            rw [hat.step c t rfl]
            unfold Scan.atom
            rw [if_neg (by rintro (h | h | h) <;> contradiction), if_neg (show ¬ c = _ from hbrace)]

end

/-! ### Elements -/

/-- What a function that makes an element does. -/
def ElementMade (d : Nat) (s : List UInt8) (exp : Compiling) (i : Nat) (q' : Scan)
    (s' : List UInt8) (exp' : Compiling) : Prop :=
  s'.length < s.length ∧ Made exp i exp' ∧ At q' s' (Scan.atom d) ∧
    ∃ e, HeadReads exp.nsubexpr s e exp'.nsubexpr s' ∧ e.IsElement ∧
      Represents exp'.nodes exp.nodes.length exp'.nodes.length i e

/-- What a function that makes a list of elements does, which `reads` says the text is. -/
def ElementsMade (reads : Nat → List UInt8 → Regex → Nat → List UInt8 → Prop) (d : Nat)
    (s : List UInt8) (exp : Compiling) (i : Nat) (q' : Scan) (s' : List UInt8)
    (exp' : Compiling) : Prop :=
  s'.length ≤ s.length ∧ Made exp i exp' ∧ At q' s' (Scan.quantified d) ∧
    endsList (s'.headD 0) = true ∧
    ∃ r, reads exp.nsubexpr s r exp'.nsubexpr s' ∧ r ≠ .nil ∧
      Represents exp'.nodes exp.nodes.length exp'.nodes.length i r

def ListMade (d : Nat) (s : List UInt8) (exp : Compiling) (i : Nat) (q' : Scan)
    (s' : List UInt8) (exp' : Compiling) : Prop :=
  ElementsMade ListReads d s exp i q' s' exp' ∧ s'.headD 0 ≠ SC '|'

section

variable {d : Nat} {q : Scan} {s : List UInt8} {exp exp₀ exp₁ : Compiling} {n : Node}

/-- An element with its quantifier becomes a repetition. -/
theorem quantify_reads {fuel ret : Nat} {e : Regex} (hfuel : s.length < fuel)
    (hp : exp.p = some s) (hret : Made exp₀ ret exp) (hat : At q s (Scan.atom d))
    (he : e.IsElement) (hrep : Represents exp.nodes exp₀.nodes.length exp.nodes.length ret e) :
    Reads q s exp (quantify fuel ret) fun i q' s' exp' => s'.length ≤ s.length ∧
      Made exp₀ i exp' ∧ At q' s' (Scan.quantified d) ∧ exp'.nsubexpr = exp.nsubexpr ∧
      ∃ m, QuantifierReads s m s' ∧ (e.quantified m).IsElement ∧
        Represents exp'.nodes exp₀.nodes.length exp'.nodes.length i (e.quantified m) := by
  unfold quantify
  refine (bounds_reads hfuel hp hat).bind ?_
  rintro p q' s' exp' hp' ⟨⟨rfl, hle, hat'⟩, m, rfl, hquantifier⟩
  cases m with
  | none =>
      exact reads_pure rfl ⟨hle, ⟨hret.toGrown.text _ _, hret.le, hret.lt⟩, hat', rfl, none,
        hquantifier, he, hrep⟩
  | some m =>
      have hfits := hret.fits
      refine reads_newnode_bind rfl ⟨hfits.1, hfits.2⟩ fun exp₁ hp₁ hpushed hsub => ?_
      refine reads_assign_bind (by rw [hpushed.length]; exact Nat.lt_succ_self _) ?_
      have hpushed' := hpushed.assigned (f := fun n =>
        { n with left := ret, right := (m.1 % 0x10000 : Nat) * 0x10000 + bound m.2 })
      have hmade := (hpushed'.grown ⟨.inl rfl, ?_⟩).text
      · refine reads_pure hp₁ ⟨hle, ⟨hret.toGrown.trans hmade.toGrown, hret.length_le, hmade.lt⟩,
          hat', hsub, some m, hquantifier, rfl, ?_⟩
        exact .greedy rfl hmade.lt hpushed'.getElem? ⟨rfl, rfl⟩ he
          (hrep.grown hmade.toGrown) (.nil rfl (Nat.le_refl _))
      · refine isNode_of_lt ?_
        rw [length_assigned, hpushed.length]
        exact Nat.lt_succ_of_lt hret.lt

theorem quantified_eq_element {c : UInt8} (h : ¬ endsList c = true) :
    Scan.quantified d c = Scan.element d c := by
  have hends : ¬ (c = SC '|' ∨ c = SC ')' ∨ c = SC '*' ∨ c = SC '+' ∨ c = 0) :=
    fun hc => h (decide_eq_true hc)
  unfold Scan.quantified
  rw [if_neg (by tauto), if_neg (by tauto), if_neg (by tauto)]

/-- A list that ends in front of another character than a branch is followed by the end of a
group or of the pattern. -/
theorem not_cut_of_endsList (hat : At q s (Scan.quantified d)) (hends : endsList (s.headD 0) = true)
    (hbranch : s.headD 0 ≠ SC '|') (hparen : s.headD 0 ≠ SC ')' ∨ d = 0) : ¬ Cut q s := by
  refine not_cut_of_step (d := d) hat.readsOn ?_
  rintro c s' rfl
  rw [hat.step c s' rfl]
  rw [List.headD_cons] at hends hbranch hparen
  have hends : c = SC '|' ∨ c = SC ')' ∨ c = SC '*' ∨ c = SC '+' ∨ c = 0 :=
    of_decide_eq_true hends
  unfold Scan.quantified
  rw [if_neg hbranch]
  by_cases hclose : c = SC ')'
  · rw [if_pos hclose, if_pos (hparen.resolve_left (not_not_intro hclose))]
  · rw [if_neg hclose]
    by_cases hstar : c = SC '*' ∨ c = SC '+'
    · rw [if_pos hstar]
    · obtain rfl : c = 0 := by tauto
      rfl

/-- The list of a group, and its end. -/
theorem group_reads {list : RexM Nat} (capture : Option Nat) (hpushed : Pushed exp n exp₁)
    (hgroup : n.IsGroup capture) (hnext : n.next = -1)
    (hlist : Reads q s exp₁ list (ListMade (d + 1) s exp₁))
    (hvalid : ∀ newn exp', Made exp₁ newn exp' →
      ({ n with left := newn } : Node).Valid exp'.nodes.length exp'.nsubexpr) :
    Reads q s exp₁ (group exp.nodes.length list) fun i q' s' exp' =>
      s'.length ≤ s.length ∧ Made exp i exp' ∧ At q' s' (Scan.atom d) ∧
        ∃ r, ListReads exp₁.nsubexpr s r exp'.nsubexpr (SC ')' :: s') ∧
          Represents exp'.nodes exp.nodes.length exp'.nodes.length i (.group capture r .nil) := by
  unfold group
  refine hlist.bind ?_
  rintro newn q' s' exp' hp' ⟨⟨hle, hmade, hat, hends, r, hreads, hr, hrep⟩, hbranch⟩
  have hcomplete := hpushed.complete (f := fun n => { n with left := newn }) hmade.toGrown
    (hvalid newn exp' hmade)
  have hlt := hcomplete.lt
  rw [length_assigned] at hlt
  refine reads_assign_bind hlt (reads_expect_bind (by decide) hp' (fun hparen => ?_) ?_)
  · exact not_cut_of_endsList hat hends hbranch (.inl hparen)
  · rintro t rfl
    have hmade' : Made exp exp.nodes.length
        { exp'.assigned exp.nodes.length (fun n => { n with left := newn }) with p := some t } :=
      ⟨hcomplete.toGrown.text _ _, hcomplete.le, hcomplete.lt⟩
    have hstep : q'.step (SC ')') = ⟨.atom, d⟩ := hat.step _ t rfl
    have hget : exp'.nodes[exp.nodes.length]? = some n :=
      (hmade.old _ (by rw [hpushed.length]; exact Nat.lt_succ_self _)).trans hpushed.getElem?
    have hsame : ∀ j, exp₁.nodes.length ≤ j → j < exp'.nodes.length →
        (exp'.assigned exp.nodes.length fun n => { n with left := newn }).nodes[j]? =
          exp'.nodes[j]? := by
      intro j hj _
      rw [hpushed.length] at hj
      exact getElem?_assigned_ne (by omega)
    have hbody := hrep.congr hsame
    rw [hstep]
    refine reads_pure rfl ⟨Nat.le_of_succ_le hle, hmade', ⟨rfl, fun _ _ _ => rfl⟩, r, hreads, ?_⟩
    refine .group rfl (Nat.le_refl _) hmade'.lt (getElem?_assigned hget) ?_ hr ?_
      (.nil hnext (Nat.le_refl _))
    · cases capture <;> exact hgroup
    · rw [← hpushed.length]
      exact hbody.mono (Nat.le_refl _) (Nat.le_of_eq length_assigned.symm)

/-- A leaf is an element, with the quantifier behind it. -/
theorem element_leaf {type : NodeType} {c : UInt8} {a : Atom} (hfits : exp.Fits)
    (hleaf : type.IsLeaf) (hreads : ∀ k, HeadReads k (c :: s) (.atom a .nil) k s)
    (hatom : (newNode type exp.nsubexpr).IsCharacter a) :
    Reads ⟨.atom, d⟩ s { exp with p := some s } (gstd_rex_newnode type)
      (ElementMade d (c :: s) exp) := by
  refine Reads.mono (reads_leaf rfl ⟨hfits.1, hfits.2⟩ hleaf) ?_
  rintro i q' s' exp' ⟨rfl, rfl, hmade, hsub, hget⟩
  refine ⟨Nat.lt_succ_self _, hmade.text, ⟨rfl, fun _ _ _ => rfl⟩, .atom a .nil, ?_, rfl, ?_⟩
  · rw [hsub]
    exact hreads _
  · exact .atom rfl hmade.le hmade.lt hget (hatom _ _ _) (.nil rfl (Nat.le_refl _))

/-- An element is a group, a class, an escape or a character. -/
theorem elementHead_reads {fuel : Nat} {list : RexM Nat} (hfuel : s.length ≤ fuel)
    (hlist : ∀ {q : Scan} {t : List UInt8} {exp : Compiling}, t.length < s.length →
      exp.p = some t → exp.Fits → At q t (Scan.list (d + 1)) →
      Reads q t exp list (ListMade (d + 1) t exp))
    (hp : exp.p = some s) (hfits : exp.Fits) (hat : At q s (Scan.element d)) :
    Reads q s exp (elementHead fuel list) (ElementMade d s exp) := by
  unfold elementHead
  refine reads_peek_bind hp ?_
  by_cases hopen : s.headD 0 = SC '('
  · rw [if_pos hopen]
    obtain ⟨t, rfl⟩ := eq_cons_of_headD (by decide) hopen
    refine reads_advance_bind (hat.step _ t rfl) hp (reads_peek_bind rfl ?_)
    by_cases hquestion : t.headD 0 = SC '?'
    · rw [if_pos hquestion]
      obtain ⟨u, rfl⟩ := eq_cons_of_headD (by decide) hquestion
      refine reads_advance_bind rfl rfl (reads_expect_bind (by decide) rfl (fun hcolon => ?_) ?_)
      · refine not_cut_of_step (d := d + 1) rfl ?_
        rintro c v rfl
        exact if_neg hcolon
      · rintro v rfl
        refine reads_newnode_bind rfl ⟨hfits.1, hfits.2⟩ fun exp₁ hp₁ hpushed hsub => ?_
        have hat₁ : At ⟨.list, d + 1⟩ v (Scan.list (d + 1)) := ⟨rfl, fun _ _ _ => rfl⟩
        have hlt : v.length < (SC '(' :: SC '?' :: SC ':' :: v).length := by
          simp only [List.length_cons]
          omega
        have hsub' : exp₁.nsubexpr = exp.nsubexpr := hsub
        refine Reads.mono (group_reads none hpushed rfl rfl
          (hlist hlt hp₁ hpushed.fits hat₁) ?_) ?_
        · exact fun newn exp' hmade => ⟨.inl rfl, isNode_of_lt hmade.lt⟩
        · rintro i q' s' exp' ⟨hle, hmade, hat', r, hreads, hrep⟩
          rw [hsub'] at hreads
          exact ⟨Nat.lt_of_le_of_lt hle hlt, hmade.text.text.text, hat', _, .uncaptured hreads, rfl,
            hrep⟩
    · rw [if_neg hquestion]
      refine reads_newnode_bind rfl ⟨hfits.1, hfits.2⟩ fun exp₁ hp₁ hpushed hsub => ?_
      have hat₁ : At ⟨.opened, d + 1⟩ t (Scan.list (d + 1)) := by
        refine ⟨rfl, ?_⟩
        rintro c u rfl
        exact if_neg hquestion
      have hlt : t.length < (SC '(' :: t).length := Nat.lt_succ_self _
      have hsub' : exp₁.nsubexpr = exp.nsubexpr + 1 := hsub
      refine Reads.mono (group_reads (some exp.nsubexpr) hpushed ⟨rfl, rfl⟩ rfl
        (hlist hlt hp₁ hpushed.fits hat₁) ?_) ?_
      · refine fun newn exp' hmade => ⟨.inl rfl, isNode_of_lt hmade.lt, ?_⟩
        have hle := hmade.nsubexpr_le
        exact isNode_of_lt (show exp.nsubexpr < exp'.nsubexpr by omega)
      · rintro i q' s' exp' ⟨hle, hmade, hat', r, hreads, hrep⟩
        rw [hsub'] at hreads
        exact ⟨Nat.lt_of_le_of_lt hle hlt, hmade.text, hat', _, .group hquestion hreads, rfl, hrep⟩
  · rw [if_neg hopen]
    by_cases hclass : s.headD 0 = SC '['
    · rw [if_pos hclass]
      obtain ⟨t, rfl⟩ := eq_cons_of_headD (by decide) hclass
      refine reads_advance_bind (hat.step _ t rfl) hp ?_
      refine Reads.bind (class_reads hfuel rfl ⟨hfits.1, hfits.2⟩) ?_
      rintro i q' s' exp' hp' ⟨hmade, hle, hstep, hsub, e, u, rfl, hreads, he, hrep⟩
      refine reads_expect_bind (by decide) hp' (fun hne => absurd rfl hne) ?_
      rintro u' ⟨⟩
      rw [hstep]
      refine reads_pure rfl ⟨Nat.lt_succ_of_lt hle, ?_, ⟨rfl, fun _ _ _ => rfl⟩, e, ?_, he, hrep⟩
      · exact ⟨hmade.text.toGrown.text _ _, hmade.le, hmade.lt⟩
      · show HeadReads exp.nsubexpr _ e exp'.nsubexpr u
        rw [hsub]
        exact hreads
    · rw [if_neg hclass]
      by_cases heol : s.headD 0 = SC '$'
      · rw [if_pos heol]
        obtain ⟨t, rfl⟩ := eq_cons_of_headD (by decide) heol
        exact reads_advance_bind (hat.step _ t rfl) hp
          (element_leaf hfits trivial (fun _ => .eol) fun _ _ _ => rfl)
      · rw [if_neg heol]
        by_cases hdot : s.headD 0 = SC '.'
        · rw [if_pos hdot]
          obtain ⟨t, rfl⟩ := eq_cons_of_headD (by decide) hdot
          exact reads_advance_bind (hat.step _ t rfl) hp
            (element_leaf hfits trivial (fun _ => .dot) fun _ _ _ => rfl)
        · rw [if_neg hdot]
          have hat' : At q s fun c => Scan.char d c false := by
            refine ⟨hat.readsOn, ?_⟩
            rintro c t rfl
            rw [hat.step c t rfl]
            refine (if_neg hopen).trans ((if_neg hclass).trans (if_neg ?_))
            rintro (h | h)
            · exact heol h
            · exact hdot h
          refine Reads.mono (charnode_reads hat' hp hfits) ?_
          rintro i q' s' exp' ⟨hlt, hmade, hsub, n, a, hget, hnext, hchar, hreads, rfl⟩
          refine ⟨hlt, hmade, ⟨rfl, fun _ _ _ => rfl⟩, .atom a .nil, ?_, rfl, ?_⟩
          · rw [hsub]
            exact .char hopen hclass heol hdot hreads
          · exact .atom rfl hmade.le hmade.lt hget (hchar _ _ _) (.nil hnext (Nat.le_refl _))

/-- The elements of an alternative, behind a `^` where there is one. -/
theorem listHead_reads {element : RexM Nat}
    (helement : ∀ {q : Scan} {t : List UInt8} {exp : Compiling}, t.length ≤ s.length →
      exp.p = some t → exp.Fits → At q t (Scan.element d) →
      Reads q t exp element (ElementsMade ElementsRead d t exp))
    (hp : exp.p = some s) (hfits : exp.Fits) (hat : At q s (Scan.list d)) :
    Reads q s exp (listHead element) (ElementsMade AlternativeReads d s exp) := by
  unfold listHead
  refine reads_peek_bind hp ?_
  by_cases hbol : s.headD 0 = SC '^'
  · rw [if_pos hbol]
    obtain ⟨t, rfl⟩ := eq_cons_of_headD (by decide) hbol
    refine reads_advance_bind (hat.step _ t rfl) hp ?_
    refine reads_newnode_bind rfl ⟨hfits.1, hfits.2⟩ fun exp₁ hp₁ hpushed hsub => ?_
    have hat₁ : At ⟨.element, d⟩ t (Scan.element d) := ⟨rfl, fun _ _ _ => rfl⟩
    have hsub' : exp₁.nsubexpr = exp.nsubexpr := hsub
    refine (helement (Nat.le_succ _) hp₁ hpushed.fits hat₁).bind ?_
    rintro e q' s' exp' hp' ⟨hle, hmade, hat', hends, r, hreads, hr, hrep⟩
    have hcomplete := hpushed.complete (f := fun n => { n with next := e }) hmade.toGrown
      ⟨.inr (isNode_of_lt hmade.lt), trivial⟩
    have hlt := hcomplete.lt
    rw [length_assigned] at hlt
    rw [hsub'] at hreads
    have hbol : Represents exp'.nodes exp.nodes.length exp₁.nodes.length exp.nodes.length
        (.atom .bol .nil) := by
      refine Represents.grown ?_ hmade.toGrown
      refine .atom rfl (Nat.le_refl _) ?_ hpushed.getElem? rfl (.nil rfl (Nat.le_refl _))
      rw [hpushed.length]
      exact Nat.lt_succ_self _
    refine reads_assign_bind hlt (reads_pure hp' ?_)
    refine ⟨Nat.le_succ_of_le hle, hcomplete.text, hat', hends, .atom .bol r, .bol hreads, nofun, ?_⟩
    exact (Represents.link (e := .atom .bol .nil) rfl hbol hrep).mono (Nat.le_refl _)
      (Nat.le_of_eq length_assigned.symm)
  · rw [if_neg hbol]
    refine Reads.mono (helement (Nat.le_refl _) hp hfits ⟨hat.readsOn, ?_⟩) ?_
    · rintro c t rfl
      rw [hat.step c t rfl]
      exact if_neg hbol
    · rintro i q' s' exp' ⟨hle, hmade, hat', hends, r, hreads, hr, hrep⟩
      exact ⟨hle, hmade, hat', hends, r, .elements hbol hreads, hr, hrep⟩

end

/-- What the two functions that call each other do, with enough fuel. -/
theorem elements_reads (fuel : Nat) :
    (∀ {d : Nat} {q : Scan} {s : List UInt8} {exp : Compiling}, 2 * s.length + 1 ≤ fuel →
      exp.p = some s → exp.Fits → At q s (Scan.element d) →
      Reads q s exp (gstd_rex_element fuel) (ElementsMade ElementsRead d s exp)) ∧
    ∀ {d : Nat} {q : Scan} {s : List UInt8} {exp : Compiling}, 2 * s.length + 2 ≤ fuel →
      exp.p = some s → exp.Fits → At q s (Scan.list d) →
      Reads q s exp (gstd_rex_list fuel) (ListMade d s exp) := by
  induction fuel with
  | zero => exact ⟨fun hfuel => by omega, fun hfuel => by omega⟩
  | succ fuel ih =>
      obtain ⟨ihelement, ihlist⟩ := ih
      constructor
      · intro d q s exp hfuel hp hfits hat
        unfold gstd_rex_element
        refine (elementHead_reads (by omega) (fun hlt => ihlist (by omega)) hp hfits hat).bind ?_
        rintro ret q₁ s₁ exp₁ hp₁ ⟨hlt₁, hmade₁, hat₁, e, hhead, he, hrep₁⟩
        refine (quantify_reads (by omega) hp₁ hmade₁ hat₁ he hrep₁).bind ?_
        rintro ret q₂ s₂ exp₂ hp₂ ⟨hle₂, hmade₂, hat₂, hsub₂, m, hquantifier, he₂, hrep₂⟩
        rw [← hsub₂] at hhead
        refine reads_peek_bind hp₂ ?_
        by_cases hends : endsList (s₂.headD 0) = true
        · rw [if_neg (not_not_intro hends)]
          exact reads_pure hp₂ ⟨by omega, hmade₂, hat₂, hends, _, .last hhead hquantifier hends,
            he₂.ne_nil, hrep₂⟩
        · rw [if_pos hends]
          have hat₂' : At q₂ s₂ (Scan.element d) := by
            refine ⟨hat₂.readsOn, ?_⟩
            rintro c t rfl
            rw [hat₂.step c t rfl]
            exact quantified_eq_element hends
          refine (ihelement (by omega) hp₂ hmade₂.fits hat₂').bind ?_
          rintro nnode q₃ s₃ exp₃ hp₃ ⟨hle₃, hmade₃, hat₃, hends₃, rest, hrest, -, hrep₃⟩
          have hgrown := hmade₂.toGrown.trans hmade₃.toGrown
          have hlt := Nat.lt_of_lt_of_le hmade₂.lt hmade₃.length_le
          have hlink := Represents.link he₂ (hrep₂.grown hmade₃.toGrown) hrep₃
          refine reads_assign_bind hlt (reads_pure hp₃ ⟨by omega, ⟨?_, hmade₂.le, ?_⟩, hat₃, hends₃,
            _, .cons hhead hquantifier hends hrest, he₂.followedBy_ne_nil _, ?_⟩)
          · refine hgrown.assigned hmade₂.le fun n hn => ?_
            exact (hgrown.valid _ n hmade₂.le hn).link hmade₃.lt
          · rw [length_assigned]
            exact hlt
          · exact hlink.mono (Nat.le_refl _) (Nat.le_of_eq length_assigned.symm)
      · intro d q s exp hfuel hp hfits hat
        unfold gstd_rex_list
        refine (listHead_reads (fun hle => ihelement (by omega)) hp hfits hat).bind ?_
        rintro ret q₁ s₁ exp₁ hp₁ ⟨hle₁, hmade₁, hat₁, hends₁, left, hleft, hne₁, hrep₁⟩
        refine reads_peek_bind hp₁ ?_
        by_cases hbranch : s₁.headD 0 = SC '|'
        · rw [if_pos hbranch]
          obtain ⟨t, rfl⟩ := eq_cons_of_headD (by decide) hbranch
          rw [List.length_cons] at hle₁
          have hfits₁ := hmade₁.fits
          refine reads_advance_bind (hat₁.step _ t rfl) hp₁ ?_
          refine reads_newnode_bind rfl ⟨hfits₁.1, hfits₁.2⟩ fun exp₂ hp₂ hpushed hsub => ?_
          refine reads_assign_bind (by rw [hpushed.length]; exact Nat.lt_succ_self _) ?_
          have hpushed' := hpushed.assigned (f := fun n => { n with left := ret })
          have hsub' : exp₂.nsubexpr = exp₁.nsubexpr := hsub
          have hat₂ : At ⟨.list, d⟩ t (Scan.list d) := ⟨rfl, fun _ _ _ => rfl⟩
          refine Reads.bind (ihlist (by omega) hp₂ hpushed'.fits hat₂) ?_
          rintro tright q₃ s₃ exp₃ hp₃ ⟨⟨hle₃, hmade₃, hat₃, hends₃, right, hright, hne₃, hrep₃⟩,
            hbranch₃⟩
          have hlen : exp₂.nodes.length = exp₁.nodes.length + 1 := hpushed.length
          have hold : ∀ j < exp₁.nodes.length + 1, exp₃.nodes[j]? =
              (exp₂.assigned exp₁.nodes.length fun n => { n with left := ret }).nodes[j]? := by
            intro j hj
            refine hmade₃.old j (Nat.lt_of_lt_of_le hj (Nat.le_of_eq ?_))
            exact (length_assigned.trans hlen).symm
          have hret : ret < exp₃.nodes.length := by
            have hlt := hmade₁.lt
            have hle := Nat.le_trans (Nat.le_of_eq length_assigned.symm) hmade₃.length_le
            omega
          have hget : exp₃.nodes[exp₁.nodes.length]? = _ :=
            (hold _ (Nat.lt_succ_self _)).trans hpushed'.getElem?
          have hcomplete := (hpushed'.complete (f := fun n => { n with right := tright })
            hmade₃.toGrown ⟨.inl rfl, isNode_of_lt hret, isNode_of_lt hmade₃.lt⟩).text
          have hlt := hcomplete.lt
          rw [length_assigned] at hlt
          have hright' : ListReads exp₁.nsubexpr t right exp₃.nsubexpr s₃ := by
            rw [← hsub']
            exact hright
          have hor : Represents
              (exp₃.assigned exp₁.nodes.length fun n => { n with right := tright }).nodes
              exp.nodes.length exp₃.nodes.length exp₁.nodes.length (.or left right) := by
            refine .or rfl (getElem?_assigned hget) rfl rfl hne₁ hne₃ ?_ ?_
            · refine hrep₁.congr fun j _ hj => ?_
              rw [getElem?_assigned_ne (by omega), hold j (by omega),
                getElem?_assigned_ne (by omega), hpushed.nodes]
              exact List.getElem?_append_left hj
            · have hrep₃' := hrep₃.mono (show exp₁.nodes.length + 1 ≤ _ from
                Nat.le_of_eq (length_assigned.trans hlen).symm) (Nat.le_refl _)
              exact hrep₃'.congr fun j hj _ => getElem?_assigned_ne (by omega)
          refine reads_assign_bind hlt (reads_pure hp₃ ⟨⟨by omega, ?_, hat₃, hends₃, .or left right,
            .or hleft hright', nofun, ?_⟩, hbranch₃⟩)
          · exact ⟨hmade₁.toGrown.trans hcomplete.toGrown, hmade₁.length_le, hcomplete.lt⟩
          · exact hor.mono (Nat.le_refl _) (Nat.le_of_eq length_assigned.symm)
        · rw [if_neg hbranch]
          exact reads_pure hp₁ ⟨⟨hle₁, hmade₁, hat₁, hends₁, left, .last hleft hbranch, hne₁, hrep₁⟩,
            hbranch⟩

/-! ### Patterns -/

/-- A whole pattern: a group with the first number. -/
theorem compileText_reads {s : List UInt8} {exp : Compiling} (hp : exp.p = some s)
    (hfits : exp.Fits) : Reads ⟨.list, 0⟩ s exp (compileText s) fun i q' s' exp' =>
      Made exp i exp' ∧ ¬ Cut q' s' ∧ i = exp.nodes.length ∧
        ∃ r, ListReads (exp.nsubexpr + 1) s r exp'.nsubexpr s' ∧ s'.headD 0 = 0 ∧
          Represents exp'.nodes exp.nodes.length exp'.nodes.length i
            (.group (some exp.nsubexpr) r .nil) := by
  unfold compileText
  refine reads_newnode_bind hp hfits fun exp₁ hp₁ hpushed hsub => ?_
  have hat : At ⟨.list, 0⟩ s (Scan.list 0) := ⟨rfl, fun _ _ _ => rfl⟩
  refine ((elements_reads _).2 (Nat.le_refl _) hp₁ hpushed.fits hat).bind ?_
  rintro res q' s' exp' hp' ⟨⟨hle, hmade, hat', hends, r, hreads, hr, hrep⟩, hbranch⟩
  have hnot : ¬ Cut q' s' := not_cut_of_endsList hat' hends hbranch (.inr rfl)
  have hsub' : exp₁.nsubexpr = exp.nsubexpr + 1 := hsub
  have hle' := hmade.nsubexpr_le
  have hcomplete := hpushed.complete (f := fun n => { n with left := res }) hmade.toGrown
    ⟨.inl rfl, isNode_of_lt hmade.lt, isNode_of_lt (show exp.nsubexpr < exp'.nsubexpr by omega)⟩
  have hlt := hcomplete.lt
  rw [length_assigned] at hlt
  have hget : exp'.nodes[exp.nodes.length]? = some (newNode .OP_EXPR exp.nsubexpr) :=
    (hmade.old _ (by rw [hpushed.length]; exact Nat.lt_succ_self _)).trans hpushed.getElem?
  have hsame : ∀ j, exp₁.nodes.length ≤ j → j < exp'.nodes.length →
      (exp'.assigned exp.nodes.length fun n => { n with left := res }).nodes[j]? =
        exp'.nodes[j]? := by
    intro j hj _
    rw [hpushed.length] at hj
    exact getElem?_assigned_ne (by omega)
  have hbody := hrep.congr hsame
  refine reads_assign_bind hlt (reads_peek_bind hp' ?_)
  by_cases hend : s'.headD 0 = 0
  · rw [if_neg (not_not_intro hend)]
    refine reads_pure hp' ⟨hcomplete, hnot, rfl, r, hsub' ▸ hreads, hend, ?_⟩
    refine .group rfl (Nat.le_refl _) hcomplete.lt (getElem?_assigned hget) ⟨rfl, rfl⟩ hr ?_
      (.nil rfl (Nat.le_refl _))
    rw [← hpushed.length]
    exact hbody.mono (Nat.le_refl _) (Nat.le_of_eq length_assigned.symm)
  · rw [if_pos hend]
    exact reads_error hnot

/-- The links of a compiled expression are valid. -/
structure GSRex.Valid (rex : GSRex) : Prop where
  first_lt : rex.first < rex.nodes.length
  nodes : ∀ n ∈ rex.nodes, n.Valid rex.nodes.length rex.nsubexpr

/-- `rex` is what a pattern that is read as `r` is compiled to. -/
structure Compiled (pattern : List UInt8) (r : Regex) (rex : GSRex) : Prop where
  reads : PatternReads pattern r
  valid : rex.Valid
  first_eq : rex.first = 0
  represents : Represents rex.nodes 0 rex.nodes.length 0 r
  matches_eq : rex.matches = List.replicate rex.nsubexpr ⟨none, 0⟩

theorem Compiled.length_matches {pattern : List UInt8} {r : Regex} {rex : GSRex}
    (h : Compiled pattern r rex) : rex.matches.length = rex.nsubexpr := by
  rw [h.matches_eq]
  exact List.length_replicate

/-- **What is compiled represents the pattern.** -/
theorem compiled_of_compile {pattern : List UInt8} {rex : GSRex}
    (h : gstd_rex_compile pattern = .ok rex) : ∃ r, Compiled pattern r rex := by
  unfold gstd_rex_compile at h
  cases htext : zeroTerminated pattern with
  | nil =>
      rw [htext] at h
      cases h
  | cons c s =>
      rw [htext] at h
      have hp : (Compiling.start (c :: s)).p = some (c :: s) := rfl
      have hreads := compileText_reads hp ⟨Nat.succ_pos _, Nat.zero_le _⟩
      unfold Reads at hreads
      cases hrun : compileText (c :: s) (.start (c :: s)) with
      | error halt exp' =>
          rw [hrun] at h
          cases h
      | ok first exp' =>
          rw [hrun] at h hreads
          cases h
          obtain ⟨q', s', -, -, hmade, -, rfl, r, hlist, hend, hrep⟩ := hreads
          have hpattern : PatternReads pattern (.group (some 0) r .nil) :=
            ⟨exp'.nsubexpr, s', r, htext ▸ hlist, hend, rfl⟩
          refine ⟨_, hpattern, ⟨hmade.lt, fun n hn => ?_⟩, rfl, hrep, rfl⟩
          obtain ⟨j, hj, rfl⟩ := List.mem_iff_getElem.mp hn
          exact hmade.valid j _ (Nat.zero_le j) (List.getElem?_eq_getElem hj)

end GameScript.Rex
