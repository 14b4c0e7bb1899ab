import GameScript.Gstd.RexGraph

/-!
What a run of the matcher of `gstdrex.cpp` keeps, and what the nodes match that match no
other node.

Positions in the range of a search count from its begin: the range is the text `w` between
`front` and `back`.
-/

namespace GameScript.Rex

open Effect

/-! ### Runs -/

/-- The text from `bol` to `eol` is `w`. -/
structure Matching.Ranges (exp : Matching) (front w back : List UInt8) : Prop where
  chars : exp.text.chars = front ++ w ++ back
  bol : exp.bol = front.length
  eol : exp.eol = front.length + w.length
  /-- An empty range is in front of no space. -/
  blank : w = [] → isSpace (back.headD 0) = false

/-- The range ends in a space where the string ends. A word boundary is looked for there behind
the terminator. -/
def Risky (w back : List UInt8) : Prop := back = [] ∧ ∃ c, w.getLast? = some c ∧ isSpace c = true

/-- The text, the range and the number of captures are the same. -/
structure Same (exp exp' : Matching) : Prop where
  text : exp'.text = exp.text
  bol : exp'.bol = exp.bol
  eol : exp'.eol = exp.eol
  length_matches : exp'.matches.length = exp.matches.length

/-- From the number `k` on, a capture that is not empty is a part of the text. -/
def Matching.Inside (exp : Matching) (k : Int) : Prop :=
  ∀ (j : Nat) (m : Match), k ≤ j → exp.matches[j]? = some m → 0 < m.len →
    ∃ i, m.begin = some (exp.text.ref, i) ∧ 0 ≤ i ∧ i + m.len ≤ exp.text.chars.length

/-- What matching keeps: the text, and the captures below the counter, which does not fall. Those
from the counter on stay in the text. -/
structure Kept (exp exp' : Matching) : Prop extends Same exp exp' where
  currsubexp_le : exp.currsubexp ≤ exp'.currsubexp
  matches_eq : ∀ j : Nat, (j : Int) < exp.currsubexp → exp'.matches[j]? = exp.matches[j]?
  inside : exp.Inside exp.currsubexp → exp'.Inside exp.currsubexp

/-- `m` ends as in `post`, with what `base` has to keep. It leaves the text only where that is
`risky`. -/
def Runs {α : Type} (risky : Prop) (base exp : Matching) (m : MatchM α)
    (post : α → Matching → Prop) : Prop :=
  match m exp with
  | .ok a exp' => Kept base exp' ∧ post a exp'
  | .error .undefined _ => risky
  | .error _ _ => False

theorem Same.refl (exp : Matching) : Same exp exp := ⟨rfl, rfl, rfl, rfl⟩

theorem Same.trans {exp exp₁ exp₂ : Matching} (h : Same exp exp₁) (h' : Same exp₁ exp₂) :
    Same exp exp₂ :=
  ⟨h'.text.trans h.text, h'.bol.trans h.bol, h'.eol.trans h.eol,
    h'.length_matches.trans h.length_matches⟩

theorem Same.ranges {exp exp' : Matching} {front w back : List UInt8} (h : Same exp exp')
    (hranges : exp.Ranges front w back) : exp'.Ranges front w back := by
  refine ⟨?_, h.bol.trans hranges.bol, h.eol.trans hranges.eol, hranges.blank⟩
  rw [h.text]
  exact hranges.chars

theorem Kept.refl (exp : Matching) : Kept exp exp :=
  ⟨.refl exp, Int.le_refl _, fun _ _ => rfl, fun h => h⟩

theorem Kept.trans {exp exp₁ exp₂ : Matching} (h : Kept exp exp₁) (h' : Kept exp₁ exp₂) :
    Kept exp exp₂ := by
  refine ⟨h.toSame.trans h'.toSame, Int.le_trans h.currsubexp_le h'.currsubexp_le,
    fun j hj => ?_, fun hinside j m hj hm hlen => ?_⟩
  · exact (h'.matches_eq j (Int.lt_of_lt_of_le hj h.currsubexp_le)).trans (h.matches_eq j hj)
  · have hinside₁ := h.inside hinside
    by_cases hlt : (j : Int) < exp₁.currsubexp
    · rw [h'.matches_eq j hlt] at hm
      rw [h'.text]
      exact hinside₁ j m hj hm hlen
    · exact h'.inside (fun j' m' hj' => hinside₁ j' m' (Int.le_trans h.currsubexp_le hj')) j m
        (Int.not_lt.mp hlt) hm hlen

section

variable {α β : Type} {risky : Prop} {base base' exp : Matching} {post : α → Matching → Prop}

/-- A run goes on from where the first computation has come to. -/
theorem Runs.bind {m : MatchM α} {f : α → MatchM β} {post' : β → Matching → Prop}
    (hm : Runs risky base' exp m post)
    (hf : ∀ a exp', Kept base' exp' → post a exp' → Runs risky base exp' (f a) post') :
    Runs risky base exp (m >>= f) post' := by
  unfold Runs at hm ⊢
  rw [bind_apply]
  cases hrun : m exp with
  | ok a exp₁ =>
      rw [hrun] at hm
      exact hf a exp₁ hm.1 hm.2
  | error e exp₁ =>
      rw [hrun] at hm
      cases e <;> exact hm

theorem Runs.mono {m : MatchM α} {post' : α → Matching → Prop} (hm : Runs risky base' exp m post)
    (h : ∀ a exp', Kept base' exp' → post a exp' → Kept base exp' ∧ post' a exp') :
    Runs risky base exp m post' := by
  unfold Runs at hm ⊢
  cases hrun : m exp with
  | ok a exp₁ =>
      rw [hrun] at hm
      exact h a exp₁ hm.1 hm.2
  | error e exp₁ =>
      rw [hrun] at hm
      cases e <;> exact hm

/-- What is kept from here on is kept from `base` on. -/
theorem Runs.widen {m : MatchM α} (hm : Runs risky exp exp m post) (hkept : Kept base exp) :
    Runs risky base exp m post :=
  hm.mono fun _ _ hkept' hpost => ⟨hkept.trans hkept', hpost⟩

theorem runs_of_ok {m : MatchM α} {a : α} {exp' : Matching} (hm : m exp = .ok a exp')
    (hkept : Kept base exp') (h : post a exp') : Runs risky base exp m post := by
  unfold Runs
  rw [hm]
  exact ⟨hkept, h⟩

theorem runs_pure {a : α} (hkept : Kept base exp) (h : post a exp) :
    Runs risky base exp (pure a) post := ⟨hkept, h⟩

theorem runs_get_bind {f : Matching → MatchM α} (h : Runs risky base exp (f exp) post) :
    Runs risky base exp (get >>= f) post := h

theorem runs_bind_of_ok {m : MatchM β} {b : β} {exp' : Matching} {f : β → MatchM α}
    (hm : m exp = .ok b exp') (h : Runs risky base exp' (f b) post) :
    Runs risky base exp (m >>= f) post := by
  unfold Runs at h ⊢
  rw [bind_apply, hm]
  exact h

end

/-! ### Nodes and characters -/

section

variable {nodes : List Node} {exp : Matching} {front w back : List UInt8}

theorem nodeAt_apply {i : Nat} {n : Node} (h : nodes[i]? = some n) (exp : Matching) :
    nodeAt nodes i exp = .ok n exp := by
  unfold nodeAt
  rw [if_pos (Int.natCast_nonneg i), Int.toNat_natCast, h]
  rfl

/-- The character at a position of the range, or the one behind it. -/
def charOf (w back : List UInt8) (i : Nat) : UInt8 := (w ++ back).getD i 0

theorem charOf_of_lt {i : Nat} {c : UInt8} (h : w[i]? = some c) : charOf w back i = c := by
  have hlt := (List.getElem?_eq_some_iff.mp h).1
  unfold charOf
  rw [List.getD_eq_getElem?_getD, List.getElem?_append_left hlt, h]
  rfl

/-- A position of the text, or behind it, gives its character. -/
theorem charAt_apply (h : exp.Ranges front w back) {i : Nat} (hi : i ≤ w.length + back.length) :
    charAt (front.length + i : Nat) exp = .ok (charOf w back i) exp := by
  have hget : exp.text.get? (front.length + i : Nat) = some (charOf w back i) := by
    unfold Text.get? charOf
    rw [h.chars, if_pos ?_, Int.toNat_natCast, List.append_assoc, List.getD_eq_getElem?_getD,
      List.getElem?_append_right (Nat.le_add_right _ _), Nat.add_sub_cancel_left,
      List.getD_eq_getElem?_getD]
    refine ⟨Int.natCast_nonneg _, Int.ofNat_le.mpr ?_⟩
    simp only [List.length_append]
    omega
  unfold charAt
  rw [get_bind_apply, hget]
  rfl

/-- A node that matches a character at a position of the range. -/
theorem matchchar_apply (h : exp.Ranges front w back) {p : UInt8 → MatchM Bool}
    {q : UInt8 → Bool} (hp : ∀ c, p c exp = .ok (q c) exp) {i : Nat} (hi : i ≤ w.length) :
    ∃ o, matchchar p (front.length + i : Nat) exp = .ok o exp ∧
      ∀ cur, o = some cur ↔
        ∃ j : Nat, cur = (front.length + j : Nat) ∧ ∃ c, w[i]? = some c ∧ q c = true ∧ j = i + 1 := by
  unfold matchchar
  rw [get_bind_apply, h.eol]
  by_cases hend : i = w.length
  · subst hend
    rw [if_pos (by push_cast; rfl)]
    refine ⟨none, rfl, fun cur => ⟨nofun, ?_⟩⟩
    rintro ⟨j, -, c, hc, -⟩
    rw [List.getElem?_eq_none (Nat.le_refl _)] at hc
    cases hc
  · have hlt : i < w.length := Nat.lt_of_le_of_ne hi hend
    have hget := List.getElem?_eq_getElem hlt
    rw [if_neg (by omega), bind_apply, charAt_apply h (by omega), charOf_of_lt hget]
    dsimp only
    rw [bind_apply, hp]
    dsimp only
    by_cases hq : q w[i] = true
    · rw [if_pos hq]
      refine ⟨_, rfl, fun cur => ?_⟩
      constructor
      · rintro ⟨⟩
        exact ⟨i + 1, by push_cast; omega, w[i], hget, hq, rfl⟩
      · rintro ⟨j, rfl, c, hc, -, rfl⟩
        push_cast
        rw [Int.add_assoc]
    · rw [if_neg hq]
      refine ⟨none, rfl, fun cur => ⟨nofun, ?_⟩⟩
      rintro ⟨j, -, c, hc, hqc, -⟩
      rw [hget] at hc
      cases hc
      exact absurd hqc hq

end

/-! ### Classes -/

/-- A node is compared with a character as the member that it is. -/
theorem matchmember_eq (n : Node) (c : UInt8) : matchmember n c = n.member.matches c := by
  have hle := GSChar_le c
  have hother : ∀ type : NodeType, 127 < type.code → decide (GSChar c = type.code) = false :=
    fun type h => decide_eq_false (by omega)
  unfold matchmember Node.member
  cases n.type with
  | char x =>
      show decide (GSChar c = GSChar x) = decide (c = x)
      exact decide_eq_decide.mpr ⟨GSChar_inj, fun h => h ▸ rfl⟩
  | OP_RANGE => rfl
  | OP_CCLASS => rfl
  | _ => exact hother _ (by decide)

/-- A class matches a character that one of its members matches. -/
theorem matchclass_apply {nodes : List Node} {hi : Nat} {exp : Matching} (c : UInt8) {lo : Nat}
    {l : Int} {ms : List Member} (h : MembersAt nodes hi lo l ms) :
    ∀ {fuel : Nat}, ms ≠ [] → hi < lo + fuel →
      gstd_rex_matchclass nodes fuel l c exp = .ok (ms.any (Member.matches c)) exp := by
  induction h with
  | nil => exact fun hne => absurd rfl hne
  | @cons lo i l n ms hl hlo hi' hget hrest ih =>
      intro fuel _ hfuel
      obtain ⟨fuel, rfl⟩ : ∃ k, fuel = k + 1 := ⟨fuel - 1, by omega⟩
      unfold gstd_rex_matchclass
      rw [hl, bind_apply, nodeAt_apply hget]
      dsimp only
      rw [matchmember_eq, List.any_cons]
      by_cases hm : n.member.matches c = true
      · rw [if_pos hm, hm]
        rfl
      · rw [if_neg hm, Bool.eq_false_iff.mpr hm, Bool.false_or]
        cases hrest with
        | nil hnext =>
            rw [if_neg (not_not_intro hnext)]
            rfl
        | cons hnext hlo' hi'' hget' hrest' =>
            rw [if_pos (by omega)]
            exact ih (List.cons_ne_nil _ _) (by omega)

/-! ### Atoms -/

section

variable {nodes : List Node} {exp : Matching} {front w back : List UInt8} {lo hi : Nat} {n : Node}
  {a : Atom}

/-- An atom of the language is matched where it spans a part of the range. -/
theorem matchleaf_apply (h : exp.Ranges front w back) (hatom : n.IsAtom nodes lo hi a)
    (hregular : a.Regular) {fuel i : Nat} (hfuel : hi < lo + fuel) (hi : i ≤ w.length) :
    ∃ o, matchleaf nodes fuel n (front.length + i : Nat) exp = .ok o exp ∧
      ∀ cur, o = some cur ↔ ∃ j : Nat, cur = (front.length + j : Nat) ∧ a.Spans w i j := by
  unfold matchleaf
  cases a with
  | char x =>
      rw [show n.type = .char x from hatom]
      refine matchchar_apply h (q := fun c => c = x) (fun c => ?_) hi
      exact congrArg (EStateM.Result.ok · exp)
        (decide_eq_decide.mpr ⟨GSChar_inj, fun hc => hc ▸ rfl⟩)
  | dot =>
      rw [show n.type = .OP_DOT from hatom]
      dsimp only
      rw [get_bind_apply, h.eol]
      by_cases hend : i = w.length
      · subst hend
        rw [if_pos (by push_cast; rfl)]
        refine ⟨none, rfl, fun cur => ⟨nofun, ?_⟩⟩
        rintro ⟨j, -, c, hc, -⟩
        rw [List.getElem?_eq_none (Nat.le_refl _)] at hc
        cases hc
      · have hlt : i < w.length := Nat.lt_of_le_of_ne hi hend
        rw [if_neg (by omega)]
        refine ⟨_, rfl, fun cur => ?_⟩
        constructor
        · rintro ⟨⟩
          exact ⟨i + 1, by push_cast; omega, w[i], List.getElem?_eq_getElem hlt, rfl, rfl⟩
        · rintro ⟨j, rfl, c, -, -, rfl⟩
          push_cast
          rw [Int.add_assoc]
  | bol =>
      rw [show n.type = .OP_BOL from hatom]
      dsimp only
      rw [get_bind_apply, h.bol]
      refine ⟨_, rfl, fun cur => ?_⟩
      constructor
      · intro hcur
        split at hcur
        · next hbol =>
            cases hcur
            exact ⟨i, rfl, by omega, rfl⟩
        · cases hcur
      · rintro ⟨j, rfl, rfl, rfl⟩
        exact if_pos rfl
  | eol =>
      rw [show n.type = .OP_EOL from hatom]
      dsimp only
      rw [get_bind_apply, h.eol]
      refine ⟨_, rfl, fun cur => ?_⟩
      constructor
      · intro hcur
        split at hcur
        · next heol =>
            cases hcur
            exact ⟨i, rfl, by omega, rfl⟩
        · cases hcur
      · rintro ⟨j, rfl, rfl, rfl⟩
        exact if_pos (by push_cast; rfl)
  | «class» negated members =>
      obtain ⟨htype, hne, hmembers⟩ := hatom
      rw [htype]
      cases negated with
      | false =>
          have hclass : ∀ c, gstd_rex_matchclass nodes fuel n.left c exp =
              .ok ((Atom.class false members).accepts c) exp := by
            intro c
            rw [matchclass_apply c hmembers hne hfuel, Atom.accepts_class]
          exact matchchar_apply h hclass hi
      | true =>
          have hnot : ∀ c, (not <$> gstd_rex_matchclass nodes fuel n.left c : MatchM Bool) exp =
              .ok ((Atom.class true members).accepts c) exp := by
            intro c
            show (gstd_rex_matchclass nodes fuel n.left c >>= fun b => pure !b) exp = _
            rw [bind_apply, matchclass_apply c hmembers hne hfuel, Atom.accepts_negated]
            rfl
          exact matchchar_apply h hnot hi
  | cclass classid =>
      rw [hatom.1, hatom.2]
      exact matchchar_apply h (fun c => rfl) hi
  | boundary => exact hregular.elim
  | balanced => exact hregular.elim

/-- Whether a space is at a position is known inside the text. -/
theorem noSpace_apply (h : exp.Ranges front w back) {here : Bool} {str : Int} {i : Nat}
    (hstr : here = true → str = (front.length + i : Nat) ∧ i ≤ w.length + back.length) :
    noSpace here str exp = .ok (here && !isSpace (charOf w back i)) exp := by
  unfold noSpace
  cases here with
  | false => rfl
  | true =>
      obtain ⟨rfl, hi⟩ := hstr rfl
      rw [if_pos rfl, bind_apply, charAt_apply h hi]
      show EStateM.Result.ok (decide ¬ isSpace (charOf w back i) = true) exp = _
      cases isSpace (charOf w back i) <;> rfl

/-- A word boundary is looked for within the string and its terminator. -/
theorem boundary_runs (h : exp.Ranges front w back) {i : Nat} (hi : i ≤ w.length) :
    Runs (Risky w back) exp exp (boundary (front.length + i : Nat)) fun _ _ => True := by
  unfold boundary
  refine runs_get_bind (runs_bind_of_ok (noSpace_apply h fun _ => ⟨rfl, by omega⟩) ?_)
  split
  · exact runs_pure (.refl exp) trivial
  · next hbol =>
      by_cases hend : i = w.length
      · subst hend
        have hpos : 0 < w.length := by
          refine List.length_pos_iff.mpr fun hw => hbol ?_
          have hblank := h.blank hw
          subst hw
          have hc : charOf [] back ([] : List UInt8).length = back.headD 0 := by
            cases back <;> rfl
          rw [h.bol, hc, hblank]
          exact Bool.and_eq_true_iff.mpr ⟨decide_eq_true rfl, rfl⟩
        refine runs_bind_of_ok (noSpace_apply h (i := w.length - 1) fun _ => ⟨?_, by omega⟩) ?_
        · push_cast
          omega
        · split
          · exact runs_pure (.refl exp) trivial
          · next heol =>
              have hlast : w.getLast? = some (charOf w back (w.length - 1)) := by
                have hget := List.getElem?_eq_getElem (l := w) (i := w.length - 1) (by omega)
                rw [List.getLast?_eq_getElem?, hget, charOf_of_lt hget]
              have hspace : isSpace (charOf w back (w.length - 1)) = true := by
                rw [h.eol] at heol
                simpa using heol
              refine runs_bind_of_ok (charAt_apply h (by omega)) ?_
              by_cases hback : back = []
              · have hrisky : Risky w back := ⟨hback, _, hlast, hspace⟩
                have hread : charAt ((front.length + w.length : Nat) + 1) exp =
                    .error .undefined exp := by
                  unfold charAt
                  rw [get_bind_apply]
                  unfold Text.get?
                  rw [if_neg]
                  · rfl
                  · rw [h.chars, hback]
                    simp only [List.append_nil, List.length_append]
                    omega
                unfold Runs
                rw [bind_apply, hread]
                exact hrisky
              · have hlen := List.length_pos_iff.mpr hback
                refine runs_bind_of_ok (charAt_apply h (i := w.length + 1) (by omega)) ?_
                exact runs_pure (.refl exp) trivial
      · refine runs_bind_of_ok (noSpace_apply h (i := 0) fun heol => ?_) ?_
        · rw [h.eol, decide_eq_true_eq] at heol
          omega
        · split
          · exact runs_pure (.refl exp) trivial
          · refine runs_bind_of_ok (charAt_apply h (by omega)) ?_
            refine runs_bind_of_ok (charAt_apply h (i := i + 1) (by omega)) ?_
            exact runs_pure (.refl exp) trivial

/-- The search for a closing character ends inside the text. -/
theorem balanceLoop_apply (h : exp.Ranges front w back) (cb ce : Int) {fuel : Nat} :
    ∀ {i cont : Nat}, w.length - i < fuel → ∃ o,
      balanceLoop cb ce fuel (front.length + i : Nat) cont exp = .ok o exp ∧
        ∀ cur, o = some cur → ∃ j : Nat, cur = (front.length + j : Nat) ∧ i ≤ j ∧ j ≤ w.length := by
  induction fuel with
  | zero => exact fun hfuel => absurd hfuel (Nat.not_lt_zero _)
  | succ fuel ih =>
      intro i cont hfuel
      unfold balanceLoop
      have hcast : ((front.length + i : Nat) : Int) + 1 = (front.length + (i + 1) : Nat) := by
        push_cast
        omega
      rw [get_bind_apply, h.eol, hcast]
      by_cases hlt : i + 1 < w.length
      · rw [if_pos (by omega), bind_apply, charAt_apply h (by omega)]
        dsimp only
        have hmono : ∀ {cont : Nat}, ∃ o,
            balanceLoop cb ce fuel (front.length + (i + 1) : Nat) cont exp = .ok o exp ∧
              ∀ cur, o = some cur →
                ∃ j : Nat, cur = (front.length + j : Nat) ∧ i ≤ j ∧ j ≤ w.length := by
          intro cont
          obtain ⟨o, hrun, ho⟩ := @ih (i + 1) cont (by omega)
          refine ⟨o, hrun, fun cur hcur => ?_⟩
          obtain ⟨j, hj, hle, hle'⟩ := ho cur hcur
          exact ⟨j, hj, Nat.le_of_succ_le hle, hle'⟩
        split
        · split
          · refine ⟨_, rfl, ?_⟩
            rintro cur ⟨⟩
            exact ⟨i + 2, by push_cast; omega, by omega, by omega⟩
          · exact hmono
        · split
          · exact hmono
          · exact hmono
      · rw [if_neg (by omega)]
        exact ⟨none, rfl, nofun⟩

/-- An atom matches within the range, and only where it spans a part of it. -/
theorem matchleaf_runs (h : exp.Ranges front w back) (hatom : n.IsAtom nodes lo hi a)
    {fuel i : Nat} (hfuel : hi < lo + fuel) (hi : i ≤ w.length) :
    Runs (Risky w back) exp exp (matchleaf nodes fuel n (front.length + i : Nat)) fun o _ =>
      ∀ cur, o = some cur → ∃ j : Nat, cur = (front.length + j : Nat) ∧ i ≤ j ∧ j ≤ w.length ∧
        (a.Regular → a.Spans w i j) := by
  by_cases hregular : a.Regular
  · obtain ⟨o, hrun, ho⟩ := matchleaf_apply h hatom hregular hfuel hi
    refine runs_of_ok hrun (.refl exp) fun cur hcur => ?_
    obtain ⟨j, hj, hspans⟩ := (ho cur).mp hcur
    obtain ⟨hle, hle'⟩ := hspans.le hi
    exact ⟨j, hj, hle, hle', fun _ => hspans⟩
  · unfold matchleaf
    cases a with
    | boundary letter =>
        rw [hatom.1]
        refine Runs.bind (boundary_runs h hi) fun b exp' hkept _ => runs_pure hkept ?_
        intro cur hcur
        have hcur' : cur = (front.length + i : Nat) := by
          split at hcur <;> split at hcur <;> first | exact (Option.some.inj hcur).symm | cases hcur
        exact ⟨i, hcur', Nat.le_refl _, hi, fun hr => absurd hr hregular⟩
    | balanced cb ce =>
        rw [hatom.1]
        refine runs_bind_of_ok (charAt_apply h (by omega)) ?_
        split
        · exact runs_pure (.refl exp) nofun
        · refine runs_get_bind ?_
          have hlen : w.length - i < (exp.eol - (front.length + i : Nat)).toNat + 1 := by
            rw [h.eol]
            omega
          obtain ⟨o, hrun, ho⟩ := balanceLoop_apply h n.left n.right hlen
          refine runs_of_ok hrun (.refl exp) fun cur hcur => ?_
          obtain ⟨j, hj, hle, hle'⟩ := ho cur hcur
          exact ⟨j, hj, hle, hle', fun hr => absurd hr hregular⟩
    | _ => exact absurd trivial hregular

end

end GameScript.Rex
