import GameScript.Gstd.RexWalk
import GameScript.Gstd.RexSearch
import GameScript.Lib.Mirror

/-!
The matcher of `gstdrex.cpp` walks as its pattern says: it matches where the walk does, begins the
captures that the walk begins, and reads outside of the string exactly where the walk would have
to know what is behind the terminator.

Main results: `matchnode_walks` for the nodes of a pattern, `search_walks` for a search.
-/

namespace GameScript.Rex

open Effect

/-! ### States side by side -/

/-- A capture is a part of the text. -/
def Match.InText (text : Text) (m : Match) : Prop :=
  ∃ i, m.begin = some (text.ref, i) ∧ 0 ≤ i ∧ i + m.len ≤ text.chars.length

/-- The captures are those of `base`, but for the groups that have been begun since. Those of
them that are not open are parts of the text. -/
structure Tracks (base : Matching) (opened : List Nat) (exp : Matching) (g : Groups) : Prop
    extends Same base exp where
  counter : exp.currsubexp = g.counter
  opened_begun : ∀ k ∈ opened, k ∈ g.begun
  matches_eq : ∀ k, k ∉ g.begun → exp.matches[k]? = base.matches[k]?
  inText : ∀ k ∈ g.begun, k ∉ opened → ∀ m, exp.matches[k]? = some m → 0 < m.len →
    m.InText exp.text

/-- The matcher leaves the string where the walk does not know what is behind it. -/
def Leaves (e : Halt) (_ : Unknown) : Prop := e = .undefined

/-- A pointer to a position of the text. -/
def Marks (front w : List UInt8) (cur : Option Int) (i : Option Nat) : Prop :=
  cur = i.map (fun i => ((front.length + i : Nat) : Int)) ∧ ∀ j ∈ i, j ≤ w.length

/-- The matcher walks as `walk` does. -/
abbrev Walks (base : Matching) (opened : List Nat) (front w : List UInt8) :
    MatchM (Option Int) → Walk (Option Nat) → Prop :=
  Mirrors (Tracks base opened) Leaves (Marks front w)

section

variable {base exp : Matching} {opened : List Nat} {g : Groups} {front w back : List UInt8}

theorem marks_none : Marks front w none none := ⟨rfl, nofun⟩

theorem marks_some {j : Nat} (hj : j ≤ w.length) : Marks front w (some ((front.length + j : Nat) : Int)) (some j) :=
  ⟨rfl, fun _ h => Option.some.inj h ▸ hj⟩

/-- Related ends are both there or both missing. -/
theorem Marks.cases {cur : Option Int} {i : Option Nat} (h : Marks front w cur i) :
    (cur = none ∧ i = none) ∨
      ∃ j : Nat, cur = some ((front.length + j : Nat) : Int) ∧ i = some j ∧ j ≤ w.length := by
  obtain ⟨rfl, hle⟩ := h
  cases i with
  | none => exact .inl ⟨rfl, rfl⟩
  | some j => exact .inr ⟨j, rfl, rfl, hle j rfl⟩

/-! ### Atoms -/

/-- The matcher tells a boundary as the walk does. -/
theorem boundary_walks (h : exp.Ranges front w back) {i : Nat} (hi : i ≤ w.length) :
    boundary (front.length + i : Nat) exp =
      match boundaryIn w back i with
      | some b => .ok b exp
      | none => .error .undefined exp := by
  have hbol : ((front.length + i : Nat) : Int) = exp.bol ↔ i = 0 := by
    rw [h.bol]
    omega
  have heol : ((front.length + i : Nat) : Int) = exp.eol ↔ i = w.length := by
    rw [h.eol]
    omega
  have hfirst : noSpace (decide (((front.length + i : Nat) : Int) = exp.bol))
      (front.length + i : Nat) exp =
        .ok (decide (i = 0) && !isSpace (charOf w back 0)) exp := by
    rw [noSpace_apply h (i := i) fun _ => ⟨rfl, by omega⟩, decide_eq_decide.mpr hbol]
    by_cases hzero : i = 0
    · subst hzero
      rfl
    · rw [decide_eq_false hzero]
      rfl
  unfold boundary boundaryIn
  rw [get_bind_apply, bind_apply, hfirst]
  dsimp only
  by_cases hstart : i = 0 ∧ ¬ isSpace (charOf w back 0) = true
  · rw [if_pos (by simpa using hstart), if_pos hstart]
    rfl
  · rw [if_neg (by simpa using hstart), if_neg hstart]
    have hpos : i = w.length → 0 < i := by
      intro hend
      refine Nat.pos_of_ne_zero fun hzero => hstart ⟨hzero, ?_⟩
      have hw : w = [] := List.eq_nil_of_length_eq_zero (hend.symm.trans hzero)
      have hc : charOf w back 0 = back.headD 0 := by
        rw [hw]
        cases back <;> rfl
      rw [hc, h.blank hw]
      exact Bool.false_ne_true
    have hsecond : noSpace (decide (((front.length + i : Nat) : Int) = exp.eol))
        ((front.length + i : Nat) - 1) exp =
          .ok (decide (i = w.length) && !isSpace (charOf w back (i - 1))) exp := by
      rw [noSpace_apply h (i := i - 1) fun hend => ?_, decide_eq_decide.mpr heol]
      have hend' := hpos (heol.mp (of_decide_eq_true hend))
      omega
    rw [bind_apply, hsecond]
    dsimp only
    by_cases hend : i = w.length ∧ ¬ isSpace (charOf w back (i - 1)) = true
    · rw [if_pos (by simpa using hend), if_pos hend]
      rfl
    · rw [if_neg (by simpa using hend), if_neg hend, bind_apply, charAt_apply h (by omega)]
      dsimp only
      by_cases hnext : i < w.length + back.length
      · have hcast : ((front.length + i : Nat) : Int) + 1 = (front.length + (i + 1) : Nat) := by
          push_cast
          omega
        rw [if_pos hnext, hcast, bind_apply, charAt_apply h (by omega)]
        rfl
      · have hread : charAt ((front.length + i : Nat) + 1) exp = .error .undefined exp := by
          rw [charAt, get_bind_apply, Text.get?, h.chars, if_neg]
          · rfl
          · simp only [List.length_append]
            omega
        rw [if_neg hnext, bind_apply, hread]

/-- What is closed is closed inside the text. -/
theorem closesAt_le (cb ce : Int) {cs : List UInt8} :
    ∀ {i cont : Nat}, ∀ j ∈ closesAt cb ce cs i cont, j ≤ i + cs.length := by
  induction cs with
  | nil =>
      intro i cont j hj
      cases hj
  | cons c cs ih =>
      intro i cont j hj
      rw [List.length_cons]
      unfold closesAt at hj
      split at hj
      · split at hj
        · obtain rfl := Option.some.inj hj
          omega
        · have hle := ih j hj
          omega
      · split at hj
        · have hle := ih j hj
          omega
        · have hle := ih j hj
          omega

/-- The matcher closes what the walk closes. -/
theorem balanceLoop_walks (h : exp.Ranges front w back) (cb ce : Int) {fuel : Nat} :
    ∀ {i cont : Nat}, w.length - i < fuel → i ≤ w.length →
      balanceLoop cb ce fuel (front.length + i : Nat) cont exp =
        .ok ((closesAt cb ce (w.drop (i + 1)) (i + 1) cont).map
          fun j => ((front.length + j : Nat) : Int)) exp := by
  induction fuel with
  | zero => exact fun hfuel => absurd hfuel (Nat.not_lt_zero _)
  | succ fuel ih =>
      intro i cont hfuel hi
      unfold balanceLoop
      have hcast : ((front.length + i : Nat) : Int) + 1 = (front.length + (i + 1) : Nat) := by
        push_cast
        omega
      rw [get_bind_apply, h.eol, hcast]
      by_cases hlt : i + 1 < w.length
      · have hget := List.getElem?_eq_getElem hlt
        rw [if_pos (by omega), bind_apply, charAt_apply h (by omega), charOf_of_lt hget,
          List.drop_eq_getElem_cons hlt]
        dsimp only
        unfold closesAt
        split
        · split
          · rw [Option.map_some]
            refine congrArg (fun x => EStateM.Result.ok (some x) exp) ?_
            push_cast
            omega
          · exact ih (by omega) (by omega)
        · split
          · exact ih (by omega) (by omega)
          · exact ih (by omega) (by omega)
      · rw [if_neg (by omega), List.drop_eq_nil_of_le (by omega)]
        rfl

/-- An atom of the language ends where it spans a part of the text. -/
theorem Atom.walk_regular {a : Atom} (hregular : a.Regular) (i : Nat) (g : Groups) :
    ∃ o, a.walk w back i g = .ok o g ∧ ∀ j, o = some j ↔ a.Spans w i j := by
  have hchar : ∀ a : Atom, a ≠ .bol → a ≠ .eol → ∀ j,
      ((if w[i]?.any (fun c => a.accepts c) = true then some (i + 1) else none) = some j ↔
        ∃ c, w[i]? = some c ∧ a.accepts c = true ∧ j = i + 1) := by
    intro a _ _ j
    cases w[i]? with
    | none => exact ⟨nofun, fun ⟨_, hc, _⟩ => nomatch hc⟩
    | some c =>
        rw [Option.any_some]
        by_cases hc : a.accepts c = true
        · rw [if_pos hc]
          constructor
          · rintro ⟨⟩
            exact ⟨c, rfl, hc, rfl⟩
          · rintro ⟨_, _, _, rfl⟩
            rfl
        · rw [if_neg hc]
          refine ⟨nofun, ?_⟩
          rintro ⟨_, ⟨⟩, hc', _⟩
          exact absurd hc' hc
  have hplace : ∀ (n j : Nat), ((if i = n then some i else none) = some j ↔ i = n ∧ j = i) := by
    intro n j
    by_cases hi : i = n
    · rw [if_pos hi]
      exact ⟨fun h => ⟨hi, (Option.some.inj h).symm⟩, fun h => congrArg some h.2.symm⟩
    · rw [if_neg hi]
      exact ⟨nofun, fun h => absurd h.1 hi⟩
  cases a with
  | bol => exact ⟨_, rfl, hplace 0⟩
  | eol => exact ⟨_, rfl, hplace w.length⟩
  | boundary => exact hregular.elim
  | balanced => exact hregular.elim
  | _ => exact ⟨_, rfl, hchar _ nofun nofun⟩

/-- A leaf is matched as its atom is walked. -/
theorem matchleaf_walks {nodes : List Node} {lo hi : Nat} {n : Node} {a : Atom}
    (hranges : base.Ranges front w back) (hatom : n.IsAtom nodes lo hi a) {fuel i : Nat}
    (hfuel : hi < lo + fuel) (hi : i ≤ w.length) :
    Walks base opened front w (matchleaf nodes fuel n (front.length + i : Nat))
      (a.walk w back i) := by
  intro exp g htracks
  have h := htracks.toSame.ranges hranges
  by_cases hregular : a.Regular
  · obtain ⟨o, hrun, ho⟩ := matchleaf_apply h hatom hregular hfuel hi
    obtain ⟨o', hwalk, ho'⟩ : ∃ o, a.walk w back i g = .ok o g ∧ ∀ j, o = some j ↔ a.Spans w i j :=
      a.walk_regular hregular i g
    refine mirrorsAt_of_ok hrun hwalk ⟨Option.ext fun cur => ?_, fun j hj => ?_⟩ htracks
    · rw [Option.map_eq_some_iff, ho cur]
      constructor
      · rintro ⟨j, hcur, hspans⟩
        exact ⟨j, (ho' j).mpr hspans, hcur.symm⟩
      · rintro ⟨j, hj, hcur⟩
        exact ⟨j, hcur.symm, (ho' j).mp hj⟩
    · exact (((ho' j).mp hj).le hi).2
  · unfold matchleaf
    cases a with
    | boundary letter =>
        rw [hatom.1, hatom.2]
        dsimp only
        have hboundary := boundary_walks h hi
        show MirrorsAt _ _ _ _ (match boundaryIn w back i with
          | some b => return if b = decide (letter = GSChar (SC 'b')) then some i else none
          | none => throw Unknown.behind) _ _
        cases hb : boundaryIn w back i with
        | none =>
            rw [hb] at hboundary
            refine mirrorsAt_of_error (?_ : _ = EStateM.Result.error _ exp) rfl rfl
            rw [bind_apply, hboundary]
        | some b =>
            rw [hb] at hboundary
            refine mirrorsAt_bind_left hboundary (mirrors_pure ?_ exp g htracks)
            by_cases hletter : letter = GSChar (SC 'b')
            · rw [decide_eq_true hletter, if_pos hletter, if_pos hletter]
              cases b
              · exact marks_none
              · exact marks_some hi
            · rw [decide_eq_false hletter, if_neg hletter, if_neg hletter]
              cases b
              · exact marks_some hi
              · exact marks_none
    | balanced cb ce =>
        rw [hatom.1, hatom.2.1, hatom.2.2]
        dsimp only
        refine mirrorsAt_bind_left (charAt_apply h (by omega)) ?_
        show MirrorsAt _ _ _ _ (return if GSChar (charOf w back i) = cb then _ else none) _ _
        by_cases hcb : GSChar (charOf w back i) = cb
        · rw [if_neg (not_not_intro hcb), if_pos hcb]
          have hlen : w.length - i < (exp.eol - (front.length + i : Nat)).toNat + 1 := by
            rw [h.eol]
            omega
          refine mirrorsAt_of_ok (balanceLoop_walks h cb ce hlen hi) rfl ⟨rfl, fun j hj => ?_⟩
            htracks
          have hle := closesAt_le cb ce j hj
          rw [List.length_drop] at hle
          by_cases hlt : i + 1 ≤ w.length
          · omega
          · rw [List.drop_eq_nil_of_le (by omega)] at hj
            cases hj
        · rw [if_pos hcb, if_neg hcb]
          exact mirrors_pure marks_none exp g htracks
    | _ => exact absurd trivial hregular

end

/-! ### Groups -/

theorem Runs.kept_of_ok {α : Type} {risky : Prop} {base exp exp' : Matching} {m : MatchM α} {a : α}
    {post : α → Matching → Prop} (hruns : Runs risky base exp m post) (h : m exp = .ok a exp') :
    Kept base exp' := by
  unfold Runs at hruns
  rw [h] at hruns
  exact hruns.1

section

variable {nodes : List Node} {base exp exp₁ exp₂ : Matching} {opened : List Nat} {g g₁ g₂ : Groups}
  {front w back : List UInt8} {cur : Int}

/-- While a group is matched it is open. -/
theorem Tracks.enter (h : Tracks base opened exp g) (hroom : Room nodes exp) {i : Nat} {n : Node}
    {capture : Option Nat} (hget : nodes[i]? = some n) (hgroup : n.IsGroup capture) (cur : Int) :
    ∃ c exp₁, beginCapture n cur exp = .ok c exp₁ ∧ Begun cur exp exp₁ c ∧
      Tracks base (c.toList ++ opened) exp₁ (g.enter capture) := by
  obtain ⟨c, exp₁, hrun, hbegun⟩ := beginCapture_apply cur hroom hget hgroup
  have hsame := h.toSame.trans hbegun.same
  cases c with
  | none =>
      obtain rfl : exp₁ = exp := hbegun
      refine ⟨none, exp₁, hrun, rfl, ?_⟩
      have hnext : capture ≠ some g.counter := by
        rintro rfl
        unfold beginCapture at hrun
        rw [get_bind_apply, if_pos ⟨by rw [hgroup.1]; decide, hgroup.2.trans h.counter.symm⟩] at hrun
        obtain ⟨_, _, -, hrun⟩ := bind_eq_ok.mp hrun
        obtain ⟨_, _, -, hrun⟩ := bind_eq_ok.mp hrun
        cases hrun
      rw [Groups.enter, if_neg hnext]
      exact h
  | some k =>
      obtain ⟨hcur, hlt, len, rfl⟩ := hbegun
      have hk : g.counter = k := Int.ofNat_inj.mp (h.counter.symm.trans hcur)
      have hnext : capture = some g.counter := by
        unfold beginCapture at hrun
        rw [get_bind_apply] at hrun
        split at hrun
        · next hcond =>
            cases capture with
            | none => exact absurd hgroup hcond.1
            | some m =>
                refine congrArg some (Int.ofNat_inj.mp ?_)
                exact hgroup.2.symm.trans (hcond.2.trans h.counter)
        · cases hrun
      rw [Groups.enter, if_pos hnext, hk]
      refine ⟨some k, _, hrun, ⟨hcur, hlt, len, rfl⟩, hsame, ?_, ?_, ?_, ?_⟩
      · show exp.currsubexp + 1 = _
        rw [hcur]
        rfl
      · intro j hj
        rcases List.mem_append.mp hj with hj | hj
        · exact List.mem_cons.mpr (.inl (by simpa using hj))
        · exact List.mem_cons_of_mem _ (h.opened_begun j hj)
      · intro j hj
        rw [List.mem_cons, not_or] at hj
        exact (List.getElem?_set_ne (Ne.symm hj.1)).trans (h.matches_eq j hj.2)
      · intro j hj hclosed m hm hlen
        have hne : j ≠ k := fun hjk => hclosed (by simp [hjk])
        rw [List.getElem?_set_ne (Ne.symm hne)] at hm
        exact h.inText j ((List.mem_cons.mp hj).resolve_left hne)
          (fun hmem => hclosed (List.mem_append_right _ hmem)) m hm hlen

/-- The capture of a group is written when the group is left. -/
theorem Tracks.close {k : Nat} (h : Tracks base (k :: opened) exp g) {m : Match} {counter : Nat}
    (hm : 0 < m.len → m.InText exp.text) :
    Tracks base opened { exp with «matches» := exp.matches.set k m, currsubexp := counter }
      { g with counter := counter } := by
  refine ⟨⟨h.text, h.bol, h.eol, (List.length_set ..).trans h.length_matches⟩, rfl,
    fun j hj => h.opened_begun j (List.mem_cons_of_mem _ hj), fun j hj => ?_,
    fun j hj hclosed m' hm' hlen => ?_⟩
  · have hne : k ≠ j := by
      rintro rfl
      exact hj (h.opened_begun k (List.mem_cons_self ..))
    exact (List.getElem?_set_ne hne).trans (h.matches_eq j hj)
  · by_cases hne : k = j
    · subst hne
      rw [List.getElem?_set_self'] at hm'
      obtain ⟨_, -, rfl⟩ := Option.map_eq_some_iff.mp hm'
      exact hm hlen
    · rw [List.getElem?_set_ne hne] at hm'
      refine h.inText j hj (fun hmem => ?_) m' hm' hlen
      exact hclosed ((List.mem_cons.mp hmem).resolve_left (Ne.symm hne))

variable (opened) in
/-- A group matches as its list does, and its capture is a part of the text then. -/
theorem group_walks {i p : Nat} {n : Node} {capture : Option Nat} {body : MatchM (Option Int)}
    {walk : Walk (Option Nat)} (hranges : base.Ranges front w back) (hroom : Room nodes base)
    (hget : nodes[i]? = some n) (hgroup : n.IsGroup capture)
    (hkept : ∀ exp exp' o, Same base exp → body exp = .ok o exp' → Kept exp exp')
    (hbody : ∀ opened, Walks base opened front w body walk) :
    Walks base opened front w (do
        let capture ← beginCapture n (front.length + p : Nat)
        let tempcap := (← get).currsubexp
        match ← body with
        | none =>
            dropCapture capture
            return none
        | some cur =>
            modify fun exp => { exp with currsubexp := tempcap }
            endCapture cur capture
            return some cur)
      (inGroup capture walk) := by
  intro exp g h
  have hroom' : Room nodes exp := fun i n hget htype => by
    rw [h.length_matches]
    exact hroom i n hget htype
  obtain ⟨c, exp₁, hrun, hbegun, h₁⟩ :=
    h.enter hroom' hget hgroup ((front.length + p : Nat) : Int)
  unfold inGroup
  refine mirrorsAt_bind_left hrun (mirrorsAt_bind_right (modify_apply _ g) ?_)
  show MirrorsAt _ _ _ (body >>= _) (walk >>= _) exp₁ (g.enter capture)
  refine (hbody _ exp₁ _ h₁).bind fun o o' exp₂ g₂ ho h₂ hok _ => ?_
  have hkept := hkept exp₁ exp₂ o h₁.toSame hok
  rcases ho.cases with ⟨rfl, rfl⟩ | ⟨j, rfl, rfl, hj⟩
  · cases c with
    | none => exact mirrors_pure marks_none exp₂ g₂ h₂
    | some k =>
        obtain ⟨m, hm, -⟩ := hbegun.getElem? hkept
        refine mirrorsAt_bind_left (setMatch_apply _ (List.getElem?_eq_some_iff.mp hm).1) ?_
        have hclosed : Tracks base opened
            { exp₂ with «matches» := exp₂.matches.set k ⟨none, 0⟩, currsubexp := g₂.counter } g₂ :=
          h₂.close fun hlen => absurd hlen (by decide)
        rw [← h₂.counter] at hclosed
        exact mirrors_pure marks_none _ g₂ hclosed
  · refine mirrorsAt_bind_left (modify_apply _ exp₂) (mirrorsAt_bind_right (modify_apply _ g₂) ?_)
    cases c with
    | none =>
        refine mirrors_pure (marks_some hj) _ _ ⟨⟨h₂.text, h₂.bol, h₂.eol, h₂.length_matches⟩,
          h₁.counter, h₂.opened_begun, h₂.matches_eq, h₂.inText⟩
    | some k =>
        obtain ⟨m, hm, hbegin⟩ := hbegun.getElem? hkept
        refine mirrorsAt_bind_left (endCapture_apply { exp₂ with currsubexp := exp₁.currsubexp } hm
          hbegin _) (mirrors_pure (marks_some hj) _ _ ?_)
        show Tracks base opened { exp₂ with
          «matches» := exp₂.matches.set k _, currsubexp := exp₁.currsubexp } _
        rw [h₁.counter]
        refine h₂.close fun _ => ⟨(front.length + p : Nat), rfl, Int.natCast_nonneg _, ?_⟩
        rw [h₂.text, hranges.chars]
        simp only [List.length_append]
        omega

end

/-! ### Repetitions -/

section

variable {nodes : List Node} {base : Matching} {opened : List Nat} {front w back : List UInt8}

/-- A repetition is matched as it is walked, round by round. -/
theorem greedyLoop_walks (hranges : base.Ranges front w back) {once : Int → MatchM (Option Int)}
    {stop : Int → MatchM Bool} {once' : Nat → Walk (Option Nat)} {stop' : Nat → Walk Bool}
    (honce : ∀ j, j ≤ w.length →
      Walks base opened front w (once (front.length + j : Nat)) (once' j))
    (hstop : ∀ j, j ≤ w.length → Mirrors (Tracks base opened) Leaves Eq
      (stop (front.length + j : Nat)) (stop' j))
    {p0 p1 : Nat} (hp1 : p1 ≤ 0xFFFF) {fuel : Nat} : ∀ {nmaches j : Nat},
      fuel + nmaches = 0x10001 → nmaches ≤ 0x10000 → j ≤ w.length →
      Mirrors (Tracks base opened) Leaves
        (fun res res' => res.1 = res'.1 ∧ Marks front w (some res.2) (some res'.2))
        (greedyLoop once stop p0 p1 fuel nmaches (front.length + j : Nat) (front.length + j : Nat))
        (rounds w once' stop' p0 p1 fuel nmaches j) := by
  induction fuel with
  | zero =>
      intro nmaches j hfuel hle
      omega
  | succ fuel ih =>
      intro nmaches j hfuel hle hj
      unfold greedyLoop rounds
      by_cases hmore : nmaches = 0xFFFF ∨ nmaches < p1
      · rw [if_pos hmore, if_pos hmore]
        refine (honce j hj).bind fun o o' ho => ?_
        rcases ho.cases with ⟨rfl, rfl⟩ | ⟨k, rfl, rfl, hk⟩
        · exact mirrors_pure ⟨rfl, marks_some hj⟩
        · refine (hstop k hk).bind ?_
          rintro b _ rfl
          by_cases hend : b = true ∧ enough p0 p1 (nmaches + 1) = true
          · rw [if_pos hend, if_pos hend]
            exact mirrors_pure ⟨rfl, marks_some hk⟩
          · rw [if_neg hend, if_neg hend]
            intro exp g h
            show MirrorsAt _ _ _ (if ((front.length + k : Nat) : Int) ≥ exp.eol then _ else _) _ exp g
            have heol := (h.toSame.ranges hranges).eol
            by_cases hlast : w.length ≤ k
            · rw [if_pos (by omega), if_pos hlast]
              exact mirrors_pure ⟨rfl, marks_some hk⟩ exp g h
            · rw [if_neg (by omega), if_neg hlast]
              exact ih (by omega) (by omega) hk exp g h
      · rw [if_neg hmore, if_neg hmore]
        exact mirrors_pure ⟨rfl, marks_some hj⟩

/-- What `next` points at, as the walk knows it. -/
def FollowedBy (nodes : List Node) (w back : List UInt8) (mid : Nat) (next : Option Int)
    (ahead : Ahead) : Prop :=
  (next = none ∧ ahead = none) ∨ ∃ lo r l, next = some l ∧ ahead = r.ahead w back ∧ mid ≤ lo ∧
    r ≠ .nil ∧ Represents nodes lo nodes.length l r

theorem FollowedBy.follows {mid : Nat} {next : Option Int} {ahead : Ahead}
    (h : FollowedBy nodes w back mid next ahead) : Follows nodes mid next := by
  rintro l rfl
  rcases h with ⟨⟨⟩, -⟩ | ⟨lo, r, _, ⟨⟩, -, hlo, hr⟩
  exact ⟨lo, r, hlo, hr⟩

theorem FollowedBy.mono {mid mid' : Nat} {next : Option Int} {ahead : Ahead}
    (h : FollowedBy nodes w back mid next ahead) (hle : mid' ≤ mid) :
    FollowedBy nodes w back mid' next ahead := by
  rcases h with h | ⟨lo, r, l, hl, ha, hlo, hr⟩
  · exact .inl h
  · exact .inr ⟨lo, r, l, hl, ha, Nat.le_trans hle hlo, hr⟩

theorem Regex.ahead_nil : Regex.ahead w back .nil = none := by
  unfold Regex.ahead
  exact dif_pos rfl

theorem followedBy_none (mid : Nat) : FollowedBy nodes w back mid none none := .inl ⟨rfl, rfl⟩

/-- What a link points at. -/
theorem followedBy_link {mid hi : Nat} {l : Int} {r : Regex} (h : Represents nodes mid hi l r)
    (hhi : hi ≤ nodes.length) : FollowedBy nodes w back mid (link l) (r.ahead w back) := by
  unfold link
  by_cases hl : l = -1
  · rw [if_neg (not_not_intro hl), h.link_eq.mp hl, Regex.ahead_nil]
    exact .inl ⟨rfl, rfl⟩
  · rw [if_pos hl]
    exact .inr ⟨mid, r, l, rfl, rfl, Nat.le_refl _, fun hr => hl (h.link_eq.mpr hr),
      h.mono (Nat.le_refl _) hhi⟩

/-- What is behind a list, or `next` where the list is at its end. -/
theorem followedBy_or {mid hi : Nat} {l : Int} {r : Regex} {next : Option Int} {ahead : Ahead}
    (h : Represents nodes mid hi l r) (hhi : hi ≤ nodes.length)
    (hnext : FollowedBy nodes w back mid next ahead) :
    FollowedBy nodes w back mid (if l ≠ -1 then some l else next)
      (r.ahead w back <|> ahead) := by
  by_cases hl : l = -1
  · rw [if_neg (not_not_intro hl), h.link_eq.mp hl, Regex.ahead_nil]
    exact hnext
  · have hlink : FollowedBy nodes w back mid (link l) (r.ahead w back) := followedBy_link h hhi
    rw [link, if_pos hl] at hlink
    rw [if_pos hl]
    rcases hlink with ⟨⟨⟩, -⟩ | ⟨lo, r', _, ⟨⟩, ha, hlo, hr⟩
    refine .inr ⟨lo, r', _, rfl, ?_, hlo, hr⟩
    rw [ha]
    unfold Regex.ahead
    rw [dif_neg hr.1]
    rfl

end

/-! ### Elements -/

/-- What `gstd_rex_matchnode` walks with the fuel that there is. -/
def WalksNodes (nodes : List Node) (base : Matching) (front w back : List UInt8) (fuel : Nat) :
    Prop :=
  ∀ {lo mid hi i : Nat} {n : Node} {r : Regex} {next : Option Int} {ahead : Ahead} {p : Nat}
    {opened : List Nat},
    nodes[i]? = some n → HeadAt nodes lo mid i n r → Represents nodes mid hi n.next r.tail →
    hi ≤ nodes.length → rank nodes.length lo mid < fuel →
    (n.next = -1 ∨ next = none ∨ next = some n.next) →
    FollowedBy nodes w back mid next ahead → p ≤ w.length →
    Walks base opened front w (gstd_rex_matchnode nodes fuel i (front.length + p : Nat) next)
      (r.first w back ahead p)

/-- What the loops over a list walk. -/
def WalksList (nodes : List Node) (base : Matching) (front w back : List UInt8) (fuel : Nat) :
    Prop :=
  ∀ {lo hi : Nat} {l : Int} {r : Regex} {p : Nat} {opened : List Nat},
    Represents nodes lo hi l r → r ≠ .nil → hi ≤ nodes.length →
    rank nodes.length lo hi + 1 < fuel → p ≤ w.length →
    Walks base opened front w (orLoop nodes fuel l (front.length + p : Nat))
        (r.alternative w back p) ∧
      ∀ {next : Option Int} {ahead : Ahead}, FollowedBy nodes w back hi next ahead →
        Walks base opened front w (exprLoop nodes fuel l (front.length + p : Nat) next)
          (r.elements w back ahead p)

section

variable {nodes : List Node} {base : Matching} {front w back : List UInt8} {opened : List Nat}

/-- A step of the matcher that changes nothing. -/
theorem mirrors_nodeAt_bind {α β : Type} {R : α → β → Prop} {i : Nat} {n : Node}
    (hget : nodes[i]? = some n) {f : Node → MatchM α} {walk : Walk β}
    (h : Mirrors (Tracks base opened) Leaves R (f n) walk) :
    Mirrors (Tracks base opened) Leaves R (nodeAt nodes i >>= f) walk := fun exp g hexp =>
  mirrorsAt_bind_left (nodeAt_apply hget exp) (h exp g hexp)

/-- An element that is no repetition has no node of one. -/
theorem Node.IsAtom.ne_greedy {lo hi : Nat} {n : Node} {a : Atom} (h : n.IsAtom nodes lo hi a) :
    n.type ≠ .OP_GREEDY := by
  intro htype
  cases a with
  | char | dot | bol | eol => exact nomatch htype.symm.trans h
  | «class» negated members => cases negated <;> exact nomatch htype.symm.trans h.1
  | cclass | boundary | balanced => exact nomatch htype.symm.trans h.1

theorem Node.IsGroup.ne_greedy {n : Node} {capture : Option Nat} (h : n.IsGroup capture) :
    n.type ≠ .OP_GREEDY := by
  intro htype
  cases capture with
  | none => exact nomatch htype.symm.trans h
  | some k => exact nomatch htype.symm.trans h.1

theorem HeadAt.optional_iff {lo mid i : Nat} {n : Node} {r : Regex} (h : HeadAt nodes lo mid i n r) :
    (n.type ≠ .OP_GREEDY ∨ n.p0 ≠ 0) ↔ ¬ r.optional = true := by
  cases h with
  | atom _ _ hatom => exact iff_of_true (.inl hatom.ne_greedy) Bool.false_ne_true
  | group _ _ hgroup => exact iff_of_true (.inl hgroup.ne_greedy) Bool.false_ne_true
  | or htype =>
      exact iff_of_true (.inl fun htype' => nomatch htype'.symm.trans htype) Bool.false_ne_true
  | greedy _ hgreedy =>
      unfold Regex.optional
      rw [hgreedy.1, hgreedy.p0_eq, decide_eq_true_eq]
      exact or_iff_right (not_not_intro rfl)

/-- A look ahead of a repetition. -/
theorem satisfied_walks {fuel mid : Nat} {stop next : Option Int} {ahead : Ahead} {p : Nat}
    (ih : WalksNodes nodes base front w back fuel)
    (hfollows : FollowedBy nodes w back mid stop ahead)
    (hrank : ∀ {lo' mid' : Nat}, mid ≤ lo' → lo' ≤ nodes.length → mid' ≤ nodes.length →
      rank nodes.length lo' mid' < fuel)
    (hnext : next = none ∨ next = stop) (hp : p ≤ w.length) :
    Mirrors (Tracks base opened) Leaves Eq
      (satisfied nodes (gstd_rex_matchnode nodes fuel) stop next (front.length + p : Nat))
      (ahead.stops p) := by
  unfold satisfied Ahead.stops
  rcases hfollows with ⟨rfl, rfl⟩ | ⟨lo, r, l, rfl, rfl, hlo, hr, hrep⟩
  · exact mirrors_pure rfl
  · obtain ⟨g, mid', n, rfl, hget, hhead, htail⟩ := hrep.headAt hr
    have hmid' := htail.le
    have hlo' := hhead.lt
    have hoptional := hhead.optional_iff
    refine mirrors_nodeAt_bind hget ?_
    rw [Regex.ahead, dif_neg hr]
    dsimp only
    by_cases h : r.optional = true
    · rw [if_neg (fun h' => hoptional.mp h' h), if_pos h]
      exact mirrors_pure rfl
    · rw [if_pos (hoptional.mpr h), if_neg h]
      intro exp gs hexp
      refine mirrorsAt_bind_left (gnext_apply hget hnext exp) ?_
      have hlink : n.next = -1 ∨ link n.next = none ∨ link n.next = some n.next := by
        by_cases h : n.next = -1
        · exact .inl h
        · exact .inr (.inr (if_pos h))
      refine Mirrors.bind (ih hget hhead htail (Nat.le_refl _) (hrank hlo (by omega) hmid') hlink
        (followedBy_link htail (Nat.le_refl _)) hp) ?_ exp gs hexp
      rintro o o' ⟨rfl, -⟩
      exact mirrors_pure (by cases o' <;> rfl)

/-- A list: its first element, and then what is behind that. -/
theorem lists_walk {fuel : Nat} (ih : WalksNodes nodes base front w back fuel)
    (ihlist : WalksList nodes base front w back fuel) :
    WalksList nodes base front w back (fuel + 1) := by
  intro lo hi l r p opened hrep hr hhi hfuel hp
  obtain ⟨i, mid, n, rfl, hget, hhead, htail⟩ := hrep.headAt hr
  have hmid := htail.le
  have hlo := hhead.lt
  have hrank : rank nodes.length lo mid < fuel := by
    unfold rank at hfuel ⊢
    omega
  have hrank' : rank nodes.length mid hi + 1 < fuel := by
    have h := rank_behind hi hlo (Nat.le_trans hmid hhi) hhi
    omega
  constructor
  · rw [orLoop, Regex.alternative, dif_neg hr]
    refine Mirrors.bind (ih hget hhead htail hhi hrank (.inr (.inl rfl)) (followedBy_none mid) hp)
      fun o o' ho => ?_
    rcases ho.cases with ⟨rfl, rfl⟩ | ⟨j, rfl, rfl, hj⟩
    · exact mirrors_pure marks_none
    · dsimp only
      refine mirrors_nodeAt_bind hget ?_
      by_cases hnext : n.next = -1
      · rw [if_neg (not_not_intro hnext), htail.link_eq.mp hnext, Regex.alternative, dif_pos rfl]
        exact mirrors_pure (marks_some hj)
      · rw [if_pos hnext]
        exact (ihlist htail (fun h => hnext (htail.link_eq.mpr h)) hhi hrank' hj).1
  · intro next ahead hfollows
    rw [exprLoop, Regex.elements, dif_neg hr]
    refine mirrors_nodeAt_bind hget ?_
    have hlink : n.next = -1 ∨ (if n.next ≠ -1 then some n.next else next) = none ∨
        (if n.next ≠ -1 then some n.next else next) = some n.next := by
      by_cases hnext : n.next = -1
      · exact .inl hnext
      · exact .inr (.inr (if_pos hnext))
    refine Mirrors.bind (ih hget hhead htail hhi hrank hlink
      (followedBy_or htail hhi (hfollows.mono hmid)) hp) fun o o' ho => ?_
    rcases ho.cases with ⟨rfl, rfl⟩ | ⟨j, rfl, rfl, hj⟩
    · exact mirrors_pure marks_none
    · dsimp only
      by_cases hnext : n.next = -1
      · rw [if_neg (not_not_intro hnext), htail.link_eq.mp hnext, Regex.elements, dif_pos rfl]
        exact mirrors_pure (marks_some hj)
      · rw [if_pos hnext]
        exact (ihlist htail (fun h => hnext (htail.link_eq.mpr h)) hhi hrank' hj).2 hfollows

/-- An element of each kind. -/
theorem nodes_walk (hbase : Ready nodes front w back base) {fuel : Nat}
    (ih : WalksNodes nodes base front w back fuel)
    (ihlist : WalksList nodes base front w back fuel) :
    WalksNodes nodes base front w back (fuel + 1) := by
  intro lo mid hi i n r next ahead p opened hget hhead htail hhi hfuel hnext hfollows hp
  have hmid := Nat.le_trans htail.le hhi
  cases hhead with
  | @atom a rest hlo hi' hatom =>
      have hfuel' : mid < i + 1 + fuel := by
        unfold rank at hfuel
        omega
      rw [Regex.first]
      intro exp g hexp
      unfold MirrorsAt
      rw [matchnode_of_atom hget hatom]
      exact matchleaf_walks hbase.ranges hatom hfuel' hp exp g hexp
  | @or left right htype hleft hright hlleft hlright =>
      have hi' := hlleft.le
      have hright' := hlright.le
      have hrankl := rank_within nodes.length (Nat.le_refl lo) hright'
      have hrankr := rank_behind mid (show lo < i + 1 by omega)
        (Nat.le_trans hright' hmid) hmid
      rw [gstd_rex_matchnode, Regex.first]
      refine mirrors_nodeAt_bind hget ?_
      rw [htype]
      refine Mirrors.bind (ihlist hlleft hleft (by omega) (by omega) hp).1 fun o o' ho => ?_
      rcases ho.cases with ⟨rfl, rfl⟩ | ⟨j, rfl, rfl, hj⟩
      · exact (ihlist hlright hright hmid (by omega) hp).1
      · exact mirrors_pure (marks_some hj)
  | @group capture body rest hlo hi' hgroup hbody hlist =>
      have hrank := rank_behind mid (show lo < i + 1 by omega)
        (Nat.le_trans hlist.le hmid) hmid
      have hkept : ∀ exp exp' o, Same base exp →
          exprLoop nodes fuel n.left (front.length + p : Nat) next exp = .ok o exp' →
          Kept exp exp' := fun exp exp' o hsame hrun =>
        (((matchnode_runs fuel).2 hlist hbody hmid (by omega) (hbase.same hsame) hp).2
          hfollows.follows).kept_of_ok hrun
      have hwalks := group_walks opened hbase.ranges hbase.room (p := p) hget hgroup hkept
        fun opened => (ihlist hlist hbody hmid (by omega) hp).2 hfollows
      rw [gstd_rex_matchnode, Regex.first]
      refine mirrors_nodeAt_bind hget ?_
      cases capture with
      | none =>
          rw [show n.type = _ from hgroup]
          exact hwalks
      | some capture =>
          rw [hgroup.1]
          exact hwalks
  | @greedy minimum maximum body rest hi' hgreedy hbody hlist =>
      obtain ⟨j, mid', m, hleft, hget', hhead', htail'⟩ := hlist.headAt hbody.ne_nil
      have hmid' := htail'.le
      have hlo' := hhead'.lt
      have hrank := rank_within nodes.length (Nat.le_refl lo)
        (Nat.lt_of_le_of_lt hmid' hi')
      have hm : m.next = -1 := htail'.link_eq.mpr hbody.tail_eq
      have hstop : FollowedBy nodes w back mid (greedystop n next)
          (rest.ahead w back <|> ahead) := followedBy_or htail hhi hfollows
      rw [gstd_rex_matchnode, Regex.first]
      refine mirrors_nodeAt_bind hget ?_
      rw [hgreedy.1]
      dsimp only
      rw [hgreedy.p0_eq, hgreedy.p1_eq]
      refine Mirrors.bind (greedyLoop_walks hbase.ranges (fun q hq => ?_) (fun q hq => ?_)
        (bound_le maximum) (Nat.add_zero _) (Nat.zero_le _) hp) ?_
      · rw [hleft]
        exact ih hget' hhead' htail' (by omega) (by omega) (.inl hm) (hstop.mono (by omega)) hq
      · refine satisfied_walks ih hstop (fun hle hlo₁ hmid₁ => ?_) (eq_greedystop hnext) hq
        have h := rank_behind mid (show lo < _ by omega) hlo₁ hmid₁
        omega
      · rintro ⟨nmaches, good⟩ ⟨_, good'⟩ ⟨rfl, hgood⟩
        dsimp only at hgood ⊢
        split
        · exact mirrors_pure hgood
        · exact mirrors_pure marks_none

/-- With enough fuel, the matcher walks as the pattern says. -/
theorem matchnode_walks (hbase : Ready nodes front w back base) (fuel : Nat) :
    WalksNodes nodes base front w back fuel ∧ WalksList nodes base front w back fuel := by
  induction fuel with
  | zero =>
      constructor
      · intro lo mid hi i n r next ahead p opened _ _ _ _ hfuel
        omega
      · intro lo hi l r p opened _ _ _ hfuel
        omega
  | succ fuel ih => exact ⟨nodes_walk hbase ih.1 ih.2, lists_walk ih.1 ih.2⟩

end

/-! ### Searches -/

/-- The ends of a match as pointers. -/
def Ends (front w : List UInt8) (res : Option (Int × Int)) (o : Option (Nat × Nat)) : Prop :=
  res = o.map (fun m => (((front.length + m.1 : Nat) : Int), ((front.length + m.2 : Nat) : Int))) ∧
    ∀ m ∈ o, m.1 ≤ w.length ∧ m.2 ≤ w.length

/-- A search has begun the captures of `g`; the others are as they were. -/
structure Searched (exp exp' : Matching) (g : Groups) : Prop where
  text : exp'.text = exp.text
  length_matches : exp'.matches.length = exp.matches.length
  matches_eq : ∀ k, k ∉ g.begun → exp'.matches[k]? = exp.matches[k]?
  inText : ∀ k ∈ g.begun, ∀ m, exp'.matches[k]? = some m → 0 < m.len → m.InText exp.text

section

variable {pattern : List UInt8} {r : Regex} {rex : GSRex} {front w back : List UInt8}
  {base : Matching} {fuel : Nat}

/-- Between two attempts the counter does not matter. -/
def Restarts (base exp : Matching) (g : Groups) : Prop :=
  Tracks base [] { exp with currsubexp := 0 } { g with counter := 0 }

theorem Tracks.restarts {exp : Matching} {g : Groups} (h : Tracks base [] exp g) :
    Restarts base exp g :=
  ⟨⟨h.text, h.bol, h.eol, h.length_matches⟩, rfl, h.opened_begun, h.matches_eq, h.inText⟩

theorem Restarts.searched {exp exp' : Matching} {g : Groups} (h : Restarts base exp' g)
    (htext : base.text = exp.text) (hmatches : base.matches = exp.matches) :
    Searched exp exp' g := by
  refine ⟨h.text.trans htext, hmatches ▸ h.length_matches, fun k hk => hmatches ▸ h.matches_eq k hk,
    fun k hk m hm hlen => ?_⟩
  have hin := h.inText k hk List.not_mem_nil m hm hlen
  have htext' : exp'.text = base.text := h.text
  rw [← htext, ← htext']
  exact hin

/-- The whole pattern at one position. -/
theorem first_walks (h : Compiled pattern r rex) (hfuel : rex.fuel ≤ fuel)
    (hbase : Ready rex.nodes front w back base) {p : Nat} (hp : p ≤ w.length) :
    Walks base [] front w
      (gstd_rex_matchnode rex.nodes fuel rex.first (front.length + p : Nat) none)
      (r.first w back none p) := by
  obtain ⟨m, hget, hlast, mid, hhead, htail⟩ := h.first_node
  have hrank : rank rex.nodes.length 0 mid < fuel := by
    have hmid := htail.le
    unfold GSRex.fuel rank at hfuel
    unfold rank
    omega
  rw [h.first_eq]
  exact (matchnode_walks hbase fuel).1 hget hhead htail (Nat.le_refl _) hrank (.inl hlast)
    (followedBy_none mid) hp

/-- An attempt of the matcher is an attempt of the walk. -/
theorem attempt_walks (h : Compiled pattern r rex) (hfuel : rex.fuel ≤ fuel)
    (hbase : Ready rex.nodes front w back base) {n p : Nat} (hp : p ≤ w.length) :
    Mirrors (Restarts base) Leaves
      (fun res o => Marks front w res.1 o ∧ (res.1 = none → res.2 = (rex.first : Int)))
      (attempt rex.nodes fuel (n + 2) rex.first (front.length + p : Nat))
      (r.attempt w back p) := by
  intro exp g htracks
  obtain ⟨m, hget, hlast, -⟩ := h.first_node
  have hfirst := first_walks h hfuel hbase hp _ _ htracks
  rw [attempt, Regex.attempt, if_pos (by omega), ← bind_pure (Regex.first w back r none p)]
  refine mirrorsAt_bind_left (modify_apply _ exp) (mirrorsAt_bind_right (modify_apply _ g) ?_)
  refine hfirst.bind fun o o' exp₁ g₁ ho h₁ _ _ => ?_
  rcases ho.cases with ⟨rfl, rfl⟩ | ⟨j, rfl, rfl, hj⟩
  · exact mirrors_pure ⟨marks_none, fun _ => rfl⟩ exp₁ g₁ h₁.restarts
  · rw [h.first_eq]
    refine mirrorsAt_bind_left (nodeAt_apply hget exp₁) ?_
    rw [hlast, attempt, if_neg (not_not_intro rfl)]
    exact mirrors_pure ⟨marks_some hj, nofun⟩ exp₁ g₁ h₁.restarts

/-- The attempts from one position to the next are those of the walk. -/
theorem searchLoop_walks (h : Compiled pattern r rex) (hfuel : rex.fuel ≤ fuel)
    (hbase : Ready rex.nodes front w back base) {n : Nat} : ∀ {p : Nat}, p < w.length →
      w.length ≤ n + p →
      Mirrors (Restarts base) Leaves (Ends front w)
        (searchLoop rex.nodes fuel n rex.first (front.length + p : Nat)
          (front.length + w.length : Nat))
        (r.searchFrom w back (w.length - p) p) := by
  induction n with
  | zero =>
      intro p hp hn
      omega
  | succ n ih =>
      intro p hp hn
      obtain ⟨k, hk⟩ : ∃ k, w.length - p = k + 1 := ⟨w.length - p - 1, by omega⟩
      obtain ⟨size, hsize⟩ : ∃ k, rex.nodes.length = k + 1 :=
        ⟨rex.nodes.length - 1, by have := h.valid.first_lt; omega⟩
      rw [hk, searchLoop, Regex.searchFrom, hsize]
      refine (attempt_walks h hfuel hbase (Nat.le_of_lt hp)).bind ?_
      rintro ⟨cur, node⟩ o ⟨hcur, hnode⟩
      dsimp only at hcur hnode ⊢
      rcases hcur.cases with ⟨rfl, rfl⟩ | ⟨j, rfl, rfl, hj⟩
      · have hcast : ((front.length + p : Nat) : Int) + 1 = (front.length + (p + 1) : Nat) := by
          push_cast
          omega
        rw [hnode rfl, hcast]
        by_cases hend : p + 1 = w.length
        · obtain rfl : k = 0 := by omega
          rw [if_neg (by omega), Regex.searchFrom]
          exact mirrors_pure ⟨rfl, nofun⟩
        · obtain rfl : k = w.length - (p + 1) := by omega
          rw [if_pos (by omega)]
          exact ih (by omega) (by omega)
      · refine mirrors_pure ⟨rfl, ?_⟩
        rintro _ ⟨⟩
        exact ⟨Nat.le_of_lt hp, hj⟩

end

end GameScript.Rex
