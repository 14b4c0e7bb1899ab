import GameScript.Gstd.RexLeaves
import Mathlib.Tactic.ByContra

/-!
The matcher of `gstdrex.cpp` ends, stays in its range and matches what the pattern spans.

Matching an element leads into its body or to a node behind it: to where the nodes that are
left begin further on, or where the element ends earlier. `rank` counts both.
-/

namespace GameScript.Rex

open Effect

/-! ### What is matched -/

/-- From the position `i`, a pattern may be matched to `cur`. -/
def Reaches (front w : List UInt8) (r : Regex) (i : Nat) (cur : Int) : Prop :=
  ∃ j : Nat, cur = (front.length + j : Nat) ∧ i ≤ j ∧ j ≤ w.length ∧ (r.Regular → r.Spans w i j)

section

variable {front w : List UInt8} {r : Regex} {i j : Nat} {cur : Int}

/-- The first element, and then what is behind it. -/
theorem Reaches.cons (hhead : r.head.Regular → r.head.Spans w i j) (hle : i ≤ j)
    (htail : Reaches front w r.tail j cur) : Reaches front w r i cur := by
  obtain ⟨k, hcur, hle', hk, hspans⟩ := htail
  refine ⟨k, hcur, Nat.le_trans hle hle', hk, fun hr => ?_⟩
  obtain ⟨hr, hr'⟩ := Regex.regular_iff.mp hr
  exact Regex.spans_iff.mpr ⟨j, hhead hr, hspans hr'⟩

theorem reaches_nil (hj : j ≤ w.length) : Reaches front w .nil j (front.length + j : Nat) :=
  ⟨j, rfl, Nat.le_refl _, hj, fun _ => rfl⟩

end

theorem Repeats.le {R : Nat → Nat → Prop} (hR : ∀ {i j}, R i j → i ≤ j) {n i j : Nat}
    (h : Repeats R n i j) : i ≤ j := by
  induction h with
  | zero => exact Nat.le_refl _
  | succ _ hlast ih => exact Nat.le_trans ih (hR hlast)

theorem Repeats.mono {R S : Nat → Nat → Prop} (hRS : ∀ {i j}, R i j → S i j) {n i j : Nat}
    (h : Repeats R n i j) : Repeats S n i j := by
  induction h with
  | zero => exact .zero
  | succ _ hlast ih => exact .succ ih (hRS hlast)

/-! ### Repetitions -/

section

variable {front w back : List UInt8} (inv : Matching → Prop) (R : Nat → Nat → Prop)
  {once : Int → MatchM (Option Int)} {stop : Int → MatchM Bool} {p0 p1 : Nat}

/-- The loop of a repetition ends, and goes from one span of the element to the next. -/
theorem greedyLoop_runs
    (hinv : ∀ {exp exp'}, Kept exp exp' → inv exp → inv exp')
    (honce : ∀ {exp j}, inv exp → j ≤ w.length →
      Runs (Risky w back) exp exp (once (front.length + j : Nat)) fun o _ =>
        ∀ cur, o = some cur → ∃ k : Nat, cur = (front.length + k : Nat) ∧ k ≤ w.length ∧ R j k)
    (hstop : ∀ {exp j}, inv exp → j ≤ w.length →
      Runs (Risky w back) exp exp (stop (front.length + j : Nat)) fun _ _ => True)
    (hp1 : p1 ≤ 0xFFFF) {i fuel : Nat} : ∀ {nmaches j : Nat} {exp : Matching},
      fuel + nmaches = 0x10001 → nmaches ≤ 0x10000 → inv exp → j ≤ w.length →
      Repeats R nmaches i j →
      Runs (Risky w back) exp exp
        (greedyLoop once stop p0 p1 fuel nmaches (front.length + j : Nat) (front.length + j : Nat))
        fun res _ => ∃ k : Nat, res.2 = (front.length + k : Nat) ∧ k ≤ w.length ∧
          Repeats R res.1 i k := by
  have hend : ∀ {res : Nat × Int} {k : Nat} {base exp : Matching}, Kept base exp →
      res.2 = (front.length + k : Nat) → k ≤ w.length → Repeats R res.1 i k →
      Runs (Risky w back) base exp (pure res) fun res _ =>
        ∃ k : Nat, res.2 = (front.length + k : Nat) ∧ k ≤ w.length ∧ Repeats R res.1 i k :=
    fun hkept hres hk hrepeats => runs_pure hkept ⟨_, hres, hk, hrepeats⟩
  induction fuel with
  | zero =>
      intro nmaches j exp hfuel hle
      omega
  | succ fuel ih =>
      intro nmaches j exp hfuel hle hexp hj hrepeats
      unfold greedyLoop
      by_cases hmore : nmaches = 0xFFFF ∨ nmaches < p1
      · rw [if_pos hmore]
        refine (honce hexp hj).bind fun o exp₁ hkept₁ ho => ?_
        cases o with
        | none => exact hend hkept₁ rfl hj hrepeats
        | some s =>
            obtain ⟨k, rfl, hk, hspan⟩ := ho s rfl
            have hrepeats' := Repeats.succ hrepeats hspan
            dsimp only
            refine (hstop (hinv hkept₁ hexp) hk).bind fun b exp₂ hkept₂ _ => ?_
            have hkept := hkept₁.trans hkept₂
            split
            · exact hend hkept rfl hk hrepeats'
            · refine runs_get_bind ?_
              split
              · exact hend hkept rfl hk hrepeats'
              · -- the last number that the loop goes on with is 65535
                exact (ih (by omega) (by omega) (hinv hkept hexp) hk hrepeats').widen hkept
      · rw [if_neg hmore]
        exact hend (.refl exp) rfl hj hrepeats

end

/-! ### Groups -/

/-- An expression's groups have room for their captures. -/
def Room (nodes : List Node) (exp : Matching) : Prop :=
  ∀ (i : Nat) (n : Node), nodes[i]? = some n → n.type = .OP_EXPR → n.right < exp.matches.length

/-- What `beginCapture` does, where it gives `c`. -/
def Begun (cur : Int) (exp exp' : Matching) : Option Nat → Prop
  | some capture => exp.currsubexp = capture ∧ capture < exp.matches.length ∧
      ∃ len, exp' = { exp with
        «matches» := exp.matches.set capture ⟨some (exp.text.ref, cur), len⟩
        currsubexp := exp.currsubexp + 1 }
  | none => exp' = exp

section

variable {nodes : List Node} {exp exp' : Matching} {cur : Int}

theorem setMatch_apply {capture : Nat} (m : Match) (h : capture < exp.matches.length) :
    setMatch capture m exp = .ok () { exp with «matches» := exp.matches.set capture m } := by
  unfold setMatch
  rw [get_bind_apply, if_pos h]
  rfl

/-- A capture that began is given its length. -/
theorem endCapture_apply (exp : Matching) {capture : Nat} {m : Match}
    (hm : exp.matches[capture]? = some m)
    (hbegin : m.begin = some (exp.text.ref, cur)) (last : Int) :
    endCapture last (some capture) exp = .ok () { exp with
      «matches» := exp.matches.set capture ⟨some (exp.text.ref, cur), last - cur⟩ } := by
  obtain ⟨begin, len⟩ := m
  obtain rfl : begin = some (exp.text.ref, cur) := hbegin
  rw [endCapture, get_bind_apply, hm]
  dsimp only
  rw [if_pos rfl]
  exact setMatch_apply _ (List.getElem?_eq_some_iff.mp hm).1

/-- A group that is captured is the next one. -/
theorem beginCapture_apply (cur : Int) {i : Nat} {n : Node} {capture : Option Nat}
    (hroom : Room nodes exp)
    (hget : nodes[i]? = some n) (hgroup : n.IsGroup capture) :
    ∃ c exp', beginCapture n cur exp = .ok c exp' ∧ Begun cur exp exp' c := by
  unfold beginCapture
  rw [get_bind_apply]
  by_cases hnext : n.type ≠ .OP_NOCAPEXPR ∧ n.right = exp.currsubexp
  · rw [if_pos hnext]
    cases capture with
    | none => exact absurd hgroup hnext.1
    | some capture =>
        obtain ⟨htype, hright⟩ := hgroup
        have hcur : exp.currsubexp = capture := hnext.2.symm.trans hright
        have hlt : capture < exp.matches.length := by
          have h := hroom i n hget htype
          omega
        rw [hcur, Int.toNat_natCast, bind_apply, setMatch_apply _ hlt]
        exact ⟨some capture, _, rfl, hcur, hlt, _, rfl⟩
  · rw [if_neg hnext]
    exact ⟨none, exp, rfl, rfl⟩

theorem Begun.same {c : Option Nat} (h : Begun cur exp exp' c) : Same exp exp' := by
  cases c with
  | none =>
      obtain rfl : exp' = exp := h
      exact .refl _
  | some capture =>
      obtain ⟨-, -, len, rfl⟩ := h
      exact ⟨rfl, rfl, rfl, List.length_set ..⟩

theorem Begun.currsubexp_le {c : Option Nat} (h : Begun cur exp exp' c) :
    exp.currsubexp ≤ exp'.currsubexp := by
  cases c with
  | none =>
      obtain rfl : exp' = exp := h
      exact Int.le_refl _
  | some capture =>
      obtain ⟨-, -, len, rfl⟩ := h
      exact Int.le_of_lt (Int.lt_succ exp.currsubexp)

/-- The counter may be set to where it was, or further on. -/
theorem Kept.back (h : Kept exp exp') {counter : Int} (hle : exp.currsubexp ≤ counter) :
    Kept exp { exp' with currsubexp := counter } :=
  ⟨⟨h.text, h.bol, h.eol, h.length_matches⟩, hle, h.matches_eq, h.inside⟩

/-- What is kept inside a group is kept by it, when its own capture is written. -/
theorem Begun.kept_set {exp₁ exp₂ : Matching} {capture : Nat} {m : Match} {counter : Int}
    (h : Begun cur exp exp₁ (some capture)) (hkept : Kept exp₁ exp₂)
    (hm : 0 < m.len → ∃ i, m.begin = some (exp.text.ref, i) ∧ 0 ≤ i ∧
      i + m.len ≤ exp.text.chars.length) (hcounter : exp.currsubexp ≤ counter) :
    Kept exp { exp₂ with «matches» := exp₂.matches.set capture m, currsubexp := counter } := by
  have hsame := h.same.trans hkept.toSame
  obtain ⟨hcur, hlt, len, rfl⟩ := h
  refine ⟨⟨hsame.text, hsame.bol, hsame.eol, (List.length_set ..).trans hsame.length_matches⟩,
    hcounter, fun j hj => ?_, fun hinside j m' hj hget hlen => ?_⟩
  · have hne : capture ≠ j := by omega
    refine (List.getElem?_set_ne hne).trans ((hkept.matches_eq j ?_).trans
      (List.getElem?_set_ne hne))
    exact Int.lt_trans hj (Int.lt_succ exp.currsubexp)
  · show ∃ i, m'.begin = some (exp₂.text.ref, i) ∧ 0 ≤ i ∧ i + m'.len ≤ exp₂.text.chars.length
    by_cases hne : capture = j
    · subst hne
      rw [List.getElem?_set_self' ] at hget
      obtain ⟨_, -, rfl⟩ := Option.map_eq_some_iff.mp hget
      rw [hkept.text]
      exact hm hlen
    · rw [List.getElem?_set_ne hne] at hget
      refine hkept.inside (fun j' m' hj' hget' => ?_) j m' ?_ hget hlen
      · have hle : exp.currsubexp + 1 ≤ j' := hj'
        rw [List.getElem?_set_ne (by omega)] at hget'
        exact hinside j' m' (by omega) hget'
      · show exp.currsubexp + 1 ≤ j
        omega

/-- A capture that has begun still begins where it did. -/
theorem Begun.getElem? {exp₁ exp₂ : Matching} {capture : Nat}
    (h : Begun cur exp exp₁ (some capture)) (hkept : Kept exp₁ exp₂) :
    ∃ m, exp₂.matches[capture]? = some m ∧ m.begin = some (exp₂.text.ref, cur) := by
  obtain ⟨hcur, hlt, len, rfl⟩ := h
  refine ⟨⟨some (exp.text.ref, cur), len⟩, ?_, ?_⟩
  · refine (hkept.matches_eq capture ?_).trans (List.getElem?_set_self hlt)
    show (capture : Int) < exp.currsubexp + 1
    omega
  · rw [hkept.text]

/-- A group keeps what it has to when its list does, which begins behind its own capture. -/
theorem group_runs (risky : Prop) {i : Nat} {n : Node} {capture : Option Nat}
    (body : MatchM (Option Int)) {p : Option Int → Prop} (hroom : Room nodes exp)
    (hget : nodes[i]? = some n)
    (hgroup : n.IsGroup capture) (hcur : 0 ≤ cur)
    (hspan : ∀ last, p (some last) → last ≤ exp.text.chars.length)
    (hbody : ∀ exp', Same exp exp' → Runs risky exp' exp' body fun o _ => p o) :
    Runs risky exp exp (do
        let capture ← beginCapture n cur
        let tempcap := (← get).currsubexp
        match ← body with
        | none =>
            dropCapture capture
            return none
        | some cur =>
            modify fun exp => { exp with currsubexp := tempcap }
            endCapture cur capture
            return some cur)
      fun o _ => ∀ cur, o = some cur → p (some cur) := by
  obtain ⟨c, exp₁, hrun, hbegun⟩ := beginCapture_apply cur hroom hget hgroup
  refine runs_bind_of_ok hrun (runs_get_bind ((hbody exp₁ hbegun.same).bind
    fun o exp₂ hkept ho => ?_))
  cases o with
  | none =>
      cases c with
      | none =>
          obtain rfl : exp₁ = exp := hbegun
          exact runs_pure hkept nofun
      | some capture =>
          obtain ⟨m, hm, -⟩ := hbegun.getElem? hkept
          have hlt := (List.getElem?_eq_some_iff.mp hm).1
          refine runs_bind_of_ok (setMatch_apply _ hlt) (runs_pure ?_ nofun)
          exact hbegun.kept_set hkept (fun hlen => absurd hlen (by decide))
            (Int.le_trans hbegun.currsubexp_le hkept.currsubexp_le)
  | some last =>
      have hdone : ∀ x, some last = some x → p (some x) := by
        rintro x ⟨⟩
        exact ho
      refine runs_bind_of_ok (modify_apply _ exp₂) ?_
      cases c with
      | none =>
          obtain rfl : exp₁ = exp := hbegun
          exact runs_pure (hkept.back (Int.le_refl _)) hdone
      | some capture =>
          obtain ⟨m, hm, hbegin⟩ := hbegun.getElem? hkept
          refine runs_bind_of_ok (endCapture_apply { exp₂ with currsubexp := exp₁.currsubexp } hm
            hbegin last) (runs_pure ?_ hdone)
          have hlast := hspan last ho
          refine hbegun.kept_set (hkept.back (Int.le_refl _)) (fun hlen => ⟨cur, ?_, hcur, ?_⟩)
            hbegun.currsubexp_le
          · rw [← (hbegun.same.trans hkept.toSame).text]
          · show cur + (last - cur) ≤ exp.text.chars.length
            omega

end

/-! ### Elements -/

/-- What a matching needs of its state. -/
structure Ready (nodes : List Node) (front w back : List UInt8) (exp : Matching) : Prop where
  ranges : exp.Ranges front w back
  room : Room nodes exp

theorem Ready.same {nodes : List Node} {front w back : List UInt8} {exp exp' : Matching}
    (h : Ready nodes front w back exp) (hsame : Same exp exp') : Ready nodes front w back exp' := by
  refine ⟨hsame.ranges h.ranges, fun i n hget htype => ?_⟩
  rw [hsame.length_matches]
  exact h.room i n hget htype

/-- The node `next`, where there is one, is the first of a list behind `mid`. -/
def Follows (nodes : List Node) (mid : Nat) (next : Option Int) : Prop :=
  ∀ l, next = some l → ∃ lo r, mid ≤ lo ∧ r ≠ .nil ∧ Represents nodes lo nodes.length l r

/-- A link as a pointer. -/
def link (l : Int) : Option Int := if l ≠ -1 then some l else none

def rank (size lo mid : Nat) : Nat := 2 * ((size - lo) * (size + 1) + mid)

theorem rank_within (size : Nat) {lo lo' mid mid' : Nat} (hlo : lo ≤ lo') (hmid : mid' < mid) :
    rank size lo' mid' + 2 ≤ rank size lo mid := by
  have h := Nat.mul_le_mul_right (size + 1) (Nat.sub_le_sub_left hlo size)
  unfold rank
  omega

theorem rank_behind (mid : Nat) {size lo lo' mid' : Nat} (hlo : lo < lo') (hlo' : lo' ≤ size)
    (hmid' : mid' ≤ size) : rank size lo' mid' + 2 ≤ rank size lo mid := by
  have h : (size - lo' + 1) * (size + 1) ≤ (size - lo) * (size + 1) :=
    Nat.mul_le_mul_right (size + 1) (by omega)
  rw [Nat.add_mul] at h
  unfold rank
  omega

section

variable {nodes : List Node} {front w back : List UInt8}

/-- A link that leads nowhere represents nothing. -/
theorem Represents.link_eq {lo hi : Nat} {l : Int} {r : Regex} (h : Represents nodes lo hi l r) :
    l = -1 ↔ r = .nil := by
  constructor
  · intro hl
    by_contra hr
    obtain ⟨i, n, hi, -⟩ := h.head hr
    omega
  · rintro rfl
    cases h with
    | nil hl => exact hl

theorem Follows.mono {mid mid' : Nat} {next : Option Int} (h : Follows nodes mid next)
    (hle : mid' ≤ mid) : Follows nodes mid' next := by
  intro l hl
  obtain ⟨lo, r, hlo, hr⟩ := h l hl
  exact ⟨lo, r, Nat.le_trans hle hlo, hr⟩

theorem follows_none (mid : Nat) : Follows nodes mid none := nofun

theorem follows_link {mid hi : Nat} {l : Int} {r : Regex} (h : Represents nodes mid hi l r)
    (hhi : hi ≤ nodes.length) : Follows nodes mid (link l) := by
  intro x hx
  unfold link at hx
  split at hx
  · next hl =>
      cases hx
      exact ⟨mid, r, Nat.le_refl _, fun hr => hl (h.link_eq.mpr hr), h.mono (Nat.le_refl _) hhi⟩
  · cases hx

/-- Behind what follows a repetition, its own list goes on. -/
theorem gnext_apply {g : Nat} {n : Node} {next : Option Int} (hget : nodes[g]? = some n)
    (hnext : next = none ∨ next = some (g : Int)) (exp : Matching) :
    gnext nodes n next exp = .ok (link n.next) exp := by
  unfold gnext link
  by_cases hlast : n.next = -1
  · rw [if_neg (not_not_intro hlast), if_neg (not_not_intro hlast)]
    rcases hnext with rfl | rfl
    · rfl
    · dsimp only
      rw [bind_apply, nodeAt_apply hget]
      dsimp only
      rw [if_neg (not_not_intro hlast)]
      rfl
  · rw [if_pos hlast, if_pos hlast]
    rfl

theorem Node.IsGreedy.p0_eq {n : Node} {minimum : Nat} {maximum : Option Nat}
    (h : n.IsGreedy minimum maximum) : n.p0 = minimum % 0x10000 := by
  have hbound : bound maximum < 0x10000 := by
    cases maximum with
    | none => decide
    | some m => exact Nat.mod_lt m (by decide)
  unfold Node.p0
  rw [h.2]
  omega

theorem bound_le (maximum : Option Nat) : bound maximum ≤ 0xFFFF := by
  cases maximum with
  | none => exact Nat.le_refl _
  | some m => exact Nat.le_of_lt_succ (Nat.mod_lt m (by decide))

theorem Node.IsGreedy.p1_eq {n : Node} {minimum : Nat} {maximum : Option Nat}
    (h : n.IsGreedy minimum maximum) : n.p1 = bound maximum := by
  have hbound := bound_le maximum
  unfold Node.p1
  rw [h.2]
  omega

theorem enough_iff {p0 p1 n : Nat} :
    enough p0 p1 n = true ↔ p0 ≤ n ∧ (p1 = 0xFFFF ∨ n ≤ p1) := by
  unfold enough
  rw [decide_eq_true_eq]
  omega

/-- As many repetitions as a regular quantifier asks for. -/
theorem reaches_greedy {minimum n : Nat} {maximum : Option Nat} {body : Regex} {p k : Nat}
    (hrepeats : Repeats (fun i j => i ≤ j ∧ (body.Regular → body.Spans w i j)) n p k)
    (hk : k ≤ w.length) (henough : enough (minimum % 0x10000) (bound maximum) n = true) :
    Reaches front w (.greedy minimum maximum body .nil) p (front.length + k : Nat) := by
  refine ⟨k, rfl, hrepeats.le fun h => h.1, hk, ?_⟩
  rintro ⟨hmin, hmax, hbody, -⟩
  obtain ⟨hle, hle'⟩ := enough_iff.mp henough
  refine ⟨n, k, ?_, fun m hm => ?_, hrepeats.mono fun h => h.2 hbody, rfl⟩
  · rw [Nat.mod_eq_of_lt (by omega)] at hle
    exact hle
  · have hlt := hmax m hm
    obtain rfl : maximum = some m := hm
    have hbound : bound (some m) = m := Nat.mod_eq_of_lt (by omega)
    omega

/-- Where one alternative reaches, the choice does. -/
theorem reaches_or {left right : Regex} {p : Nat} {cur : Int}
    (h : Reaches front w left p cur ∨ Reaches front w right p cur) :
    Reaches front w (.or left right) p cur := by
  rcases h with ⟨j, hj, hle, hle', hspans⟩ | ⟨j, hj, hle, hle', hspans⟩
  · exact ⟨j, hj, hle, hle', fun hr => .inl (hspans hr.1)⟩
  · exact ⟨j, hj, hle, hle', fun hr => .inr (hspans hr.2)⟩

/-- Where its elements reach, a group does. -/
theorem reaches_group {capture : Option Nat} {body : Regex} {p : Nat} {cur : Int}
    (h : Reaches front w body p cur) : Reaches front w (.group capture body .nil) p cur := by
  obtain ⟨j, hj, hle, hle', hspans⟩ := h
  exact ⟨j, hj, hle, hle', fun hr => ⟨j, hspans hr.1, rfl⟩⟩

/-- What is reached lies in the text. -/
theorem Reaches.le_chars {exp : Matching} (hranges : exp.Ranges front w back) {r : Regex} {p : Nat}
    {cur : Int} (h : Reaches front w r p cur) : cur ≤ exp.text.chars.length := by
  obtain ⟨j, rfl, -, hj, -⟩ := h
  rw [hranges.chars]
  simp only [List.length_append]
  omega

/-- What follows a repetition is the next element, or what is behind its list. -/
theorem follows_greedystop {n : Node} {mid hi : Nat} {r : Regex} {next : Option Int}
    (h : Represents nodes mid hi n.next r) (hhi : hi ≤ nodes.length)
    (hfollows : Follows nodes mid next) : Follows nodes mid (greedystop n next) := by
  unfold greedystop
  split
  · next hne =>
      rw [← show link n.next = some n.next from if_pos hne]
      exact follows_link h hhi
  · exact hfollows

theorem eq_greedystop {n : Node} {next : Option Int}
    (hnext : n.next = -1 ∨ next = none ∨ next = some n.next) :
    next = none ∨ next = greedystop n next := by
  unfold greedystop
  by_cases h : n.next = -1
  · exact .inr (if_neg (not_not_intro h)).symm
  · rw [if_pos h]
    exact hnext.resolve_left h

/-- The node of an atom is matched as a leaf. -/
theorem matchnode_of_atom {lo hi i fuel : Nat} {n : Node} {a : Atom} (hget : nodes[i]? = some n)
    (hatom : n.IsAtom nodes lo hi a) (str : Int) (next : Option Int) (exp : Matching) :
    gstd_rex_matchnode nodes (fuel + 1) i str next exp = matchleaf nodes fuel n str exp := by
  rw [gstd_rex_matchnode, bind_apply, nodeAt_apply hget]
  dsimp only
  cases a with
  | char | dot | bol | eol => rw [show n.type = _ from hatom]
  | «class» negated members =>
      rw [hatom.1]
      cases negated <;> rfl
  | cclass | boundary | balanced => rw [hatom.1]

/-- What `gstd_rex_matchnode` does with the fuel that there is. -/
def MatchesNodes (nodes : List Node) (front w back : List UInt8) (fuel : Nat) : Prop :=
  ∀ {lo mid hi i : Nat} {n : Node} {r : Regex} {next : Option Int} {exp : Matching} {p : Nat},
    nodes[i]? = some n → HeadAt nodes lo mid i n r → Represents nodes mid hi n.next r.tail →
    hi ≤ nodes.length → rank nodes.length lo mid < fuel →
    (n.next = -1 ∨ next = none ∨ next = some n.next) → Follows nodes mid next →
    Ready nodes front w back exp → p ≤ w.length →
    Runs (Risky w back) exp exp (gstd_rex_matchnode nodes fuel i (front.length + p : Nat) next)
      fun o _ => ∀ cur, o = some cur → Reaches front w r.head p cur

/-- What the loops over a list do. -/
def MatchesList (nodes : List Node) (front w back : List UInt8) (fuel : Nat) : Prop :=
  ∀ {lo hi : Nat} {l : Int} {r : Regex} {exp : Matching} {p : Nat},
    Represents nodes lo hi l r → r ≠ .nil → hi ≤ nodes.length →
    rank nodes.length lo hi + 1 < fuel → Ready nodes front w back exp → p ≤ w.length →
    Runs (Risky w back) exp exp (orLoop nodes fuel l (front.length + p : Nat))
        (fun o _ => ∀ cur, o = some cur → Reaches front w r p cur) ∧
      ∀ {next : Option Int}, Follows nodes hi next →
        Runs (Risky w back) exp exp (exprLoop nodes fuel l (front.length + p : Nat) next)
          fun o _ => ∀ cur, o = some cur → Reaches front w r p cur

/-- A look ahead of a repetition. -/
theorem satisfied_runs {fuel mid : Nat} {stop next : Option Int} {exp : Matching} {p : Nat}
    (ih : MatchesNodes nodes front w back fuel) (hfollows : Follows nodes mid stop)
    (hrank : ∀ {lo' mid' : Nat}, mid ≤ lo' → lo' ≤ nodes.length → mid' ≤ nodes.length →
      rank nodes.length lo' mid' < fuel)
    (hnext : next = none ∨ next = stop) (hexp : Ready nodes front w back exp)
    (hp : p ≤ w.length) :
    Runs (Risky w back) exp exp
      (satisfied nodes (gstd_rex_matchnode nodes fuel) stop next (front.length + p : Nat))
      fun _ _ => True := by
  unfold satisfied
  cases stop with
  | none => exact runs_pure (.refl exp) trivial
  | some l =>
      obtain ⟨lo, r, hlo, hr, hrep⟩ := hfollows l rfl
      obtain ⟨g, mid', n, rfl, hget, hhead, htail⟩ := hrep.headAt hr
      have hmid' := htail.le
      have hlo' := hhead.lt
      refine runs_bind_of_ok (nodeAt_apply hget exp) ?_
      split
      · refine runs_bind_of_ok (gnext_apply hget hnext exp) ?_
        have hlink : n.next = -1 ∨ link n.next = none ∨ link n.next = some n.next := by
          by_cases h : n.next = -1
          · exact .inl h
          · exact .inr (.inr (if_pos h))
        refine (ih hget hhead htail (Nat.le_refl _) (hrank hlo (by omega) hmid') hlink
          (follows_link htail (Nat.le_refl _)) hexp hp).bind fun o exp' hkept _ => ?_
        exact runs_pure hkept trivial
      · exact runs_pure (.refl exp) trivial

/-- A list: its first element, and then what is behind that. -/
theorem lists_run {fuel : Nat} (ih : MatchesNodes nodes front w back fuel)
    (ihlist : MatchesList nodes front w back fuel) :
    MatchesList nodes front w back (fuel + 1) := by
  intro lo hi l r exp p hrep hr hhi hfuel hexp hp
  obtain ⟨i, mid, n, rfl, hget, hhead, htail⟩ := hrep.headAt hr
  have hmid := htail.le
  have hlo := hhead.lt
  have hrank : rank nodes.length lo mid < fuel := by
    unfold rank at hfuel ⊢
    omega
  have hrank' : rank nodes.length mid hi + 1 < fuel := by
    have h := rank_behind hi hlo (Nat.le_trans hmid hhi) hhi
    omega
  have hlast : ∀ {cur : Int}, n.next = -1 → Reaches front w r.head p cur →
      Reaches front w r p cur := by
    rintro cur hnext ⟨j, rfl, hle, hj, hspans⟩
    refine Reaches.cons hspans hle ?_
    rw [htail.link_eq.mp hnext]
    exact reaches_nil hj
  constructor
  · unfold orLoop
    refine (ih hget hhead htail hhi hrank (.inr (.inl rfl)) (follows_none mid) hexp hp).bind
      fun o exp₁ hkept ho => ?_
    cases o with
    | none => exact runs_pure hkept nofun
    | some cur =>
        refine runs_bind_of_ok (nodeAt_apply hget exp₁) ?_
        by_cases hnext : n.next = -1
        · rw [if_neg (not_not_intro hnext)]
          refine runs_pure hkept ?_
          rintro _ ⟨⟩
          exact hlast hnext (ho cur rfl)
        · rw [if_pos hnext]
          obtain ⟨j, rfl, hle, hj, hspans⟩ := ho cur rfl
          refine ((ihlist htail (fun h => hnext (htail.link_eq.mpr h)) hhi hrank'
            (hexp.same hkept.toSame) hj).1.widen hkept).mono fun o' _ hkept' ho' => ⟨hkept', ?_⟩
          exact fun cur hcur => Reaches.cons hspans hle (ho' cur hcur)
  · intro next hfollows
    unfold exprLoop
    refine runs_bind_of_ok (nodeAt_apply hget exp) ?_
    by_cases hnext : n.next = -1
    · have hsub : (if n.next ≠ -1 then some n.next else next) = next :=
        if_neg (not_not_intro hnext)
      rw [hsub]
      refine (ih hget hhead htail hhi hrank (.inl hnext) (hfollows.mono hmid) hexp hp).bind
        fun o exp₁ hkept ho => ?_
      cases o with
      | none => exact runs_pure hkept nofun
      | some cur =>
          dsimp only
          rw [if_neg (not_not_intro hnext)]
          refine runs_pure hkept ?_
          rintro _ ⟨⟩
          exact hlast hnext (ho cur rfl)
    · have hsub : (if n.next ≠ -1 then some n.next else next) = link n.next :=
        (if_pos hnext).trans (if_pos hnext).symm
      rw [hsub]
      refine (ih hget hhead htail hhi hrank (.inr (.inr (if_pos hnext)))
        (follows_link htail hhi) hexp hp).bind fun o exp₁ hkept ho => ?_
      cases o with
      | none => exact runs_pure hkept nofun
      | some cur =>
          dsimp only
          rw [if_pos hnext]
          obtain ⟨j, rfl, hle, hj, hspans⟩ := ho cur rfl
          refine (((ihlist htail (fun h => hnext (htail.link_eq.mpr h)) hhi hrank'
            (hexp.same hkept.toSame) hj).2 hfollows).widen hkept).mono fun o' _ hkept' ho' => ⟨hkept', ?_⟩
          exact fun cur hcur => Reaches.cons hspans hle (ho' cur hcur)

/-- An element of each kind. -/
theorem nodes_run {fuel : Nat} (ih : MatchesNodes nodes front w back fuel)
    (ihlist : MatchesList nodes front w back fuel) :
    MatchesNodes nodes front w back (fuel + 1) := by
  intro lo mid hi i n r next exp p hget hhead htail hhi hfuel hnext hfollows hexp hp
  have hmid := Nat.le_trans htail.le hhi
  cases hhead with
  | @atom a rest hlo hi' hatom =>
      have hfuel' : mid < i + 1 + fuel := by
        unfold rank at hfuel
        omega
      unfold Runs
      rw [matchnode_of_atom hget hatom]
      refine (matchleaf_runs hexp.ranges hatom hfuel' hp).mono fun o _ hkept ho => ⟨hkept, ?_⟩
      intro cur hcur
      obtain ⟨j, hj, hle, hle', hspans⟩ := ho cur hcur
      exact ⟨j, hj, hle, hle', fun hr => ⟨j, hspans hr.1, rfl⟩⟩
  | @or left right htype hleft hright hlleft hlright =>
      have hi' := hlleft.le
      have hright' := hlright.le
      have hrankl := rank_within nodes.length (Nat.le_refl lo) hright'
      have hrankr := rank_behind mid (show lo < i + 1 by omega)
        (Nat.le_trans hright' hmid) hmid
      unfold gstd_rex_matchnode
      refine runs_bind_of_ok (nodeAt_apply hget exp) ?_
      rw [htype]
      refine ((ihlist hlleft hleft (by omega) (by omega) hexp hp).1).bind
        fun o exp₁ hkept ho => ?_
      cases o with
      | some cur => exact runs_pure hkept fun _ hcur => reaches_or (.inl (ho _ hcur))
      | none =>
          have hrun := (ihlist hlright hright hmid (by omega) (hexp.same hkept.toSame) hp).1
          exact (hrun.widen hkept).mono fun o _ hkept' ho' =>
            ⟨hkept', fun cur hcur => reaches_or (.inr (ho' cur hcur))⟩
  | @group capture body rest hlo hi' hgroup hbody hlist =>
      have hrank := rank_behind mid (show lo < i + 1 by omega)
        (Nat.le_trans hlist.le hmid) hmid
      have hspan : ∀ last, (∀ cur, some last = some cur → Reaches front w body p cur) →
          last ≤ exp.text.chars.length := fun last hlast => (hlast last rfl).le_chars hexp.ranges
      have hrun := group_runs (Risky w back)
        (exprLoop nodes fuel n.left (front.length + p : Nat) next) hexp.room hget hgroup
        (Int.natCast_nonneg (front.length + p)) hspan
        fun exp' hsame => (ihlist hlist hbody hmid (by omega) (hexp.same hsame) hp).2 hfollows
      unfold gstd_rex_matchnode
      refine runs_bind_of_ok (nodeAt_apply hget exp) ?_
      cases capture with
      | none =>
          rw [show n.type = _ from hgroup]
          exact hrun.mono fun o _ hkept ho =>
            ⟨hkept, fun cur hcur => reaches_group (ho cur hcur cur rfl)⟩
      | some capture =>
          rw [hgroup.1]
          exact hrun.mono fun o _ hkept ho =>
            ⟨hkept, fun cur hcur => reaches_group (ho cur hcur cur rfl)⟩
  | @greedy minimum maximum body rest hi' hgreedy hbody hlist =>
      obtain ⟨j, mid', m, hleft, hget', hhead', htail'⟩ := hlist.headAt hbody.ne_nil
      have hmid' := htail'.le
      have hlo' := hhead'.lt
      have hrank := rank_within nodes.length (Nat.le_refl lo)
        (Nat.lt_of_le_of_lt hmid' hi')
      have hm : m.next = -1 := htail'.link_eq.mpr hbody.tail_eq
      have hstop : Follows nodes mid (greedystop n next) := follows_greedystop htail hhi hfollows
      unfold gstd_rex_matchnode
      refine runs_bind_of_ok (nodeAt_apply hget exp) ?_
      rw [hgreedy.1, hgreedy.p0_eq, hgreedy.p1_eq]
      refine Runs.bind (greedyLoop_runs (Ready nodes front w back)
        (fun i j => i ≤ j ∧ (body.Regular → body.Spans w i j))
        (fun hkept h => h.same hkept.toSame) ?_ ?_ (bound_le maximum) (Nat.add_zero _) (Nat.zero_le _)
        hexp hp .zero) ?_
      · intro exp' q hexp' hq
        rw [hleft]
        refine (ih hget' hhead' htail' (by omega) (by omega) (.inl hm) (hstop.mono (by omega))
          hexp' hq).mono fun o _ hkept ho => ⟨hkept, fun cur hcur => ?_⟩
        obtain ⟨k, hk, hle, hk', hspans⟩ := ho cur hcur
        rw [hbody.head_eq] at hspans
        exact ⟨k, hk, hk', hle, hspans⟩
      · intro exp' q hexp' hq
        refine satisfied_runs ih hstop (fun hle hlo₁ hmid₁ => ?_) (eq_greedystop hnext) hexp' hq
        have h := rank_behind mid (show lo < _ by omega) hlo₁ hmid₁
        omega
      · rintro ⟨nmaches, good⟩ exp' hkept ⟨k, hgood, hk, hrepeats⟩
        refine runs_pure hkept fun cur hcur => ?_
        split at hcur
        · next henough =>
            cases hcur
            obtain rfl : good = _ := hgood
            exact reaches_greedy hrepeats hk henough
        · cases hcur

/-- With enough fuel, the matcher ends and stays in its range. -/
theorem matchnode_runs (fuel : Nat) :
    MatchesNodes nodes front w back fuel ∧ MatchesList nodes front w back fuel := by
  induction fuel with
  | zero =>
      constructor
      · intro lo mid hi i n r next exp p _ _ _ _ hfuel
        omega
      · intro lo hi l r exp p _ _ _ hfuel
        omega
  | succ fuel ih => exact ⟨nodes_run ih.1 ih.2, lists_run ih.1 ih.2⟩

end

end GameScript.Rex
