import GameScript.Gstd.Positions

/-!
Which methods stay inside the string that they are called on, whatever the positions are.
-/

namespace GameScript.Rex

open Effect

/-! ### Strings -/

section

variable {s : Str} {α β : Type} {post : α → Prop}

theorem Str.toInt_len (s : Str) : s.len.toInt = s.chars.length :=
  Int64.toInt_ofNat_of_lt s.length_lt

theorem Answers.bind {m : Except Halt β} {f : β → Except Halt α} {post' : β → Prop}
    (hm : Answers post' m) (hf : ∀ b, post' b → Answers post (f b)) : Answers post (m >>= f) := by
  cases m with
  | ok b => exact hf b hm
  | error e => cases e <;> exact hm

/-- The range that is not refused lies in the string. -/
theorem slice_range_answers (s : Str) (args : List GSInteger) :
    Answers (fun p => ∃ i j : Nat, p.1.toInt = (i : Int) ∧ p.2.toInt = (j : Int) ∧ i ≤ j ∧ j ≤ s.chars.length)
      (slice_range s args) := by
  have hlen := s.toInt_len
  unfold slice_range
  obtain ⟨sidx, eidx⟩ := get_slice_params s args
  dsimp only
  generalize (if sidx < 0 then s.len + sidx else sidx) = sidx
  generalize (if eidx < 0 then s.len + eidx else eidx) = eidx
  split
  · trivial
  · next hle =>
      split
      · trivial
      · next hout =>
          rw [not_or] at hout
          have hle' := Int.not_lt.mp fun h => hle (Int64.lt_iff_toInt_lt.mpr h)
          have hend := Int.not_lt.mp fun h => hout.1 (Int64.lt_iff_toInt_lt.mpr h)
          have hbegin : 0 ≤ sidx.toInt :=
            Int.not_lt.mp fun h => hout.2 (Int64.lt_iff_toInt_lt.mpr h)
          refine ⟨sidx.toInt.toNat, eidx.toInt.toNat, ?_, ?_, ?_, ?_⟩
          · exact (Int.toNat_of_nonneg hbegin).symm
          · exact (Int.toNat_of_nonneg (Int.le_trans hbegin hle')).symm
          · omega
          · omega

theorem read_eq (s : Text) {i j : Nat} (hij : i ≤ j) (hj : j ≤ s.chars.length) :
    s.read i (j - i : Nat) = .ok ((s.chars.drop i).take (j - i)) := by
  unfold Text.read
  rw [if_pos (by omega)]
  rfl

theorem slice_answers (s : Str) (args : List GSInteger) :
    Answers (fun res => ∃ i j : Nat, i ≤ j ∧ j ≤ s.chars.length ∧
      res = (s.chars.drop i).take (j - i)) (string_slice s args) := by
  unfold string_slice
  refine (slice_range_answers s args).bind ?_
  rintro ⟨sidx, eidx⟩ ⟨i, j, hi, hj, hle, hend⟩
  have hlt := s.length_lt
  have hsub : (eidx - sidx).toInt = (j - i : Nat) := by
    rw [Int64.toInt_sub, hi, hj]
    exact (Int.bmod_eq_of_le (by omega) (by omega)).trans (by omega)
  show Answers _ (s.read sidx.toInt (eidx - sidx).toInt)
  rw [hsub, hi, read_eq s.toText hle hend]
  exact ⟨i, j, hle, hend, rfl⟩

/-- The loop rewrites `n` characters from the position `i` on. -/
theorem tofuncLoop_eq (func : UInt8 → UInt8) (s : Text) {n : Nat} :
    ∀ {i : Nat} {snew : List UInt8}, snew.length = s.chars.length → i + n ≤ s.chars.length →
      tofuncLoop func s n i snew = .ok (snew.take i ++ ((s.chars.drop i).take n).map func ++
        snew.drop (i + n)) := by
  induction n with
  | zero =>
      intro i snew _ _
      rw [List.take_zero, List.map_nil, List.append_nil, Nat.add_zero, List.take_append_drop]
      rfl
  | succ n ih =>
      intro i snew hlen hle
      have hi : i < s.chars.length := by omega
      have hi' : i < snew.length := by omega
      have hget : s.get? i = some s.chars[i] := by
        unfold Text.get?
        rw [if_pos (by omega), Int.toNat_natCast, List.getD_eq_getElem?_getD,
          List.getElem?_eq_getElem hi, Option.getD_some]
      have hcast : (i : Int) + 1 = (i + 1 : Nat) := rfl
      have hdrop : i + (n + 1) = i + 1 + n := by omega
      unfold tofuncLoop
      rw [hget]
      dsimp only
      rw [if_pos (by omega), Int.toNat_natCast, hcast, ih ((List.length_set ..).trans hlen)
        (by omega), List.take_add_one, List.take_set_of_le (Nat.le_refl i),
        List.getElem?_set_self hi', List.drop_set_of_lt (by omega), hdrop,
        List.drop_eq_getElem_cons hi, List.take_succ_cons, List.map_cons, Option.toList_some,
        List.append_assoc, List.append_assoc, List.append_assoc]
      rfl

theorem tofunc_answers (func : UInt8 → UInt8) (s : Str) (args : List GSInteger) :
    Answers (fun res => ∃ i j : Nat, i ≤ j ∧ j ≤ s.chars.length ∧
      res = s.chars.take i ++ ((s.chars.drop i).take (j - i)).map func ++ s.chars.drop j)
      (string_tofunc func s args) := by
  unfold string_tofunc
  refine (slice_range_answers s args).bind ?_
  rintro ⟨sidx, eidx⟩ ⟨i, j, hi, hj, hle, hend⟩
  have hread : s.read 0 s.len.toInt = .ok s.chars := by
    rw [s.toInt_len]
    exact (read_eq s.toText (Nat.zero_le _) (Nat.le_refl _)).trans
      (congrArg Except.ok (List.take_length ..))
  dsimp only at hi hj ⊢
  have hsub : (eidx.toInt - sidx.toInt).toNat = j - i := by omega
  rw [hread, hsub, hi]
  show Answers _ (tofuncLoop func s.toText (j - i) i s.chars)
  rw [tofuncLoop_eq func s.toText rfl (by omega), Nat.add_sub_cancel' hle]
  exact ⟨i, j, hle, hend, rfl⟩

theorem find_answers (s : Str) (substr : List UInt8) (args : List GSInteger) :
    Answers (fun res => ∀ i ∈ res, s.Within i) (string_find s substr args) := by
  unfold string_find
  dsimp only
  split
  · next hstart =>
      have hlt := Int64.lt_iff_toInt_lt.mp hstart.1
      have hle := Int64.le_iff_toInt_le.mp hstart.2
      have hlen := s.toInt_len
      have hzero : (0 : GSInteger).toInt = 0 := rfl
      generalize (args.headD 0).toInt = i at hlt hle
      unfold scstrstr
      rw [if_pos (by omega)]
      intro _ hres
      obtain ⟨k, hk, rfl⟩ := Option.map_eq_some_iff.mp hres
      have hmem := List.mem_range.mp (List.mem_of_find?_eq_some hk)
      have hterminated : (zeroTerminated (s.chars.drop i.toNat)).length ≤ s.chars.length - i.toNat :=
        Nat.le_trans (List.takeWhile_sublist _).length_le (Nat.le_of_eq (List.length_drop ..))
      unfold Text.Within
      omega
  · exact nofun

end

/-! ### Searches -/

section

variable {text : Text} {exp : Matching} {start : Int} {pattern : List UInt8} {r : Regex}
  {rex : GSRex} {fuel : Nat}

theorem strlen_apply (h : exp.text.Within start) :
    strlen start exp = .ok (exp.text.rest start).length exp := by
  rw [strlen, get_bind_apply]
  exact congrFun (if_pos h) exp

theorem strlen_undefined (h : ¬ exp.text.Within start) :
    strlen start exp = .error .undefined exp := by
  rw [strlen, get_bind_apply]
  exact congrFun (if_neg h) exp

theorem rest_eq_take (text : Text) (start : Int) :
    text.rest start = (text.chars.drop start.toNat).take (text.rest start).length :=
  List.prefix_iff_eq_take.mp (List.takeWhile_prefix _)

theorem Text.Within.rest_le (h : text.Within start) :
    start + (text.rest start).length ≤ text.chars.length := by
  have hlen := congrArg List.length (rest_eq_take text start)
  rw [List.length_take, List.length_drop] at hlen
  obtain ⟨hbegin, hend⟩ := h
  omega

theorem ranges_rest (h : exp.text.Within start) :
    (exp.over start (start + (exp.text.rest start).length)).Ranges
      (exp.text.chars.take start.toNat) (exp.text.rest start) (exp.text.behind start) := by
  have hfront : (exp.text.chars.take start.toNat).length = start.toNat := by
    have hend := h.2
    rw [List.length_take]
    omega
  have hbol : start = ((exp.text.chars.take start.toNat).length : Int) := by
    rw [hfront]
    exact (Int.toNat_of_nonneg h.1).symm
  refine ⟨?_, hbol, congrArg (· + _) hbol, fun hrest => ?_⟩
  · show exp.text.chars = _
    have hbehind := List.take_append_drop (exp.text.rest start).length
      (exp.text.chars.drop start.toNat)
    rw [← rest_eq_take] at hbehind
    rw [List.append_assoc, Text.behind, hbehind, List.take_append_drop]
  · unfold Text.behind
    rw [hrest]
    unfold Text.rest zeroTerminated at hrest
    cases hdrop : exp.text.chars.drop start.toNat with
    | nil => rfl
    | cons c cs =>
        rw [hdrop, List.takeWhile_cons] at hrest
        split at hrest
        · cases hrest
        · next hc =>
            obtain rfl : c = 0 := by simpa using hc
            rfl

/-- A search walks as its pattern says. -/
theorem search_walks (h : Compiled pattern r rex) (hfuel : rex.fuel ≤ fuel)
    (hexp : exp.matches.length = rex.matches.length) (hstart : exp.text.Within start) :
    MirrorsAt (Searched exp) Leaves
      (Ends (exp.text.chars.take start.toNat) (exp.text.rest start))
      (gstd_rex_search rex fuel start)
      (r.searchFrom (exp.text.rest start) (exp.text.behind start) (exp.text.rest start).length 0)
      exp ⟨0, []⟩ := by
  have hranges := ranges_rest hstart
  have hbol : start = ((exp.text.chars.take start.toNat).length : Int) := hranges.bol
  unfold gstd_rex_search
  refine mirrorsAt_bind_left (strlen_apply hstart) ?_
  unfold gstd_rex_searchrange
  by_cases hrest : exp.text.rest start = []
  · rw [hrest, if_pos (by simp)]
    exact mirrorsAt_of_ok rfl rfl ⟨rfl, nofun⟩ ⟨rfl, rfl, fun _ _ => rfl, nofun⟩
  · have hlen := List.length_pos_iff.mpr hrest
    rw [if_neg (by omega)]
    refine mirrorsAt_bind_left (modify_apply _ exp) ?_
    have hroom := h.room hexp
    have hloop := searchLoop_walks h hfuel ⟨hranges, hroom⟩ (p := 0)
      (n := (start + (exp.text.rest start).length - start).toNat + 1) hlen (by omega)
      { exp with bol := start, eol := start + (exp.text.rest start).length } ⟨0, []⟩
      ⟨⟨rfl, rfl, rfl, rfl⟩, rfl, nofun, fun _ _ => rfl, nofun⟩
    have hzero : (((exp.text.chars.take start.toNat).length + 0 : Nat) : Int) = start := hbol.symm
    have hend : (((exp.text.chars.take start.toNat).length + (exp.text.rest start).length : Nat) :
        Int) = start + (exp.text.rest start).length := by
      push_cast
      rw [← hbol]
    rw [hzero, hend] at hloop
    exact hloop.mono (fun _ _ => id) fun exp' g hexp' => hexp'.searched rfl rfl

/-- So does a match of the whole string, in one attempt. -/
theorem match_walks (h : Compiled pattern r rex) (hfuel : rex.fuel ≤ fuel)
    (hexp : exp.matches.length = rex.matches.length) (hstart : exp.text.Within start) :
    MirrorsAt (Searched exp) Leaves (fun _ _ => True) (gstd_rex_match rex fuel start)
      (r.first (exp.text.rest start) (exp.text.behind start) none 0) exp ⟨0, []⟩ := by
  have hranges := ranges_rest hstart
  have hbol : start = ((exp.text.chars.take start.toNat).length : Int) := hranges.bol
  have hfirst := first_walks h hfuel ⟨hranges, h.room hexp⟩ (Nat.zero_le _)
    (exp.over start (start + (exp.text.rest start).length)) ⟨0, []⟩
    ⟨⟨rfl, rfl, rfl, rfl⟩, rfl, nofun, fun _ _ => rfl, nofun⟩
  rw [h.first_eq, Nat.add_zero, ← hbol] at hfirst
  unfold gstd_rex_match
  refine mirrorsAt_bind_left (strlen_apply hstart) (mirrorsAt_bind_left (modify_apply _ exp) ?_)
  rw [← bind_pure (Regex.first _ _ r none 0)]
  refine MirrorsAt.bind hfirst fun o o' exp' g _ hexp' _ _ => ?_
  exact mirrorsAt_of_ok rfl rfl trivial (hexp'.restarts.searched rfl rfl)

/-! ### What an expression has been used for -/

/-- The captures of an expression that were made in `s` are parts of it. -/
structure Usable (rex : GSRex) (s : Str) (exp : Matching) : Prop where
  length_matches : exp.matches.length = rex.matches.length
  inText : ∀ (k : Nat) (m : Match), exp.matches[k]? = some m → 0 < m.len →
    ∀ i, m.begin = some (s.ref, i) → m.InText s.toText

/-- A search keeps an expression usable. -/
theorem Usable.searched {s t : Str} {exp' : Matching} {g : Groups} (h : Usable rex s exp)
    (hadmits : s.Admits t) (hsearched : Searched { exp with text := t.toText } exp' g) :
    Usable rex s exp' := by
  refine ⟨hsearched.length_matches.trans h.length_matches, fun k m hget hlen i hbegin => ?_⟩
  by_cases hk : k ∈ g.begun
  · have hin := hsearched.inText k hk m hget hlen
    rcases hadmits with rfl | hne
    · exact hin
    · obtain ⟨j, hj, -⟩ := hin
      have href := congrArg Prod.fst (Option.some.inj (hj.symm.trans hbegin))
      exact absurd href hne
  · rw [hsearched.matches_eq k hk] at hget
    exact h.inText k m hget hlen i hbegin

theorem within_of_search {fuel : Nat} {res : Option (Int × Int)} {exp' : Matching}
    (h : gstd_rex_search rex fuel start exp = .ok res exp') : exp.text.Within start := by
  by_contra hstart
  unfold gstd_rex_search at h
  rw [bind_apply, strlen_undefined hstart] at h
  cases h

theorem Reached.usable {s : Str} (hreached : Reached rex s exp) (h : Compiled pattern r rex) :
    Usable rex s exp := by
  induction hreached with
  | compiled hmatches =>
      refine ⟨congrArg List.length hmatches, fun k m hget hlen => ?_⟩
      rw [hmatches, h.matches_eq] at hget
      obtain rfl := List.eq_of_mem_replicate (List.mem_of_getElem? hget)
      exact absurd hlen (by decide)
  | @search exp exp' t fuel start res _ hadmits hfuel hrun ih =>
      have hlen : (Matching.matches { exp with text := t.toText }).length = rex.matches.length :=
        ih.length_matches
      obtain ⟨_, g, -, hsearched⟩ :=
        (search_walks h hfuel hlen (within_of_search hrun)).of_ok hrun
      exact ih.searched hadmits hsearched.2
  | @«match» exp exp' t fuel res _ hadmits hfuel hrun ih =>
      have hlen : (Matching.matches { exp with text := t.toText }).length = rex.matches.length :=
        ih.length_matches
      have hzero : t.toText.Within 0 := ⟨Int.le_refl 0, Int.natCast_nonneg _⟩
      obtain ⟨_, g, -, hsearched⟩ := (match_walks h hfuel hlen hzero).of_ok hrun
      exact ih.searched hadmits hsearched.2

/-! ### Methods of expressions -/

theorem offset_apply {ref : Ref} (h : exp.text.ref = ref) (i : Int) :
    offset (some (ref, i)) exp = .ok i exp := by
  rw [offset, get_bind_apply]
  exact congrFun (if_pos h.symm) exp

theorem addrexmatch_apply {ref : Ref} (h : exp.text.ref = ref) (first last : Int) :
    _addrexmatch (some (ref, first)) (some (ref, last)) exp = .ok (first, last) exp := by
  unfold _addrexmatch
  rw [bind_apply, offset_apply h]
  dsimp only
  rw [bind_apply, offset_apply h]
  rfl

/-- A capture is given exactly where it is of the text itself. -/
theorem addcapture_answers {s : Str} {m : Match} (htext : exp.text = s.toText)
    (hin : 0 < m.len → ∀ i, m.begin = some (s.ref, i) → m.InText s.toText) :
    (¬ m.Foreign s ∧ ∃ range, addcapture m exp = .ok range exp ∧ s.Within range.1 ∧
      s.Within range.2) ∨ m.Foreign s ∧ addcapture m exp = .error .undefined exp := by
  have href : exp.text.ref = s.ref := congrArg Text.ref htext
  unfold addcapture
  rw [get_bind_apply]
  by_cases hlen : 0 < m.len
  · rw [if_pos hlen]
    by_cases hforeign : m.Foreign s
    · refine .inr ⟨hforeign, ?_⟩
      have hoffset : offset m.begin exp = .error .undefined exp := by
        cases hbegin : m.begin with
        | none => rfl
        | some pointer =>
            obtain ⟨ref, i⟩ := pointer
            have hne : ref ≠ exp.text.ref := by
              rintro rfl
              exact hforeign.2 i (href ▸ hbegin)
            rw [offset, get_bind_apply]
            exact congrFun (if_neg hne) exp
      unfold _addrexmatch
      rw [bind_apply, hoffset]
    · refine .inl ⟨hforeign, ?_⟩
      obtain ⟨i, hbegin⟩ : ∃ i, m.begin = some (s.ref, i) := by
        by_contra hnone
        exact hforeign ⟨hlen, fun i hi => hnone ⟨i, hi⟩⟩
      obtain ⟨j, hj, hle, hle'⟩ := hin hlen i hbegin
      rw [hj]
      refine ⟨_, addrexmatch_apply href _ _, ⟨hle, ?_⟩, ?_, hle'⟩
      · dsimp only
        omega
      · dsimp only
        omega
  · rw [if_neg hlen]
    refine .inl ⟨fun h => hlen h.1, _, addrexmatch_apply rfl _ _, ?_, ?_⟩
    · exact ⟨Int.le_refl 0, Int.natCast_nonneg _⟩
    · exact ⟨Int.le_refl 0, Int.natCast_nonneg _⟩

/-- The captures are given exactly where none is of another string. -/
theorem captureLoop_answers {s : Str} (htext : exp.text = s.toText)
    (husable : Usable rex s exp) {n : Nat} : ∀ {i : Nat}, i + n = exp.matches.length →
      ((∀ k m, i ≤ k → exp.matches[k]? = some m → ¬ m.Foreign s) ∧
        ∃ ms, captureLoop n i exp = .ok ms exp ∧ ∀ m ∈ ms, s.Within m.1 ∧ s.Within m.2) ∨
      (∃ k m, i ≤ k ∧ exp.matches[k]? = some m ∧ m.Foreign s) ∧
        captureLoop n i exp = .error .undefined exp := by
  induction n with
  | zero =>
      intro i hi
      refine .inl ⟨fun k m hk hget => ?_, [], rfl, nofun⟩
      have hlt := (List.getElem?_eq_some_iff.mp hget).1
      omega
  | succ n ih =>
      intro i hi
      have hget := List.getElem?_eq_getElem (l := exp.matches) (i := i) (by omega)
      have hmatch : gstd_rex_getsubexp i exp = .ok exp.matches[i] exp := by
        rw [gstd_rex_getsubexp, get_bind_apply, hget]
        rfl
      rw [captureLoop, bind_apply, hmatch]
      dsimp only
      rw [bind_apply]
      rcases addcapture_answers htext (husable.inText i _ hget) with
        ⟨hown, range, hrange, hwithin⟩ | ⟨hforeign, hrange⟩
      · rw [hrange]
        dsimp only
        rw [bind_apply]
        rcases ih (i := i + 1) (by omega) with ⟨howns, ms, hrest, hms⟩ | ⟨⟨k, m, hk, hm⟩, hrest⟩
        · rw [hrest]
          refine .inl ⟨fun k m hk hm => ?_, range :: ms, rfl,
            List.forall_mem_cons.mpr ⟨hwithin, hms⟩⟩
          by_cases hki : k = i
          · subst hki
            rw [hget] at hm
            cases hm
            exact hown
          · exact howns k m (by omega) hm
        · rw [hrest]
          exact .inr ⟨⟨k, m, by omega, hm⟩, rfl⟩
      · rw [hrange]
        exact .inr ⟨⟨i, _, Nat.le_refl i, hget, hforeign⟩, rfl⟩

end

end GameScript.Rex
