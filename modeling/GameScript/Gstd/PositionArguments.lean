import GameScript.Gstd.PositionsWithin

/-!
Which calls stay in the string they are made on. A search leaves it where it begins outside, and
where its pattern walks to a word boundary behind a space that ends the string; a capture also
where a group that the match does not begin holds a capture of another string.

Main result: `positions_within_iff`, for every string, arguments, pattern and use of the
expression before.
-/

namespace GameScript.Rex

open Effect

section

variable {s : Str} {args : List GSInteger} {start : Int} {fuel : Nat}

theorem Str.Walked.of_compiled {pattern : List UInt8} {r : Regex} {rex : GSRex}
    (h : Compiled pattern r rex) {o : Option (Nat × Nat)} {g : Groups} :
    s.Walked pattern start o g ↔ r.search (s.rest start) (s.behind start) = .ok o g := by
  constructor
  · rintro ⟨r', hreads, hwalk⟩
    rw [hreads.unique h.reads] at hwalk
    exact hwalk
  · exact fun hwalk => ⟨r, h.reads, hwalk⟩

/-- What a search of an expression comes to. -/
inductive Expression.Searches (e : Expression s) (start : Int) (fuel : Nat) : Prop where
  | outside : ¬ s.Within start →
      (∃ exp', gstd_rex_search e.rex fuel start { e.exp with text := s.toText } =
        .error .undefined exp') → e.Searches start fuel
  | unknown : s.Within start → (∀ o g, ¬ s.Walked e.pattern start o g) →
      (∃ exp', gstd_rex_search e.rex fuel start { e.exp with text := s.toText } =
        .error .undefined exp') → e.Searches start fuel
  | ends {res : Option (Int × Int)} {o : Option (Nat × Nat)} {g : Groups} {exp' : Matching} :
      s.Within start → s.Walked e.pattern start o g →
      gstd_rex_search e.rex fuel start { e.exp with text := s.toText } = .ok res exp' →
      Searched { e.exp with text := s.toText } exp' g → Usable e.rex s exp' →
      res.isSome = o.isSome → (∀ m ∈ res, s.Within m.1 ∧ s.Within m.2) → e.Searches start fuel

theorem Expression.searches (e : Expression s) (start : Int) (hfuel : e.rex.fuel ≤ fuel) :
    e.Searches start fuel := by
  obtain ⟨r, h⟩ := compiled_of_compile e.compiled
  have husable := e.reached.usable h
  by_cases hwithin : s.Within start
  · have hlen : (Matching.matches { e.exp with text := s.toText }).length = e.rex.matches.length :=
      husable.length_matches
    have hwalks := search_walks h hfuel hlen hwithin
    cases hrun : gstd_rex_search e.rex fuel start { e.exp with text := s.toText } with
    | error halt exp' =>
        obtain ⟨_, _, hwalk, hhalt⟩ := hwalks.of_error hrun
        obtain rfl : halt = .undefined := hhalt
        refine .unknown hwithin (fun o g hwalked => ?_) ⟨_, hrun⟩
        exact nomatch ((Str.Walked.of_compiled h).mp hwalked).symm.trans hwalk
    | ok res exp' =>
        obtain ⟨o, g, hwalk, ⟨rfl, hle⟩, hsearched⟩ := hwalks.of_ok hrun
        refine .ends hwithin ((Str.Walked.of_compiled h).mpr hwalk) hrun hsearched
          (husable.searched (.inl rfl) hsearched) (Option.isSome_map ..) ?_
        rintro m hm
        obtain ⟨⟨i, j⟩, hij, rfl⟩ := Option.map_eq_some_iff.mp hm
        obtain ⟨hi, hj⟩ := hle _ hij
        have hrest := hwithin.rest_le
        have hbegin : ((s.chars.take start.toNat).length : Int) = start := by
          have hend := hwithin.2
          have hstart := hwithin.1
          rw [List.length_take]
          omega
        unfold Text.Within
        dsimp only at hi hj hbegin ⊢
        omega
  · refine .outside hwithin ⟨{ e.exp with text := s.toText }, ?_⟩
    unfold gstd_rex_search
    rw [bind_apply, strlen_undefined hwithin]

/-- Where the search leaves the string, so does the call. -/
theorem not_meets_of_undefined {α : Type} {e : Expression s} {m : GSRex → Nat → MatchM α}
    {post : α → Prop} {exp' : Matching}
    (hrun : m e.rex e.rex.fuel { e.exp with text := s.toText } = .error .undefined exp') :
    ¬ e.Meets m post := by
  intro h
  have hanswers := h e.rex.fuel (Nat.le_refl _)
  unfold answer at hanswers
  rw [hrun] at hanswers
  exact hanswers

theorem search_meets_iff (e : Expression s) :
    (e.Meets (fun rex fuel => _regexp_search rex fuel args)
      fun res => ∀ m ∈ res, s.Within m.1 ∧ s.Within m.2) ↔ (Method.search e).Allowed args := by
  constructor
  · intro h
    have hundefined : ∀ exp', gstd_rex_search e.rex e.rex.fuel (args.headD 0).toInt
        { e.exp with text := s.toText } ≠ .error .undefined exp' := by
      refine fun exp' hrun => not_meets_of_undefined (?_ : _ = EStateM.Result.error Halt.undefined exp') h
      show _regexp_search e.rex e.rex.fuel args _ = _
      rw [_regexp_search, bind_apply, hrun]
    cases e.searches (args.headD 0).toInt (Nat.le_refl _) with
    | outside _ hrun => exact absurd hrun.choose_spec (hundefined _)
    | unknown _ _ hrun => exact absurd hrun.choose_spec (hundefined _)
    | ends hwithin hwalked => exact ⟨hwithin, _, _, hwalked⟩
  · rintro ⟨hwithin, o, g, hwalked⟩ fuel hfuel
    cases e.searches (args.headD 0).toInt hfuel with
    | outside hout => exact absurd hwithin hout
    | unknown _ hunknown => exact absurd hwalked (hunknown o g)
    | @ends res _ _ exp' _ _ hrun _ _ _ hres =>
        unfold answer
        dsimp only
        rw [_regexp_search, bind_apply, hrun]
        cases res with
        | none => exact nofun
        | some m =>
            dsimp only
            rw [get_bind_apply, bind_apply, addrexmatch_apply rfl]
            rintro _ ⟨⟩
            exact hres m rfl

/-- A group that has been begun holds no capture of another string. -/
theorem foreign_iff {e : Expression s} {g : Groups} {exp' : Matching}
    (hsearched : Searched { e.exp with text := s.toText } exp' g) :
    (∃ (k : Nat) (m : Match), 0 ≤ k ∧ exp'.matches[k]? = some m ∧ m.Foreign s) ↔ ¬ e.Own g := by
  constructor
  · rintro ⟨k, m, -, hget, hforeign⟩ hown
    by_cases hk : k ∈ g.begun
    · obtain ⟨i, hbegin, -⟩ := hsearched.inText k hk m hget hforeign.1
      exact hforeign.2 i hbegin
    · exact hown k hk m ((hsearched.matches_eq k hk).symm.trans hget) hforeign
  · intro hown
    by_contra hnone
    refine hown fun k hk m hget hforeign => hnone ⟨k, m, Nat.zero_le k, ?_, hforeign⟩
    exact (hsearched.matches_eq k hk).trans hget

theorem capture_meets_iff (e : Expression s) :
    (e.Meets (fun rex fuel => _regexp_capture rex fuel args)
      fun res => ∀ ms ∈ res, ∀ m ∈ ms, s.Within m.1 ∧ s.Within m.2) ↔
      (Method.capture e).Allowed args := by
  obtain ⟨r, h⟩ := compiled_of_compile e.compiled
  constructor
  · intro hmeets
    have hundefined : ∀ exp', _regexp_capture e.rex e.rex.fuel args
        { e.exp with text := s.toText } ≠ .error .undefined exp' := fun exp' hrun =>
      not_meets_of_undefined hrun hmeets
    unfold _regexp_capture at hundefined
    cases e.searches (args.headD 0).toInt (Nat.le_refl _) with
    | outside _ hrun =>
        obtain ⟨exp', hrun⟩ := hrun
        exact absurd (by rw [bind_apply, hrun]) (hundefined exp')
    | unknown _ _ hrun =>
        obtain ⟨exp', hrun⟩ := hrun
        exact absurd (by rw [bind_apply, hrun]) (hundefined exp')
    | @ends res o g exp' hwithin hwalked hrun hsearched husable hsome _ =>
        refine ⟨hwithin, o, g, hwalked, fun ho => ?_⟩
        by_contra hown
        have hlen := husable.length_matches.trans h.length_matches
        rcases captureLoop_answers hsearched.text husable (n := e.rex.nsubexpr) (i := 0)
          (by omega) with ⟨howns, -⟩ | ⟨-, hloop⟩
        · obtain ⟨k, m, hk, hget, hforeign⟩ := (foreign_iff hsearched).mpr hown
          exact howns k m hk hget hforeign
        · obtain ⟨m, rfl⟩ := Option.isSome_iff_exists.mp (hsome.trans ho)
          refine absurd ?_ (hundefined exp')
          rw [bind_apply, hrun]
          dsimp only
          rw [bind_apply, hloop]
  · rintro ⟨hwithin, o, g, hwalked, hown⟩ fuel hfuel
    cases e.searches (args.headD 0).toInt hfuel with
    | outside hout => exact absurd hwithin hout
    | unknown _ hunknown => exact absurd hwalked (hunknown o g)
    | @ends res o' g' exp' _ hwalked' hrun hsearched husable hsome _ =>
        have heq := ((Str.Walked.of_compiled h).mp hwalked).symm.trans
          ((Str.Walked.of_compiled h).mp hwalked')
        cases heq
        unfold answer
        dsimp only
        rw [_regexp_capture, bind_apply, hrun]
        cases res with
        | none => exact nofun
        | some m =>
            have hlen := husable.length_matches.trans h.length_matches
            rcases captureLoop_answers hsearched.text husable (n := e.rex.nsubexpr) (i := 0)
              (by omega) with ⟨-, ms, hloop, hms⟩ | ⟨hforeign, -⟩
            · dsimp only
              rw [bind_apply, hloop]
              rintro _ ⟨⟩
              exact hms
            · exact absurd (hown hsome.symm) ((foreign_iff hsearched).mp hforeign)

end

/-- A string of one character. -/
def single (ref : Ref) (x : UInt8) : Str := ⟨⟨ref, [x]⟩, show 1 < 2 ^ 63 by decide⟩

/-- What `a` is compiled to. -/
def letterRex : GSRex where
  nodes := [⟨.OP_EXPR, 1, 0, -1⟩, ⟨.char (SC 'a'), -1, -1, -1⟩]
  first := 0
  nsubexpr := 1
  «matches» := [⟨none, 0⟩]

def letter (s : Str) : Expression s where
  pattern := sc "a"
  rex := letterRex
  exp := ⟨s.toText, 0, 0, 0, [⟨none, 0⟩]⟩
  compiled := rfl
  reached := .compiled rfl

end GameScript.Rex
