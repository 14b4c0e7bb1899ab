import GameScript.GSLexer

/-!
`_string_escape` (`gstdstring.cpp`) and the lexer reading its result as a string literal.

The text is written into the scratch pad, four characters for each of the string. A
character that is neither printed nor has an escape of its own goes through `snprintf`
with `%02x`. A `char` is signed, so one from 128 on is printed as a negative `int`, with
eight digits, of which the lexer reads two. And `snprintf` is told that the pad as a whole has
room, zero included: one character that needs all of it loses its last digit, and where every
character needs four, the zero of the last one is written behind what was asked for.
`inverse_iff` says which strings are left.
-/

namespace GameScript.Escape

/-! ### The escaped text -/

/-- A digit that `%x` prints. -/
def hexDigit (n : Nat) : UInt8 :=
  if n < 10 then UInt8.ofNat (48 + n) else UInt8.ofNat (87 + n)

/-- What the pattern `\x%02x` makes of a `char`. -/
def hexEscape (c : UInt8) : List UInt8 :=
  sc "\\x" ++ (if c < 0x80 then [] else sc "ffffff") ++
    [hexDigit (c.toNat / 16), hexDigit (c.toNat % 16)]

/-- `escch`: the letter of an escape, where there is one. -/
def escch (c : UInt8) : Option UInt8 :=
  if c = 7 then some (SC 'a')
  else if c = 8 then some (SC 'b')
  else if c = 9 then some (SC 't')
  else if c = 10 then some (SC 'n')
  else if c = 11 then some (SC 'v')
  else if c = 12 then some (SC 'f')
  else if c = 13 then some (SC 'r')
  else if c = SC '\\' then some (SC '\\')
  else if c = SC '"' then some (SC '"')
  else if c = SC '\'' then some (SC '\'')
  else if c = 0 then some (SC '0')
  else none

/-- The loop's state: the scratch pad, the next character of it, `escaped`, and the end of what
has been written into the pad. -/
structure State where
  pad : Nat → UInt8
  dest : Nat := 0
  escaped : Nat := 0
  extent : Nat := 0

/-- Writes bytes into the scratch pad. -/
def write (pad : Nat → UInt8) (pos : Nat) (bytes : List UInt8) : Nat → UInt8 := fun i =>
  if pos ≤ i ∧ i < pos + bytes.length then bytes.getD (i - pos) 0 else pad i

/-- `snprintf` into `n` characters: what fits of the text, and a zero. -/
def snprintf (pad : Nat → UInt8) (pos n : Nat) (text : List UInt8) : Nat → UInt8 :=
  if n = 0 then pad else write pad pos (text.take (n - 1) ++ [0])

/-- The number of characters that `snprintf` writes, with the zero. -/
def snprintfSize (n : Nat) (text : List UInt8) : Nat :=
  if n = 0 then 0 else min (n - 1) text.length + 1

/-- One round of the loop. -/
def escapeChar (destcharsize : Nat) (st : State) (c : UInt8) : State :=
  if isPrint c ∨ c = 0 then
    match escch c with
    | some e =>
      { pad := write st.pad st.dest [SC '\\', e]
        dest := st.dest + 2
        escaped := st.escaped + 1
        extent := max st.extent (st.dest + 2) }
    | none =>
      { st with
        pad := write st.pad st.dest [c]
        dest := st.dest + 1
        extent := max st.extent (st.dest + 1) }
  else
    { pad := snprintf st.pad st.dest destcharsize (hexEscape c)
      dest := st.dest + (hexEscape c).length
      escaped := st.escaped + 1
      extent := max st.extent (st.dest + snprintfSize destcharsize (hexEscape c)) }

/-- The loop over the characters of `s`. -/
def escapeLoop (pad : Nat → UInt8) (s : List UInt8) : State :=
  s.foldl (escapeChar (4 * s.length)) { pad := pad }

/-- The first `n` characters of the scratch pad. -/
def front (pad : Nat → UInt8) (n : Nat) : List UInt8 := (List.range n).map pad

/-- `_string_escape` with what the scratch pad held before. The counter of the loop is an
`int`, so a string it cannot count through is undefined. -/
def string_escape (pad : Nat → UInt8) (s : List UInt8) : Option (List UInt8) :=
  if s.length = 0 then some s
  else if INT_MAX < s.length then none
  else
    let st := escapeLoop pad s
    if st.escaped ≠ 0 then some (front st.pad st.dest) else some s

/-! ### Escaping and lexing -/

/-- The text is one string literal with the value `s`, whatever `_fvalue` was. -/
def LexesTo (strtod : List UInt8 → GSFloat) (text s : List UInt8) : Prop :=
  ∀ v, ∃ n l l', GSLexer.Lex strtod n { text := text, fvalue := v } = .ok (.TK_STRING_LITERAL, l) ∧
    l.svalue = s ∧ GSLexer.Lex strtod n l = .ok (.eob, l')

/-- Escaping `s` writes into the scratch space asked for only, and the lexer gets `s` back. -/
def Inverse (strtod : List UInt8 → GSFloat) (pad : Nat → UInt8) (s : List UInt8) : Prop :=
  ∃ text, string_escape pad s = some text ∧ text.length ≤ 4 * s.length ∧
    (escapeLoop pad s).extent ≤ 4 * s.length ∧ LexesTo strtod (SC '"' :: text ++ [SC '"']) s

/-! ### Writing -/

/-- What one character is written as, with enough room. -/
def encode (c : UInt8) : List UInt8 :=
  if isPrint c ∨ c = 0 then
    match escch c with
    | some e => [SC '\\', e]
    | none => [c]
  else hexEscape c

/-- `snprintf` has room for the escape and its zero. -/
def Fits (n : Nat) (c : UInt8) : Prop := isPrint c ∨ c = 0 ∨ (hexEscape c).length < n

theorem front_length (pad : Nat → UInt8) (n : Nat) : (front pad n).length = n := by
  simp [front]

/-- Bytes written behind the front lengthen it. -/
theorem front_write (pad : Nat → UInt8) (pos : Nat) (bytes : List UInt8) :
    front (write pad pos bytes) (pos + bytes.length) = front pad pos ++ bytes := by
  refine List.ext_getElem ?_ fun i h₁ h₂ => ?_
  · simp [front]
  · rw [front_length] at h₁
    simp only [front, List.getElem_map, List.getElem_range, write]
    by_cases hi : i < pos
    · rw [if_neg (by omega), List.getElem_append_left (by simpa using hi)]
      simp
    · have hlt : i - pos < bytes.length := by omega
      rw [if_pos ⟨by omega, h₁⟩, List.getElem_append_right (by simpa using hi)]
      simp [hlt]

/-- Writing further on changes nothing in front. -/
theorem front_write_of_le {pad : Nat → UInt8} {pos n : Nat} (h : n ≤ pos) (bytes : List UInt8) :
    front (write pad pos bytes) n = front pad n := by
  refine List.map_congr_left fun i hi => ?_
  have hlt : i < n := List.mem_range.mp hi
  unfold write
  rw [if_neg (by omega)]

theorem escapeChar_dest (n : Nat) (st : State) (c : UInt8) :
    (escapeChar n st c).dest = st.dest + (encode c).length := by
  unfold escapeChar encode
  split
  · split <;> rfl
  · rfl

/-- A character that fits is written after what is there. -/
theorem front_escapeChar {n : Nat} {c : UInt8} (h : Fits n c) (st : State) :
    front (escapeChar n st c).pad (escapeChar n st c).dest =
      front st.pad st.dest ++ encode c := by
  rw [escapeChar_dest]
  unfold escapeChar encode
  split
  · split
    · exact front_write st.pad st.dest _
    · exact front_write st.pad st.dest [c]
  · rename_i hc
    have hroom : (hexEscape c).length < n := by
      rcases h with h | h | h
      · exact absurd (.inl h) hc
      · exact absurd (.inr h) hc
      · exact h
    have htake : (hexEscape c).take (n - 1) = hexEscape c :=
      List.take_of_length_le (by omega)
    show front (snprintf st.pad st.dest n (hexEscape c)) _ = _
    unfold snprintf
    rw [if_neg (by omega), htake, ← front_write st.pad st.dest (hexEscape c)]
    -- the zero is behind the text
    refine List.map_congr_left fun i hi => ?_
    have hlt : i < st.dest + (hexEscape c).length := List.mem_range.mp hi
    unfold write
    by_cases hpos : st.dest ≤ i
    · have hin : i - st.dest < (hexEscape c).length := by omega
      rw [if_pos ⟨hpos, by simp; omega⟩, if_pos ⟨hpos, hlt⟩, List.getD_eq_getElem?_getD,
        List.getD_eq_getElem?_getD, List.getElem?_append_left hin]
    · rw [if_neg (by omega), if_neg (by omega)]

/-- What is in front stays there. -/
theorem front_foldl (n : Nat) (s : List UInt8) (st : State) {k : Nat} (hk : k ≤ st.dest) :
    front (s.foldl (escapeChar n) st).pad k = front st.pad k ∧
      k ≤ (s.foldl (escapeChar n) st).dest := by
  induction s generalizing st with
  | nil => exact ⟨rfl, hk⟩
  | cons c s ih =>
    have hdest : k ≤ (escapeChar n st c).dest := by
      rw [escapeChar_dest]
      omega
    have hpad : front (escapeChar n st c).pad k = front st.pad k := by
      unfold escapeChar snprintf
      split
      · split
        · exact front_write_of_le hk _
        · exact front_write_of_le hk _
      · dsimp only
        split
        · rfl
        · exact front_write_of_le hk _
    rw [List.foldl_cons]
    obtain ⟨hfront, hle⟩ := ih _ hdest
    exact ⟨hfront.trans hpad, hle⟩

/-- Where every character fits, the pad holds the encodings one after the
other. -/
theorem foldl_of_fits {n : Nat} {s : List UInt8} (h : ∀ c ∈ s, Fits n c) (st : State) :
    front (s.foldl (escapeChar n) st).pad (s.foldl (escapeChar n) st).dest =
      front st.pad st.dest ++ s.flatMap encode := by
  induction s generalizing st with
  | nil => simp
  | cons c s ih =>
    have hc : Fits n c := h c List.mem_cons_self
    have hs : ∀ d ∈ s, Fits n d := fun d hd => h d (List.mem_cons_of_mem c hd)
    rw [List.foldl_cons, ih hs, front_escapeChar hc, List.flatMap_cons, List.append_assoc]

/-! ### Reading -/

open GSLexer (readChars)

/-- What the lexer makes of an escaped character: of eight digits it takes two. -/
def decode (c : UInt8) : List UInt8 :=
  if c < 0x80 then [c]
  else 0xFF :: (sc "ffff" ++ [hexDigit (c.toNat / 16), hexDigit (c.toNat % 16)])

/-- The characters that a string literal holds as they are. -/
def Plain (c : UInt8) : Prop := c ≠ SC '"' ∧ c ≠ 0 ∧ c ≠ SC '\n' ∧ c ≠ SC '\\'

theorem hexDigit_facts :
    ∀ k < 16, isXDigit (hexDigit k) = true ∧ Plain (hexDigit k) ∧ digitValue (hexDigit k) = k := by
  unfold Plain
  decide

/-- A plain character is read as it is. -/
theorem readChars_plain {l : GSLexer} {c : UInt8} {rest : List UInt8} (hc : Plain c)
    (h : l.text = c :: rest) (n : Nat) :
    readChars (SC '"') false (n + 1) l =
      readChars (SC '"') false n { l with text := rest, longstr := l.longstr ++ [c] } := by
  rw [readChars]
  dsimp only
  rw [GSLexer.CUR_CHAR_of_text h, GSLexer.take_of_text h, if_neg hc.1, if_neg hc.2.1,
    if_neg hc.2.2.1, if_neg (fun hx => hc.2.2.2 hx.1)]

theorem readChars_plains {ds rest : List UInt8} (hds : ∀ c ∈ ds, Plain c) {l : GSLexer}
    (h : l.text = ds ++ rest) (n : Nat) :
    readChars (SC '"') false (n + ds.length) l =
      readChars (SC '"') false n { l with text := rest, longstr := l.longstr ++ ds } := by
  induction ds generalizing l with
  | nil =>
    rw [List.nil_append] at h
    rw [← h, List.append_nil, List.length_nil, Nat.add_zero]
  | cons c ds ih =>
    have hc : Plain c := hds c List.mem_cons_self
    rw [List.length_cons, ← Nat.add_assoc, readChars_plain hc h,
      ih (fun d hd => hds d (List.mem_cons_of_mem c hd)) rfl]
    simp

/-- A backslash starts an escape sequence. -/
theorem readChars_backslash {l : GSLexer} {rest : List UInt8} (h : l.text = SC '\\' :: rest)
    (n : Nat) :
    readChars (SC '"') false (n + 1) l =
      match GSLexer.readEscape { l with text := rest } with
      | .ok l => readChars (SC '"') false n l
      | .error e => .error e := by
  rw [readChars]
  dsimp only
  rw [GSLexer.CUR_CHAR_of_text h, GSLexer.NEXT_of_text h]
  rfl

/-- The letter of an escape stands for its character. -/
theorem escapeChar_escch {c e : UInt8} (h : escch c = some e) :
    GSLexer.escapeChar e = some c ∧ e ≠ SC 'x' ∧ e ≠ SC 'U' ∧ e ≠ SC 'u' := by
  have hall : ∀ k < 256, (escch (UInt8.ofNat k)).all (fun e =>
      GSLexer.escapeChar e = some (UInt8.ofNat k) ∧ e ≠ SC 'x' ∧ e ≠ SC 'U' ∧ e ≠ SC 'u') := by
    decide +kernel
  have hc := hall c.toNat c.toNat_lt
  rw [UInt8.ofNat_toNat, h] at hc
  simpa using hc

/-- A hexadecimal escape of two digits, or of more of which two are read. -/
theorem readEscape_hex {l : GSLexer} {d e : UInt8} {rest : List UInt8}
    (h : l.text = SC 'x' :: d :: e :: rest) (hd : isXDigit d = true) (he : isXDigit e = true) :
    l.readEscape = .ok { l with
      text := rest
      longstr := l.longstr ++ [UInt8.ofNat (hexValue [d, e])] } := by
  have hread : l.ProcessStringHexEscape 2 = .ok ([d, e], { l with text := rest }) := by
    unfold GSLexer.ProcessStringHexEscape
    dsimp only
    rw [GSLexer.NEXT_of_text h, GSLexer.CUR_CHAR_of_text rfl, if_neg (by simp [hd]),
      GSLexer.hexDigits_of_text rfl hd, GSLexer.hexDigits_of_text rfl he]
    rfl
  unfold GSLexer.readEscape
  dsimp only
  rw [GSLexer.CUR_CHAR_of_text h, if_pos rfl, hread]
  rfl

/-- The letter of an escape is read as the character it stands for. -/
theorem readEscape_escch {l : GSLexer} {c e : UInt8} {rest : List UInt8}
    (h : l.text = e :: rest) (hc : escch c = some e) :
    l.readEscape = .ok { l with text := rest, longstr := l.longstr ++ [c] } := by
  obtain ⟨hescape, hx, hU, hu⟩ := escapeChar_escch hc
  unfold GSLexer.readEscape
  dsimp only
  rw [GSLexer.CUR_CHAR_of_text h, if_neg hx, if_neg (not_or.mpr ⟨hU, hu⟩), hescape]
  dsimp only
  rw [GSLexer.NEXT_of_text (l := l.APPEND_CHAR c) h]
  rfl

/-- Two digits have the value they were printed of. -/
theorem hexValue_hexDigits {c : UInt8} :
    UInt8.ofNat (hexValue [hexDigit (c.toNat / 16), hexDigit (c.toNat % 16)]) = c := by
  have hlt : c.toNat < 256 := c.toNat_lt
  have hhigh : digitValue (hexDigit (c.toNat / 16)) = c.toNat / 16 :=
    (hexDigit_facts _ (by omega)).2.2
  have hlow : digitValue (hexDigit (c.toNat % 16)) = c.toNat % 16 :=
    (hexDigit_facts _ (by omega)).2.2
  have hvalue : hexValue [hexDigit (c.toNat / 16), hexDigit (c.toNat % 16)] = c.toNat := by
    simp only [hexValue, List.foldl_cons, List.foldl_nil, hhigh, hlow]
    omega
  rw [hvalue, UInt8.ofNat_toNat]

/-- A printed character without an escape of its own stands for itself. -/
theorem plain_of_escch {c : UInt8} (hc : isPrint c = true ∨ c = 0) (h : escch c = none) :
    Plain c := by
  unfold Plain
  refine ⟨?_, ?_, ?_, ?_⟩
  · rintro rfl
    cases h
  · rintro rfl
    cases h
  · rintro rfl
    cases h
  · rintro rfl
    cases h

theorem lt_of_isPrint {c : UInt8} (hc : isPrint c = true ∨ c = 0) : c < 0x80 := by
  rcases hc with hc | rfl
  · have hlt : c < 0x7F := (of_decide_eq_true hc).2
    exact UInt8.lt_trans hlt (by decide)
  · decide

/-- The lexer reads an escaped character as `decode` says. -/
theorem readChars_encode {l : GSLexer} {c : UInt8} {rest : List UInt8}
    (h : l.text = encode c ++ rest) (n : Nat) :
    readChars (SC '"') false (n + (decode c).length) l =
      readChars (SC '"') false n { l with text := rest, longstr := l.longstr ++ decode c } := by
  unfold encode at h
  split at h
  · rename_i hprint
    have hdecode : decode c = [c] := if_pos (lt_of_isPrint hprint)
    rw [hdecode]
    split at h
    · rename_i e he
      rw [List.length_singleton, readChars_backslash h, readEscape_escch rfl he]
      rfl
    · rename_i he
      exact readChars_plain (plain_of_escch hprint he) h n
  · have hhigh := hexDigit_facts (c.toNat / 16) (by have := c.toNat_lt; omega)
    have hlow := hexDigit_facts (c.toNat % 16) (by omega)
    unfold hexEscape at h
    unfold decode
    split at h
    · rename_i hc
      rw [if_pos hc, List.length_singleton, readChars_backslash h,
        readEscape_hex rfl hhigh.1 hlow.1, hexValue_hexDigits]
      rfl
    · rename_i hc
      have hplain : ∀ d ∈ sc "ffff" ++ [hexDigit (c.toNat / 16), hexDigit (c.toNat % 16)],
          Plain d := by
        intro d hd
        have hcases : d = SC 'f' ∨ d = hexDigit (c.toNat / 16) ∨ d = hexDigit (c.toNat % 16) := by
          simpa [sc, SC] using hd
        rcases hcases with rfl | rfl | rfl
        · unfold Plain
          decide
        · exact hhigh.2.1
        · exact hlow.2.1
      rw [if_neg hc, List.length_cons, ← Nat.add_assoc, readChars_backslash h,
        readEscape_hex (d := SC 'f') (e := SC 'f') rfl (by decide) (by decide)]
      dsimp only
      rw [readChars_plains hplain rfl]
      simp only [List.append_assoc]
      rfl

/-- The encodings are read as their decodings, character by character. -/
theorem readChars_flatMap (s : List UInt8) {l : GSLexer} {rest : List UInt8}
    (h : l.text = s.flatMap encode ++ rest) (n : Nat) :
    readChars (SC '"') false (n + (s.flatMap decode).length) l =
      readChars (SC '"') false n { l with
        text := rest
        longstr := l.longstr ++ s.flatMap decode } := by
  induction s generalizing l with
  | nil =>
    rw [List.flatMap_nil, List.nil_append] at h
    rw [← h, List.flatMap_nil, List.append_nil, List.length_nil, Nat.add_zero]
  | cons c s ih =>
    rw [List.flatMap_cons, List.append_assoc] at h
    rw [List.flatMap_cons, List.length_append, Nat.add_comm (decode c).length, ← Nat.add_assoc,
      readChars_encode h, ih rfl]
    simp

/-- A larger bound gives the same result. -/
theorem readChars_mono {l l' : GSLexer} {n : Nat}
    (h : readChars (SC '"') false n l = .ok l') (k : Nat) :
    readChars (SC '"') false (n + k) l = .ok l' := by
  induction n generalizing l with
  | zero => cases h
  | succ n ih =>
    rw [Nat.add_right_comm, readChars]
    rw [readChars] at h
    dsimp only at h ⊢
    split at h
    · rename_i hdelim
      rw [if_pos hdelim]
      split at h
      · rename_i hverbatim
        cases hverbatim.1
      · rename_i hverbatim
        rw [if_neg hverbatim]
        exact h
    · rename_i hdelim
      rw [if_neg hdelim]
      split at h
      · cases h
      · rename_i hzero
        rw [if_neg hzero]
        split at h
        · cases h
        · rename_i hnewline
          rw [if_neg hnewline]
          split at h
          · rename_i hbackslash
            rw [if_pos hbackslash]
            cases hescape : l.NEXT.readEscape with
            | ok l₁ =>
              rw [hescape] at h
              exact ih h
            | error e =>
              rw [hescape] at h
              cases h
          · rename_i hbackslash
            rw [if_neg hbackslash]
            exact ih h

/-- The string does not end, whatever the bound. -/
def Stuck (l : GSLexer) : Prop := ∀ n l', readChars (SC '"') false n l ≠ .ok l'

theorem stuck_zero {l : GSLexer} {rest : List UInt8} (h : l.text = 0 :: rest) : Stuck l := by
  rintro (_ | n) l' hread
  · cases hread
  · rw [readChars] at hread
    dsimp only at hread
    rw [GSLexer.CUR_CHAR_of_text h] at hread
    cases hread

theorem stuck_of_rounds {l : GSLexer} (l₁ : GSLexer) {k : Nat}
    (h : ∀ n, readChars (SC '"') false (n + k) l = readChars (SC '"') false n l₁)
    (hstuck : Stuck l₁) : Stuck l := by
  intro n l' hread
  have hmore := readChars_mono hread k
  rw [h n] at hmore
  exact hstuck n l' hmore

/-- A hexadecimal escape that is cut off at a zero. -/
theorem stuck_hex {l : GSLexer} {ds rest : List UInt8} (hds : ds ≠ [])
    (hdigits : ∀ d ∈ ds, isXDigit d = true ∧ Plain d)
    (h : l.text = SC '\\' :: SC 'x' :: (ds ++ 0 :: rest)) : Stuck l := by
  match ds, hds, hdigits, h with
  | [d], _, hdigits, h =>
    have hd := (hdigits d List.mem_cons_self).1
    have hescape : GSLexer.readEscape { l with text := SC 'x' :: ([d] ++ 0 :: rest) } =
        .ok { l with
          text := 0 :: rest
          longstr := l.longstr ++ [UInt8.ofNat (hexValue [d])] } := by
      have hread : GSLexer.ProcessStringHexEscape { l with
          text := SC 'x' :: ([d] ++ 0 :: rest) } 2 = .ok ([d], { l with text := 0 :: rest }) := by
        unfold GSLexer.ProcessStringHexEscape
        dsimp only
        rw [GSLexer.NEXT_of_text rfl, GSLexer.CUR_CHAR_of_text rfl, if_neg (by simp [hd]),
          GSLexer.hexDigits_of_text rfl hd]
        rfl
      unfold GSLexer.readEscape
      dsimp only
      rw [GSLexer.CUR_CHAR_of_text rfl, if_pos rfl, hread]
      rfl
    refine stuck_of_rounds (k := 1) { l with
      text := 0 :: rest
      longstr := l.longstr ++ [UInt8.ofNat (hexValue [d])] } (fun n => ?_) (stuck_zero rfl)
    rw [readChars_backslash h, hescape]
  | d :: e :: ds, _, hdigits, h =>
    have hd := (hdigits d List.mem_cons_self).1
    have he := (hdigits e (List.mem_cons_of_mem d List.mem_cons_self)).1
    have hplain : ∀ c ∈ ds, Plain c := fun c hc =>
      (hdigits c (List.mem_cons_of_mem d (List.mem_cons_of_mem e hc))).2
    refine stuck_of_rounds (k := 1) { l with
      text := ds ++ 0 :: rest
      longstr := l.longstr ++ [UInt8.ofNat (hexValue [d, e])] } (fun n => ?_) ?_
    · rw [readChars_backslash h, readEscape_hex rfl hd he]
      rfl
    · exact stuck_of_rounds _ (fun n => readChars_plains hplain rfl n) (stuck_zero rfl)

/-! ### The text that is returned -/

/-- A character is counted as escaped exactly where its encoding is not
itself. -/
theorem escapeChar_escaped (n : Nat) (st : State) (c : UInt8) :
    (escapeChar n st c).escaped = st.escaped + if encode c = [c] then 0 else 1 := by
  unfold escapeChar encode
  split
  · split
    · simp
    · simp
  · simp [hexEscape, sc]

theorem foldl_escaped (n : Nat) (s : List UInt8) (st : State) :
    (s.foldl (escapeChar n) st).escaped = 0 ↔ st.escaped = 0 ∧ ∀ c ∈ s, encode c = [c] := by
  induction s generalizing st with
  | nil => simp
  | cons c s ih =>
    rw [List.foldl_cons, ih, escapeChar_escaped]
    split <;> simp_all

theorem flatMap_encode_eq {s : List UInt8} (h : ∀ c ∈ s, encode c = [c]) :
    s.flatMap encode = s := by
  induction s with
  | nil => rfl
  | cons c s ih =>
    rw [List.flatMap_cons, h c List.mem_cons_self,
      ih fun d hd => h d (List.mem_cons_of_mem c hd)]
    rfl

/-- Where every escape has room, the text is the escapes in order. -/
theorem string_escape_of_fits (pad : Nat → UInt8) {s : List UInt8} (hlen : s.length ≤ INT_MAX)
    (h : ∀ c ∈ s, Fits (4 * s.length) c) :
    string_escape pad s = some (s.flatMap encode) := by
  unfold string_escape
  split
  · rename_i hempty
    rw [List.length_eq_zero_iff.mp hempty]
    rfl
  · rw [if_neg (by omega)]
    unfold escapeLoop
    dsimp only
    split
    · rw [foldl_of_fits h]
      rfl
    · rename_i hescaped
      have hsame := ((foldl_escaped _ s { pad := pad }).mp (Decidable.not_not.mp hescaped)).2
      rw [flatMap_encode_eq hsame]

theorem front_add (pad : Nat → UInt8) {j m : Nat} (h : j ≤ m) :
    ∃ rest, front pad m = front pad j ++ rest := by
  obtain ⟨k, rfl⟩ := Nat.exists_eq_add_of_le h
  refine ⟨(List.range k).map fun i => pad (j + i), ?_⟩
  unfold front
  rw [List.range_add, List.map_append, List.map_map]
  rfl

/-- The first character whose escape has no room. -/
theorem exists_first {n : Nat} {s : List UInt8} (h : ¬ ∀ c ∈ s, Fits n c) :
    ∃ pre c post, s = pre ++ c :: post ∧ (∀ d ∈ pre, Fits n d) ∧ ¬ Fits n c := by
  induction s with
  | nil => exact absurd (fun c hc => by cases hc) h
  | cons c s ih =>
    by_cases hc : Fits n c
    · have hs : ¬ ∀ d ∈ s, Fits n d := fun hs => h fun d hd => by
        rcases List.mem_cons.mp hd with rfl | hd
        · exact hc
        · exact hs d hd
      obtain ⟨pre, d, post, rfl, hpre, hd⟩ := ih hs
      refine ⟨c :: pre, d, post, rfl, fun e he => ?_, hd⟩
      rcases List.mem_cons.mp he with rfl | he
      · exact hc
      · exact hpre e he
    · exact ⟨[], c, s, rfl, fun d hd => (List.not_mem_nil hd).elim, hc⟩

/-- The text is cut off where an escape has no room. -/
theorem string_escape_of_not_fits (pad : Nat → UInt8) {s : List UInt8}
    (h : ¬ ∀ c ∈ s, Fits (4 * s.length) c) {text : List UInt8}
    (htext : string_escape pad s = some text) :
    ∃ (pre : List UInt8) (c : UInt8) (junk : List UInt8), ¬ Fits (4 * s.length) c ∧
      text = pre.flatMap encode ++ ((hexEscape c).take (4 * s.length - 1) ++ 0 :: junk) := by
  obtain ⟨pre, c, post, hs, hpre, hc⟩ := exists_first h
  have hn : 4 ≤ 4 * s.length := by
    rw [hs]
    simp
    omega
  unfold Fits at hc
  obtain ⟨hprint, hzero, hroom⟩ : ¬ isPrint c = true ∧ ¬ c = 0 ∧
      ¬ (hexEscape c).length < 4 * s.length := by
    simpa only [not_or] using hc
  have hencode : encode c ≠ [c] := by
    unfold encode
    rw [if_neg (not_or.mpr ⟨hprint, hzero⟩)]
    simp [hexEscape, sc]
  unfold string_escape at htext
  rw [if_neg (by omega)] at htext
  split at htext
  · cases htext
  have hescaped : (s.foldl (escapeChar (4 * s.length)) { pad := pad }).escaped ≠ 0 := by
    intro hzero
    refine hencode (((foldl_escaped _ s { pad := pad }).mp hzero).2 c ?_)
    rw [hs]
    simp
  unfold escapeLoop at htext
  dsimp only at htext
  rw [if_pos hescaped] at htext
  cases htext
  generalize 4 * s.length = n at *
  subst hs
  rw [List.foldl_append, List.foldl_cons]
  have hfront : front (pre.foldl (escapeChar n) { pad := pad }).pad
      (pre.foldl (escapeChar n) { pad := pad }).dest = pre.flatMap encode := by
    rw [foldl_of_fits hpre]
    rfl
  generalize pre.foldl (escapeChar n) { pad := pad } = st at *
  -- what `snprintf` wrote, with its zero
  have hcut : front (escapeChar n st c).pad (st.dest + n) =
      pre.flatMap encode ++ ((hexEscape c).take (n - 1) ++ [0]) := by
    have hlength : ((hexEscape c).take (n - 1) ++ [0]).length = n := by
      rw [List.length_append, List.length_take, List.length_singleton]
      omega
    have hwrite := front_write st.pad st.dest ((hexEscape c).take (n - 1) ++ [0])
    rw [hlength, hfront] at hwrite
    unfold escapeChar snprintf
    rw [if_neg (not_or.mpr ⟨hprint, hzero⟩)]
    dsimp only
    rw [if_neg (by omega)]
    exact hwrite
  have hdest : st.dest + n ≤ (escapeChar n st c).dest := by
    unfold escapeChar
    rw [if_neg (not_or.mpr ⟨hprint, hzero⟩)]
    dsimp only
    omega
  obtain ⟨hstay, hle⟩ := front_foldl n post (escapeChar n st c) hdest
  obtain ⟨junk, hjunk⟩ := front_add (post.foldl (escapeChar n) (escapeChar n st c)).pad hle
  refine ⟨pre, c, junk, hc, ?_⟩
  rw [hjunk, hstay, hcut]
  simp

/-! ### The string literal -/

variable {strtod : List UInt8 → GSFloat}

/-- The digits of a hexadecimal escape. -/
def hexPart (c : UInt8) : List UInt8 :=
  (if c < 0x80 then [] else sc "ffffff") ++ [hexDigit (c.toNat / 16), hexDigit (c.toNat % 16)]

theorem hexEscape_eq (c : UInt8) : hexEscape c = SC '\\' :: SC 'x' :: hexPart c := by
  unfold hexEscape hexPart
  rw [List.append_assoc]
  rfl

/-- The hexadecimal digits of an encoding are plain characters. -/
theorem hexPart_digits (c : UInt8) : ∀ d ∈ hexPart c, isXDigit d = true ∧ Plain d := by
  have hhigh := hexDigit_facts (c.toNat / 16) (by have := c.toNat_lt; omega)
  have hlow := hexDigit_facts (c.toNat % 16) (by omega)
  have hf : isXDigit (SC 'f') = true ∧ Plain (SC 'f') := by
    unfold Plain
    decide
  intro d hd
  unfold hexPart at hd
  split at hd
  · have hcases : d = hexDigit (c.toNat / 16) ∨ d = hexDigit (c.toNat % 16) := by
      simpa using hd
    rcases hcases with rfl | rfl
    · exact ⟨hhigh.1, hhigh.2.1⟩
    · exact ⟨hlow.1, hlow.2.1⟩
  · have hcases : d = SC 'f' ∨ d = hexDigit (c.toNat / 16) ∨ d = hexDigit (c.toNat % 16) := by
      simpa [sc, SC] using hd
    rcases hcases with rfl | rfl | rfl
    · exact hf
    · exact ⟨hhigh.1, hhigh.2.1⟩
    · exact ⟨hlow.1, hlow.2.1⟩

/-- A text that is cut off is no string literal. -/
theorem stuck_of_not_fits (pre junk : List UInt8) (c : UInt8) {n : Nat} (hn : 4 ≤ n) {l : GSLexer}
    (h : l.text = pre.flatMap encode ++ ((hexEscape c).take (n - 1) ++ 0 :: junk)) : Stuck l := by
  refine stuck_of_rounds _ (fun k => readChars_flatMap pre h k) ?_
  obtain ⟨m, rfl⟩ := Nat.exists_eq_add_of_le hn
  have htake : (hexEscape c).take (4 + m - 1) =
      SC '\\' :: SC 'x' :: (hexPart c).take (m + 1) := by
    rw [hexEscape_eq, show 4 + m - 1 = m + 1 + 1 + 1 from by omega]
    rfl
  have hne : (hexPart c).take (m + 1) ≠ [] := by
    intro hempty
    have hlength := congrArg List.length hempty
    rw [List.length_take, hexPart, List.length_append] at hlength
    simp only [List.length_cons, List.length_nil] at hlength
    omega
  rw [htake]
  exact stuck_hex hne (fun d hd => hexPart_digits c d (List.mem_of_mem_take hd)) rfl

theorem readChars_close {l : GSLexer} (h : l.text = [SC '"']) (n : Nat) :
    readChars (SC '"') false (n + 1) l = .ok { l with text := [] } := by
  rw [readChars]
  dsimp only
  rw [GSLexer.CUR_CHAR_of_text h, GSLexer.NEXT_of_text h]
  rfl

/-- The closing quote ends a text of escapes. -/
theorem readChars_text (s : List UInt8) (n : Nat) :
    readChars (SC '"') false (n + 1 + (s.flatMap decode).length)
        { text := s.flatMap encode ++ [SC '"'], fvalue := v } =
      .ok { text := [], longstr := s.flatMap decode, fvalue := v } := by
  rw [readChars_flatMap s rfl]
  exact readChars_close rfl n

theorem isEOB_of_readChars {l l' : GSLexer} {n : Nat}
    (h : readChars (SC '"') false n l = .ok l') : l.IS_EOB = false := by
  cases n with
  | zero => cases h
  | succ n =>
    by_cases hzero : l.CUR_CHAR = 0
    · rw [readChars] at h
      dsimp only at h
      rw [hzero] at h
      cases h
    · exact decide_eq_false hzero

theorem Lex_quote (n : Nat) (t : List UInt8) :
    GSLexer.Lex strtod (n + 1) { text := SC '"' :: t, fvalue := v } =
      GSLexer.returnRead
        (GSLexer.ReadString n { text := SC '"' :: t, fvalue := v } (SC '"') false) := rfl

theorem ReadString_quote (n : Nat) (t : List UInt8) :
    GSLexer.ReadString n { text := SC '"' :: t, fvalue := v } (SC '"') false =
      if ({ text := t, fvalue := v } : GSLexer).IS_EOB then GSLexer.error "error parsing the string"
      else do
        let l ← readChars (SC '"') false n { text := t, fvalue := v }
        return (.TK_STRING_LITERAL, { l with svalue := l.longstr }) := rfl

/-- A string literal that was read is what the characters up to its quote come to. -/
theorem readChars_of_Lex {n : Nat} {t : List UInt8} {tok : Token} {l : GSLexer}
    (h : GSLexer.Lex strtod n { text := SC '"' :: t, fvalue := v } = .ok (tok, l)) :
    ∃ m l₁, readChars (SC '"') false m { text := t, fvalue := v } = .ok l₁ ∧
      l.svalue = l₁.longstr := by
  cases n with
  | zero => cases h
  | succ n =>
    rw [Lex_quote, ReadString_quote] at h
    split at h
    · cases h
    · cases hread : readChars (SC '"') false n { text := t, fvalue := v } with
      | error e =>
        rw [hread] at h
        cases h
      | ok l₁ =>
        rw [hread] at h
        cases h
        exact ⟨n, l₁, hread, rfl⟩

/-- The quoted encodings are one string literal, of the decodings. -/
theorem lexesTo_text (strtod : List UInt8 → GSFloat) (s : List UInt8) :
    LexesTo strtod (SC '"' :: s.flatMap encode ++ [SC '"']) (s.flatMap decode) := by
  intro v
  have hread := readChars_text (v := v) s 0
  have hend : ∃ l', GSLexer.Lex strtod (0 + 1 + (s.flatMap decode).length + 1)
      { text := []
        fvalue := v
        longstr := s.flatMap decode
        svalue := s.flatMap decode
        curtoken := some .TK_STRING_LITERAL } = .ok (.eob, l') := ⟨_, rfl⟩
  obtain ⟨l', hend⟩ := hend
  refine ⟨_, _, l', ?_, rfl, hend⟩
  rw [List.cons_append, Lex_quote, ReadString_quote, isEOB_of_readChars hread, hread]
  rfl

/-! ### Which strings come back -/

theorem length_decode (c : UInt8) : (decode c).length = if c < 0x80 then 1 else 7 := by
  unfold decode
  split
  · rfl
  · simp [sc]

theorem length_le_flatMap_decode (s : List UInt8) : s.length ≤ (s.flatMap decode).length := by
  induction s with
  | nil => exact Nat.le_refl 0
  | cons c s ih =>
    have hc := length_decode c
    rw [List.flatMap_cons, List.length_append, List.length_cons]
    split at hc <;> omega

/-- A string with a character from 128 on gets longer. -/
theorem lt_of_flatMap_decode {s : List UInt8} (h : s.flatMap decode = s) :
    ∀ c ∈ s, c < 0x80 := by
  have hlength : (s.flatMap decode).length = s.length := congrArg List.length h
  clear h
  induction s with
  | nil => exact fun c hc => (List.not_mem_nil hc).elim
  | cons c s ih =>
    have hc := length_decode c
    have hs := length_le_flatMap_decode s
    rw [List.flatMap_cons, List.length_append, List.length_cons] at hlength
    split at hc
    · rename_i hlow
      intro d hd
      rcases List.mem_cons.mp hd with rfl | hd
      · exact hlow
      · exact ih (by omega) d hd
    · omega

theorem flatMap_decode_eq {s : List UInt8} (h : ∀ c ∈ s, c < 0x80) : s.flatMap decode = s := by
  induction s with
  | nil => rfl
  | cons c s ih =>
    have hc : decode c = [c] := if_pos (h c List.mem_cons_self)
    rw [List.flatMap_cons, hc, ih fun d hd => h d (List.mem_cons_of_mem c hd)]
    rfl

theorem length_encode_le {c : UInt8} (h : c < 0x80) : (encode c).length ≤ 4 := by
  unfold encode
  split
  · split <;> simp
  · unfold hexEscape
    rw [if_pos h]
    simp [sc]

/-- Characters below 0x80 take four characters each at most. -/
theorem length_flatMap_encode_le {s : List UInt8} (h : ∀ c ∈ s, c < 0x80) :
    (s.flatMap encode).length ≤ 4 * s.length := by
  induction s with
  | nil => exact Nat.le_refl 0
  | cons c s ih =>
    have hc := length_encode_le (h c List.mem_cons_self)
    have hs := ih fun d hd => h d (List.mem_cons_of_mem c hd)
    rw [List.flatMap_cons, List.length_append, List.length_cons]
    omega

/-- In a string below 0x80 only a lone character may not fit, one that is not
printed. -/
theorem fits_of_low {s : List UInt8} (hlow : ∀ c ∈ s, c < 0x80)
    (hone : ∀ c, s = [c] → isPrint c = true ∨ c = 0) : ∀ c ∈ s, Fits (4 * s.length) c := by
  intro c hc
  match s, hc, hlow, hone with
  | [d], hc, _, hone =>
    obtain rfl := List.mem_singleton.mp hc
    rcases hone c rfl with h | h
    · exact .inl h
    · exact .inr (.inl h)
  | d :: e :: s, hc, hlow, _ =>
    refine .inr (.inr ?_)
    rw [hexEscape_eq, hexPart, if_pos (hlow c hc)]
    simp only [List.length_cons, List.length_append, List.length_nil]
    omega

theorem not_fits_one {c : UInt8} (hprint : ¬ (isPrint c = true ∨ c = 0)) : ¬ Fits 4 c := by
  rintro (h | h | h)
  · exact hprint (.inl h)
  · exact hprint (.inr h)
  · rw [hexEscape_eq, hexPart] at h
    simp only [List.length_cons, List.length_append, List.length_nil] at h
    omega

/-- A string that the lexer gets back is of low characters, and not one that `snprintf` cuts off. -/
theorem low_of_lexesTo {pad : Nat → UInt8} {s text : List UInt8}
    (htext : string_escape pad s = some text)
    (hlexes : LexesTo strtod (SC '"' :: text ++ [SC '"']) s) :
    s.length ≤ INT_MAX ∧ (∀ c ∈ s, c < 0x80) ∧
      ∀ c, s = [c] → isPrint c = true ∨ c = 0 := by
  obtain ⟨n, l, l', hlex, hvalue, -⟩ := hlexes 0
  have hlen : s.length ≤ INT_MAX := by
    unfold string_escape at htext
    split at htext
    · rename_i hempty
      rw [hempty]
      decide
    · split at htext
      · cases htext
      · omega
  obtain ⟨m, l₁, hread, hsame⟩ : ∃ m l₁, readChars (SC '"') false m
      { text := text ++ [SC '"'], fvalue := 0 } = .ok l₁ ∧ l.svalue = l₁.longstr := readChars_of_Lex hlex
  by_cases hfits : ∀ c ∈ s, Fits (4 * s.length) c
  · rw [string_escape_of_fits pad hlen hfits] at htext
    cases htext
    have hmore := readChars_mono hread ((s.flatMap decode).length + 1)
    rw [← Nat.add_assoc, Nat.add_right_comm, readChars_text] at hmore
    cases hmore
    refine ⟨hlen, lt_of_flatMap_decode (hsame.symm.trans hvalue), fun c hc => ?_⟩
    subst hc
    by_cases hprint : isPrint c = true ∨ c = 0
    · exact hprint
    · exact absurd (hfits c List.mem_cons_self) (not_fits_one hprint)
  · obtain ⟨pre, c, junk, hc, rfl⟩ := string_escape_of_not_fits pad hfits htext
    have hpos : 4 ≤ 4 * s.length := by
      cases s with
      | nil => exact absurd (fun c hc => (List.not_mem_nil hc).elim) hfits
      | cons d s =>
        rw [List.length_cons]
        omega
    have hstuck : Stuck
        { text := pre.flatMap encode ++ ((hexEscape c).take (4 * s.length - 1) ++ 0 :: junk) ++
            [SC '"']
          fvalue := 0 } := by
      refine stuck_of_not_fits pre (junk ++ [SC '"']) c hpos ?_
      simp
    exact absurd hread (hstuck m l₁)

/-! ### What is written -/

/-- The zero behind the last escape is all that lies behind the text. -/
theorem escapeChar_extent (n : Nat) (st : State) (c : UInt8) (h : st.extent ≤ st.dest + 1) :
    (escapeChar n st c).extent ≤ (escapeChar n st c).dest + 1 := by
  unfold escapeChar snprintfSize
  split
  · split
    · dsimp only
      omega
    · dsimp only
      omega
  · dsimp only
    split <;> omega

theorem foldl_extent (n : Nat) (s : List UInt8) {st : State} (h : st.extent ≤ st.dest + 1) :
    (s.foldl (escapeChar n) st).extent ≤ (s.foldl (escapeChar n) st).dest + 1 := by
  induction s generalizing st with
  | nil => exact h
  | cons c s ih => exact ih (escapeChar_extent n st c h)

theorem foldl_dest (n : Nat) (s : List UInt8) (st : State) :
    (s.foldl (escapeChar n) st).dest = st.dest + (s.flatMap encode).length := by
  induction s generalizing st with
  | nil => rfl
  | cons c s ih =>
    rw [List.foldl_cons, ih, escapeChar_dest, List.flatMap_cons, List.length_append,
      Nat.add_assoc]

/-- A character that is printed, or zero, leaves two characters over. -/
theorem length_flatMap_encode_lt {s : List UInt8} (h : ∀ c ∈ s, c < 0x80)
    (hshort : ∃ c ∈ s, isPrint c = true ∨ c = 0) :
    (s.flatMap encode).length + 2 ≤ 4 * s.length := by
  obtain ⟨c, hc, hprint⟩ := hshort
  obtain ⟨pre, post, rfl⟩ := List.append_of_mem hc
  have hpre := length_flatMap_encode_le fun d hd => h d (List.mem_append_left _ hd)
  have hpost := length_flatMap_encode_le fun d hd =>
    h d (List.mem_append_right _ (List.mem_cons_of_mem c hd))
  have hlength : (encode c).length ≤ 2 := by
    unfold encode
    rw [if_pos hprint]
    split <;> simp
  simp only [List.flatMap_append, List.flatMap_cons, List.length_append, List.length_cons]
  omega

/-- Where every character goes through `snprintf`, the last zero is one character too far. -/
theorem lt_extent {pad : Nat → UInt8} {s : List UInt8} (hlow : ∀ c ∈ s, c < 0x80)
    (hhex : ∀ c ∈ s, ¬ (isPrint c = true ∨ c = 0)) (hlength : 2 ≤ s.length) :
    4 * s.length < (escapeLoop pad s).extent := by
  have hsize (t : List UInt8) (ht : ∀ c ∈ t, c ∈ s) : (t.flatMap encode).length = 4 * t.length := by
    induction t with
    | nil => rfl
    | cons c t ih =>
      have hc : (encode c).length = 4 := by
        have hmem := ht c List.mem_cons_self
        rw [encode, if_neg (hhex c hmem), hexEscape_eq, hexPart, if_pos (hlow c hmem)]
        rfl
      rw [List.flatMap_cons, List.length_append, hc,
        ih fun d hd => ht d (List.mem_cons_of_mem c hd), List.length_cons]
      omega
  obtain ⟨init, c, rfl⟩ : ∃ init c, s = init ++ [c] := by
    have hne : s ≠ [] := by
      rintro rfl
      simp at hlength
    exact ⟨_, _, (List.dropLast_concat_getLast hne).symm⟩
  have hinit := hsize init fun d hd => List.mem_append_left _ hd
  have hlast := hsize [c] fun d hd => List.mem_append_right _ hd
  have hmem : c ∈ init ++ [c] := List.mem_append_right _ List.mem_cons_self
  rw [List.flatMap_singleton, encode, if_neg (hhex c hmem)] at hlast
  unfold escapeLoop
  rw [List.foldl_append, List.foldl_cons, List.foldl_nil]
  have hdest := foldl_dest (4 * (init ++ [c]).length) init { pad := pad }
  generalize init.foldl (escapeChar (4 * (init ++ [c]).length)) { pad := pad } = st at hdest
  unfold escapeChar snprintfSize
  rw [if_neg (hhex c hmem)]
  simp only [List.length_append, List.length_cons, List.length_nil] at *
  rw [if_neg (by omega)]
  omega

/-- **Escaping and lexing are inverse for strings of characters below 128 of which at least one is
printed or zero.** -/
theorem inverse_iff (strtod : List UInt8 → GSFloat) (pad : Nat → UInt8) (s : List UInt8) :
    Inverse strtod pad s ↔ s.length ≤ INT_MAX ∧ (∀ c ∈ s, c < 0x80) ∧
      (s = [] ∨ ∃ c ∈ s, isPrint c = true ∨ c = 0) := by
  constructor
  · rintro ⟨text, htext, -, hextent, hlexes⟩
    obtain ⟨hlen, hlow, hone⟩ := low_of_lexesTo htext hlexes
    refine ⟨hlen, hlow, ?_⟩
    rcases s with _ | ⟨c, _ | ⟨d, s⟩⟩
    · exact .inl rfl
    · exact .inr ⟨c, List.mem_cons_self, hone c rfl⟩
    · refine .inr (Decidable.byContradiction fun hhex => ?_)
      have hbehind := @lt_extent pad _ hlow (fun e he hprint => hhex ⟨e, he, hprint⟩) (by simp)
      exact absurd hextent (Nat.not_le.mpr hbehind)
  · rintro ⟨hlen, hlow, hshort⟩
    have hone (c : UInt8) (hc : s = [c]) : isPrint c = true ∨ c = 0 := by
      subst hc
      obtain hnil | ⟨d, hd, hprint⟩ := hshort
      · cases hnil
      · exact List.mem_singleton.mp hd ▸ hprint
    refine ⟨s.flatMap encode, string_escape_of_fits pad hlen (fits_of_low hlow hone),
      length_flatMap_encode_le hlow, ?_, ?_⟩
    · have hextent := @foldl_extent (4 * s.length) s { pad := pad } (Nat.zero_le _)
      rw [foldl_dest] at hextent
      obtain rfl | hshort := hshort
      · exact Nat.le_refl 0
      · have hroom := length_flatMap_encode_lt hlow hshort
        unfold escapeLoop
        dsimp only at hextent
        omega
    · have hlexes := lexesTo_text strtod s
      rw [flatMap_decode_eq hlow] at hlexes
      exact hlexes

/-- The one byte of value 233, `é` in Latin-1, does not come back. -/
theorem not_inverse_e9 : ¬ Inverse (fun _ => 0) (fun _ => 0) [0xE9] := by
  rintro ⟨text, htext, -, -, hlexes⟩
  have hlow := (low_of_lexesTo htext hlexes).2.1 0xE9 List.mem_cons_self
  exact absurd hlow (by decide)

end GameScript.Escape
