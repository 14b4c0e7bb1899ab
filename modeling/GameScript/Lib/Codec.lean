import Mathlib.Algebra.GroupWithZero.Nat

/-!
Byte streams written and read by two separate traversals.

A `ByteWriter` appends bytes to what it has written; a `ByteReader` takes bytes off the
front of its input. Either may fail with an error. `Emits w bytes` says that
`w` succeeds and appends exactly `bytes`; `Decodes r bytes a` says that `r`,
given any input that starts with `bytes`, consumes exactly these and returns
`a`. `Agree w r a` joins the two, and its rules follow a writer and a reader
step by step, so a format is verified by walking its two traversals in
parallel.
-/

namespace GameScript.Codec

variable {ε α β : Type}

/-! ### Little-endian numbers -/

/-- The `n` low bytes of a number, least significant first. -/
def toBytes : Nat → Nat → List UInt8
  | 0, _ => []
  | n + 1, v => UInt8.ofNat (v % 256) :: toBytes n (v / 256)

/-- The number whose bytes these are, least significant first. -/
def ofBytes : List UInt8 → Nat
  | [] => 0
  | b :: bs => b.toNat + 256 * ofBytes bs

@[simp] theorem toBytes_length (n v : Nat) : (toBytes n v).length = n := by
  induction n generalizing v with
  | zero => rfl
  | succ n ih => simp [toBytes, ih]

theorem ofBytes_toBytes (n v : Nat) : ofBytes (toBytes n v) = v % 256 ^ n := by
  induction n generalizing v with
  | zero => simp [toBytes, ofBytes, Nat.mod_one]
  | succ n ih =>
      have hlow : (UInt8.ofNat (v % 256)).toNat = v % 256 := by
        simp
      rw [toBytes, ofBytes, ih, hlow, Nat.pow_succ, Nat.mul_comm (256 ^ n), Nat.mod_mul]

theorem ofBytes_toBytes_of_lt {n v : Nat} (h : v < 256 ^ n) : ofBytes (toBytes n v) = v := by
  rw [ofBytes_toBytes, Nat.mod_eq_of_lt h]

/-! ### Writers and readers -/

/-- A traversal that writes. -/
abbrev ByteWriter (ε : Type) := StateT (List UInt8) (Except ε)

/-- A traversal that reads. -/
abbrev ByteReader (ε : Type) := StateT (List UInt8) (Except ε)

/-- Append bytes to the output. -/
def emit (bytes : List UInt8) : ByteWriter ε Unit := modify (· ++ bytes)

/-- Take `n` bytes off the input, or fail with `err` when there are fewer. -/
def take (err : ε) (n : Nat) : ByteReader ε (List UInt8) := fun input =>
  if n ≤ input.length then .ok (input.take n, input.drop n) else .error err

/-- Append the `n` low bytes of a number. -/
def emitWord (n v : Nat) : ByteWriter ε Unit := emit (toBytes n v)

/-- Take an `n`-byte number off the input. -/
def takeWord (err : ε) (n : Nat) : ByteReader ε Nat := do
  let bytes ← take err n
  return ofBytes bytes

/-- Run a reader `n` times. -/
def many (r : ByteReader ε α) : Nat → ByteReader ε (List α)
  | 0 => pure []
  | n + 1 => do
      let a ← r
      let as ← many r n
      return a :: as

/-- Run a writer on every element. -/
def each (w : α → ByteWriter ε Unit) : List α → ByteWriter ε Unit
  | [] => pure ()
  | a :: as => do
      w a
      each w as

/-! ### What a traversal does -/

/-- `w` succeeds and appends exactly `bytes`. -/
def Emits (w : ByteWriter ε Unit) (bytes : List UInt8) : Prop :=
  ∀ out, w out = .ok ((), out ++ bytes)

/-- On any input that starts with `bytes`, `r` consumes exactly these and returns `a`. -/
def Decodes (r : ByteReader ε α) (bytes : List UInt8) (a : α) : Prop :=
  ∀ rest, r (bytes ++ rest) = .ok (a, rest)

/-- What `w` writes, `r` reads back as `a`. -/
def Agree (w : ByteWriter ε Unit) (r : ByteReader ε α) (a : α) : Prop :=
  ∃ bytes, Emits w bytes ∧ Decodes r bytes a

theorem emits_emit (bytes : List UInt8) : Emits (emit bytes : ByteWriter ε Unit) bytes :=
  fun _ => rfl

theorem emits_pure : Emits (pure () : ByteWriter ε Unit) [] := by
  intro out
  rw [List.append_nil]
  rfl

theorem emits_seq {w : ByteWriter ε Unit} {w' : ByteWriter ε Unit} {bytes bytes' : List UInt8}
    (h : Emits w bytes) (h' : Emits w' bytes') :
    Emits (do w; w') (bytes ++ bytes') := by
  intro out
  simp only [bind, StateT.bind, Except.bind, h out, h' (out ++ bytes), List.append_assoc]

/-- A writer appends a determined string. -/
theorem Emits.unique {w : ByteWriter ε Unit} {bytes bytes' : List UInt8}
    (h : Emits w bytes) (h' : Emits w bytes') : bytes = bytes' := by
  have heq : (Except.ok ((), [] ++ bytes) : Except ε _) = .ok ((), [] ++ bytes') :=
    (h []).symm.trans (h' [])
  simpa using heq

theorem decodes_pure (a : α) : Decodes (pure a : ByteReader ε α) [] a :=
  fun _ => rfl

theorem decodes_bind {r : ByteReader ε α} {f : α → ByteReader ε β} {bytes bytes' : List UInt8}
    {a : α} {b : β} (h : Decodes r bytes a) (h' : Decodes (f a) bytes' b) :
    Decodes (r >>= f) (bytes ++ bytes') b := by
  intro rest
  simp only [bind, StateT.bind, Except.bind, List.append_assoc, h (bytes' ++ rest), h' rest]

theorem decodes_take (err : ε) (bytes : List UInt8) :
    Decodes (take err bytes.length) bytes bytes := by
  intro rest
  simp [take]

/-! ### Walking the two traversals in parallel -/

theorem agree_pure (a : α) : Agree (pure () : ByteWriter ε Unit) (pure a : ByteReader ε α) a :=
  ⟨[], emits_pure, decodes_pure a⟩

theorem agree_bind {w w' : ByteWriter ε Unit} {r : ByteReader ε α} {f : α → ByteReader ε β}
    {a : α} {b : β}
    (h : Agree w r a) (h' : Agree w' (f a) b) : Agree (do w; w') (r >>= f) b := by
  obtain ⟨bytes, hw, hr⟩ := h
  obtain ⟨bytes', hw', hr'⟩ := h'
  exact ⟨bytes ++ bytes', emits_seq hw hw', decodes_bind hr hr'⟩

/-- The last step of a writer: it is not followed by anything. -/
theorem agree_last {w : ByteWriter ε Unit} {r : ByteReader ε α} {f : α → ByteReader ε β} {a : α} {b : β}
    (h : Agree w r a) (h' : Decodes (f a) [] b) : Agree w (r >>= f) b := by
  obtain ⟨bytes, hw, hr⟩ := h
  exact ⟨bytes, hw, by simpa using decodes_bind hr h'⟩

theorem agree_take (err : ε) {n : Nat} (bytes : List UInt8) (h : bytes.length = n) :
    Agree (emit bytes) (take err n) bytes := by
  subst h
  exact ⟨bytes, emits_emit bytes, decodes_take err bytes⟩

theorem agree_word (err : ε) {n v : Nat} (h : v < 256 ^ n) :
    Agree (emitWord n v) (takeWord err n) v := by
  have htake : Agree (emit (toBytes n v)) (take err n) (toBytes n v) :=
    agree_take err _ (toBytes_length n v)
  refine agree_last htake ?_
  rw [ofBytes_toBytes_of_lt h]
  exact decodes_pure v

/-- The reader keeps a function of what the writer wrote. -/
theorem agree_map {w : ByteWriter ε Unit} {r : ByteReader ε α} {a : α} (g : α → β) (h : Agree w r a) :
    Agree w (do let x ← r; return g x) (g a) :=
  agree_last h (decodes_pure (g a))

/-- A vector: element by element, as many times as the reader is told. -/
theorem agree_many {w : α → ByteWriter ε Unit} {r : ByteReader ε β} {g : α → β} :
    ∀ as : List α, (∀ a ∈ as, Agree (w a) r (g a)) →
      Agree (each w as) (many r as.length) (as.map g)
  | [], _ => agree_pure []
  | a :: as, h => by
      have hhead : Agree (w a) r (g a) := h a List.mem_cons_self
      have htail : Agree (each w as) (many r as.length) (as.map g) :=
        agree_many as fun b hb => h b (List.mem_cons_of_mem a hb)
      exact agree_bind hhead (agree_map (g a :: ·) htail)

/-! ### What a reader returns -/

/-- Every value that `r` returns meets `q`. -/
def Yields (r : ByteReader ε α) (q : α → Prop) : Prop :=
  ∀ input a rest, r input = .ok (a, rest) → q a

theorem yields_pure {q : α → Prop} {a : α} (h : q a) : Yields (pure a : ByteReader ε α) q := by
  intro input b rest hb
  cases hb
  exact h

theorem Yields.bind {r : ByteReader ε α} {f : α → ByteReader ε β} {p : α → Prop} {q : β → Prop}
    (h : Yields r p) (hf : ∀ a, p a → Yields (f a) q) : Yields (r >>= f) q := by
  intro input b rest hb
  simp only [Bind.bind, StateT.bind, Except.bind] at hb
  cases hread : r input with
  | error e =>
      rw [hread] at hb
      cases hb
  | ok x =>
      rw [hread] at hb
      exact hf x.1 (h input x.1 x.2 hread) x.2 b rest hb

/-- What is read first does not matter. -/
theorem yields_bind {r : ByteReader ε α} {f : α → ByteReader ε β} {q : β → Prop}
    (hf : ∀ a, Yields (f a) q) : Yields (r >>= f) q := by
  have hr : Yields r (fun _ => True) := fun _ _ _ _ => trivial
  exact hr.bind fun a _ => hf a

theorem yields_many {r : ByteReader ε α} {q : α → Prop} (h : Yields r q) (n : Nat) :
    Yields (many r n) (fun as => ∀ a ∈ as, q a) := by
  induction n with
  | zero =>
      apply yields_pure
      intro a ha
      cases ha
  | succ n ih =>
      have htail (a : α) (ha : q a) :
          Yields (do let as ← many r n; return a :: as) (fun as => ∀ b ∈ as, q b) :=
        ih.bind fun as has => yields_pure (List.forall_mem_cons.mpr ⟨ha, has⟩)
      exact h.bind htail

/-! ### Input that ends early -/

/-- More input changes neither what `r` returns nor an error of it other than `err`. -/
def Streams (err : ε) (r : ByteReader ε α) : Prop :=
  ∀ input more,
    match r input with
    | .ok (a, rest) => r (input ++ more) = .ok (a, rest ++ more)
    | .error e => e = err ∨ r (input ++ more) = .error e

variable {err : ε}

theorem streams_pure (a : α) : Streams err (pure a : ByteReader ε α) :=
  fun _ _ => rfl

theorem streams_throw (e : ε) : Streams err (throw e : ByteReader ε α) :=
  fun _ _ => .inr rfl

theorem streams_take (n : Nat) : Streams err (take err n) := by
  intro input more
  by_cases h : n ≤ input.length
  · have hmore : n ≤ (input ++ more).length := by
      rw [List.length_append]
      omega
    simp only [take, if_pos h, if_pos hmore, List.take_append_of_le_length h,
      List.drop_append_of_le_length h]
  · simp only [take, if_neg h]
    exact .inl trivial

theorem streams_bind {r : ByteReader ε α} {f : α → ByteReader ε β} (h : Streams err r)
    (hf : ∀ a, Streams err (f a)) : Streams err (r >>= f) := by
  intro input more
  have hr := h input more
  simp only [bind, StateT.bind, Except.bind]
  cases hread : r input with
  | error e =>
      rw [hread] at hr
      rcases hr with rfl | hr
      · exact .inl rfl
      · rw [hr]
        exact .inr rfl
  | ok x =>
      obtain ⟨a, rest⟩ := x
      rw [hread] at hr
      rw [hr]
      exact hf a rest more

theorem streams_word (n : Nat) : Streams err (takeWord err n) :=
  streams_bind (streams_take n) fun _ => streams_pure _

theorem streams_many {r : ByteReader ε α} (h : Streams err r) (n : Nat) :
    Streams err (many r n) := by
  induction n with
  | zero => exact streams_pure []
  | succ n ih =>
      refine streams_bind h fun a => ?_
      exact streams_bind ih fun as => streams_pure _

/-- A reader that takes all of `bytes` fails with `err` on any part of it cut off at the end. -/
theorem Streams.truncated {r : ByteReader ε α} (h : Streams err r) {bytes cut : List UInt8}
    {a : α} (hr : Decodes r bytes a) (hcut : cut <+: bytes) (hne : cut ≠ bytes) :
    r cut = .error err := by
  obtain ⟨tail, rfl⟩ := hcut
  have hwhole : r (cut ++ tail) = .ok (a, []) := by simpa using hr []
  have hmore := h cut tail
  cases hread : r cut with
  | error e =>
      rw [hread] at hmore
      rcases hmore with rfl | hmore
      · rfl
      · rw [hwhole] at hmore
        cases hmore
  | ok x =>
      obtain ⟨b, rest⟩ := x
      rw [hread] at hmore
      rw [hwhole] at hmore
      have hempty : rest ++ tail = [] := by
        have heq := Except.ok.inj hmore
        exact (congrArg Prod.snd heq).symm
      have htail : tail = [] := (List.append_eq_nil_iff.mp hempty).2
      rw [htail, List.append_nil] at hne
      exact absurd rfl hne

end GameScript.Codec
