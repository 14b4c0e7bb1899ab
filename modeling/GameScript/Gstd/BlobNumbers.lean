import GameScript.Gstd.BlobContents

/-!
`writen` and `readn` of a blob. A number that is written in an integer format is read back in the
same format as its low bytes say, and the other bytes are those that there were.
-/

namespace GameScript.Blob

open Effect

variable {mem : Allocator} {fl : Floats} {w w' : World} {this : Ref} {b : GSBlob}

/-! ### Integer formats -/

inductive IntFormat where
  | long
  | int
  | short
  | word
  | char
  | byte

namespace IntFormat

def letter : IntFormat → GSInteger
  | .long => ch 'l'
  | .int => ch 'i'
  | .short => ch 's'
  | .word => ch 'w'
  | .char => ch 'c'
  | .byte => ch 'b'

def width : IntFormat → Nat
  | .long => 8
  | .int => 4
  | .short | .word => 2
  | .char | .byte => 1

def signed : IntFormat → Bool
  | .long | .int | .short | .char => true
  | .word | .byte => false

/-- A number truncated to the width of the format, and extended as the format says. -/
def value (f : IntFormat) (v : Int) : Int :=
  if f.signed then v.bmod (256 ^ f.width) else v % 256 ^ f.width

end IntFormat

theorem toInt_eq_bmod (v : GSInteger) : v.toInt = (v.toBitVec.toNat : Int).bmod (2 ^ 64) :=
  BitVec.toInt_eq_toNat_bmod v.toBitVec

/-- Reading the low bytes of a number as a signed one. -/
theorem bmod_toNat (v : GSInteger) {m : Nat} (h : m ∣ 2 ^ 64) :
    ((v.toBitVec.toNat % m : Nat) : Int).bmod m = v.toInt.bmod m := by
  rw [toInt_eq_bmod, Int.bmod_bmod_of_dvd h, Int.natCast_emod, Int.emod_bmod]

/-- Reading the low bytes of a number as one without a sign. -/
theorem emod_toNat (v : GSInteger) {m : Nat} (h : m ∣ 2 ^ 64) :
    ((v.toBitVec.toNat % m : Nat) : Int) = v.toInt % m := by
  have hdvd : (m : Int) ∣ ((2 ^ 64 : Nat) : Int) := Int.natCast_dvd_natCast.mpr h
  rw [toInt_eq_bmod, ← Int.emod_emod_of_dvd _ hdvd, Int.bmod_emod, Int.emod_emod_of_dvd _ hdvd,
    Int.natCast_emod]

theorem toInt_ofNat_mod {v m : Nat} (hpos : 0 < m) (hle : m ≤ 2 ^ 63) :
    (Int64.ofNat (v % m)).toInt = ((v % m : Nat) : Int) :=
  Int64.toInt_ofNat_of_lt (Nat.lt_of_lt_of_le (Nat.mod_lt v hpos) hle)

/-- What `readn` makes of the low bytes of a number. -/
theorem readFormat_letter (fl : Floats) (f : IntFormat) (v : GSInteger) :
    ∃ value, readFormat fl f.letter = some (f.width, value) ∧
      ∃ r : GSInteger, value (v.toBitVec.toNat % 256 ^ f.width) = .integer r ∧
        r.toInt = f.value v.toInt := by
  cases f with
  | long =>
    refine ⟨_, rfl, _, rfl, ?_⟩
    rw [Int64.toInt_ofNat']
    exact bmod_toNat v (Nat.dvd_refl _)
  | int =>
    refine ⟨_, rfl, _, rfl, ?_⟩
    rw [Int32.toInt_toInt64, Int32.toInt_ofNat']
    exact bmod_toNat v (by decide)
  | short =>
    refine ⟨_, rfl, _, rfl, ?_⟩
    rw [Int16.toInt_toInt64, Int16.toInt_ofNat']
    exact bmod_toNat v (by decide)
  | word =>
    refine ⟨_, rfl, _, rfl, ?_⟩
    exact (toInt_ofNat_mod (by decide) (by decide)).trans (emod_toNat v (by decide))
  | char =>
    refine ⟨_, rfl, _, rfl, ?_⟩
    rw [Int8.toInt_toInt64, Int8.toInt_ofNat']
    exact bmod_toNat v (by decide)
  | byte =>
    refine ⟨_, rfl, _, rfl, ?_⟩
    exact (toInt_ofNat_mod (by decide) (by decide)).trans (emod_toNat v (by decide))

theorem writeFormat_letter (fl : Floats) (f : IntFormat) (v : GSInteger) :
    writeFormat fl f.letter v = some (Codec.toBytes f.width v.toBitVec.toNat) := by
  cases f <;> rfl

/-! ### One call -/

/-- The other blobs are what they were, and so are their bytes. -/
def OthersKept (w w' : World) (this : Ref) : Prop :=
  ∀ r c, r ≠ this → Self w r c → Self w' r c ∧ contents w' c = contents w c

/-- The bytes `new` were written into the blob `b` of `this`, which is `b'` then: nothing else in it
has changed, it is larger only where it had to be, and so is its buffer. -/
structure Wrote (w : World) (this : Ref) (b : GSBlob) (new : List UInt8) (w' : World) (b' : GSBlob) :
    Prop where
  self : Self w' this b'
  ptr : b'.ptr = b.ptr + new.length
  bytes : contents w' b' = Memory.overwrite (contents w b) b.ptr.toNat new
  size : b'.size = max b.size (b.ptr + new.length)
  kept : b.ptr + new.length ≤ b.allocated → b'.allocated = b.allocated ∧ b'.buf = b.buf
  others : OthersKept w w' this

theorem OthersKept.trans {w₁ : World} (h : OthersKept w w₁ this) (h' : OthersKept w₁ w' this) :
    OthersKept w w' this := by
  intro r c hne hr
  obtain ⟨hr₁, hcontents₁⟩ := h r c hne hr
  obtain ⟨hr', hcontents'⟩ := h' r c hne hr₁
  exact ⟨hr', hcontents'.trans hcontents₁⟩

/-- What was written stands at the position. -/
theorem read_of_wrote {new : List UInt8} {b' : GSBlob} (h : Wrote w this b new w' b')
    (hb : Sane w.memory b) : ((contents w' b').drop b.ptr.toNat).take new.length = new := by
  have hptr := hb.ptr_nonneg
  have hle := hb.ptr_le
  have hlen := length_contents hb
  rw [h.bytes]
  exact Memory.take_drop_overwrite (by omega) new

/-- Two blobs do not share a buffer. -/
theorem Sound.apart (h : Sound w) (hself : Self w this b) {r : Ref} {c : GSBlob} (hr : Self w r c)
    (hne : r ≠ this) : Memory.Apart c.buf b.buf := by
  intro x hc hb
  have heq := h.separate (some r) (some this) x (hr.owned.trans hc) (hself.owned.trans hb)
  exact hne (Option.some.inj heq)

theorem seek_ok (h : Sound w) (hself : Self w this b) {pos : GSInteger} (h₀ : 0 ≤ pos.toInt)
    (h₁ : pos.toInt ≤ b.size) :
    _stream_seek this pos none w = .ok (.integer 0) (put w this { b with ptr := pos.toInt }) := by
  have hbase : base b GS_SEEK_SET = 0 := rfl
  have hseek := Seek_spec (h.sane this b hself) (int64_range pos).1
    (by rw [hbase, Int.zero_add]; exact (int64_range pos).2) (.inl rfl)
  rw [hbase, Int.zero_add, if_pos ⟨h₀, h₁⟩] at hseek
  unfold _stream_seek SETUP_STREAM seekOrigin
  rw [bind_apply, setup_self h hself]
  dsimp only
  rw [bind_apply, hseek]
  rfl

/-- `writen`, where it ends. -/
theorem writen_wrote (h : Sound w) (hself : Self w this b) {v format : GSInteger}
    {new : List UInt8} (hf : writeFormat fl format v = some new) {o : Object}
    (hrun : _stream_writen mem fl this v format w = .ok o w') :
    Writable mem b new.length ∧ ∃ b', Wrote w this b new w' b' := by
  have hb := h.sane this b hself
  unfold _stream_writen SETUP_STREAM at hrun
  rw [bind_apply, setup_self h hself] at hrun
  dsimp only at hrun
  rw [hf] at hrun
  dsimp only at hrun
  obtain ⟨i, w₁, hdeclare, hwriting⟩ := bind_eq_ok.mp hrun
  cases hdeclare
  obtain ⟨⟨b', n⟩, w₂, hwrite, hrest⟩ := bind_eq_ok.mp hwriting
  cases hrest
  -- the local variable
  have hlocal := w.memory.alloc_block new
  obtain ⟨hcells, halloc⟩ := w.memory.alloc_cells new
  have happart : Memory.Apart (some w.memory.next) b.buf := hb.block.apart_next.symm
  have hw : Sound { w with memory := w.memory.alloc new } := h.memory (w.memory.alloc_extends new)
  have hold : contents { w with memory := w.memory.alloc new } b = contents w b :=
    congrArg (List.take _) (halloc _ happart.symm)
  obtain ⟨hwritable, hptr, hsize, hkept, hcontents, hinstances, hothers⟩ := Write_contents
    (hw.sane this b hself) hcells rfl hlocal happart hwrite
  obtain ⟨b₂, m, hwrite₂, hrep⟩ := Write_spec (n := new.length) (sound_put hw hself) hself.lt
    (by omega) (by omega) hlocal hwritable.1 hwritable.2 (.inl happart)
  rw [hwrite₂] at hwrite
  cases hwrite
  have hfree := Memory.free_cells m (some w.memory.next)
  refine ⟨hwritable, b', ⟨self_put (w := { w with memory := m }) hself.lt, hptr, ?_, hsize, hkept, ?_⟩⟩
  · rw [hold] at hcontents
    rw [← hcontents]
    exact congrArg (List.take _) (hfree _ (hrep.apart _ _ hlocal happart).symm)
  · intro r c hne hr
    refine ⟨(self_put_of_ne hne).mpr hr, congrArg (List.take _) ?_⟩
    have hc := (h.sane r c hr).block
    have hcb := h.apart hself hr hne
    have hnext : Memory.Apart c.buf (some w.memory.next) := hc.apart_next
    have hkeep := w.memory.alloc_extends new _ _ hc
    calc (m.free (some w.memory.next)).cells c.buf
        = m.cells c.buf := hfree _ hnext
      _ = (w.memory.alloc new).cells c.buf := hothers _ _ hkeep hcb (hrep.apart _ _ hkeep hcb)
      _ = w.memory.cells c.buf := halloc _ hnext

/-- `writen` ends where it can write. -/
theorem writen_ok (h : Sound w) (hself : Self w this b) {v format : GSInteger} {new : List UInt8}
    (hf : writeFormat fl format v = some new) (hwritable : Writable mem b new.length) :
    ∃ w', _stream_writen mem fl this v format w = .ok .null w' := by
  have hb := h.sane this b hself
  have hlocal := w.memory.alloc_block new
  have happart : Memory.Apart (some w.memory.next) b.buf := hb.block.apart_next.symm
  have hw : Sound { w with memory := w.memory.alloc new } := h.memory (w.memory.alloc_extends new)
  obtain ⟨b₂, m, hwrite, -⟩ := Write_spec (n := new.length) (sound_put hw hself) hself.lt
    (by omega) (by omega) hlocal hwritable.1 hwritable.2 (.inl happart)
  unfold _stream_writen SETUP_STREAM
  rw [bind_apply, setup_self h hself]
  dsimp only
  rw [hf]
  dsimp only
  have hdeclare : declare new w =
      .ok (some w.memory.next) { w with memory := w.memory.alloc new } := rfl
  rw [bind_apply, hdeclare]
  dsimp only
  rw [bind_apply, hwrite]
  exact ⟨_, rfl⟩

/-- `readn` of bytes that there are. -/
theorem readn_ok (h : Sound w) (hself : Self w this b) {format : GSInteger} {len : Nat}
    {value : Nat → Object} (hf : readFormat fl format = some (len, value))
    (hroom : b.ptr + len ≤ b.size) :
    ∃ w', _stream_readn fl this format w =
        .ok (value (Codec.ofBytes (((contents w b).drop b.ptr.toNat).take len))) w' ∧
      Self w' this { b with ptr := b.ptr + len } ∧
      contents w' { b with ptr := b.ptr + len } = contents w b ∧ OthersKept w w' this := by
  have hb := h.sane this b hself
  have hsize := hb.size_le
  have hmax := hb.allocated_le
  -- the local variable
  have hlocal := w.memory.alloc_block (List.replicate len (0 : UInt8))
  have hext := w.memory.alloc_extends (List.replicate len (0 : UInt8))
  obtain ⟨-, halloc⟩ := w.memory.alloc_cells (List.replicate len (0 : UInt8))
  rw [List.length_replicate] at hlocal
  have hw : Sound { w with memory := w.memory.alloc (List.replicate len 0) } := h.memory hext
  have happart : Memory.Apart (some w.memory.next) b.buf := hb.block.apart_next.symm
  have hold : contents { w with memory := w.memory.alloc (List.replicate len 0) } b = contents w b :=
    congrArg (List.take _) (halloc _ happart.symm)
  obtain ⟨b', m, hread, -, hext', -⟩ := Read_spec (n := len) (sound_put hw hself) hself.lt
    (by omega) (by omega) hlocal (by omega) happart
  obtain ⟨rfl, hall, hcells, -, hothers⟩ :=
    Read_contents (hw.sane this b hself) (by omega) hroom hlocal hread
  rw [hold] at hcells
  obtain ⟨bytes, hload, hlen⟩ := load_spec
    (w := put { w with memory := m } this { b with ptr := b.ptr + len }) (hext' _ _ hlocal) 0 len
    (by omega) (by omega)
  have hbytes : bytes = ((contents w b).drop b.ptr.toNat).take len := by
    have hfound : bytes = ((m.cells (some w.memory.next)).drop 0).take len := (load_ok hload).1
    rw [hfound, hcells, List.drop_zero, Int.toNat_natCast, List.take_take, Nat.min_self]
  have hfree := Memory.free_cells m (some w.memory.next)
  have hdeclare : declare (List.replicate len 0) w =
      .ok (some w.memory.next) { w with memory := w.memory.alloc (List.replicate len 0) } := rfl
  have hupdate : update this { b with ptr := b.ptr + len } { w with memory := m } =
      .ok () (put { w with memory := m } this { b with ptr := b.ptr + len }) := rfl
  refine ⟨put { w with memory := m.free (some w.memory.next) } this { b with ptr := b.ptr + len },
    ?_, self_put (w := { w with memory := m.free (some w.memory.next) }) hself.lt, ?_, ?_⟩
  · unfold _stream_readn SETUP_STREAM
    rw [bind_apply, setup_self h hself]
    dsimp only
    rw [hf]
    dsimp only
    rw [bind_apply, hdeclare]
    dsimp only
    rw [bind_apply, hread]
    dsimp only
    rw [bind_apply, hupdate]
    dsimp only
    rw [bind_apply, hload, hall]
    dsimp only
    rw [hbytes, if_neg (not_not_intro rfl)]
    rfl
  · exact congrArg (List.take _)
      ((hfree _ happart.symm).trans ((hothers _ happart.symm).trans (halloc _ happart.symm)))
  · intro r c hne hr
    have hnext : Memory.Apart c.buf (some w.memory.next) := (h.sane r c hr).block.apart_next
    exact ⟨(self_put_of_ne hne).mpr hr, congrArg (List.take _)
      ((hfree _ hnext).trans ((hothers _ hnext).trans (halloc _ hnext)))⟩

/-! ### The round trip -/

/-- A number `v` that is written at a position is read back there as its low bytes say, in the
format's way. Both calls go forward by the width of the format, the other bytes of the blob are
kept, and so are the other blobs. -/
def RoundTrip (mem : Allocator) (fl : Floats) (w : World) (this : Ref) (b : GSBlob)
    (pos v : GSInteger) (f : IntFormat) : Prop :=
  ∃ w₁ w₂ w₃ w₄ b' new r,
    _stream_seek this pos none w = .ok (.integer 0) w₁ ∧
    _stream_writen mem fl this v f.letter w₁ = .ok .null w₂ ∧
    new.length = f.width ∧ Wrote w this { b with ptr := pos.toInt } new w₂ b' ∧
    _stream_seek this pos none w₂ = .ok (.integer 0) w₃ ∧
    _stream_readn fl this f.letter w₃ = .ok (.integer r) w₄ ∧ r.toInt = f.value v.toInt ∧
    Self w₄ this b' ∧ contents w₄ b' = contents w₂ b' ∧ OthersKept w₂ w₄ this

/-- The state with the position moved. -/
theorem put_seek (h : Sound w) (hself : Self w this b) {n : Int} (h₀ : 0 ≤ n) (h₁ : n ≤ b.size) :
    Sound (put w this { b with ptr := n }) ∧ Self (put w this { b with ptr := n }) this
      { b with ptr := n } ∧ OthersKept w (put w this { b with ptr := n }) this :=
  ⟨h.seek hself h₀ h₁, self_put hself.lt, fun _ _ hne hr => ⟨(self_put_of_ne hne).mpr hr, rfl⟩⟩

theorem writen_sound (h : Sound w) (hself : Self w this b) {v format : GSInteger} {new : List UInt8}
    (hf : writeFormat fl format v = some new) (hwritable : Writable mem b new.length) {o : Object}
    (hrun : _stream_writen mem fl this v format w = .ok o w') : Sound w' := by
  have hallowed : Allowed mem fl w (.writen this v format) := by
    intro c bytes hc hbytes
    rw [hself.unique hc]
    cases hf.symm.trans hbytes
    exact hwritable
  have hfine := (writen_fine h hallowed).1
  rw [hrun] at hfine
  exact hfine

/-- Writing a number and reading it back works in every blob and at every position, exactly where
the `Write` gets the memory it needs and no sum overflows. -/
theorem roundTrip_iff (h : Reached fl (fun mem => Allowed mem fl) w) (hself : Self w this b)
    {pos : GSInteger} (h₀ : 0 ≤ pos.toInt) (h₁ : pos.toInt ≤ b.size) (v : GSInteger)
    (f : IntFormat) :
    RoundTrip mem fl w this b pos v f ↔ Writable mem { b with ptr := pos.toInt } f.width := by
  have hsound := h.sound
  have hseek := seek_ok hsound hself h₀ h₁
  obtain ⟨hsound₁, hself₁, hkept₁⟩ := put_seek hsound hself h₀ h₁
  have hf := writeFormat_letter fl f v
  have hlen : (Codec.toBytes f.width v.toBitVec.toNat).length = f.width := Codec.toBytes_length ..
  constructor
  · rintro ⟨w₁, w₂, w₃, w₄, b', new, r, hseek₁, hwriten, -⟩
    rw [hseek] at hseek₁
    cases hseek₁
    have hwritable := (writen_wrote hsound₁ hself₁ hf hwriten).1
    rwa [hlen] at hwritable
  · intro hwritable
    rw [← hlen] at hwritable
    obtain ⟨w₂, hwriten⟩ := writen_ok hsound₁ hself₁ hf hwritable
    obtain ⟨-, b', hwrote⟩ := writen_wrote hsound₁ hself₁ hf hwriten
    have hsound₂ := writen_sound hsound₁ hself₁ hf hwritable hwriten
    have hptr : b'.ptr = pos.toInt + (Codec.toBytes f.width v.toBitVec.toNat).length := hwrote.ptr
    have hsize : b'.size = max b.size (pos.toInt + (Codec.toBytes f.width v.toBitVec.toNat).length) :=
      hwrote.size
    have hseek₂ := seek_ok hsound₂ hwrote.self h₀ (by omega)
    obtain ⟨hsound₃, hself₃, hkept₃⟩ := put_seek hsound₂ hwrote.self (n := pos.toInt) h₀ (by omega)
    obtain ⟨value, hread, r, hvalue, hr⟩ := readFormat_letter fl f v
    have hroom : pos.toInt + f.width ≤ b'.size := by omega
    obtain ⟨w₄, hreadn, hself₄, hcontents₄, hkept₄⟩ := readn_ok hsound₃ hself₃ hread hroom
    have hbytes := read_of_wrote hwrote (hsound₁.sane this _ hself₁)
    rw [hlen] at hbytes
    have hb' : { b' with ptr := pos.toInt + f.width } = b' := by
      rw [← hlen, ← hptr]
    refine ⟨_, w₂, _, w₄, b', _, r, hseek, hwriten, hlen, ⟨hwrote.self, hwrote.ptr, hwrote.bytes,
      hwrote.size, hwrote.kept, hkept₁.trans hwrote.others⟩, hseek₂, ?_, hr, ?_, ?_,
      hkept₃.trans hkept₄⟩
    · have hvalue₄ : value (Codec.ofBytes (((contents w₂ b').drop pos.toInt.toNat).take f.width)) =
          .integer r := by
        refine (congrArg (fun bytes => value (Codec.ofBytes bytes)) hbytes).trans ?_
        rw [Codec.ofBytes_toBytes, hvalue]
      rw [← hvalue₄]
      exact hreadn
    · exact hb' ▸ hself₄
    · exact (congrArg (contents w₄) hb').symm.trans hcontents₄

theorem fourBytes_allowed : Reached noFloats (fun mem => Allowed mem noFloats) fourBytes :=
  fourBytes_reached _ trivial (.inr (.inr rfl))

/-- `b.writen(-2, 's')` and `b.readn('s')`, at the beginning of four bytes. -/
theorem roundTrip_fourBytes : RoundTrip plenty noFloats fourBytes 0
    { size := 4, allocated := 4, buf := some 0 } 0 (-2) .short := by
  have hself : Self fourBytes 0 { size := 4, allocated := 4, buf := some 0 } := rfl
  have hpos : (0 : Int) ≤ (0 : GSInteger).toInt := by decide
  exact (roundTrip_iff fourBytes_allowed hself hpos (by decide) (-2) .short).mpr
    ⟨by decide, fun hgrow => absurd hgrow (by decide)⟩

/-- No memory for any request. -/
def nothing : Allocator where
  malloc _ := false
  realloc _ := false
  vm := plenty.vm

/-- At the end of the four bytes, `writen` clears a new buffer that it was not given. -/
theorem not_roundTrip_fourBytes :
    Reached noFloats (fun mem => Allowed mem noFloats) fourBytes ∧
      ¬ RoundTrip nothing noFloats fourBytes 0 { size := 4, allocated := 4, buf := some 0 } 4 1
        .byte := by
  refine ⟨fourBytes_allowed, ?_⟩
  rintro ⟨w₁, w₂, w₃, w₄, b', new, r, hseek₁, hwriten, -⟩
  have hself : Self fourBytes 0 { size := 4, allocated := 4, buf := some 0 } := rfl
  have hpos : (0 : Int) ≤ (4 : GSInteger).toInt := by decide
  have hsound := fourBytes_allowed.sound
  rw [seek_ok hsound hself hpos (by decide)] at hseek₁
  cases hseek₁
  obtain ⟨hsound₁, hself₁, -⟩ := put_seek hsound hself hpos (by decide)
  obtain ⟨⟨-, hgrowth⟩, -⟩ :=
    writen_wrote hsound₁ hself₁ (writeFormat_letter noFloats .byte 1) hwriten
  obtain ⟨-, hzero | hgranted⟩ := hgrowth (by decide)
  · exact absurd hzero (by decide)
  · cases hgranted

end GameScript.Blob
