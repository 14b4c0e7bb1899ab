import GameScript.Gstd.BlobBounds

/-!
What is asked of a call of a blob's method, `Meets`: the positions, sizes and capacities of
all blobs are in order after it, no byte outside a buffer was touched, and a request out of
range raised, moved nothing or transferred fewer bytes. `Allowed` is the condition of a
call, and each method that is allowed ends well.
-/

namespace GameScript.Blob

open Effect

variable (mem : Allocator) (fl : Floats)

/-! ### The property and its condition -/

def Bounded (w : World) : Prop :=
  ∀ i b, Self w i b → 0 ≤ b.ptr ∧ b.ptr ≤ b.size ∧ b.size ≤ b.allocated

abbrev Result := EStateM.Result Stop World Object

def Raises (r : Result) : Prop := ∃ message w', r = .error (.raised message) w'

/-- What becomes of a request that is out of range. -/
def Refuses (w : World) (r : Result) : Call → Prop
  | .constructor _ size => (size.getD 0).toInt < 0 → Raises r
  | .resize this size => ∀ b, Self w this b → size.toInt < 0 → Raises r
  | .readn this format => ∀ b len value, Self w this b →
      readFormat fl format = some (len, value) → b.size < b.ptr + len → Raises r
  | .readblob this size => ∀ b, Self w this b →
      (size.toInt < 0 → Raises r) ∧
      (b.size < b.ptr + size.toInt →
        Raises r ∨ ∃ i w' b', r = .ok (.instance i) w' ∧ Self w' i b' ∧ b'.size < size.toInt)
  | .seek this offset origin => ∀ b o, Self w this b → seekOrigin origin = some o →
      ¬ (0 ≤ base b o + offset.toInt ∧ base b o + offset.toInt ≤ b.size) →
      r = .ok (.integer (-1)) w
  | .set this idx _ | .get this idx => ∀ b, Self w this b →
      ¬ (0 ≤ idx.toInt ∧ idx.toInt < b.size) → Raises r
  | _ => True

def Meets (c : Call) (w : World) : Prop :=
  (match c.run mem fl w with
    | .ok _ w' | .error (.raised _) w' => Bounded w'
    | .error .undefined _ => False) ∧
  Refuses fl w (c.run mem fl w) c

/-- What a `Write` of `n` bytes needs. -/
def Writable (b : GSBlob) (n : Int) : Prop := b.ptr + n ≤ MAX ∧ Growth mem b (b.ptr + n)

/-- What a `Read` of up to `size` bytes into the scratch pad, and the blob made from them,
need. -/
def Readable (w : World) (b : GSBlob) (size : Int) : Prop :=
  0 ≤ size ∧ b.ptr + min size b.size ≤ MAX ∧
  (∀ n, newsize w.scratchpadsize (min size b.size) = some n → mem.realloc n.toNat = true) ∧
  (0 < transferred b (min size b.size) →
    Granted mem (transferred b (min size b.size)) ∧ mem.vm.creating.Room)

/-- The condition of a call. -/
def Allowed (w : World) : Call → Prop
  | .constructor _ size =>
    let n := (size.getD 0).toInt
    n < 0 ∨ Granted mem n
  | .readn this format => ∀ b len value, Self w this b →
      readFormat fl format = some (len, value) → b.ptr + len ≤ MAX
  | .writen this value format => ∀ b bytes, Self w this b →
      writeFormat fl format value = some bytes → Writable mem b bytes.length
  | .readblob this size => ∀ b, Self w this b → Readable mem w b size.toInt
  | .writeblob this src => ∀ b, Self w this b →
      w.instances.getD src .other ≠ .blob none ∧
      ∀ s, Self w src s → Writable mem b s.size ∧
        (src = this → b.ptr + s.size ≤ b.allocated ∧ s.size ≤ b.ptr)
  | .seek this offset origin => ∀ b o, Self w this b → seekOrigin origin = some o →
      base b o + offset.toInt ≤ MAX
  | .resize this size => ∀ b, Self w this b →
      size.toInt = b.allocated ∨ 0 ≤ size.toInt ∧ Granted mem size.toInt
  | _ => True

variable {mem fl}

/-! ### Methods -/

/-- The call was not undefined, and the invariant holds after it. -/
def Good (r : Result) : Prop :=
  match r with
  | .ok _ w' | .error (.raised _) w' => Sound w'
  | .error .undefined _ => False

/-- `SETUP` gives the blob of the receiver or, when there is none, raises. -/
theorem setup_cases {w : World} (h : Sound w) (invalid : List UInt8) (this : Ref) :
    (∃ b, Self w this b ∧ setup invalid this w = .ok b w) ∨
      (∀ b, ¬ Self w this b) ∧ ∃ message, setup invalid this w = .error (.raised message) w := by
  unfold setup
  rw [get_bind_apply, List.getD_eq_getElem?_getD]
  cases hget : w.instances[this]? with
  | none => exact .inr ⟨fun b hb => (nomatch hget.symm.trans hb), _, rfl⟩
  | some found =>
    cases found with
    | other => exact .inr ⟨fun b hb => (nomatch hget.symm.trans hb), _, rfl⟩
    | blob up =>
      cases up with
      | none => exact .inr ⟨fun b hb => (nomatch hget.symm.trans hb), _, rfl⟩
      | some b =>
        have hb : Sane w.memory b := h.sane this b hget
        have hvalid : b.IsValid = true := by
          unfold GSBlob.IsValid
          cases hbuf : b.buf with
          | some r => simp
          | none =>
            have hblock := hb.block
            rw [hbuf] at hblock
            have hzero : b.allocated.toNat = 0 := hblock
            have hptr := hb.ptr_nonneg
            have hle := hb.ptr_le
            have hsize := hb.size_le
            have hempty : b.size = 0 := by omega
            simp [hempty]
        refine .inl ⟨b, hget, ?_⟩
        show (if b.IsValid then pure b else throw (Stop.raised invalid) : BlobM GSBlob) w = _
        rw [if_pos hvalid]
        rfl

/-- What holds of a result when the receiver is refused, and of the rest of the method when it
is not, holds of the method. -/
theorem setup_bind {w : World} (h : Sound w) {invalid : List UInt8} {this : Ref}
    {f : GSBlob → BlobM Object} {p : Result → Prop}
    (hraised : (∀ b, ¬ Self w this b) → ∀ message, p (.error (.raised message) w))
    (hf : ∀ b, Self w this b → p (f b w)) : p ((setup invalid this >>= f) w) := by
  rw [bind_apply]
  rcases setup_cases h invalid this with ⟨b, hself, hsetup⟩ | ⟨hno, message, hsetup⟩
  · rw [hsetup]
    exact hf b hself
  · rw [hsetup]
    exact hraised hno message

theorem sound_put {w : World} {this : Ref} {b : GSBlob} (h : Sound w) (hself : Self w this b) :
    Sound (put w this b) := by
  rw [hself.put_eq]
  exact h

theorem Self.unique {w : World} {this : Ref} {b b' : GSBlob} (h : Self w this b)
    (h' : Self w this b') : b' = b := by
  rw [Self, h] at h'
  cases h'
  rfl

/-- A call ends well: the invariant holds after it, and it refuses what is out of range. -/
def Fine (fl : Floats) (w : World) (c : Call) (r : Result) : Prop := Good r ∧ Refuses fl w r c

/-- Only the position has changed, to one inside the blob. -/
theorem Sound.seek {w : World} {this : Ref} {b : GSBlob} (h : Sound w) (hself : Self w this b)
    {n : Int} (h₀ : 0 ≤ n) (h₁ : n ≤ b.size) : Sound (put w this { b with ptr := n }) := by
  have hb := h.sane this b hself
  have hsane : Sane w.memory { b with ptr := n } :=
    ⟨hb.owns, h₀, h₁, hb.size_le, hb.allocated_le, hb.block⟩
  exact (sound_put h hself).replace hself.lt (fun q k _ hq => hq) hsane (.inl rfl)

theorem int64_range (n : GSInteger) : -MAX - 1 ≤ n.toInt ∧ n.toInt ≤ MAX := by
  have hlow := n.minValue_le_toInt
  have hhigh := n.toInt_le
  unfold MAX
  constructor
  · exact hlow
  · exact hhigh

theorem seekOrigin_known {origin : Option GSInteger} {o : Int} (h : seekOrigin origin = some o) :
    o = GS_SEEK_SET ∨ o = GS_SEEK_CUR ∨ o = GS_SEEK_END := by
  cases origin with
  | none => exact .inl (Option.some.inj h).symm
  | some t =>
    unfold seekOrigin at h
    simp only at h
    split at h
    · exact .inl (Option.some.inj h).symm
    · split at h
      · exact .inr (.inl (Option.some.inj h).symm)
      · split at h
        · exact .inr (.inr (Option.some.inj h).symm)
        · cases h

/-- A seek refuses what lies outside of the blob and keeps the bounds. -/
theorem seek_fine {w : World} (h : Sound w) {this : Ref} {offset : GSInteger}
    {origin : Option GSInteger} (hc : Allowed mem fl w (.seek this offset origin)) :
    Fine fl w (.seek this offset origin) (_stream_seek this offset origin w) := by
  refine setup_bind h (fun hno message => ⟨h, fun b o hb => absurd hb (hno b)⟩) fun b hself => ?_
  have hb := h.sane this b hself
  cases ho : seekOrigin origin with
  | none => exact ⟨h, fun c o _ ho' => nomatch ho.symm.trans ho'⟩
  | some o =>
    simp only
    rw [bind_apply, Seek_spec hb (int64_range offset).1 (hc b o hself ho) (seekOrigin_known ho)]
    by_cases hin : 0 ≤ base b o + offset.toInt ∧ base b o + offset.toInt ≤ b.size
    · rw [if_pos hin]
      constructor
      · exact h.seek hself hin.1 hin.2
      · intro c o' hc' ho' hout
        rw [hself.unique hc', Option.some.inj (ho'.symm.trans ho)] at hout
        exact absurd hin hout
    · rw [if_neg hin]
      have hupdate : (update this b >>= fun _ => pure (Object.integer (Int64.ofInt (-1)))) w =
          .ok (.integer (-1)) w := by
        rw [bind_apply]
        show EStateM.Result.ok _ (put w this b) = _
        rw [hself.put_eq]
        rfl
      constructor
      · show Good ((update this b >>= _) w)
        rw [hupdate]
        exact h
      · exact fun _ _ _ _ _ => hupdate

/-- A resize that is allowed copies inside both buffers and keeps the bounds.
-/
theorem resize_fine {w : World} (h : Sound w) {this : Ref} {size : GSInteger}
    (hc : Allowed mem fl w (.resize this size)) :
    Fine fl w (.resize this size) (_blob_resize mem this size w) := by
  refine setup_bind h (fun hno message => ⟨h, fun b hb => absurd hb (hno b)⟩) fun b hself => ?_
  have hn := hc b hself
  have hb := h.sane this b hself
  obtain ⟨b', m, hresize, hrep, -⟩ :=
    Resize_spec (sound_put h hself) hself.lt (int64_range size).2 hn
  rw [bind_apply, hresize]
  refine ⟨hrep.sound, fun c hc' hneg => ?_⟩
  have hnonneg : 0 ≤ b.allocated := by
    have hptr := hb.ptr_nonneg
    have hle := hb.ptr_le
    have hsize := hb.size_le
    omega
  omega

/-- An index in range is inside the buffer. -/
theorem set_fine {w : World} (h : Sound w) (this : Ref) (idx val : GSInteger) :
    Fine fl w (.set this idx val) (_blob_set this idx val w) := by
  refine setup_bind h (fun hno message => ⟨h, fun b hb => absurd hb (hno b)⟩) fun b hself => ?_
  have hb := h.sane this b hself
  have hsize := hb.size_le
  by_cases hout : idx.toInt < 0 ∨ b.size ≤ idx.toInt
  · rw [if_pos hout]
    exact ⟨h, fun c _ _ => ⟨_, _, rfl⟩⟩
  · rw [if_neg hout]
    obtain ⟨m, hstore, hext, -⟩ := hb.block.store idx.toInt
      [UInt8.ofNat val.toBitVec.toNat] (by omega) (by rw [List.length_singleton]; omega)
    rw [bind_apply, access_eq hstore]
    refine ⟨h.memory hext, fun c hc hno => ?_⟩
    rw [hself.unique hc] at hno
    omega

/-- A load inside a block gives its bytes. -/
theorem load_spec {p : Pointer} {k : Nat} {w : World} (h : w.memory.Block p k) (off : Int)
    (n : Nat) (hoff : 0 ≤ off) (hroom : off + n ≤ k) :
    ∃ bytes, load p off n w = .ok bytes w ∧ bytes.length = n := by
  obtain ⟨bytes, hload, hlen⟩ := h.load off n hoff hroom
  refine ⟨bytes, ?_, hlen⟩
  unfold load
  rw [get_bind_apply, hload]
  rfl

/-- An index outside of the blob is refused. -/
theorem get_fine {w : World} (h : Sound w) (this : Ref) (idx : GSInteger) :
    Fine fl w (.get this idx) (_blob_get this idx w) := by
  refine setup_bind h (fun hno message => ⟨h, fun b hb => absurd hb (hno b)⟩) fun b hself => ?_
  have hb := h.sane this b hself
  have hsize := hb.size_le
  by_cases hout : idx.toInt < 0 ∨ b.size ≤ idx.toInt
  · rw [if_pos hout]
    exact ⟨h, fun c _ _ => ⟨_, _, rfl⟩⟩
  · rw [if_neg hout]
    obtain ⟨bytes, hload, -⟩ := load_spec hb.block idx.toInt 1 (by omega) (by omega)
    rw [bind_apply, hload]
    refine ⟨h, fun c hc hno => ?_⟩
    rw [hself.unique hc] at hno
    omega

/-- Swapping a number inside the buffer leaves every block where it is. -/
theorem swapAt_spec {p : Pointer} {width i k : Nat} {w : World} (h : w.memory.Block p k)
    (hroom : width * i + width ≤ k) :
    ∃ m, swapAt p width i w = .ok () { w with memory := m } ∧ w.memory.Extends m := by
  obtain ⟨bytes, hload, hlen⟩ := load_spec h (width * i : Nat) width (by omega) (by omega)
  obtain ⟨m, hstore, hext, -⟩ := h.store (width * i : Nat) bytes.reverse (by omega)
    (by rw [List.length_reverse]; omega)
  refine ⟨m, ?_, hext⟩
  unfold swapAt
  rw [← Int.natCast_mul, bind_apply, hload]
  exact access_eq hstore

/-- Swaps inside a block change the block only. -/
theorem swapAll_spec {p : Pointer} {k : Nat} (width : Nat) (l : List Nat)
    (hroom : ∀ i ∈ l, width * i + width ≤ k) {w : World} (h : w.memory.Block p k) :
    ∃ m, l.forM (swapAt p width) w = .ok () { w with memory := m } ∧ w.memory.Extends m := by
  induction l generalizing w with
  | nil => exact ⟨w.memory, rfl, .refl _⟩
  | cons i l ih =>
    obtain ⟨m, hswap, hext⟩ := swapAt_spec h (hroom i List.mem_cons_self)
    obtain ⟨m', hrest, hext'⟩ := ih (fun j hj => hroom j (List.mem_cons_of_mem i hj))
      (w := { w with memory := m }) (hext _ _ h)
    refine ⟨m', ?_, hext.trans hext'⟩
    show (swapAt p width i >>= fun _ => l.forM (swapAt p width)) w = _
    rw [bind_apply, hswap]
    exact hrest

/-- The last of the numbers that are swapped ends inside the blob. -/
theorem swap_room {size : Int} {width i : Nat} (hwidth : 0 < width)
    (hi : i < ((size - size % width) / width).toNat) : (width * i + width : Int) ≤ size := by
  have hpos : (0 : Int) < width := by omega
  have hdiv : size - size % width = width * (size / width) := by
    have hsplit := Int.mul_ediv_add_emod size width
    omega
  rw [hdiv, Int.mul_ediv_cancel_left _ (by omega)] at hi
  have hle : (i + 1 : Int) ≤ size / width := by omega
  have hrem := Int.emod_nonneg size (by omega : (width : Int) ≠ 0)
  calc (width * i + width : Int) = width * (i + 1) := by rw [Int.mul_add, Int.mul_one]
    _ ≤ width * (size / width) := Int.mul_le_mul_of_nonneg_left hle (by omega)
    _ ≤ size := by omega

/-- A swap of the whole items keeps the bounds. -/
theorem swap_fine {w : World} (h : Sound w) {width : Nat} (hwidth : 0 < width) (this : Ref)
    {c : Call} (hc : ∀ r, Refuses fl w r c) : Fine fl w c (swap width this w) := by
  refine setup_bind h (fun hno message => ⟨h, hc _⟩) fun b hself => ?_
  have hb := h.sane this b hself
  have hptr := hb.ptr_nonneg
  have hle := hb.ptr_le
  have hsize := hb.size_le
  obtain ⟨m, hswap, hext⟩ := swapAll_spec (p := b.buf) width
    (List.range ((b.size - b.size % width) / width).toNat)
    (fun i hi => by
      have hroom := swap_room hwidth (List.mem_range.mp hi)
      rw [← Int.natCast_mul] at hroom
      omega)
    hb.block
  rw [bind_apply, hswap]
  exact ⟨h.memory hext, hc _⟩

/-- An instance without a blob comes into being. -/
theorem Sound.append {w : World} (h : Sound w) {cl : Instance} (hcl : ∀ b, cl ≠ .blob (some b)) :
    Sound { w with instances := w.instances ++ [cl] } := by
  have hself : ∀ i b, Self { w with instances := w.instances ++ [cl] } i b → Self w i b := by
    intro i b hb
    rcases Nat.lt_trichotomy i w.instances.length with hlt | heq | hgt
    · rwa [Self, List.getElem?_append_left hlt] at hb
    · subst heq
      rw [Self, List.getElem?_concat_length] at hb
      exact absurd (Option.some.inj hb) (hcl b)
    · rw [Self, List.getElem?_eq_none (by simp; omega)] at hb
      cases hb
  have howned : ∀ o r, owned { w with instances := w.instances ++ [cl] } o = some r →
      owned w o = some r := by
    intro o r hr
    cases o with
    | none => exact hr
    | some i =>
      simp only [owned] at hr
      split at hr
      · rename_i b hb
        rw [(hself i b hb).owned]
        exact hr
      · cases hr
  exact ⟨fun i b hb => h.sane i b (hself i b hb), h.pad, h.pad_nonneg, h.pad_le,
    fun o o' r ho ho' => h.separate o o' r (howned o r ho) (howned o' r ho')⟩

theorem newinstance_good {w : World} (h : Sound w) {cl : Instance}
    (hcl : ∀ b, cl ≠ .blob (some b)) :
    Good ((newinstance cl >>= fun r => pure (.instance r)) w) :=
  h.append hcl

theorem setinstanceup_other {w : World} {this : Ref} (h : w.instances.getD this .other = .other)
    (b : GSBlob) : setinstanceup this b w = .ok () w := by
  unfold setinstanceup
  rw [Effect.modify_apply, h]

theorem setinstanceup_blob {w : World} {this : Ref} (h : w.instances.getD this .other ≠ .other)
    (b : GSBlob) : setinstanceup this b w = .ok () (put w this b) := by
  unfold setinstanceup
  rw [Effect.modify_apply]
  cases hcl : w.instances.getD this .other with
  | other => exact absurd hcl h
  | blob up => rfl

/-- The constructor gives a blob of the size asked for to an instance with the type tag. -/
theorem constructor_spec {w : World} (h : Sound w) (this : Ref) (size : Option GSInteger)
    (h₀ : 0 ≤ (size.getD 0).toInt) (hg : Granted mem (size.getD 0).toInt) :
    ∃ w', _blob_constructor mem this size w = .ok .null w' ∧ Sound w' ∧
      (w.instances.getD this .other ≠ .other →
        ∃ b m, w' = put { w with memory := m } this b ∧ b.size = (size.getD 0).toInt ∧
          w.memory.Extends m ∧ m.Block b.buf (size.getD 0).toInt.toNat ∧
          ∀ q k, w.memory.Block q k → Memory.Apart q b.buf) := by
  obtain ⟨b, m, hnew, hext, hsane, hsize, hallocated, hfresh⟩ :=
    new_spec h₀ (int64_range _).2 hg w
  unfold _blob_constructor
  rw [if_neg (by omega), bind_apply, hnew]
  simp only
  by_cases hother : w.instances.getD this .other = .other
  · rw [bind_apply, setinstanceup_other (w := { w with memory := m }) hother]
    exact ⟨_, rfl, h.memory hext, fun hno => absurd hother hno⟩
  · have hlt : this < w.instances.length := by
      apply Nat.lt_of_not_le
      intro hge
      apply hother
      rw [List.getD_eq_getElem?_getD, List.getElem?_eq_none hge]
      rfl
    have hblock := hsane.block
    rw [hallocated] at hblock
    rw [bind_apply, setinstanceup_blob (w := { w with memory := m }) hother]
    exact ⟨_, rfl, h.construct hlt hext hsane hfresh, fun _ =>
      ⟨b, m, rfl, hsize, hext, hblock, hfresh⟩⟩

/-- A constructor refuses a negative size and makes a blob within its bounds.
-/
theorem constructor_fine {w : World} (h : Sound w) {this : Ref} {size : Option GSInteger}
    (hc : Allowed mem fl w (.constructor this size)) :
    Fine fl w (.constructor this size) (_blob_constructor mem this size w) := by
  by_cases hneg : (size.getD 0).toInt < 0
  · unfold _blob_constructor
    rw [if_pos hneg]
    exact ⟨h, fun _ => ⟨_, _, rfl⟩⟩
  · have hg : Granted mem (size.getD 0).toInt := hc.resolve_left hneg
    obtain ⟨w', hrun, hsound, -⟩ := constructor_spec h this size (by omega) hg
    rw [hrun]
    exact ⟨hsound, fun hno => absurd hno hneg⟩

/-- A local variable, declared before the method worked on its receiver, goes out of scope. -/
theorem Sound.free_local {w : World} {this : Ref} {b : GSBlob} {m : Memory UInt8} (hw : Sound w)
    (h : Sound (put { w with memory := m } this b)) (hlt : this < w.instances.length)
    (hb : Memory.Apart b.buf (some w.memory.next)) :
    Sound (put { w with memory := m.free (some w.memory.next) } this b) := by
  have hunowned : ∀ o, Memory.Apart (owned (put { w with memory := m } this b) o)
      (some w.memory.next) := by
    intro o
    by_cases ho : o = some this
    · rw [ho, owned_put { w with memory := m } b hlt]
      exact hb
    · obtain ⟨n, hn⟩ := hw.block o
      rw [owned_put_of_ne { w with memory := m } b ho]
      exact hn.apart_next
  exact h.free hunowned

/-- A read of a number transfers the bytes that are there. -/
theorem readn_fine {w : World} (h : Sound w) {this : Ref} {format : GSInteger}
    (hc : Allowed mem fl w (.readn this format)) :
    Fine fl w (.readn this format) (_stream_readn fl this format w) := by
  refine setup_bind h (fun hno message => ⟨h, fun b _ _ hb => absurd hb (hno b)⟩) fun b hself => ?_
  have hb := h.sane this b hself
  cases hf : readFormat fl format with
  | none => exact ⟨h, fun c _ _ _ hf' => nomatch hf.symm.trans hf'⟩
  | some found =>
    obtain ⟨len, value⟩ := found
    have hroom := hc b len value hself hf
    -- the local variable
    have hlocal := w.memory.alloc_block (List.replicate len 0)
    have hext := w.memory.alloc_extends (List.replicate len (0 : UInt8))
    rw [List.length_replicate] at hlocal
    have hw : Sound { w with memory := w.memory.alloc (List.replicate len 0) } := h.memory hext
    have happart : Memory.Apart (some w.memory.next) b.buf := hb.block.apart_next.symm
    obtain ⟨b', m, hread, hsound, hext', hbuf⟩ := Read_spec (n := len) (sound_put hw hself) hself.lt
      (by omega) (by omega) hlocal hroom happart
    obtain ⟨bytes, hload, -⟩ := load_spec
      (w := put { w with memory := m } this b') (hext' _ _ hlocal) 0 len (by omega) (by omega)
    have hfree : Sound (put { w with memory := m.free (some w.memory.next) } this b') :=
      h.free_local hsound hself.lt (by rw [hbuf]; exact hb.block.apart_next)
    simp only
    rw [bind_apply]
    show Fine fl w _ ((Read b (some w.memory.next) len >>= _) _)
    rw [bind_apply, hread]
    simp only
    rw [bind_apply]
    show Fine fl w _ ((load (some w.memory.next) 0 len >>= _) (put { w with memory := m } this b'))
    rw [bind_apply, hload]
    show Fine fl w _ ((if transferred b len ≠ len then throw (.raised (sc "io error"))
      else pure (value (Codec.ofBytes bytes)) : BlobM Object)
      (put { w with memory := m.free (some w.memory.next) } this b'))
    by_cases hall : transferred b len = len
    · rw [if_neg (not_not_intro hall)]
      refine ⟨hfree, fun c len' value' hc' hf' hout => ?_⟩
      rw [hself.unique hc'] at hout
      cases hf.symm.trans hf'
      unfold transferred at hall
      rw [if_neg (by omega)] at hall
      omega
    · rw [if_pos hall]
      exact ⟨hfree, fun _ _ _ _ _ _ => ⟨_, _, rfl⟩⟩

/-- A write of a number keeps the bounds of the blob, grown if need be. -/
theorem writen_fine {w : World} (h : Sound w) {this : Ref} {value format : GSInteger}
    (hc : Allowed mem fl w (.writen this value format)) :
    Fine fl w (.writen this value format) (_stream_writen mem fl this value format w) := by
  refine setup_bind h (fun hno message => ⟨h, trivial⟩) fun b hself => ?_
  have hb := h.sane this b hself
  cases hf : writeFormat fl format value with
  | none => exact ⟨h, trivial⟩
  | some bytes =>
    obtain ⟨hroom, hgrowth⟩ := hc b bytes hself hf
    -- the local variable
    have hlocal := w.memory.alloc_block bytes
    have hw : Sound { w with memory := w.memory.alloc bytes } :=
      h.memory (w.memory.alloc_extends bytes)
    have happart : Memory.Apart (some w.memory.next) b.buf := hb.block.apart_next.symm
    obtain ⟨b', m, hwrite, hrep⟩ := Write_spec (n := bytes.length) (sound_put hw hself) hself.lt
      (by omega) (by omega) hlocal hroom hgrowth (.inl happart)
    have hfree : Sound (put { w with memory := m.free (some w.memory.next) } this b') :=
      h.free_local hrep.sound hself.lt (hrep.apart _ _ hlocal happart).symm
    simp only
    rw [bind_apply]
    show Fine fl w _ ((Write mem b (some w.memory.next) bytes.length >>= _) _)
    rw [bind_apply, hwrite]
    exact ⟨hfree, trivial⟩

/-- A blob is written from within its own buffer. -/
theorem writeblob_fine {w : World} (h : Sound w) {this src : Ref}
    (hc : Allowed mem fl w (.writeblob this src)) :
    Fine fl w (.writeblob this src) (_stream_writeblob mem this src w) := by
  refine setup_bind h (fun hno message => ⟨h, trivial⟩) fun b hself => ?_
  have hb := h.sane this b hself
  obtain ⟨hnull, hsrc⟩ := hc b hself
  cases hget : w.instances.getD src .other with
  | other =>
    rw [bind_apply]
    unfold gstd_getblob
    rw [get_bind_apply, hget]
    exact ⟨h, trivial⟩
  | blob up =>
    cases up with
    | none => exact absurd hget hnull
    | some s =>
      have hs : Self w src s := by
        rw [List.getD_eq_getElem?_getD] at hget
        rw [Self]
        cases hat : w.instances[src]? with
        | none =>
          rw [hat] at hget
          cases hget
        | some found =>
          rw [hat] at hget
          exact congrArg some hget
      have hsane := h.sane src s hs
      have hptr := hsane.ptr_nonneg
      have hle := hsane.ptr_le
      have hsize := hsane.size_le
      obtain ⟨⟨hroom, hgrowth⟩, hsame⟩ := hsrc s hs
      have huntouched : Untouched b s.buf s.size := by
        by_cases heq : src = this
        · exact .inr (hsame heq)
        · refine .inl fun r hr hr' => heq ?_
          have hsep := h.separate (some src) (some this) r (by rw [hs.owned, hr])
            (by rw [hself.owned, hr'])
          exact Option.some.inj hsep
      obtain ⟨b', m, hwrite, hrep⟩ := Write_spec (n := s.size) (sound_put h hself) hself.lt
        (by omega) (by omega) hsane.block hroom hgrowth huntouched
      have hgetblob : gstd_getblob src w = .ok (s.buf, s.size) w := by
        unfold gstd_getblob
        rw [get_bind_apply, hget]
        rfl
      rw [bind_apply, hgetblob]
      simp only
      rw [bind_apply, hwrite]
      show Fine fl w _ ((if s.size ≠ s.size then throw (.raised (sc "io error"))
        else pure (.integer (Int64.ofInt s.size)) : BlobM Object)
        (put { w with memory := m } this b'))
      rw [if_neg (not_not_intro rfl)]
      exact ⟨hrep.sound, trivial⟩

/-! ### `readblob` -/

/-- A buffer grows beyond the size that is needed. -/
theorem newsize_eq_some {pad size n : Int} (h : newsize pad size = some n) (hpad : pad ≤ MAX)
    (h₁ : size ≤ MAX) : 0 < size ∧ size ≤ n ∧ n ≤ MAX := by
  have hbmod := Int.bmod_lt (x := size + size / 2) (m := 18446744073709551616) (by decide)
  unfold newsize at h
  unfold MAX at *
  split at h
  · split at h
    · cases h
      omega
    · split at h
      · cases h
        omega
      · cases h
  · cases h

theorem newsize_eq_none {pad size : Int} (h : newsize pad size = none) (h₀ : 0 < size) :
    size ≤ pad := by
  unfold newsize at h
  rw [if_pos h₀] at h
  split at h
  · cases h
  · omega

/-- A reallocation that is granted gives a block of the new size. -/
theorem realloc_spec {w : World} {p : Pointer} {n : Int} {k : Nat} (hp : w.memory.Block p k)
    (h₀ : 0 ≤ n) (h₁ : n ≤ MAX) (hg : mem.realloc n.toNat = true) :
    ∃ p' m, realloc mem p n w = .ok p' { w with memory := m } ∧ m.Block p' n.toNat ∧
      Except p w.memory m ∧ ∀ q k, w.memory.Block q k → Memory.Apart q p' := by
  unfold realloc
  rw [get_bind_apply, size_t_eq h₀ h₁, if_pos hg]
  let old := ((p.bind w.memory.blocks).getD []).take n.toNat
  let bytes := old ++ List.replicate (n.toNat - old.length) 0
  have hlen : bytes.length = n.toNat := by
    have hold : old.length ≤ n.toNat := List.length_take_le ..
    simp only [bytes, List.length_append, List.length_replicate]
    omega
  have hblock := w.memory.alloc_block bytes
  rw [hlen] at hblock
  refine ⟨some w.memory.next, (w.memory.alloc bytes).free p, rfl, ?_, ?_, ?_⟩
  · exact hblock.free hp.apart_next.symm
  · exact fun q k hq hk => (w.memory.alloc_extends bytes q k hk).free hq
  · exact fun q k hq => hq.apart_next

/-- The pad has room for what was asked for, and the blobs are untouched. -/
theorem GetScratchPad_spec {w : World} (h : Sound w) (size : Int) (h₁ : size ≤ MAX)
    (hg : ∀ n, newsize w.scratchpadsize size = some n → mem.realloc n.toNat = true) :
    ∃ w', GetScratchPad mem size w = .ok w'.scratchpad w' ∧ Sound w' ∧
      w'.instances = w.instances ∧ (0 < size → size ≤ w'.scratchpadsize) := by
  unfold GetScratchPad
  rw [get_bind_apply]
  cases hnew : newsize w.scratchpadsize size with
  | none => exact ⟨w, rfl, h, rfl, newsize_eq_none hnew⟩
  | some n =>
    obtain ⟨hpos, hle, hmax⟩ := newsize_eq_some hnew h.pad_le h₁
    obtain ⟨p, m, hrealloc, hblock, hkept, hfresh⟩ :=
      realloc_spec h.pad (by omega) hmax (hg n hnew)
    refine ⟨{ w with memory := m, scratchpad := p, scratchpadsize := n }, ?_, ?_, rfl, fun _ => hle⟩
    · simp only
      rw [bind_apply, hrealloc]
      rfl
    · have hblob : ∀ i b, Self w i b → Memory.Apart b.buf w.scratchpad := by
        intro i b hb r hr hr'
        have hsep := h.separate (some i) none r (by rw [hb.owned, hr]) hr'
        cases hsep
      have hother : ∀ o r, o ≠ none →
          owned { w with memory := m, scratchpad := p, scratchpadsize := n } o = some r →
          owned w o = some r ∧ p ≠ some r := by
        intro o r ho hr
        cases o with
        | none => exact absurd rfl ho
        | some i =>
          have hr' : owned w (some i) = some r := hr
          obtain ⟨k, hk⟩ := h.block (some i)
          exact ⟨hr', fun hp => hfresh _ k hk r hr' hp⟩
      constructor
      · exact fun i b hb => (h.sane i b hb).memory (hkept _ _ (hblob i b hb))
      · exact hblock
      · show 0 ≤ n
        omega
      · exact hmax
      · intro o o' r ho ho'
        by_cases h₁ : o = none
        · by_cases h₂ : o' = none
          · rw [h₁, h₂]
          · rw [h₁] at ho
            exact absurd ho (hother o' r h₂ ho').2
        · by_cases h₂ : o' = none
          · rw [h₂] at ho'
            exact absurd ho' (hother o r h₁ ho).2
          · exact h.separate o o' r (hother o r h₁ ho).1 (hother o' r h₂ ho').1

/-- A new blob of `n` bytes, next to everything there was. -/
theorem createblob_spec {w : World} (h : Sound w) {n : Int} (h₀ : 0 ≤ n) (h₁ : n ≤ MAX)
    (hg : Granted mem n) (hroom : mem.vm.creating.Room) :
    ∃ b m, gstd_createblob mem (Int64.ofInt n) w =
        .ok (w.instances.length, b.buf)
          (put { w with memory := m, instances := w.instances ++ [.blob none] }
            w.instances.length b) ∧
      Sound (put { w with memory := m, instances := w.instances ++ [.blob none] }
        w.instances.length b) ∧
      b.size = n ∧ w.memory.Extends m ∧ m.Block b.buf n.toNat ∧
      ∀ q k, w.memory.Block q k → Memory.Apart q b.buf := by
  have happend : Sound { w with instances := w.instances ++ [.blob none] } := h.append nofun
  have hn : (Int64.ofInt n).toInt = n :=
    Int64.toInt_ofInt_of_le (by omega) (by unfold MAX at h₁; omega)
  obtain ⟨w', hrun, hsound, hnew⟩ := constructor_spec happend w.instances.length
    (some (Int64.ofInt n)) (by rw [Option.getD_some, hn]; exact h₀)
    (by rw [Option.getD_some, hn]; exact hg)
  obtain ⟨b, m, rfl, hsize, hext, hblock, hfresh⟩ := hnew (by simp)
  rw [Option.getD_some, hn] at hsize hblock
  refine ⟨b, m, ?_, hsound, hsize, hext, hblock, hfresh⟩
  unfold gstd_createblob
  simp only [CallNative_room hroom]
  rw [bind_apply]
  show (succeeded (_blob_constructor mem w.instances.length (some (Int64.ofInt n))) >>= _)
    { w with instances := w.instances ++ [.blob none] } = _
  rw [bind_apply, succeeded, hrun]
  simp only [if_true]
  rw [get_bind_apply]
  have hget : (put { w with memory := m, instances := w.instances ++ [.blob none] }
      w.instances.length b).instances.getD w.instances.length .other =
      Instance.blob (some b) := by
    simp [put]
  rw [hget]
  rfl

theorem transferred_bounds {b : GSBlob} {n : Int} (hle : b.ptr ≤ b.size) (h₀ : 0 ≤ n) :
    0 ≤ transferred b n ∧ transferred b n ≤ n ∧ b.ptr + transferred b n ≤ b.size := by
  unfold transferred
  split <;> omega

/-- A read of a blob copies as many bytes as there are into a new one of that
size. -/
theorem readblob_fine {w : World} (h : Sound w) {this : Ref} {size : GSInteger}
    (hc : Allowed mem fl w (.readblob this size)) :
    Fine fl w (.readblob this size) (_stream_readblob mem this size w) := by
  refine setup_bind h (fun hno message => ⟨h, fun b hb => absurd hb (hno b)⟩) fun b hself => ?_
  have hb := h.sane this b hself
  have hptr := hb.ptr_nonneg
  have hle := hb.ptr_le
  have hsize := hb.size_le
  have hallocated := hb.allocated_le
  obtain ⟨h₀, h₁, hpad, hnew⟩ := hc b hself
  have hmin : (if b.size < size.toInt then b.size else size.toInt) = min size.toInt b.size := by
    split <;> omega
  obtain ⟨w₁, hscratch, hw₁, hsame, hroom⟩ :=
    GetScratchPad_spec h (min size.toInt b.size) (by omega) hpad
  have hself₁ : Self w₁ this b := by
    rw [Self, hsame]
    exact hself
  have happart : Memory.Apart w₁.scratchpad b.buf := by
    intro r hr hr'
    cases hw₁.separate none (some this) r hr (by rw [hself₁.owned, hr'])
  have hnonneg := hw₁.pad_nonneg
  obtain ⟨b', m, hread, hw₂, hext, -⟩ := Read_spec (n := min size.toInt b.size)
    (sound_put hw₁ hself₁) hself₁.lt (by omega) (by omega) hw₁.pad h₁ happart
  obtain ⟨hres₀, hres₁, hres₂⟩ := transferred_bounds (n := min size.toInt b.size) hle (by omega)
  -- what is asked of the result once `b` is known to be the receiver
  have hrefuse : ∀ r : Result, (Raises r ∨ ∃ i w' b', r = .ok (.instance i) w' ∧ Self w' i b' ∧
      b'.size = transferred b (min size.toInt b.size)) → Refuses fl w r (.readblob this size) := by
    intro r hr c hcself
    rw [hself.unique hcself]
    refine ⟨fun hneg => absurd h₀ (by omega), fun hout => ?_⟩
    rcases hr with hraise | ⟨i, w', b', hok, hi, hlen⟩
    · exact .inl hraise
    · exact .inr ⟨i, w', b', hok, hi, by omega⟩
  rw [hmin, bind_apply, hscratch]
  simp only
  rw [bind_apply, hread]
  simp only
  rw [bind_apply]
  show Fine fl w _ ((if transferred b (min size.toInt b.size) ≤ 0
    then throw (.raised (sc "no data left to read")) else _ : BlobM Object)
      (put { w₁ with memory := m } this b'))
  by_cases hempty : transferred b (min size.toInt b.size) ≤ 0
  · rw [if_pos hempty]
    exact ⟨hw₂, hrefuse _ (.inl ⟨_, _, rfl⟩)⟩
  · obtain ⟨nb, m', hcreate, hw₃, hnsize, hext', hnblock, hfresh⟩ :=
      createblob_spec hw₂ hres₀ (by omega) (hnew (Int.not_le.mp hempty)).1
        (hnew (Int.not_le.mp hempty)).2
    have hpadblock := hext _ _ hw₁.pad
    obtain ⟨m₄, hmemcpy, hext₄⟩ := memcpy_spec 0 0
      (transferred b (min size.toInt b.size))
      (w := put { (put { w₁ with memory := m } this b') with
        memory := m', instances := (put { w₁ with memory := m } this b').instances ++ [.blob none] }
        (put { w₁ with memory := m } this b').instances.length nb)
      hnblock (hext' _ _ hpadblock) hres₀ (by omega) (by omega) (by omega) (by omega) (by omega)
      (fun heq => by
        cases hbuf : nb.buf with
        | none =>
          rw [hbuf] at hnblock
          have hzero : (transferred b (min size.toInt b.size)).toNat = 0 := hnblock
          omega
        | some r => exact absurd hbuf (hfresh _ _ hpadblock r (heq.symm.trans hbuf)))
    rw [if_neg hempty, bind_apply, hcreate]
    simp only
    rw [bind_apply, hmemcpy]
    exact ⟨hw₃.memory hext₄, hrefuse _ (.inr ⟨_, _, nb, rfl, self_put (by simp), hnsize⟩)⟩

end GameScript.Blob
