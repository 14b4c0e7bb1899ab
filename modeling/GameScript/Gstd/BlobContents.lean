import GameScript.Gstd.BlobRuns

/-!
The bytes of blobs. What an operation that ends has needed, and what it leaves in the blocks: a
buffer that is replaced keeps the bytes of its blob, a write overwrites them, and the other blocks
hold what they held.
-/

namespace GameScript.Blob

open Effect

variable {mem : Allocator} {fl : Floats} {w w' : World}

/-! ### Memory -/

theorem sum_ok {n x : Int} (h : sum n w = .ok x w') : n ≤ MAX ∧ x = n ∧ w' = w := by
  unfold sum at h
  split at h
  · next hin =>
    cases h
    exact ⟨hin.2, rfl, rfl⟩
  · cases h

theorem access_ok {f : Memory UInt8 → Option (Memory UInt8)} {u : Unit}
    (h : access f w = .ok u w') : ∃ m, f w.memory = some m ∧ w' = { w with memory := m } := by
  unfold access at h
  rw [get_bind_apply] at h
  cases hf : f w.memory with
  | none =>
    rw [hf] at h
    cases h
  | some m =>
    rw [hf] at h
    cases h
    exact ⟨m, rfl, rfl⟩

theorem memset_ok {p : Pointer} {n : Int} {u : Unit} (h : memset p n w = .ok u w') :
    ∃ m, w' = { w with memory := m } ∧ Memory.KeepsOthers p w.memory m := by
  obtain ⟨m, hstore, hw'⟩ := access_ok h
  exact ⟨m, hw', (Memory.store_cells hstore).2⟩

/-- Clearing bytes at the null pointer is undefined. -/
theorem memset_null {n : Int} (h₀ : 0 < n) (h₁ : n ≤ MAX) (w : World) :
    memset none n w = .error .undefined w := by
  refine access_eq_none ?_
  unfold Memory.store
  rw [if_neg]
  rw [List.length_replicate, size_t_eq (Int.le_of_lt h₀) h₁]
  omega

theorem memcpy_ok {dst src : Pointer} {off srcOff n : Int} {u : Unit}
    (h : memcpy dst off src srcOff n w = .ok u w') :
    ∃ m, w' = { w with memory := m } ∧
      m.cells dst = Memory.overwrite (w.memory.cells dst) off.toNat
        (((w.memory.cells src).drop srcOff.toNat).take (size_t n)) ∧
      Memory.KeepsOthers dst w.memory m := by
  obtain ⟨m, hcopy, hw'⟩ := access_ok h
  exact ⟨m, hw', Memory.copy_cells hcopy⟩

theorem load_ok {p : Pointer} {off : Int} {n : Nat} {bytes : List UInt8}
    (h : load p off n w = .ok bytes w') :
    bytes = ((w.memory.cells p).drop off.toNat).take n ∧ w' = w := by
  unfold load at h
  rw [get_bind_apply] at h
  cases hload : w.memory.load p off n with
  | none =>
    rw [hload] at h
    cases h
  | some found =>
    rw [hload] at h
    cases h
    exact ⟨Memory.load_cells hload, rfl⟩

/-! ### Buffers -/

/-- The bytes of a blob. -/
def contents (w : World) (b : GSBlob) : List UInt8 := (w.memory.cells b.buf).take b.size.toNat

theorem length_contents {b : GSBlob} (hb : Sane w.memory b) :
    (contents w b).length = b.size.toNat := by
  have hsize := hb.size_le
  have hlen := hb.block.length_cells
  unfold contents
  rw [List.length_take, hlen]
  omega

/-- `b` has become `b'`, which begins with the bytes of `b`, and no other block has changed. -/
structure Carries (w : World) (b : GSBlob) (w' : World) (b' : GSBlob) : Prop where
  bytes : (w'.memory.cells b'.buf).take b.size.toNat = contents w b
  others : ∀ q k, w.memory.Block q k → Memory.Apart q b.buf → w'.memory.cells q = w.memory.cells q
  instances : w'.instances = w.instances

theorem Carries.refl (w : World) (b : GSBlob) : Carries w b w b where
  bytes := rfl
  others _ _ _ _ := rfl
  instances := rfl

theorem Resize_carries {b b' : GSBlob} {n : Int} {ret : Bool} (hb : Sane w.memory b)
    (hn : b.allocated < n) (h₁ : n ≤ MAX) (h : Resize mem b n w = .ok (b', ret) w') :
    Granted mem n ∧ Carries w b w' b' ∧ ∃ p, b' = { b with buf := p, allocated := n } := by
  have hsize := hb.size_le
  have hle := hb.ptr_le
  have hptr := hb.ptr_nonneg
  unfold Resize at h
  rw [if_neg (not_not_intro hb.owns), if_pos (by omega)] at h
  obtain ⟨p, w₁, hmalloc, h⟩ := bind_eq_ok.mp h
  obtain ⟨_, w₂, hmemset, h⟩ := bind_eq_ok.mp h
  obtain ⟨_, w₃, hmemcpy, h⟩ := bind_eq_ok.mp h
  obtain ⟨_, w₄, hfree, h⟩ := bind_eq_ok.mp h
  by_cases hg : mem.malloc (size_t n) = true
  · unfold malloc at hmalloc
    rw [get_bind_apply, if_pos hg] at hmalloc
    cases hmalloc
    have hext := w.memory.alloc_extends (List.replicate (size_t n) 0)
    obtain ⟨-, halloc⟩ := w.memory.alloc_cells (List.replicate (size_t n) 0)
    obtain ⟨m₂, rfl, hset⟩ := memset_ok hmemset
    obtain ⟨m₃, rfl, hcells, hcopy⟩ := memcpy_ok hmemcpy
    have happart : Memory.Apart b.buf (some w.memory.next) := hb.block.apart_next
    have hold : m₂.cells b.buf = w.memory.cells b.buf :=
      (hset _ happart).trans (halloc _ happart)
    have hcount : size_t (if n < b.size then n else b.size) = b.size.toNat := by
      rw [if_neg (by omega), size_t_eq (by omega) (by omega)]
    rw [hold, hcount] at hcells
    cases hfree
    have hsame : (if n < b.size then n else b.size) = b.size := if_neg (by omega)
    have hptr' : (if n < b.ptr then n else b.ptr) = b.ptr := if_neg (by omega)
    rw [hsame, hptr'] at h
    cases h
    have hnew : (contents w b).length = b.size.toNat := length_contents hb
    have hkept := Memory.take_drop_overwrite (Nat.zero_le (m₂.cells (some w.memory.next)).length)
      (contents w b)
    refine ⟨.inr (by rwa [size_t_eq (by omega) h₁] at hg), ⟨?_, fun q k hq hqb => ?_, rfl⟩, _, rfl⟩
    · show ((m₃.free b.buf).cells (some w.memory.next)).take b.size.toNat = contents w b
      rw [Memory.free_cells m₃ b.buf _ happart.symm, hcells]
      rwa [hnew] at hkept
    · have hqp : Memory.Apart q (some w.memory.next) := hq.apart_next
      show (m₃.free b.buf).cells q = w.memory.cells q
      rw [Memory.free_cells m₃ b.buf q hqb, hcopy q hqp, hset q hqp, halloc q hqp]
  · unfold malloc at hmalloc
    rw [get_bind_apply, if_neg hg] at hmalloc
    cases hmalloc
    rw [memset_null (by omega) h₁] at hmemset
    cases hmemset

/-- The end of `GrowBufOf`. -/
theorem setSize_ok {b b' : GSBlob} {n : Int} {ret ret' : Bool}
    (h : (sum n >>= fun size => (pure ({ b with size := size }, ret) : BlobM (GSBlob × Bool))) w =
      .ok (b', ret') w') : b' = { b with size := n } ∧ w' = w := by
  obtain ⟨size, w₁, hsum, hpure⟩ := bind_eq_ok.mp h
  obtain ⟨-, rfl, rfl⟩ := sum_ok hsum
  cases hpure
  exact ⟨rfl, rfl⟩

theorem GrowBufOf_carries {b b' : GSBlob} {n : Int} {ret : Bool} (hb : Sane w.memory b) (_ : 0 ≤ n)
    (h : GrowBufOf mem b n w = .ok (b', ret) w') :
    b.size + n ≤ MAX ∧ Growth mem b (b.size + n) ∧ Carries w b w' b' ∧ b'.size = b.size + n ∧
      b'.ptr = b.ptr ∧ (b.size + n ≤ b.allocated → b'.allocated = b.allocated ∧ b'.buf = b.buf) := by
  unfold GrowBufOf at h
  obtain ⟨wanted, w₁, hwanted, hrest⟩ := bind_eq_ok.mp h
  obtain ⟨hmax, rfl, rfl⟩ := sum_ok hwanted
  by_cases hfits : b.allocated < b.size + n
  · rw [if_pos hfits] at hrest
    obtain ⟨doubled, w₁, hdoubled, hresizing⟩ := bind_eq_ok.mp hrest
    obtain ⟨hdouble, rfl, rfl⟩ := sum_ok hdoubled
    obtain ⟨⟨b₂, ret₂⟩, w₂, hresize, hpure⟩ := bind_eq_ok.mp hresizing
    obtain ⟨rfl, rfl⟩ := setSize_ok hpure
    have hlast : (if b.size * 2 < b.size + n then b.size + n else b.size * 2) =
        max (b.size + n) (b.size * 2) := by
      split <;> omega
    rw [hlast] at hresize
    obtain ⟨hgranted, hcarries, p, rfl⟩ := Resize_carries hb (by omega) (by omega) hresize
    exact ⟨hmax, fun _ => ⟨hdouble, hgranted⟩,
      ⟨hcarries.bytes, hcarries.others, hcarries.instances⟩, rfl, rfl,
      fun hno => absurd hfits (by omega)⟩
  · rw [if_neg hfits] at hrest
    obtain ⟨rfl, rfl⟩ := setSize_ok hrest
    exact ⟨hmax, fun hno => absurd hno hfits, ⟨rfl, fun _ _ _ _ => rfl, rfl⟩, rfl, rfl,
      fun _ => ⟨rfl, rfl⟩⟩

/-- Room for `n` bytes was made: what that needed, and what the blob is then. -/
structure Roomy (mem : Allocator) (w : World) (b : GSBlob) (n : Int) (w' : World) (b' : GSBlob) :
    Prop where
  writable : Writable mem b n
  carries : Carries w b w' b'
  size : b'.size = max b.size (b.ptr + n)
  ptr : b'.ptr = b.ptr
  kept : b.ptr + n ≤ b.allocated → b'.allocated = b.allocated ∧ b'.buf = b.buf

theorem makeRoom_roomy {b b' : GSBlob} {n : Int} (hb : Sane w.memory b) (_ : 0 ≤ n)
    (h : makeRoom mem b n w = .ok b' w') : Roomy mem w b n w' b' := by
  have hle := hb.ptr_le
  have hsize := hb.size_le
  unfold makeRoom CanAdvance at h
  obtain ⟨can, w₁, hcan, hrest⟩ := bind_eq_ok.mp h
  obtain ⟨p, w₂, hp, hdecide⟩ := bind_eq_ok.mp hcan
  obtain ⟨hmax, rfl, rfl⟩ := sum_ok hp
  cases hdecide
  by_cases hroom : b.ptr + n ≤ b.size
  · rw [if_pos (decide_eq_true (Int.not_lt.mpr hroom))] at hrest
    cases hrest
    exact ⟨⟨hmax, fun hno => absurd hno (by omega)⟩, .refl _ b, by omega, rfl, fun _ => ⟨rfl, rfl⟩⟩
  · rw [if_neg (by rw [decide_eq_true_eq]; omega)] at hrest
    obtain ⟨last, w₃, hlast, hmake⟩ := bind_eq_ok.mp hrest
    obtain ⟨-, rfl, rfl⟩ := sum_ok hlast
    obtain ⟨missing, w₄, hmissing, htake⟩ := bind_eq_ok.mp hmake
    obtain ⟨-, rfl, rfl⟩ := sum_ok hmissing
    obtain ⟨⟨b₂, ret⟩, w₅, hgrow, hpure⟩ := bind_eq_ok.mp htake
    cases hpure
    have hlast : b.size + (b.ptr + n - b.size) = b.ptr + n := by omega
    obtain ⟨-, hgrowth, hcarries, hnew, hptr, hkept⟩ := GrowBufOf_carries hb (by omega) hgrow
    rw [hlast] at hgrowth hnew hkept
    exact ⟨⟨hmax, hgrowth⟩, hcarries, by omega, hptr, hkept⟩

/-- A `Write` that ends has overwritten the bytes from the position on, and no other block. -/
theorem Write_contents {b b' : GSBlob} {buffer : Pointer} {n r : Int} {new : List UInt8}
    (hb : Sane w.memory b) (hbuffer : w.memory.cells buffer = new)
    (hn : n = new.length) (hblock : w.memory.Block buffer new.length)
    (happart : Memory.Apart buffer b.buf) (h : Write mem b buffer n w = .ok (b', r) w') :
    Writable mem b n ∧ b'.ptr = b.ptr + n ∧ b'.size = max b.size (b.ptr + n) ∧
      (b.ptr + n ≤ b.allocated → b'.allocated = b.allocated ∧ b'.buf = b.buf) ∧
      contents w' b' = Memory.overwrite (contents w b) b.ptr.toNat new ∧
      w'.instances = w.instances ∧
      ∀ q k, w.memory.Block q k → Memory.Apart q b.buf → Memory.Apart q b'.buf →
        w'.memory.cells q = w.memory.cells q := by
  have hle := hb.ptr_le
  have hptr := hb.ptr_nonneg
  unfold Write at h
  obtain ⟨b₁, w₁, hroom, hrest⟩ := bind_eq_ok.mp h
  obtain ⟨_, w₂, hmemcpy, hadvance⟩ := bind_eq_ok.mp hrest
  obtain ⟨ptr, w₃, hsum, hpure⟩ := bind_eq_ok.mp hadvance
  obtain ⟨hmax, rfl, rfl⟩ := sum_ok hsum
  cases hpure
  have hroomy := makeRoom_roomy hb (by omega) hroom
  obtain ⟨m, rfl, hcells, hothers⟩ := memcpy_ok hmemcpy
  have hsrc : w₁.memory.cells buffer = new :=
    (hroomy.carries.others _ _ hblock happart).trans hbuffer
  have hroom : b.ptr + n ≤ MAX := hroomy.writable.1
  have hsize : size_t n = new.length := by
    rw [size_t_eq (by omega) (by omega), hn]
    rfl
  rw [hsrc, hsize, Int.toNat_zero, List.drop_zero, List.take_length, hroomy.ptr] at hcells
  refine ⟨hroomy.writable, by show b₁.ptr + n = _; rw [hroomy.ptr], hroomy.size, hroomy.kept, ?_,
    hroomy.carries.instances,
    fun q k hq hqb hqb' => (hothers q hqb').trans (hroomy.carries.others q k hq hqb)⟩
  have hold : (w₁.memory.cells b₁.buf).take b.size.toNat = contents w b := hroomy.carries.bytes
  have hlen := length_contents hb
  rw [← hold, List.length_take] at hlen
  have hend : b₁.size.toNat = max b.size.toNat (b.ptr.toNat + new.length) := by
    rw [hroomy.size]
    omega
  show (m.cells b₁.buf).take b₁.size.toNat = _
  rw [hcells, hend, Memory.take_overwrite (by omega) (by omega), hold]

/-- A `Read` of bytes that there are takes those from the position on. -/
theorem Read_contents {b b' : GSBlob} {buffer : Pointer} {n r : Int} (hb : Sane w.memory b)
    (h₀ : 0 ≤ n) (hroom : b.ptr + n ≤ b.size) (hblock : w.memory.Block buffer n.toNat)
    (h : Read b buffer n w = .ok (b', r) w') :
    b' = { b with ptr := b.ptr + n } ∧ r = n ∧
      w'.memory.cells buffer = ((contents w b).drop b.ptr.toNat).take n.toNat ∧
      w'.instances = w.instances ∧ Memory.KeepsOthers buffer w.memory w'.memory := by
  have hptr := hb.ptr_nonneg
  have hle := hb.size_le
  have hmax := hb.allocated_le
  have hlen := length_contents hb
  have hbuf := hblock.length_cells
  have hread : ((contents w b).drop b.ptr.toNat).take n.toNat =
      ((w.memory.cells b.buf).drop b.ptr.toNat).take n.toNat := by
    unfold contents
    rw [List.drop_take, List.take_take, Nat.min_eq_left (by omega)]
  have hread_len : (((contents w b).drop b.ptr.toNat).take n.toNat).length = n.toNat := by
    rw [List.length_take, List.length_drop]
    omega
  unfold Read at h
  rw [bind_apply, CanAdvance_eq (by unfold MAX; omega) (by omega)] at h
  dsimp only at h
  obtain ⟨left, w₁, hleft, hrest⟩ := bind_eq_ok.mp h
  obtain ⟨-, rfl, rfl⟩ := sum_ok hleft
  have hcan : decide (b.ptr + n ≤ b.size) = true := decide_eq_true hroom
  rw [hcan, if_neg (fun hno => hno.1 rfl), if_pos rfl] at hrest
  obtain ⟨_, w₂, hmemcpy, hadvance⟩ := bind_eq_ok.mp hrest
  obtain ⟨ptr, w₃, hsum, hpure⟩ := bind_eq_ok.mp hadvance
  obtain ⟨-, rfl, rfl⟩ := sum_ok hsum
  cases hpure
  obtain ⟨m, rfl, hcells, hothers⟩ := memcpy_ok hmemcpy
  refine ⟨rfl, rfl, ?_, rfl, hothers⟩
  show m.cells buffer = _
  rw [hcells, size_t_eq h₀ (by omega), ← hread]
  exact Memory.overwrite_all (by omega)

end GameScript.Blob
