import GameScript.Gstd.Blob

/-!
The bounds of blobs. `Sound` says of a state that every blob's position, size and capacity
are in order, that its buffer and the scratch pad are as large as they are said to be, and
that no two of them share a block. Each method keeps it and stays inside the blocks as long
as its call meets a condition: sizes the code does not check are not negative, sums do not
overflow, requests for memory are granted, and `writeblob` does not read a buffer that it
frees or overwrites.
-/

namespace GameScript.Blob

open Effect

variable {mem : Allocator} {fl : Floats}

/-! ### The invariant -/

/-- The instance `this` has the blob `b`. -/
def Self (w : World) (this : Ref) (b : GSBlob) : Prop := w.instances[this]? = some (.blob (some b))

structure Sane (m : Memory UInt8) (b : GSBlob) : Prop where
  owns : b.owns = true
  ptr_nonneg : 0 ≤ b.ptr
  ptr_le : b.ptr ≤ b.size
  size_le : b.size ≤ b.allocated
  allocated_le : b.allocated ≤ MAX
  block : m.Block b.buf b.allocated.toNat

/-- What an owner holds: an instance its buffer, and the state itself the scratch pad. -/
def owned (w : World) : Option Ref → Pointer
  | none => w.scratchpad
  | some i =>
    match w.instances[i]? with
    | some (.blob (some b)) => b.buf
    | _ => none

structure Sound (w : World) : Prop where
  sane : ∀ i b, Self w i b → Sane w.memory b
  pad : w.memory.Block w.scratchpad w.scratchpadsize.toNat
  pad_nonneg : 0 ≤ w.scratchpadsize
  pad_le : w.scratchpadsize ≤ MAX
  separate : ∀ o o' r, owned w o = some r → owned w o' = some r → o = o'

/-- The state with `b` for the blob of `this`: what the invariant is about while a method
works on its receiver. -/
def put (w : World) (this : Ref) (b : GSBlob) : World :=
  { w with instances := w.instances.set this (.blob (some b)) }

theorem Self.lt {w : World} {this : Ref} {b : GSBlob} (h : Self w this b) :
    this < w.instances.length :=
  (List.getElem?_eq_some_iff.mp h).1

theorem Self.put_eq {w : World} {this : Ref} {b : GSBlob} (h : Self w this b) :
    put w this b = w := by
  obtain ⟨hlt, hget⟩ := List.getElem?_eq_some_iff.mp h
  unfold put
  rw [← hget, List.set_getElem_self]

theorem self_put {w : World} {this : Ref} {b : GSBlob} (hlt : this < w.instances.length) :
    Self (put w this b) this b := by
  simp [Self, put, hlt]

theorem self_put_of_ne {w : World} {this i : Ref} {b b' : GSBlob} (hne : i ≠ this) :
    Self (put w this b) i b' ↔ Self w i b' := by
  simp [Self, put, hne.symm]

theorem owned_put (w : World) {this : Ref} (b : GSBlob) (hlt : this < w.instances.length) :
    owned (put w this b) (some this) = b.buf := by
  simp [owned, put, hlt]

theorem owned_put_of_ne (w : World) {this : Ref} (b : GSBlob) {o : Option Ref}
    (hne : o ≠ some this) : owned (put w this b) o = owned w o := by
  cases o with
  | none => rfl
  | some i =>
    have hi : this ≠ i := fun h => hne (by rw [h])
    simp [owned, put, hi]

/-- Whatever is owned points to a block. -/
theorem Sound.block {w : World} (h : Sound w) (o : Option Ref) :
    ∃ n, w.memory.Block (owned w o) n := by
  cases o with
  | none => exact ⟨_, h.pad⟩
  | some i =>
    simp only [owned]
    split
    · rename_i b hb
      exact ⟨_, (h.sane i b hb).block⟩
    · exact ⟨0, rfl⟩

theorem Sane.memory {m m' : Memory UInt8} {b : GSBlob} (h : Sane m b)
    (hm : m.Block b.buf b.allocated.toNat → m'.Block b.buf b.allocated.toNat) : Sane m' b :=
  ⟨h.owns, h.ptr_nonneg, h.ptr_le, h.size_le, h.allocated_le, hm h.block⟩

/-- Nothing changes for the blobs as long as their blocks remain. -/
theorem Sound.memory {w : World} (h : Sound w) {m' : Memory UInt8} (hm : w.memory.Extends m') :
    Sound { w with memory := m' } where
  sane i b hb := (h.sane i b hb).memory (hm _ _)
  pad := hm _ _ h.pad
  pad_nonneg := h.pad_nonneg
  pad_le := h.pad_le
  separate := h.separate

/-- Every block of the first memory that is not `p` is in the second. -/
def Except (p : Pointer) (m m' : Memory UInt8) : Prop :=
  ∀ q n, Memory.Apart q p → m.Block q n → m'.Block q n

/-- A blob takes a place that no other owner's block is affected by. -/
theorem Sound.install {w : World} {this : Ref} {b : GSBlob} {m : Memory UInt8}
    (hlt : this < w.instances.length) (hb : Sane m b)
    (hsane : ∀ i c, i ≠ this → Self w i c → Sane m c)
    (hpad : m.Block w.scratchpad w.scratchpadsize.toNat) (hnonneg : 0 ≤ w.scratchpadsize)
    (hle : w.scratchpadsize ≤ MAX)
    (hseparate : ∀ o o' r, o ≠ some this → o' ≠ some this → owned w o = some r →
      owned w o' = some r → o = o')
    (hapart : ∀ o, o ≠ some this → Memory.Apart (owned w o) b.buf) :
    Sound (put { w with memory := m } this b) := by
  have hthis : owned (put { w with memory := m } this b) (some this) = b.buf :=
    owned_put _ b hlt
  have howned : ∀ o, o ≠ some this → owned (put { w with memory := m } this b) o = owned w o :=
    fun o ho => owned_put_of_ne _ b ho
  constructor
  · intro i c hc
    by_cases hi : i = this
    · subst hi
      have hlt' : i < ({ w with memory := m } : World).instances.length := hlt
      have hself := self_put (b := b) hlt'
      rw [Self, hc] at hself
      cases hself
      exact hb
    · exact hsane i c hi ((self_put_of_ne hi).mp hc)
  · exact hpad
  · exact hnonneg
  · exact hle
  · intro o o' r ho ho'
    by_cases h₁ : o = some this
    · by_cases h₂ : o' = some this
      · rw [h₁, h₂]
      · rw [h₁, hthis] at ho
        rw [howned o' h₂] at ho'
        exact absurd ho (hapart o' h₂ r ho')
    · by_cases h₂ : o' = some this
      · rw [howned o h₁] at ho
        rw [h₂, hthis] at ho'
        exact absurd ho' (hapart o h₁ r ho)
      · rw [howned o h₁] at ho
        rw [howned o' h₂] at ho'
        exact hseparate o o' r h₁ h₂ ho ho'

theorem Self.owned {w : World} {i : Ref} {b : GSBlob} (h : Self w i b) :
    owned w (some i) = b.buf := by
  rw [Self] at h
  simp only [Blob.owned, h]

/-- The receiver is replaced, in a memory where only its buffer may be gone. -/
theorem Sound.replace {w : World} {this : Ref} {b b' : GSBlob} {m : Memory UInt8}
    (h : Sound (put w this b)) (hlt : this < w.instances.length)
    (hm : Except b.buf w.memory m) (hsane : Sane m b')
    (hnew : b'.buf = b.buf ∨ ∀ n q, w.memory.Block q n → Memory.Apart q b'.buf) :
    Sound (put { w with memory := m } this b') := by
  have hothers : ∀ o, o ≠ some this → Memory.Apart (owned w o) b.buf := by
    intro o ho r hr hb
    refine ho (h.separate o (some this) r ?_ ?_)
    · rw [owned_put_of_ne w b ho, hr]
    · rw [owned_put w b hlt, hb]
  apply Sound.install hlt hsane
  · intro i c hi hc
    have happart := hothers (some i) fun heq => hi (Option.some.inj heq)
    rw [hc.owned] at happart
    exact (h.sane i c ((self_put_of_ne hi).mpr hc)).memory (hm _ _ happart)
  · exact hm _ _ (hothers none nofun) h.pad
  · exact h.pad_nonneg
  · exact h.pad_le
  · intro o o' r ho ho' hr hr'
    apply h.separate o o' r
    · rw [owned_put_of_ne w b ho, hr]
    · rw [owned_put_of_ne w b ho', hr']
  · intro o ho
    rcases hnew with hsame | hfresh
    · rw [hsame]
      exact hothers o ho
    · obtain ⟨n, hn⟩ := h.block o
      rw [owned_put_of_ne w b ho] at hn
      exact hfresh n _ hn

/-- A blob in a new block becomes that of an instance. -/
theorem Sound.construct {w : World} {this : Ref} {b : GSBlob} {m : Memory UInt8} (h : Sound w)
    (hlt : this < w.instances.length) (hm : w.memory.Extends m) (hsane : Sane m b)
    (hfresh : ∀ q n, w.memory.Block q n → Memory.Apart q b.buf) :
    Sound (put { w with memory := m } this b) := by
  apply Sound.install hlt hsane
  · exact fun i c _ hc => (h.sane i c hc).memory (hm _ _)
  · exact hm _ _ h.pad
  · exact h.pad_nonneg
  · exact h.pad_le
  · exact fun o o' r _ _ => h.separate o o' r
  · intro o _
    obtain ⟨n, hn⟩ := h.block o
    exact hfresh _ n hn

/-- A block that nobody owns may be freed. -/
theorem Sound.free {w : World} {p : Pointer} (h : Sound w)
    (hp : ∀ o, Memory.Apart (owned w o) p) : Sound { w with memory := w.memory.free p } where
  sane i b hb := (h.sane i b hb).memory fun hblock => by
    have hw : Self w i b := hb
    have happart := hp (some i)
    rw [hw.owned] at happart
    exact hblock.free happart
  pad := h.pad.free (hp none)
  pad_nonneg := h.pad_nonneg
  pad_le := h.pad_le
  separate := h.separate

/-! ### Memory -/

theorem size_t_eq {n : Int} (h₀ : 0 ≤ n) (h₁ : n ≤ MAX) : size_t n = n.toNat := by
  unfold size_t
  unfold MAX at h₁
  rw [Int.emod_eq_of_lt h₀ (by omega)]

/-- A negative size is more than any blob has. -/
theorem size_t_neg {n : Int} (h₀ : n < 0) (h₁ : -MAX - 1 ≤ n) : MAX < size_t n := by
  unfold size_t
  unfold MAX at *
  have hmod : n % 18446744073709551616 = n + 18446744073709551616 := by omega
  omega

theorem sum_eq {n : Int} (h₀ : -MAX - 1 ≤ n) (h₁ : n ≤ MAX) (w : World) : sum n w = .ok n w := by
  rw [sum, if_pos ⟨h₀, h₁⟩]
  rfl

/-- A request that is granted, or that needs no memory. -/
def Granted (mem : Allocator) (n : Int) : Prop := n = 0 ∨ mem.malloc n.toNat = true

theorem access_eq {f : Memory UInt8 → Option (Memory UInt8)} {w : World} {m : Memory UInt8}
    (h : f w.memory = some m) : access f w = .ok () { w with memory := m } := by
  unfold access
  rw [get_bind_apply, h]
  rfl

theorem access_eq_none {f : Memory UInt8 → Option (Memory UInt8)} {w : World}
    (h : f w.memory = none) : access f w = .error .undefined w := by
  unfold access
  rw [get_bind_apply, h]
  rfl

/-- A block for `n` bytes, apart from those there were. -/
theorem malloc_spec {n : Int} (h₀ : 0 ≤ n) (h₁ : n ≤ MAX) (hg : Granted mem n) (w : World) :
    ∃ p m, malloc mem n w = .ok p { w with memory := m } ∧ w.memory.Extends m ∧
      m.Block p n.toNat ∧ ∀ q k, w.memory.Block q k → Memory.Apart q p := by
  unfold malloc
  rw [get_bind_apply, size_t_eq h₀ h₁]
  by_cases hm : mem.malloc n.toNat = true
  · rw [if_pos hm]
    have hblock := w.memory.alloc_block (List.replicate n.toNat 0)
    rw [List.length_replicate] at hblock
    exact ⟨_, _, rfl, w.memory.alloc_extends _, hblock, fun q k hq => hq.apart_next⟩
  · have hzero : n = 0 := hg.resolve_right hm
    rw [if_neg hm]
    exact ⟨none, w.memory, rfl, .refl _, by rw [hzero]; rfl, fun q k _ r _ => nofun⟩

theorem memset_spec {p : Pointer} {k : Nat} {n : Int} {w : World} (h : w.memory.Block p k)
    (hroom : size_t n ≤ k) :
    ∃ m, memset p n w = .ok () { w with memory := m } ∧ w.memory.Extends m := by
  obtain ⟨m, hstore, hext, -⟩ := h.store 0 (List.replicate (size_t n) 0) (Int.le_refl 0)
    (by rw [List.length_replicate]; omega)
  exact ⟨m, access_eq hstore, hext⟩

theorem memcpy_spec {dst src : Pointer} {k k' : Nat} (off srcOff n : Int) {w : World}
    (hdst : w.memory.Block dst k) (hsrc : w.memory.Block src k') (h₀ : 0 ≤ n) (h₁ : n ≤ MAX)
    (hoff : 0 ≤ off) (hroom : off + n ≤ k) (hsrcOff : 0 ≤ srcOff) (hsrcRoom : srcOff + n ≤ k')
    (hapart : dst = src → n = 0 ∨ srcOff + n ≤ off ∨ off + n ≤ srcOff) :
    ∃ m, memcpy dst off src srcOff n w = .ok () { w with memory := m } ∧
      w.memory.Extends m := by
  have hn : size_t n = n.toNat := size_t_eq h₀ h₁
  obtain ⟨m, hcopy, hext, -⟩ := hdst.copy (n := size_t n) hsrc hoff (by omega) hsrcOff (by omega)
    (fun h => by have := hapart h; omega)
  exact ⟨m, access_eq hcopy, hext⟩

/-! ### `GSBlob` -/

theorem new_spec {n : Int} (h₀ : 0 ≤ n) (h₁ : n ≤ MAX) (hg : Granted mem n) (w : World) :
    ∃ b m, GSBlob.new mem n w = .ok b { w with memory := m } ∧ w.memory.Extends m ∧ Sane m b ∧
      b.size = n ∧ b.allocated = n ∧ ∀ q k, w.memory.Block q k → Memory.Apart q b.buf := by
  obtain ⟨p, m, hmalloc, hext, hblock, hfresh⟩ := malloc_spec h₀ h₁ hg w
  obtain ⟨m₁, hmemset, hext₁⟩ := memset_spec (n := n) (w := { w with memory := m }) hblock
    (Nat.le_of_eq (size_t_eq h₀ h₁))
  refine ⟨{ size := n, allocated := n, buf := p }, m₁, ?_, hext.trans hext₁, ?_, rfl, rfl, hfresh⟩
  · unfold GSBlob.new
    rw [bind_apply, hmalloc]
    simp only
    rw [bind_apply, hmemset]
    rfl
  · exact ⟨rfl, Int.le_refl 0, h₀, Int.le_refl n, h₁, hext₁ _ _ hblock⟩

/-- `b'`, in the memory `m`, takes the place of the receiver `b`. -/
structure Replaces (w : World) (this : Ref) (b b' : GSBlob) (m : Memory UInt8) : Prop where
  sound : Sound (put { w with memory := m } this b')
  kept : Except b.buf w.memory m
  apart : ∀ q k, w.memory.Block q k → Memory.Apart q b.buf → Memory.Apart q b'.buf

theorem Replaces.refl {w : World} {this : Ref} {b : GSBlob} (h : Sound (put w this b)) :
    Replaces w this b b w.memory where
  sound := h
  kept _ _ _ hq := hq
  apart _ _ _ hq := hq

theorem Sound.self {w : World} {this : Ref} {b : GSBlob} (h : Sound (put w this b))
    (hlt : this < w.instances.length) : Sane w.memory b :=
  h.sane this b (self_put hlt)

theorem Resize_spec {w : World} {this : Ref} {b : GSBlob} {n : Int} (h : Sound (put w this b))
    (hlt : this < w.instances.length) (h₁ : n ≤ MAX)
    (hn : n = b.allocated ∨ 0 ≤ n ∧ Granted mem n) :
    ∃ b' m, Resize mem b n w = .ok (b', true) { w with memory := m } ∧
      Replaces w this b b' m ∧ b'.allocated = n ∧ b'.size = min b.size n ∧
      b'.ptr = min b.ptr n := by
  have hb : Sane w.memory b := h.self hlt
  have hptr := hb.ptr_nonneg
  have hle := hb.ptr_le
  have hsize := hb.size_le
  have howns : ¬ ¬ b.owns = true := not_not_intro hb.owns
  by_cases hsame : n = b.allocated
  · refine ⟨b, w.memory, ?_, .refl h, hsame.symm, by omega, by omega⟩
    unfold Resize
    rw [if_neg howns, if_neg (not_not_intro hsame)]
    rfl
  · obtain ⟨h₀, hg⟩ := hn.resolve_left hsame
    obtain ⟨p, m, hmalloc, hext, hblock, hfresh⟩ := malloc_spec h₀ h₁ hg w
    obtain ⟨m₁, hmemset, hext₁⟩ := memset_spec (n := n) (w := { w with memory := m }) hblock
      (Nat.le_of_eq (size_t_eq h₀ h₁))
    have hcount : (if n < b.size then n else b.size) = min b.size n := by
      split <;> omega
    have happart : Memory.Apart p b.buf := (hfresh _ _ hb.block).symm
    obtain ⟨m₂, hmemcpy, hext₂⟩ := memcpy_spec 0 0 (min b.size n)
      (w := { w with memory := m₁ }) (hext₁ _ _ hblock) (hext₁ _ _ (hext _ _ hb.block))
      (by omega) (by omega) (by omega) (by omega) (by omega) (by omega)
      (fun hp => by
        cases hbuf : b.buf with
        | none =>
          have hzero := hb.block
          rw [hbuf] at hzero
          have hnone : b.allocated.toNat = 0 := hzero
          omega
        | some r => exact absurd hbuf (happart r (hp.trans hbuf)))
    have hkept : Except b.buf w.memory (m₂.free b.buf) := fun q k hq hk =>
      (hext₂ _ _ (hext₁ _ _ (hext _ _ hk))).free hq
    have hnewptr : (if n < b.ptr then n else b.ptr) = min b.ptr n := by
      split <;> omega
    refine ⟨{ b with buf := p, allocated := n, size := min b.size n, ptr := min b.ptr n },
      m₂.free b.buf, ?_, ⟨h.replace hlt hkept ?_ (.inr ?_), hkept, fun q k hq _ => hfresh q k hq⟩,
      rfl, rfl, rfl⟩
    · unfold Resize
      rw [if_neg howns, if_pos hsame, bind_apply, hmalloc]
      simp only
      rw [bind_apply, hmemset]
      simp only
      rw [hcount, hnewptr, bind_apply, hmemcpy]
      rfl
    · refine ⟨hb.owns, ?_, ?_, ?_, h₁, (hext₂ _ _ (hext₁ _ _ hblock)).free happart⟩
      · show 0 ≤ min b.ptr n
        omega
      · show min b.ptr n ≤ min b.size n
        omega
      · show min b.size n ≤ n
        omega
    · exact fun k q hq => hfresh q k hq

/-- What making room for `n` bytes at the end of the range `[0, last)` needs. -/
def Growth (mem : Allocator) (b : GSBlob) (last : Int) : Prop :=
  b.allocated < last → b.size * 2 ≤ MAX ∧ Granted mem (max last (b.size * 2))

theorem GrowBufOf_spec {w : World} {this : Ref} {b : GSBlob} {n : Int}
    (h : Sound (put w this b)) (hlt : this < w.instances.length) (h₀ : 0 ≤ n)
    (h₁ : b.size + n ≤ MAX) (hg : Growth mem b (b.size + n)) :
    ∃ b' m, GrowBufOf mem b n w = .ok (b', true) { w with memory := m } ∧
      Replaces w this b b' m ∧ b'.size = b.size + n ∧ b'.ptr = b.ptr ∧
      (b.size + n ≤ b.allocated → b'.buf = b.buf ∧ m = w.memory) := by
  have hb : Sane w.memory b := h.self hlt
  have hptr := hb.ptr_nonneg
  have hle := hb.ptr_le
  have hsize := hb.size_le
  have hallocated := hb.allocated_le
  unfold GrowBufOf
  rw [bind_apply, sum_eq (by unfold MAX; omega) h₁]
  simp only
  by_cases hfits : b.allocated < b.size + n
  · obtain ⟨hdouble, hgranted⟩ := hg hfits
    have hlast : (if b.size * 2 < b.size + n then b.size + n else b.size * 2) =
        max (b.size + n) (b.size * 2) := by
      split <;> omega
    obtain ⟨b', m, hresize, hrep, hnew, hs, hp⟩ := Resize_spec h hlt
      (n := max (b.size + n) (b.size * 2)) (by omega) (.inr ⟨by omega, hgranted⟩)
    have hs' : b'.size = b.size := by omega
    have hb' : Sane m b' := hrep.sound.self hlt
    have hsane : Sane m { b' with size := b.size + n } := by
      refine ⟨hb'.owns, hb'.ptr_nonneg, ?_, ?_, hb'.allocated_le, hb'.block⟩
      · show b'.ptr ≤ b.size + n
        omega
      · show b.size + n ≤ b'.allocated
        omega
    refine ⟨{ b' with size := b.size + n }, m, ?_, ⟨?_, hrep.kept, hrep.apart⟩, rfl,
      by show b'.ptr = _; omega, fun hno => absurd hno (by omega)⟩
    · rw [if_pos hfits, bind_apply, sum_eq (by unfold MAX; omega) hdouble]
      simp only
      rw [hlast, bind_apply, hresize]
      simp only
      rw [hs', bind_apply, sum_eq (by unfold MAX; omega) h₁]
      rfl
    · have hput := Sound.replace (w := { w with memory := m }) hrep.sound hlt (m := m)
        (fun q k _ hq => hq) hsane (.inl rfl)
      exact hput
  · have hsane : Sane w.memory { b with size := b.size + n } := by
      refine ⟨hb.owns, hb.ptr_nonneg, ?_, ?_, hb.allocated_le, hb.block⟩
      · show b.ptr ≤ b.size + n
        omega
      · show b.size + n ≤ b.allocated
        omega
    have hput := h.replace hlt (m := w.memory) (fun q k _ hq => hq) hsane (.inl rfl)
    refine ⟨{ b with size := b.size + n }, w.memory, ?_, ⟨hput, fun q k _ hq => hq,
      fun q k _ hq => hq⟩, rfl, rfl, fun _ => ⟨rfl, rfl⟩⟩
    rw [if_neg hfits, bind_apply]
    simp only [pure_apply]
    rw [bind_apply, sum_eq (by unfold MAX; omega) h₁]
    rfl

theorem CanAdvance_eq {b : GSBlob} {n : Int} (h₀ : -MAX - 1 ≤ b.ptr + n) (h₁ : b.ptr + n ≤ MAX)
    (w : World) : CanAdvance b n w = .ok (decide (b.ptr + n ≤ b.size)) w := by
  unfold CanAdvance
  rw [bind_apply, sum_eq h₀ h₁]
  simp only [pure_apply, Int.not_lt]

/-- The block a `Write` copies from is not overwritten while it is read and not freed before. -/
def Untouched (b : GSBlob) (buffer : Pointer) (n : Int) : Prop :=
  Memory.Apart buffer b.buf ∨ (b.ptr + n ≤ b.allocated ∧ n ≤ b.ptr)

theorem makeRoom_spec {w : World} {this : Ref} {b : GSBlob} {n : Int}
    (h : Sound (put w this b)) (hlt : this < w.instances.length) (h₀ : 0 ≤ n)
    (h₁ : b.ptr + n ≤ MAX) (hg : Growth mem b (b.ptr + n)) :
    ∃ b' m, makeRoom mem b n w = .ok b' { w with memory := m } ∧ Replaces w this b b' m ∧
      b.ptr + n ≤ b'.size ∧ b'.ptr = b.ptr ∧
      (b.ptr + n ≤ b.allocated → b'.buf = b.buf ∧ m = w.memory) := by
  have hb : Sane w.memory b := h.self hlt
  have hptr := hb.ptr_nonneg
  have hle := hb.ptr_le
  have hsize := hb.size_le
  have hallocated := hb.allocated_le
  unfold makeRoom
  rw [bind_apply, CanAdvance_eq (by unfold MAX; omega) h₁]
  simp only
  by_cases hcan : b.ptr + n ≤ b.size
  · refine ⟨b, w.memory, ?_, .refl h, hcan, rfl, fun _ => ⟨rfl, rfl⟩⟩
    rw [if_pos (decide_eq_true hcan)]
    rfl
  · have hg' : Growth mem b (b.size + (b.ptr + n - b.size)) := by
      rw [show b.size + (b.ptr + n - b.size) = b.ptr + n by omega]
      exact hg
    obtain ⟨b', m, hgrow, hrep, hs, hp, hsame⟩ := GrowBufOf_spec h hlt
      (n := b.ptr + n - b.size) (by omega) (by omega) hg'
    refine ⟨b', m, ?_, hrep, by omega, hp, fun hfits => hsame (by omega)⟩
    rw [if_neg (by rw [decide_eq_true_eq]; exact hcan), bind_apply,
      sum_eq (by unfold MAX; omega) h₁]
    simp only
    rw [bind_apply, sum_eq (by unfold MAX; omega) (by omega)]
    simp only
    rw [bind_apply, hgrow]
    rfl

theorem Write_spec {w : World} {this : Ref} {b : GSBlob} {buffer : Pointer} {n : Int} {k : Nat}
    (h : Sound (put w this b)) (hlt : this < w.instances.length) (h₀ : 0 ≤ n) (hk : n ≤ k)
    (hblock : w.memory.Block buffer k) (h₁ : b.ptr + n ≤ MAX) (hg : Growth mem b (b.ptr + n))
    (huntouched : Untouched b buffer n) :
    ∃ b' m, Write mem b buffer n w = .ok (b', n) { w with memory := m } ∧
      Replaces w this b b' m := by
  have hb : Sane w.memory b := h.self hlt
  have hptr := hb.ptr_nonneg
  have hle := hb.ptr_le
  have hsize := hb.size_le
  have hallocated := hb.allocated_le
  obtain ⟨b₁, m₁, hroom, hrep, hs, hp, hsame⟩ := makeRoom_spec h hlt h₀ h₁ hg
  have hb₁ : Sane m₁ b₁ := hrep.sound.self hlt
  have hsize₁ := hb₁.size_le
  have hsrc : m₁.Block buffer k := by
    rcases huntouched with happart | ⟨hfits, -⟩
    · exact hrep.kept _ _ happart hblock
    · rw [(hsame hfits).2]
      exact hblock
  obtain ⟨m₂, hmemcpy, hext⟩ := memcpy_spec b₁.ptr 0 n
    (w := { w with memory := m₁ }) hb₁.block hsrc h₀ (by omega) (by omega) (by omega) (by omega)
    (by omega)
    (fun heq => by
      rcases huntouched with happart | ⟨hfits, hbefore⟩
      · cases hbuf : buffer with
        | none =>
          rw [hbuf] at hsrc
          have hzero : k = 0 := hsrc
          omega
        | some r => exact absurd (heq.trans hbuf) (hrep.apart _ _ hblock happart r hbuf)
      · omega)
  have hsane : Sane m₂ { b₁ with ptr := b₁.ptr + n } := by
    refine ⟨hb₁.owns, ?_, ?_, hb₁.size_le, hb₁.allocated_le, hext _ _ hb₁.block⟩
    · show 0 ≤ b₁.ptr + n
      omega
    · show b₁.ptr + n ≤ b₁.size
      omega
  have hput := Sound.replace (w := { w with memory := m₁ }) hrep.sound hlt
    (fun q j _ hq => hext q j hq) hsane (.inl rfl)
  refine ⟨{ b₁ with ptr := b₁.ptr + n }, m₂, ?_,
    ⟨hput, fun q j hq hj => hext _ _ (hrep.kept q j hq hj), hrep.apart⟩⟩
  unfold Write
  rw [bind_apply, hroom]
  simp only
  rw [bind_apply, hmemcpy]
  simp only
  rw [bind_apply, sum_eq (by unfold MAX; omega) (by omega)]
  rfl

/-- How many bytes `Read` transfers. -/
def transferred (b : GSBlob) (n : Int) : Int := if b.ptr + n ≤ b.size then n else b.size - b.ptr

theorem Read_spec {w : World} {this : Ref} {b : GSBlob} {buffer : Pointer} {n : Int} {k : Nat}
    (h : Sound (put w this b)) (hlt : this < w.instances.length) (h₀ : 0 ≤ n) (hk : n ≤ k)
    (hblock : w.memory.Block buffer k) (h₁ : b.ptr + n ≤ MAX)
    (happart : Memory.Apart buffer b.buf) :
    ∃ b' m, Read b buffer n w = .ok (b', transferred b n) { w with memory := m } ∧
      Sound (put { w with memory := m } this b') ∧ w.memory.Extends m ∧ b'.buf = b.buf := by
  have hb : Sane w.memory b := h.self hlt
  have hptr := hb.ptr_nonneg
  have hle := hb.ptr_le
  have hsize := hb.size_le
  have hallocated := hb.allocated_le
  unfold Read
  rw [bind_apply, CanAdvance_eq (by unfold MAX; omega) h₁]
  simp only
  rw [bind_apply, sum_eq (by unfold MAX; omega) (by omega)]
  simp only [decide_eq_true_eq]
  by_cases hnone : ¬ b.ptr + n ≤ b.size ∧ b.size - b.ptr ≤ 0
  · have hzero : transferred b n = 0 := by
      rw [transferred, if_neg hnone.1]
      omega
    refine ⟨b, w.memory, ?_, h, .refl _, rfl⟩
    rw [if_pos hnone, hzero]
    rfl
  · have hn : (if b.ptr + n ≤ b.size then n else b.size - b.ptr) = transferred b n := rfl
    have hle' : 0 ≤ transferred b n ∧ transferred b n ≤ n ∧
        b.ptr + transferred b n ≤ b.size := by
      unfold transferred
      split <;> omega
    obtain ⟨m, hmemcpy, hext⟩ := memcpy_spec 0 b.ptr (transferred b n)
      hblock hb.block (by omega) (by omega) (by omega) (by omega) hptr (by omega)
      (fun heq => by
        cases hbuf : buffer with
        | none =>
          rw [hbuf] at hblock
          have hzero : k = 0 := hblock
          omega
        | some r => exact absurd (heq.symm.trans hbuf) (happart r hbuf))
    have hsane : Sane m { b with ptr := b.ptr + transferred b n } := by
      refine ⟨hb.owns, ?_, ?_, hb.size_le, hb.allocated_le, hext _ _ hb.block⟩
      · show 0 ≤ b.ptr + transferred b n
        omega
      · show b.ptr + transferred b n ≤ b.size
        omega
    have hput := h.replace hlt (fun q j _ hq => hext q j hq) hsane (.inl rfl)
    refine ⟨{ b with ptr := b.ptr + transferred b n }, m, ?_, hput, hext, rfl⟩
    rw [if_neg hnone, hn, bind_apply, hmemcpy]
    simp only
    rw [bind_apply, sum_eq (by unfold MAX; omega) (by omega)]
    rfl

/-- The position from which `Seek` counts. -/
def base (b : GSBlob) (origin : Int) : Int :=
  if origin = GS_SEEK_CUR then b.ptr else if origin = GS_SEEK_END then b.size else 0

theorem Seek_spec {w : World} {b : GSBlob} {offset origin : Int} (hb : Sane w.memory b)
    (hlow : -MAX - 1 ≤ offset) (h₁ : base b origin + offset ≤ MAX)
    (ho : origin = GS_SEEK_SET ∨ origin = GS_SEEK_CUR ∨ origin = GS_SEEK_END) :
    Seek b offset origin w =
      if 0 ≤ base b origin + offset ∧ base b origin + offset ≤ b.size then
        .ok ({ b with ptr := base b origin + offset }, 0) w
      else .ok (b, -1) w := by
  have hptr := hb.ptr_nonneg
  have hle := hb.ptr_le
  unfold Seek
  rcases ho with rfl | rfl | rfl
  · have hbase : base b GS_SEEK_SET = 0 := rfl
    rw [hbase, if_pos rfl, Int.zero_add]
    by_cases hin : 0 ≤ offset ∧ offset ≤ b.size
    · rw [if_pos hin, if_neg (by omega)]
      rfl
    · rw [if_neg hin, if_pos (by omega)]
      rfl
  · have hbase : base b GS_SEEK_CUR = b.ptr := rfl
    rw [hbase] at h₁ ⊢
    rw [if_neg (by decide), if_pos rfl, bind_apply, sum_eq (by omega) h₁]
    by_cases hin : 0 ≤ b.ptr + offset ∧ b.ptr + offset ≤ b.size
    · simp only
      rw [if_pos hin, if_neg (by omega)]
      rfl
    · simp only
      rw [if_neg hin, if_pos (by omega)]
      rfl
  · have hbase : base b GS_SEEK_END = b.size := rfl
    rw [hbase] at h₁ ⊢
    rw [if_neg (by decide), if_neg (by decide), if_pos rfl, bind_apply, sum_eq (by omega) h₁]
    by_cases hin : 0 ≤ b.size + offset ∧ b.size + offset ≤ b.size
    · simp only
      rw [if_pos hin, if_neg (by omega)]
      rfl
    · simp only
      rw [if_neg hin, if_pos (by omega)]
      rfl

end GameScript.Blob
