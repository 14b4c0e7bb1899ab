import GameScript.Gstd.BlobMethods

/-!
Runs of blob methods from a state without objects. Calls that meet the condition lead only
to states in which the blobs are in bounds; the two sizes that the code hands to the C
library unchecked are shown to be undefined whenever they are negative.
-/

namespace GameScript.Blob

open Effect

variable {mem : Allocator} {fl : Floats}

/-! ### Runs -/

/-- The states that calls meeting the condition lead to. -/
inductive Reached (fl : Floats) (condition : Allocator → World → Call → Prop) : World → Prop where
  | start : Reached fl condition {}
  | call {w : World} (mem : Allocator) (c : Call) : Reached fl condition w → condition mem w c →
      Reached fl condition (leaves (c.run mem fl) w)

/-- A call that meets its condition keeps the invariant. -/
theorem run_fine {w : World} (h : Sound w) {c : Call} (hc : Allowed mem fl w c) :
    Fine fl w c (c.run mem fl w) := by
  cases c with
  | newinstance tagged =>
    refine ⟨newinstance_good h fun b => ?_, trivial⟩
    cases tagged with
    | true => exact nofun
    | false => exact nofun
  | constructor this size => exact constructor_fine h hc
  | readn this format => exact readn_fine h hc
  | writen this value format => exact writen_fine h hc
  | readblob this size => exact readblob_fine h hc
  | writeblob this src => exact writeblob_fine h hc
  | seek this offset origin => exact seek_fine h hc
  | resize this size => exact resize_fine h hc
  | swap2 this => exact swap_fine h (by decide) this fun _ => trivial
  | swap4 this => exact swap_fine h (by decide) this fun _ => trivial
  | set this idx val => exact set_fine h this idx val
  | get this idx => exact get_fine h this idx

theorem sound_start : Sound {} where
  sane := nofun
  pad := rfl
  pad_nonneg := Int.le_refl 0
  pad_le := by decide
  separate o o' r ho := by
    cases o with
    | none => cases ho
    | some i => cases ho

theorem Fine.leaves {w : World} {c : Call} (h : Fine fl w c (c.run mem fl w)) :
    Sound (leaves (c.run mem fl) w) := by
  unfold Effect.leaves
  have hgood := h.1
  cases hrun : c.run mem fl w with
  | ok o w' =>
    rw [hrun] at hgood
    exact hgood
  | error stop w' =>
    rw [hrun] at hgood
    cases stop with
    | raised message => exact hgood
    | undefined => exact hgood.elim

theorem Sound.bounded {w : World} (h : Sound w) : Bounded w := fun i b hb =>
  ⟨(h.sane i b hb).ptr_nonneg, (h.sane i b hb).ptr_le, (h.sane i b hb).size_le⟩

/-- A call that ends well meets the property. -/
theorem Fine.meets {w : World} {c : Call} (h : Fine fl w c (c.run mem fl w)) :
    Meets mem fl c w := by
  obtain ⟨hgood, hrefuse⟩ := h
  refine ⟨?_, hrefuse⟩
  cases hrun : c.run mem fl w with
  | ok o w' =>
    rw [hrun] at hgood
    exact Sound.bounded hgood
  | error stop w' =>
    rw [hrun] at hgood
    cases stop with
    | raised message => exact Sound.bounded hgood
    | undefined => exact hgood

/-- The invariant holds in every state reached. -/
theorem Reached.sound {w : World} (h : Reached fl (fun mem => Allowed mem fl) w) : Sound w := by
  induction h with
  | start => exact sound_start
  | call mem c _ hc ih => exact (run_fine ih hc).leaves

/-! ### What the code does not check -/

theorem setup_self {w : World} (h : Sound w) {this : Ref} {b : GSBlob} (hself : Self w this b)
    (msg : List UInt8) : setup msg this w = .ok b w := by
  rcases setup_cases h msg this with ⟨c, hc, hok⟩ | ⟨hno, -⟩
  · rw [hok, hself.unique hc]
  · exact absurd hself (hno b)

/-- `readblob` hands every negative size to `memcpy`. -/
theorem readblob_negative {w : World} (h : Sound w) {this : Ref} {b : GSBlob}
    (hself : Self w this b) {size : GSInteger} (hneg : size.toInt < 0) :
    _stream_readblob mem this size w = .error .undefined w := by
  have hb := h.sane this b hself
  have hptr := hb.ptr_nonneg
  have hle := hb.ptr_le
  have hsize := hb.size_le
  have hallocated := hb.allocated_le
  have hlow := (int64_range size).1
  have hsetup := setup_self h hself (sc "the stream is invalid")
  have hpad : GetScratchPad mem size.toInt w = .ok w.scratchpad w := by
    unfold GetScratchPad newsize
    rw [get_bind_apply, if_neg (by omega)]
    rfl
  have hmany := size_t_neg hneg hlow
  have hcopy : w.memory.copy w.scratchpad 0 b.buf b.ptr (size_t size.toInt) = none :=
    hb.block.copy_eq_none (by unfold MAX at hmany; omega) (by omega)
  have hread : Read b w.scratchpad size.toInt w = .error .undefined w := by
    unfold Read
    rw [bind_apply, CanAdvance_eq (by omega) (by omega)]
    simp only
    rw [bind_apply, sum_eq (by unfold MAX; omega) (by omega)]
    simp only [decide_eq_true_eq]
    have hcan : b.ptr + size.toInt ≤ b.size := by omega
    rw [if_neg (by omega), if_pos hcan, bind_apply]
    unfold memcpy
    rw [access_eq_none hcopy]
  unfold _stream_readblob SETUP_STREAM
  rw [bind_apply, hsetup]
  simp only
  rw [if_neg (by omega), bind_apply, hpad]
  simp only
  rw [bind_apply, hread]

/-- And `resize` to `memset`. -/
theorem resize_negative {w : World} (h : Sound w) {this : Ref} {b : GSBlob}
    (hself : Self w this b) {size : GSInteger} (hneg : size.toInt < 0) :
    ∃ w', _blob_resize mem this size w = .error .undefined w' := by
  have hb := h.sane this b hself
  have hptr := hb.ptr_nonneg
  have hle := hb.ptr_le
  have hsize := hb.size_le
  have hallocated := hb.allocated_le
  have hmany := size_t_neg hneg (int64_range size).1
  have hsetup := setup_self h hself (sc "the blob is invalid")
  have hresize : ∃ w', Resize mem b size.toInt w = .error .undefined w' := by
    unfold Resize
    rw [if_neg (not_not_intro hb.owns), if_pos (by omega), bind_apply]
    unfold malloc
    rw [get_bind_apply]
    by_cases hg : mem.malloc (size_t size.toInt) = true
    · have hblock := w.memory.alloc_block (List.replicate (size_t size.toInt) (0 : UInt8))
      have hold := w.memory.alloc_extends (List.replicate (size_t size.toInt) (0 : UInt8)) _ _
        hb.block
      rw [List.length_replicate] at hblock
      obtain ⟨m, hmemset, hext⟩ := memset_spec (n := size.toInt)
        (w := { w with memory := w.memory.alloc (List.replicate (size_t size.toInt) 0) })
        hblock (Nat.le_refl _)
      have hcopy : m.copy (some w.memory.next) 0 b.buf 0 (size_t size.toInt) = none :=
        (hext _ _ hold).copy_eq_none (by unfold MAX at hmany; omega) (by omega)
      refine ⟨{ w with memory := m }, ?_⟩
      rw [if_pos hg]
      show (memset (some w.memory.next) size.toInt >>= _) _ = _
      rw [bind_apply, hmemset]
      simp only
      have hless : size.toInt < b.size := by omega
      rw [if_pos hless, bind_apply]
      unfold memcpy
      rw [access_eq_none (w := { w with memory := m }) hcopy]
    · refine ⟨w, ?_⟩
      have hstore : w.memory.store none 0 (List.replicate (size_t size.toInt) 0) = none := by
        unfold Memory.store
        rw [if_neg (by rw [List.length_replicate]; unfold MAX at hmany; omega)]
      rw [if_neg hg]
      show (memset none size.toInt >>= _) w = _
      rw [bind_apply]
      unfold memset
      rw [access_eq_none hstore]
  obtain ⟨w', hw'⟩ := hresize
  refine ⟨w', ?_⟩
  unfold _blob_resize SETUP_BLOB
  rw [bind_apply, hsetup]
  simp only
  rw [bind_apply, hw']

/-- No call with a negative size does what it should, but for the refusal of the constructor. -/
theorem not_meets_negative {w : World} (h : Sound w) {this : Ref} {b : GSBlob}
    (hself : Self w this b) {size : GSInteger} (hneg : size.toInt < 0) :
    ¬ Meets mem fl (.readblob this size) w ∧ ¬ Meets mem fl (.resize this size) w := by
  constructor
  · rintro ⟨hrun, -⟩
    rw [show Call.run mem fl (.readblob this size) w = .error .undefined w from
      readblob_negative h hself hneg] at hrun
    exact hrun
  · rintro ⟨hrun, -⟩
    obtain ⟨w', hundefined⟩ :
        ∃ w', _blob_resize mem this size w = .error .undefined w' := resize_negative h hself hneg
    rw [show Call.run mem fl (.resize this size) w = .error .undefined w' from hundefined] at hrun
    exact hrun

/-! ### Main result -/

/-- In every state that calls meeting the condition lead to, the blobs are in bounds, a further
such call touches no byte outside the buffers and refuses what is out of range, and `readblob`
and `resize` never do so for a negative size. -/
theorem reached_meets {w : World} (h : Reached fl (fun mem => Allowed mem fl) w) :
    Bounded w ∧ (∀ mem c, Allowed mem fl w c → Meets mem fl c w) ∧
      ∀ mem this b size, Self w this b → size.toInt < 0 →
        ¬ Meets mem fl (.readblob this size) w ∧ ¬ Meets mem fl (.resize this size) w :=
  ⟨h.sound.bounded, fun _ _ hc => (run_fine h.sound hc).meets,
    fun _ _ _ _ hself hneg => not_meets_negative h.sound hself hneg⟩

/-- Memory for every request, and a VM with room. -/
def plenty : Allocator where
  malloc _ := true
  realloc _ := true
  vm := { nnativecalls := 0, nmetamethodscall := 0, top := 2, stacksize := 1024 }

def noFloats : Floats := { FloatOps.unused with toDouble := fun _ => 0, ofDouble := fun _ => 0 }

/-- The state before the first call. -/
def start : World := {}

/-- The state after `local b = blob(4)`. -/
def fourBytes : World :=
  leaves (Call.run plenty noFloats (.constructor 0 (some 4)))
    (leaves (Call.run plenty noFloats (.newinstance true)) {})

theorem fourBytes_reached (condition : Allocator → World → Call → Prop)
    (hnew : condition plenty {} (.newinstance true))
    (hconstructor : condition plenty (leaves (Call.run plenty noFloats (.newinstance true)) {})
      (.constructor 0 (some 4))) : Reached noFloats condition fourBytes :=
  .call plenty _ (.call plenty _ .start hnew) hconstructor

theorem reached_meets_fourBytes :
    Bounded fourBytes ∧
      (∀ mem c, Allowed mem noFloats fourBytes c → Meets mem noFloats c fourBytes) ∧
      ∀ mem this b size, Self fourBytes this b → size.toInt < 0 →
        ¬ Meets mem noFloats (.readblob this size) fourBytes ∧
          ¬ Meets mem noFloats (.resize this size) fourBytes :=
  reached_meets (fourBytes_reached (fun mem => Allowed mem noFloats) trivial (.inr (.inr rfl)))

/-- `b.readblob(-1)` copies from outside the buffer. -/
theorem not_meets_readblob :
    ¬ ∀ (fl : Floats) (w : World), Reached fl (fun _ _ _ => True) w →
      Bounded w ∧ ∀ mem c, Meets mem fl c w := by
  intro hclaim
  have hsound : Sound fourBytes :=
    (fourBytes_reached (fun mem => Allowed mem noFloats) trivial
      (.inr (.inr rfl))).sound
  have hself : Self fourBytes 0 { size := 4, allocated := 4, buf := some 0 } := rfl
  obtain ⟨-, hmeets⟩ := hclaim noFloats fourBytes (fourBytes_reached _ trivial trivial)
  have hnegative : ¬ Meets plenty noFloats (.readblob 0 (-1)) fourBytes :=
    (not_meets_negative hsound hself (by decide)).1
  exact hnegative (hmeets plenty _)

end GameScript.Blob
