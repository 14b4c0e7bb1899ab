import GameScript.Gstd.BlobContents

/-!
`foreach` over a blob. The VM asks `_nexti` for the index that follows the last one and `_get` for
the value there (`FOREACH_OP` in `GSvm.cpp`); `_nexti` steps through the indices below the size,
but begins at 0 without looking at the size. Both are called as metamethods, so in every round the
VM needs room for a native call without moving its stack.

`foreach_serves_iff` says which loops run their body once for each byte.
-/

namespace GameScript.Blob

open Effect

variable (fl : Floats)

/-! ### The metamethods -/

/-- `_blob__nexti`. -/
def _blob_nexti (this : Ref) (key : Object) : BlobM Object := do
  let self ← SETUP_BLOB this
  if key = .null then pure (.integer 0)
  else
    match key.getinteger fl.toFloatOps with
    | none => throw (.raised (sc "internal error (_nexti) wrong argument type"))
    | some idx => do
      let next ← sum (idx.toInt + 1)
      pure (if next < self.size then .integer (Int64.ofInt next) else .null)

/-- The VM with a metamethod's two arguments on top of the stack. -/
def Machine.metamethod (v : Machine) : Machine :=
  { v with nmetamethodscall := v.nmetamethodscall + 1, top := v.top + 2 }

/-- `CallMetaMethod` of a native function, with two arguments. -/
def CallMetaMethod {α : Type} (v : Machine) (closure : BlobM α) : BlobM α :=
  CallNative v.metamethod closure

/-- `Get` on a blob. The members of its class have names, so a number is for `_get`, which throws
null for anything else. -/
def Get (v : Machine) (o1 : Ref) (key : Object) : BlobM Object :=
  CallMetaMethod v
    (if key.isNumeric then _blob_get o1 (key.toInteger fl.toFloatOps) else throw (.raised []))

/-- A metamethod needs its stack as it is, since it is not resized during one. -/
theorem room_metamethod (v : Machine) : v.metamethod.Room ↔
    v.nnativecalls < MAX_NATIVE_CALLS ∧ v.top + 2 + MIN_STACK_OVERHEAD ≤ v.stacksize := by
  unfold Machine.Room Machine.metamethod
  simp

/-! ### The loop -/

/-- The variables of a loop: the index `o2`, the value `o3` and the iterator `o4`. -/
structure Registers where
  o2 : Object := .null
  o3 : Object := .null
  o4 : Object := .null

/-- `m`, whose error gives way to another one. -/
def raisesInstead {α : Type} (message : List UInt8) (m : BlobM α) : BlobM α := fun w =>
  match m w with
  | .error (.raised _) w' => .error (.raised message) w'
  | result => result

/-- `FOREACH_OP` on a blob. It goes on with the body, or to the end of the loop. -/
def FOREACH_OP (v : Machine) (o1 : Ref) (r : Registers) : BlobM (Registers × Bool) := do
  let itr ← CallMetaMethod v (_blob_nexti fl o1 r.o4)
  if itr = .null then pure ({ r with o2 := itr, o4 := itr }, false)
  else do
    let o3 ← raisesInstead (sc "_nexti returned an invalid idx") (Get fl v o1 itr)
    pure ({ o2 := itr, o3 := o3, o4 := itr }, true)

/-- What a body works on: the variables of the loop, the blobs, and the rest of the program. -/
structure State (σ : Type) where
  registers : Registers
  world : World
  program : σ

inductive Ending (σ : Type) where
  | exit (s : State σ)
  | stopped (stop : Stop)

variable {σ : Type}

/-- The loop around `body`, with a bound for its rounds: the states in which the body is entered,
and how the loop ends. `vm k` is the VM in the `k`th round: a body that yields may be resumed with
other calls around it and on another stack. -/
def foreachLoop (vm : Nat → Machine) (o1 : Ref) (body : State σ → State σ) :
    Nat → Nat → State σ → Option (List (State σ) × Ending σ)
  | 0, _, _ => none
  | fuel + 1, k, s =>
    match FOREACH_OP fl (vm k) o1 s.registers s.world with
    | .error stop _ => some ([], .stopped stop)
    | .ok (r, false) w => some ([], .exit { s with registers := r, world := w })
    | .ok (r, true) w =>
      let entered := { s with registers := r, world := w }
      (foreachLoop vm o1 body fuel (k + 1) (body entered)).map fun (later, ending) =>
        (entered :: later, ending)

/-- `foreach(i, b in o1) body`. -/
def foreach (vm : Nat → Machine) (o1 : Ref) (body : State σ → State σ) (fuel : Nat) (w : World)
    (program : σ) : Option (List (State σ) × Ending σ) :=
  foreachLoop fl vm o1 body fuel 0 { registers := {}, world := w, program := program }

variable {fl} {w : World} {this : Ref} {b : GSBlob} {body : State σ → State σ} {v : Machine}
  {vm : Nat → Machine}

/-! ### One round -/

theorem raisesInstead_ok {α : Type} {message : List UInt8} {m : BlobM α} {a : α} {w' : World}
    (h : m w = .ok a w') : raisesInstead message m w = .ok a w' := by
  unfold raisesInstead
  rw [h]

theorem raisesInstead_raised {α : Type} {message old : List UInt8} {m : BlobM α} {w' : World}
    (h : m w = .error (.raised old) w') :
    raisesInstead message m w = .error (.raised message) w' := by
  unfold raisesInstead
  rw [h]

theorem toInt_ofInt {n : Int} (h₀ : 0 ≤ n) (h₁ : n ≤ MAX) : (Int64.ofInt n).toInt = n := by
  unfold MAX at h₁
  exact Int64.toInt_ofInt_of_le (by omega) (by omega)

/-- The iterator before the round with the index `k`. -/
def before (k : Int) : Object := if k = 0 then .null else .integer (Int64.ofInt (k - 1))

theorem before_succ {k : Int} (h₀ : 0 ≤ k) : before (k + 1) = .integer (Int64.ofInt k) := by
  unfold before
  rw [if_neg (by omega), Int.add_sub_cancel]

theorem nexti_null (h : Sound w) (hself : Self w this b) :
    _blob_nexti fl this .null w = .ok (.integer 0) w := by
  unfold _blob_nexti SETUP_BLOB
  rw [bind_apply, setup_self h hself]
  rfl

theorem nexti_integer (h : Sound w) (hself : Self w this b) {k : Int} (h₀ : 0 ≤ k)
    (h₁ : k < MAX) :
    _blob_nexti fl this (.integer (Int64.ofInt k)) w =
      .ok (if k + 1 < b.size then .integer (Int64.ofInt (k + 1)) else .null) w := by
  unfold _blob_nexti SETUP_BLOB
  rw [bind_apply, setup_self h hself]
  show (do
    let next ← sum ((Int64.ofInt k).toInt + 1)
    pure (if next < b.size then Object.integer (Int64.ofInt next) else .null) : BlobM Object) w = _
  rw [toInt_ofInt h₀ (by omega), bind_apply, sum_eq (by unfold MAX; omega) (by omega)]
  rfl

/-- `_nexti` steps to `k`, which is never compared with the size when it is the first index. -/
theorem nexti_before (h : Sound w) (hself : Self w this b) {k : Int} (h₀ : 0 ≤ k)
    (h₁ : k ≤ b.size) :
    _blob_nexti fl this (before k) w =
      .ok (if k = 0 ∨ k < b.size then .integer (Int64.ofInt k) else .null) w := by
  by_cases hk : k = 0
  · rw [hk, if_pos (.inl rfl)]
    exact nexti_null h hself
  · have hb := h.sane this b hself
    have hsize := hb.size_le
    have hmax := hb.allocated_le
    have hcond : (k - 1 + 1 < b.size) = (k = 0 ∨ k < b.size) := by
      rw [Int.sub_add_cancel, eq_false hk, false_or]
    unfold before
    rw [if_neg hk, nexti_integer h hself (by omega) (by omega)]
    simp only [Int.sub_add_cancel, hk, false_or]

/-- The byte of a blob at an index, as `_get` hands it out. -/
def byteAt (w : World) (b : GSBlob) (k : Nat) : Option Object :=
  (contents w b)[k]?.map fun byte => .integer (Int64.ofNat byte.toNat)

theorem get_byte (fl : Floats) (hv : v.metamethod.Room) (h : Sound w) (hself : Self w this b)
    {k : Nat} (hk : k < b.size) :
    ∃ value, byteAt w b k = some value ∧
      Get fl v this (.integer (Int64.ofInt k)) w = .ok value w := by
  have hb := h.sane this b hself
  have hsize := hb.size_le
  have hmax := hb.allocated_le
  have hidx : (Int64.ofInt (k : Int)).toInt = k := toInt_ofInt (by omega) (by omega)
  have hlen : (contents w b).length = b.size.toNat := length_contents hb
  have hkc : k < (contents w b).length := by omega
  have hcell : k < (w.memory.cells b.buf).length := by
    have := hb.block.length_cells
    omega
  obtain ⟨bytes, hload, -⟩ := load_spec hb.block (k : Int) 1 (by omega) (by omega)
  obtain ⟨hbytes, -⟩ := load_ok hload
  have hone : bytes = [(contents w b)[k]] := by
    have hbyte : (contents w b)[k] = (w.memory.cells b.buf)[k] := List.getElem_take ..
    rw [hbytes, Int.toNat_natCast, List.drop_eq_getElem_cons hcell, hbyte]
    rfl
  refine ⟨.integer (Int64.ofNat (contents w b)[k].toNat), ?_, ?_⟩
  · unfold byteAt
    rw [List.getElem?_eq_getElem hkc]
    rfl
  · show CallMetaMethod v (_blob_get this (Int64.ofInt k)) w = _
    rw [CallMetaMethod, CallNative_room hv]
    unfold _blob_get SETUP_BLOB
    rw [bind_apply, setup_self h hself]
    show (if (Int64.ofInt (k : Int)).toInt < 0 ∨ b.size ≤ (Int64.ofInt (k : Int)).toInt then
        throw (.raised (sc "index out of range"))
      else do
        let bytes ← load b.buf (Int64.ofInt (k : Int)).toInt 1
        pure (.integer (Int64.ofNat (Codec.ofBytes bytes))) : BlobM Object) w = _
    rw [hidx, if_neg (by omega), bind_apply, hload, hone]
    rfl

/-- A round below the size enters the body with the index and its byte. -/
theorem op_enters (fl : Floats) (hv : v.metamethod.Room) (h : Sound w) (hself : Self w this b)
    {k : Nat} (hk : k < b.size) {r : Registers} (hr : r.o4 = before k) :
    ∃ value, byteAt w b k = some value ∧ FOREACH_OP fl v this r w =
      .ok ({ o2 := .integer (Int64.ofInt k), o3 := value, o4 := .integer (Int64.ofInt k) }, true)
        w := by
  obtain ⟨value, hvalue, hget⟩ := get_byte fl hv h hself hk
  refine ⟨value, hvalue, ?_⟩
  unfold FOREACH_OP
  rw [hr, CallMetaMethod, CallNative_room hv, bind_apply, nexti_before h hself (by omega) (by omega), if_pos (.inr hk)]
  show (if Object.integer (Int64.ofInt k) = .null then pure ({ r with o2 := _, o4 := _ }, false)
    else do
      let o3 ← raisesInstead _ (Get fl v this (.integer (Int64.ofInt k)))
      pure ({ o2 := _, o3 := o3, o4 := _ }, true) : BlobM (Registers × Bool)) w = _
  rw [if_neg nofun, bind_apply, raisesInstead_ok hget]
  rfl

/-- After the last byte the loop ends. -/
theorem op_exits (hv : v.metamethod.Room) (h : Sound w) (hself : Self w this b)
    (hpos : b.size ≠ 0) {r : Registers} (hr : r.o4 = before b.size) :
    FOREACH_OP fl v this r w = .ok ({ r with o2 := .null, o4 := .null }, false) w := by
  have hb := h.sane this b hself
  have hnonneg : 0 ≤ b.size := Int.le_trans hb.ptr_nonneg hb.ptr_le
  unfold FOREACH_OP
  rw [hr, CallMetaMethod, CallNative_room hv, bind_apply,
    nexti_before h hself hnonneg (Int.le_refl _), if_neg (by omega)]
  rfl

variable (fl this) in
/-- Without room for its metamethods, the loop raises an error. -/
theorem op_full (hv : ¬ v.metamethod.Room) (r : Registers) (w : World) :
    ∃ message, FOREACH_OP fl v this r w = .error (.raised message) w := by
  obtain ⟨message, hfull⟩ := CallNative_full hv (_blob_nexti fl this r.o4) w
  refine ⟨message, ?_⟩
  unfold FOREACH_OP
  rw [bind_apply, CallMetaMethod, hfull]

/-- The first index of an empty blob is refused by `_get`. -/
theorem op_empty (hv : v.metamethod.Room) (h : Sound w) (hself : Self w this b)
    (hempty : b.size = 0) {r : Registers} (hr : r.o4 = .null) :
    FOREACH_OP fl v this r w = .error (.raised (sc "_nexti returned an invalid idx")) w := by
  have hget : Get fl v this (.integer 0) w = .error (.raised (sc "index out of range")) w := by
    show CallMetaMethod v (_blob_get this 0) w = _
    rw [CallMetaMethod, CallNative_room hv]
    unfold _blob_get SETUP_BLOB
    rw [bind_apply, setup_self h hself]
    show (if (0 : GSInteger).toInt < 0 ∨ b.size ≤ (0 : GSInteger).toInt then
        throw (.raised (sc "index out of range"))
      else do
        let bytes ← load b.buf (0 : GSInteger).toInt 1
        pure (.integer (Int64.ofNat (Codec.ofBytes bytes))) : BlobM Object) w = _
    rw [if_pos (.inr (by rw [hempty]; decide))]
    rfl
  unfold FOREACH_OP
  rw [hr, CallMetaMethod, CallNative_room hv, bind_apply, nexti_null h hself]
  show (if Object.integer 0 = .null then pure ({ r with o2 := _, o4 := _ }, false)
    else do
      let o3 ← raisesInstead _ (Get fl v this (.integer 0))
      pure ({ o2 := _, o3 := o3, o4 := _ }, true) : BlobM (Registers × Bool)) w = _
  rw [if_neg nofun, bind_apply, raisesInstead_raised hget]

/-! ### The whole loop -/

/-- The states that the methods of blobs lead to, as far as the calls keep what they ask for. -/
abbrev Allowing (fl : Floats) : World → Prop := Reached fl fun mem => Allowed mem fl

/-- A body that ends, changes blobs by their methods and leaves the size of one as it was. No
program has a name for the iterator. -/
structure NotResizing (fl : Floats) (this : Ref) (body : State σ → State σ) : Prop where
  iterator : ∀ s, (body s).registers.o4 = s.registers.o4
  allowing : ∀ s, Allowing fl s.world → Allowing fl (body s).world
  size : ∀ s b, Allowing fl s.world → Self s.world this b →
    ∃ b', Self (body s).world this b' ∧ b'.size = b.size

/-- The body begins with the index `k` and the byte that is there. -/
def Shows (this : Ref) (k : Nat) (s : State σ) : Prop :=
  s.registers.o2 = .integer (Int64.ofInt k) ∧
    ∃ b, Self s.world this b ∧ byteAt s.world b k = some s.registers.o3

/-- The loop runs its body `n` times, with the indices in order and the bytes of the moment, and
ends without an error. -/
def Serves (fl : Floats) (vm : Nat → Machine) (this : Ref) (body : State σ → State σ) (w : World)
    (program : σ) (n : Nat) : Prop :=
  ∃ fuel entered s, foreach fl vm this body fuel w program = some (entered, .exit s) ∧
    entered.length = n ∧ ∀ k s, entered[k]? = some s → Shows this k s

/-- The rounds from the index `k` on, of which `m` enter the body. -/
theorem loop_serves (hbody : NotResizing fl this body) {n : Int} (hn : n ≠ 0)
    (hvm : ∀ k : Nat, k ≤ n → (vm k).metamethod.Room) (m : Nat) :
    ∀ (k : Nat) (s : State σ) (b : GSBlob), Allowing fl s.world → Self s.world this b →
      b.size = n → (k + m : Int) = n → s.registers.o4 = before k →
      ∃ entered s', foreachLoop fl vm this body (m + 1) k s = some (entered, .exit s') ∧
        entered.length = m ∧ ∀ j e, entered[j]? = some e → Shows this (k + j) e := by
  induction m with
  | zero =>
    intro k s b hs hself hsize hk hr
    have hlast : (k : Int) = b.size := by omega
    have hop : FOREACH_OP fl (vm k) this s.registers s.world = _ :=
      op_exits (hvm k (by omega)) hs.sound hself (hsize ▸ hn)
        (hr.trans (congrArg before hlast))
    refine ⟨[], { s with registers := { s.registers with o2 := .null, o4 := .null } }, ?_, rfl,
      fun j e hj => ?_⟩
    · rw [foreachLoop, hop]
    · rw [List.getElem?_nil] at hj
      cases hj
  | succ m ih =>
    intro k s b hs hself hsize hk hr
    have hlt : (k : Int) < b.size := by omega
    obtain ⟨value, hvalue, hop⟩ := op_enters fl (hvm k (by omega)) hs.sound hself hlt hr
    let index := Object.integer (Int64.ofInt k)
    let e : State σ := { s with registers := { o2 := index, o3 := value, o4 := index } }
    obtain ⟨b', hself', hsize'⟩ := hbody.size e b hs hself
    obtain ⟨later, s', hrun, hlen, hlater⟩ := ih (k + 1) (body e) b' (hbody.allowing e hs) hself'
      (hsize'.trans hsize) (by omega)
      ((hbody.iterator e).trans (before_succ (by omega)).symm)
    refine ⟨e :: later, s', ?_, by rw [List.length_cons, hlen], fun j e' hj => ?_⟩
    · rw [foreachLoop, hop]
      show (foreachLoop fl vm this body (m + 1) (k + 1) (body e)).map _ = _
      rw [hrun]
      rfl
    · cases j with
      | zero =>
        cases hj
        exact ⟨rfl, b, hself, hvalue⟩
      | succ j =>
        have hshows := hlater j e' hj
        rwa [Nat.add_right_comm, Nat.add_assoc] at hshows

/-- A loop that comes to its end had room for its metamethods in every round. -/
theorem loop_room (fuel : Nat) : ∀ (k : Nat) (s : State σ) {entered : List (State σ)} {s' : State σ},
    foreachLoop fl vm this body fuel k s = some (entered, .exit s') →
      ∀ j, j ≤ entered.length → (vm (k + j)).metamethod.Room := by
  induction fuel with
  | zero => exact fun k s entered s' hrun => nomatch hrun
  | succ fuel ih =>
    intro k s entered s' hrun j hj
    have hfirst : (vm k).metamethod.Room := by
      by_contra hfull
      obtain ⟨message, hop⟩ := op_full fl this hfull s.registers s.world
      rw [foreachLoop, hop] at hrun
      cases hrun
    cases j with
    | zero => exact hfirst
    | succ j =>
      rw [foreachLoop] at hrun
      split at hrun
      · cases hrun
      · cases hrun
        exact absurd hj (by simp)
      · rename_i r w _
        rw [Option.map_eq_some_iff] at hrun
        obtain ⟨⟨later, ending⟩, hlater, heq⟩ := hrun
        cases heq
        have hroom := ih (k + 1) _ hlater j (Nat.le_of_succ_le_succ hj)
        rwa [Nat.add_right_comm, Nat.add_assoc] at hroom

/-- `foreach` over an empty blob raises an error in its first round. -/
theorem foreach_empty (h : Sound w) (hself : Self w this b) (hempty : b.size = 0) (program : σ)
    (fuel : Nat) {entered : List (State σ)} {ending : Ending σ}
    (hrun : foreach fl vm this body fuel w program = some (entered, ending)) :
    ∃ message, ending = .stopped (.raised message) := by
  cases fuel with
  | zero => cases hrun
  | succ fuel =>
    unfold foreach at hrun
    by_cases hroom : (vm 0).metamethod.Room
    · rw [foreachLoop, op_empty hroom h hself hempty rfl] at hrun
      cases hrun
      exact ⟨_, rfl⟩
    · obtain ⟨message, hop⟩ := op_full fl this hroom {} w
      rw [foreachLoop, hop] at hrun
      cases hrun
      exact ⟨_, rfl⟩

/-- `b[3] = b[3] + 1`, as a loop body. -/
def countsLast (s : State Unit) : State Unit :=
  let last := ((contents s.world { size := 4, allocated := 4, buf := some 0 }).getD 3 0).toNat
  { s with world := leaves (Call.run plenty noFloats (.set 0 3 (Int64.ofNat (last + 1)))) s.world }

theorem within_access {f : Memory UInt8 → Option (Memory UInt8)} (this : Ref) (b : GSBlob) :
    Within (Keeps (Self · this b)) (access f) := by
  refine within_get_bind fun w hw => ?_
  cases f w.memory with
  | none => exact hw
  | some m => exact hw

theorem within_set (this : Ref) (b : GSBlob) (o : Ref) (idx val : GSInteger) :
    Within (Keeps (Self · this b)) (_blob_set o idx val) := by
  have hsetup : Within (Keeps (Self · this b)) (SETUP_BLOB o) := by
    refine within_get_bind fun w hw => ?_
    split
    · exact hw
    · exact hw
    · split
      · exact hw
      · exact hw
  refine within_bind hsetup fun self => ?_
  split
  · exact within_throw _
  · exact within_bind (within_access this b) fun _ => within_pure _

theorem countsLast_notResizing : NotResizing noFloats 0 countsLast where
  iterator _ := rfl
  allowing _ h := .call plenty _ h trivial
  size s b _ hself := ⟨b, within_set 0 b 0 3 _ s.world hself, rfl⟩

/-- The state after `local b = blob(0)`. -/
def noBytes : World :=
  leaves (Call.run plenty noFloats (.constructor 0 (some 0)))
    (leaves (Call.run plenty noFloats (.newinstance true)) start)

end GameScript.Blob
