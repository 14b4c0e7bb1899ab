import GameScript.Object
import GameScript.Lib.Codec
import GameScript.Lib.Effect
import GameScript.Lib.Memory

/-!
Blobs (`gstdblobimpl.h`, `gstdblob.cpp`) and the stream methods on them (`gstdstream.cpp`).

The state holds the memory blocks, the instances with the blobs their user pointers lead to,
and the scratch pad. What a call meets with in the allocator and in the VM is a parameter of the
call. An access outside a block, the copying of overlapping ranges and an
overflow of a signed sum are undefined behaviour; a raised error is the other way for a
method not to return. A size is converted to `size_t` where it is passed to the C library,
so a negative one asks for almost the whole address space.
-/

namespace GameScript.Blob

open Effect

/-- The greatest `GSInteger`. -/
def MAX : Int := 9223372036854775807

inductive Stop where
  | raised (message : List UInt8)
  | undefined

/-- `GSBlob`. -/
structure GSBlob where
  size : Int
  allocated : Int
  ptr : Int := 0
  buf : Pointer
  owns : Bool := true

/-- An instance of a class without the type tag of blobs, or one with the tag and its user
pointer, which is null until the constructor of blobs has run. -/
inductive Instance where
  | other
  | blob (up : Option GSBlob)

structure World where
  memory : Memory UInt8 := {}
  instances : List Instance := []
  scratchpad : Pointer := none
  scratchpadsize : Int := 0

/-- What `CallNative` and `EnterFrame` look at in the VM. -/
structure Machine where
  nnativecalls : Nat
  nmetamethodscall : Nat
  top : Nat
  stacksize : Nat

/-- The requests that the allocation functions grant during a call, and the VM in which the
method runs. -/
structure Allocator where
  malloc : Nat → Bool
  realloc : Nat → Bool
  vm : Machine

/-- The conversions between `float` and `double`, next to those of the VM. -/
structure Floats extends FloatOps where
  toDouble : GSFloat → BitVec 64
  ofDouble : BitVec 64 → GSFloat

abbrev BlobM := EStateM Stop World

variable (mem : Allocator) (fl : Floats)

/-! ### Memory -/

/-- The conversion to `size_t`. -/
def size_t (n : Int) : Nat := (n % 18446744073709551616).toNat

/-- The value of a sum of `GSInteger`s. -/
def sum (n : Int) : BlobM Int :=
  if -MAX - 1 ≤ n ∧ n ≤ MAX then pure n else throw .undefined

/-- An access to memory, undefined outside the blocks. -/
def access (f : Memory UInt8 → Option (Memory UInt8)) : BlobM Unit := do
  let w ← get
  match f w.memory with
  | none => throw .undefined
  | some m => set { w with memory := m }

/-- The bytes of a new block are never read before they are written; here they are zero. -/
def malloc (n : Int) : BlobM Pointer := do
  let w ← get
  if mem.malloc (size_t n) then
    set { w with memory := w.memory.alloc (List.replicate (size_t n) 0) }
    pure (some w.memory.next)
  else pure none

def free (p : Pointer) : BlobM Unit := modify fun w => { w with memory := w.memory.free p }

/-- `memset` to zero from the beginning of a block on. -/
def memset (p : Pointer) (n : Int) : BlobM Unit :=
  access fun m => m.store p 0 (List.replicate (size_t n) 0)

def memcpy (dst : Pointer) (dstOff : Int) (src : Pointer) (srcOff n : Int) : BlobM Unit :=
  access fun m => m.copy dst dstOff src srcOff (size_t n)

def load (p : Pointer) (off : Int) (n : Nat) : BlobM (List UInt8) := do
  match (← get).memory.load p off n with
  | none => throw .undefined
  | some bytes => pure bytes

/-- A local variable with these bytes. -/
def declare (bytes : List UInt8) : BlobM Pointer := do
  let w ← get
  set { w with memory := w.memory.alloc bytes }
  pure (some w.memory.next)

/-! ### `GSBlob` -/

/-- The constructor. -/
def GSBlob.new (size : Int) : BlobM GSBlob := do
  let buf ← malloc mem size
  memset buf size
  pure { size := size, allocated := size, buf := buf }

def CanAdvance (b : GSBlob) (n : Int) : BlobM Bool := do
  let p ← sum (b.ptr + n)
  pure (decide (¬ b.size < p))

def Resize (b : GSBlob) (n : Int) : BlobM (GSBlob × Bool) :=
  if ¬ b.owns then pure (b, false)
  else if n ≠ b.allocated then do
    let newbuf ← malloc mem n
    memset newbuf n
    memcpy newbuf 0 b.buf 0 (if n < b.size then n else b.size)
    free b.buf
    pure ({ b with
      buf := newbuf
      allocated := n
      size := if n < b.size then n else b.size
      ptr := if n < b.ptr then n else b.ptr }, true)
  else pure (b, true)

def GrowBufOf (b : GSBlob) (n : Int) : BlobM (GSBlob × Bool) := do
  let wanted ← sum (b.size + n)
  let (b, ret) ←
    if b.allocated < wanted then do
      let doubled ← sum (b.size * 2)
      Resize mem b (if doubled < wanted then wanted else doubled)
    else pure (b, true)
  let size ← sum (b.size + n)
  pure ({ b with size := size }, ret)

/-- The first statement of `Write`. -/
def makeRoom (b : GSBlob) (size : Int) : BlobM GSBlob := do
  let can ← CanAdvance b size
  if can then pure b
  else do
    let last ← sum (b.ptr + size)
    let missing ← sum (last - b.size)
    let (b, _) ← GrowBufOf mem b missing
    pure b

def Write (b : GSBlob) (buffer : Pointer) (size : Int) : BlobM (GSBlob × Int) := do
  let b ← makeRoom mem b size
  memcpy b.buf b.ptr buffer 0 size
  let ptr ← sum (b.ptr + size)
  pure ({ b with ptr := ptr }, size)

def Read (b : GSBlob) (buffer : Pointer) (size : Int) : BlobM (GSBlob × Int) := do
  let can ← CanAdvance b size
  let left ← sum (b.size - b.ptr)
  if ¬ can ∧ left ≤ 0 then pure (b, 0)
  else do
    let n := if can then size else left
    memcpy buffer 0 b.buf b.ptr n
    let ptr ← sum (b.ptr + n)
    pure ({ b with ptr := ptr }, n)

def GS_SEEK_CUR : Int := 0
def GS_SEEK_END : Int := 1
def GS_SEEK_SET : Int := 2

def Seek (b : GSBlob) (offset origin : Int) : BlobM (GSBlob × Int) :=
  if origin = GS_SEEK_SET then
    if b.size < offset ∨ offset < 0 then pure (b, -1) else pure ({ b with ptr := offset }, 0)
  else if origin = GS_SEEK_CUR then do
    let ptr ← sum (b.ptr + offset)
    if b.size < ptr ∨ ptr < 0 then pure (b, -1) else pure ({ b with ptr := ptr }, 0)
  else if origin = GS_SEEK_END then do
    let ptr ← sum (b.size + offset)
    if b.size < ptr ∨ ptr < 0 then pure (b, -1) else pure ({ b with ptr := ptr }, 0)
  else pure (b, -1)

def GSBlob.IsValid (b : GSBlob) : Bool := b.size = 0 || b.buf.isSome

/-! ### The scratch pad -/

/-- The size `GetScratchPad` reallocates a pad of `have` characters to when `size` are asked
for. -/
def newsize (pad size : Int) : Option Int :=
  if 0 < size then
    if pad < size then some (max (Int.bmod (size + size / 2) 18446744073709551616) size)
    else if size ≤ pad / 32 then some (max (pad / 2) size)
    else none
  else none

/-- The old block stays allocated when a request is not granted. -/
def realloc (p : Pointer) (n : Int) : BlobM Pointer := do
  let w ← get
  if mem.realloc (size_t n) then
    let old := ((p.bind w.memory.blocks).getD []).take (size_t n)
    let bytes := old ++ List.replicate (size_t n - old.length) 0
    set { w with memory := (w.memory.alloc bytes).free p }
    pure (some w.memory.next)
  else pure none

def GetScratchPad (size : Int) : BlobM Pointer := do
  let w ← get
  match newsize w.scratchpadsize size with
  | none => pure w.scratchpad
  | some n => do
    let pad ← realloc mem w.scratchpad n
    modify fun w => { w with scratchpad := pad, scratchpadsize := n }
    pure pad

/-! ### Calls of native functions -/

def MAX_NATIVE_CALLS : Nat := 100

def MIN_STACK_OVERHEAD : Nat := 15

/-- `EnterFrame`, no tail call: the stack grows, but not while a metamethod runs. -/
def EnterFrame (v : Machine) (newtop : Nat) : BlobM Machine :=
  if v.stacksize < newtop + MIN_STACK_OVERHEAD then
    if v.nmetamethodscall ≠ 0 then
      throw (.raised (sc "stack overflow, cannot resize stack while in a metamethod"))
    else pure { v with top := newtop, stacksize := newtop + 4 * MIN_STACK_OVERHEAD }
  else pure { v with top := newtop }

/-- `CallNative` with the arguments on top of the stack, which are of the number and the types
that the function asks for. The functions of blobs have no outer values. -/
def CallNative {α : Type} (v : Machine) (function : BlobM α) : BlobM α := do
  if MAX_NATIVE_CALLS < v.nnativecalls + 1 then throw (.raised (sc "Native stack overflow"))
  else do
    let _ ← EnterFrame v v.top
    function

/-- There is room for a native function with its arguments on top of the stack. -/
def Machine.Room (v : Machine) : Prop :=
  v.nnativecalls < MAX_NATIVE_CALLS ∧
    (v.top + MIN_STACK_OVERHEAD ≤ v.stacksize ∨ v.nmetamethodscall = 0)

theorem CallNative_room {α : Type} {v : Machine} (h : v.Room) (function : BlobM α) :
    CallNative v function = function := by
  unfold CallNative EnterFrame
  rw [if_neg (Nat.not_lt.mpr h.1)]
  by_cases hfull : v.stacksize < v.top + MIN_STACK_OVERHEAD
  · rw [if_pos hfull, if_neg (not_not_intro (h.2.resolve_left (Nat.not_le.mpr hfull)))]
    rfl
  · rw [if_neg hfull]
    rfl

/-- Without room the function is not called. -/
theorem CallNative_full {α : Type} {v : Machine} (h : ¬ v.Room) (function : BlobM α) (w : World) :
    ∃ message, CallNative v function w = .error (.raised message) w := by
  unfold CallNative EnterFrame
  by_cases hmany : MAX_NATIVE_CALLS < v.nnativecalls + 1
  · rw [if_pos hmany]
    exact ⟨_, rfl⟩
  · have hfull : ¬ (v.top + MIN_STACK_OVERHEAD ≤ v.stacksize ∨ v.nmetamethodscall = 0) :=
      fun hroom => h ⟨Nat.not_lt.mp hmany, hroom⟩
    obtain ⟨hstack, hmeta⟩ := not_or.mp hfull
    rw [if_neg hmany, if_pos (Nat.not_le.mp hstack), if_pos hmeta]
    exact ⟨_, rfl⟩

/-- `GS_SUCCEEDED` of a call. -/
def succeeded {α : Type} (m : BlobM α) : BlobM Bool := fun w =>
  match m w with
  | .ok _ w' => .ok true w'
  | .error (.raised _) w' => .ok false w'
  | .error .undefined w' => .error .undefined w'

/-! ### The methods -/

/-- `SETUP_BLOB` and `SETUP_STREAM`, which differ in the text for an invalid receiver. -/
def setup (invalid : List UInt8) (this : Ref) : BlobM GSBlob := do
  match (← get).instances.getD this .other with
  | .other => throw (.raised (sc "invalid type tag"))
  | .blob none => throw (.raised invalid)
  | .blob (some self) => if self.IsValid then pure self else throw (.raised invalid)

def SETUP_BLOB : Ref → BlobM GSBlob := setup (sc "the blob is invalid")

def SETUP_STREAM : Ref → BlobM GSBlob := setup (sc "the stream is invalid")

/-- What the methods left in the blob. -/
def update (this : Ref) (self : GSBlob) : BlobM Unit := modify fun w =>
  { w with instances := w.instances.set this (.blob (some self)) }

/-- `GS_setinstanceup`. The user pointer of another class's instance is not looked at here. -/
def setinstanceup (this : Ref) (self : GSBlob) : BlobM Unit := modify fun w =>
  match w.instances.getD this .other with
  | .other => w
  | .blob _ => { w with instances := w.instances.set this (.blob (some self)) }

/-- Creates an instance of a class, without calling a constructor. -/
def newinstance (cl : Instance) : BlobM Ref := do
  let w ← get
  set { w with instances := w.instances ++ [cl] }
  pure w.instances.length

def _blob_constructor (this : Ref) (size : Option GSInteger) : BlobM Object := do
  let size : Int := (size.getD 0).toInt
  if size < 0 then throw (.raised (sc "cannot create blob with negative size"))
  else do
    let b ← GSBlob.new mem size
    setinstanceup this b
    pure .null

/-- The buffer of the blob that a user pointer leads to. -/
def GetBuf : Instance → BlobM Pointer
  | .blob (some b) => pure b.buf
  | _ => throw .undefined

/-- The VM with the class, the receiver and the size on top of the stack. -/
def Machine.creating (v : Machine) : Machine := { v with top := v.top + 3 }

/-- `gstd_createblob`, with the new instance and its buffer, which is null where `GS_call` fails. -/
def gstd_createblob (size : GSInteger) : BlobM (Ref × Pointer) := do
  let this ← newinstance (.blob none)
  if ← succeeded (CallNative mem.vm.creating (_blob_constructor mem this (some size))) then
    let w ← get
    let buf ← GetBuf (w.instances.getD this .other)
    pure (this, buf)
  else pure (this, none)

def _stream_readblob (this : Ref) (size : GSInteger) : BlobM Object := do
  let self ← SETUP_STREAM this
  let size := if self.size < size.toInt then self.size else size.toInt
  let data ← GetScratchPad mem size
  let (self, res) ← Read self data size
  update this self
  if res ≤ 0 then throw (.raised (sc "no data left to read"))
  else do
    let (r, blobp) ← gstd_createblob mem (Int64.ofInt res)
    memcpy blobp 0 data 0 res
    pure (.instance r)

def ch (c : Char) : GSInteger := Int64.ofNat c.toNat

/-- The formats of `_stream_readn`: how many bytes are read and what they mean. -/
def readFormat (format : GSInteger) : Option (Nat × (Nat → Object)) :=
  if format = ch 'l' then some (8, fun v => .integer (Int64.ofNat v))
  else if format = ch 'i' then some (4, fun v => .integer (Int32.ofNat v).toInt64)
  else if format = ch 's' then some (2, fun v => .integer (Int16.ofNat v).toInt64)
  else if format = ch 'w' then some (2, fun v => .integer (Int64.ofNat v))
  else if format = ch 'c' then some (1, fun v => .integer (Int8.ofNat v).toInt64)
  else if format = ch 'b' then some (1, fun v => .integer (Int64.ofNat v))
  else if format = ch 'f' then some (4, fun v => .float (BitVec.ofNat 32 v))
  else if format = ch 'd' then some (8, fun v => .float (fl.ofDouble (BitVec.ofNat 64 v)))
  else none

def _stream_readn (this : Ref) (format : GSInteger) : BlobM Object := do
  let self ← SETUP_STREAM this
  match readFormat fl format with
  | none => throw (.raised (sc "invalid format"))
  | some (len, value) => do
    let i ← declare (List.replicate len 0)
    let (self, n) ← Read self i len
    update this self
    let bytes ← load i 0 len
    free i
    if n ≠ len then throw (.raised (sc "io error")) else pure (value (Codec.ofBytes bytes))

/-- The formats of `_stream_writen`: the bytes written for a value. -/
def writeFormat (format value : GSInteger) : Option (List UInt8) :=
  let bits := value.toBitVec.toNat
  let float := fl.ofInteger value
  if format = ch 'l' then some (Codec.toBytes 8 bits)
  else if format = ch 'i' then some (Codec.toBytes 4 bits)
  else if format = ch 's' then some (Codec.toBytes 2 bits)
  else if format = ch 'w' then some (Codec.toBytes 2 bits)
  else if format = ch 'c' then some (Codec.toBytes 1 bits)
  else if format = ch 'b' then some (Codec.toBytes 1 bits)
  else if format = ch 'f' then some (Codec.toBytes 4 float.toNat)
  else if format = ch 'd' then some (Codec.toBytes 8 (fl.toDouble float).toNat)
  else none

def _stream_writen (this : Ref) (value format : GSInteger) : BlobM Object := do
  let self ← SETUP_STREAM this
  match writeFormat fl format value with
  | none => throw (.raised (sc "invalid format"))
  | some bytes => do
    let i ← declare bytes
    let (self, _) ← Write mem self i bytes.length
    update this self
    free i
    pure .null

/-- `gstd_getblob` and `gstd_getblobsize`, which follow a null user pointer. -/
def gstd_getblob (this : Ref) : BlobM (Pointer × Int) := do
  match (← get).instances.getD this .other with
  | .other => throw (.raised (sc "invalid parameter"))
  | .blob none => throw .undefined
  | .blob (some b) => pure (b.buf, b.size)

def _stream_writeblob (this src : Ref) : BlobM Object := do
  let self ← SETUP_STREAM this
  let (data, size) ← gstd_getblob src
  let (self, n) ← Write mem self data size
  update this self
  if n ≠ size then throw (.raised (sc "io error")) else pure (.integer (Int64.ofInt size))

/-- The origin that a third argument of `_stream_seek` names. -/
def seekOrigin : Option GSInteger → Option Int
  | none => some GS_SEEK_SET
  | some t =>
    if t = ch 'b' then some GS_SEEK_SET
    else if t = ch 'c' then some GS_SEEK_CUR
    else if t = ch 'e' then some GS_SEEK_END
    else none

def _stream_seek (this : Ref) (offset : GSInteger) (origin : Option GSInteger) : BlobM Object := do
  let self ← SETUP_STREAM this
  match seekOrigin origin with
  | none => throw (.raised (sc "invalid origin"))
  | some origin => do
    let (self, n) ← Seek self offset.toInt origin
    update this self
    pure (.integer (Int64.ofInt n))

def _blob_resize (this : Ref) (size : GSInteger) : BlobM Object := do
  let self ← SETUP_BLOB this
  let (self, ret) ← Resize mem self size.toInt
  update this self
  if ¬ ret then throw (.raised (sc "resize failed")) else pure .null

/-- `__swap_dword` and `__swap_word` on the `i`th number of the buffer. -/
def swapAt (p : Pointer) (width i : Nat) : BlobM Unit := do
  let bytes ← load p (width * i) width
  access fun m => m.store p (width * i) bytes.reverse

/-- `_blob_swap4` and `_blob_swap2`, which differ in the width of the numbers. -/
def swap (width : Nat) (this : Ref) : BlobM Object := do
  let self ← SETUP_BLOB this
  let num := (self.size - self.size % width) / width
  (List.range num.toNat).forM (swapAt self.buf width)
  pure .null

def _blob_swap4 : Ref → BlobM Object := swap 4

def _blob_swap2 : Ref → BlobM Object := swap 2

/-- `_blob__set`. -/
def _blob_set (this : Ref) (idx val : GSInteger) : BlobM Object := do
  let self ← SETUP_BLOB this
  if idx.toInt < 0 ∨ self.size ≤ idx.toInt then throw (.raised (sc "index out of range"))
  else do
    access fun m => m.store self.buf idx.toInt [UInt8.ofNat val.toBitVec.toNat]
    pure (.integer val)

/-- `_blob__get`, called with a number. -/
def _blob_get (this : Ref) (idx : GSInteger) : BlobM Object := do
  let self ← SETUP_BLOB this
  if idx.toInt < 0 ∨ self.size ≤ idx.toInt then throw (.raised (sc "index out of range"))
  else do
    let bytes ← load self.buf idx.toInt 1
    pure (.integer (Int64.ofNat (Codec.ofBytes bytes)))

/-! ### Calls -/

inductive Call where
  /-- The VM creates an instance, with the type tag of blobs or without. -/
  | newinstance (tagged : Bool)
  | constructor (this : Ref) (size : Option GSInteger)
  | readn (this : Ref) (format : GSInteger)
  | writen (this : Ref) (value format : GSInteger)
  | readblob (this : Ref) (size : GSInteger)
  | writeblob (this src : Ref)
  | seek (this : Ref) (offset : GSInteger) (origin : Option GSInteger)
  | resize (this : Ref) (size : GSInteger)
  | swap2 (this : Ref)
  | swap4 (this : Ref)
  | set (this : Ref) (idx val : GSInteger)
  | get (this : Ref) (idx : GSInteger)

def Call.run : Call → BlobM Object
  | .newinstance tagged => do
    let r ← Blob.newinstance (if tagged then .blob none else .other)
    pure (.instance r)
  | .constructor this size => _blob_constructor mem this size
  | .readn this format => _stream_readn fl this format
  | .writen this value format => _stream_writen mem fl this value format
  | .readblob this size => _stream_readblob mem this size
  | .writeblob this src => _stream_writeblob mem this src
  | .seek this offset origin => _stream_seek this offset origin
  | .resize this size => _blob_resize mem this size
  | .swap2 this => _blob_swap2 this
  | .swap4 this => _blob_swap4 this
  | .set this idx val => _blob_set this idx val
  | .get this idx => _blob_get this idx

end GameScript.Blob
