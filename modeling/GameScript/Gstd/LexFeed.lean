import GameScript.Object
import GameScript.Lib.Codec
import GameScript.Lib.Memory

/-!
How script files reach the lexer (`gstdio.cpp`). The first bytes of a file choose the function
that the lexer takes its characters from; it reads the file through a buffer. A unit of UTF-16 is
read through a pointer to `wchar_t`, which the platforms give different sizes.
-/

namespace GameScript.Io

/-- `wchar_t`: two bytes on Windows, four elsewhere. -/
inductive WChar where
  | unsignedShort | int | unsignedInt
deriving DecidableEq, Repr

namespace WChar

/-- `sizeof(wchar_t)`. -/
def size : WChar → Nat
  | .unsignedShort => 2
  | .int | .unsignedInt => 4

/-- The value of the bytes, on a little endian machine. -/
def value : WChar → List UInt8 → Int
  | .int, bytes => (Codec.ofBytes bytes : Int).bmod (2 ^ 32)
  | .unsignedShort, bytes | .unsignedInt, bytes => Codec.ofBytes bytes

end WChar

def IO_BUFFER_SIZE : Nat := 2048

/-- `IOBuffer`. Its `buffer` is the part of the array that has been written, which is always a
beginning of it, and `file` is what is left of the file. -/
structure IOBuffer where
  buffer : List UInt8 := []
  size : Nat := 0
  ptr : Nat := 0
  file : List UInt8

/-- `gstd_fread` into the buffer. Only at its end does a file give fewer bytes than it is asked
for. -/
def gstd_fread (iobuffer : IOBuffer) : IOBuffer :=
  let bytes := iobuffer.file.take IO_BUFFER_SIZE
  { iobuffer with
    buffer := Memory.overwrite iobuffer.buffer 0 bytes
    size := bytes.length
    file := iobuffer.file.drop IO_BUFFER_SIZE }

/-- `_read_byte`, where `none` is an undefined access. -/
def _read_byte (iobuffer : IOBuffer) : Option (Int × IOBuffer) :=
  if iobuffer.ptr < iobuffer.size then do
    let ret ← iobuffer.buffer[iobuffer.ptr]?
    return (ret.toNat, { iobuffer with ptr := iobuffer.ptr + 1 })
  else
    let iobuffer := gstd_fread iobuffer
    if iobuffer.size > 0 then do
      let ret ← iobuffer.buffer[0]?
      return (ret.toNat, { iobuffer with ptr := 1 })
    else return (0, iobuffer)

/-- `*((const wchar_t*)&buffer[ptr])`, undefined on bytes that are not in the array or that
nothing was written to. -/
def readWChar (wchar : WChar) (buffer : List UInt8) (ptr : Nat) : Option Int :=
  let bytes := (buffer.drop ptr).take wchar.size
  if bytes.length = wchar.size then some (wchar.value bytes) else none

/-- `_read_two_bytes`. -/
def _read_two_bytes (wchar : WChar) (iobuffer : IOBuffer) : Option (Int × IOBuffer) :=
  if iobuffer.ptr < iobuffer.size then
    if iobuffer.size < 2 then return (0, iobuffer)
    else do
      let ret ← readWChar wchar iobuffer.buffer iobuffer.ptr
      return (ret, { iobuffer with ptr := iobuffer.ptr + 2 })
  else
    let iobuffer := gstd_fread iobuffer
    if iobuffer.size > 0 then
      if iobuffer.size < 2 then return (0, iobuffer)
      else do
        let ret ← readWChar wchar iobuffer.buffer 0
        return (ret, { iobuffer with ptr := 2 })
    else return (0, iobuffer)

/-! ### The functions that the lexer reads with -/

/-- `_io_file_lexfeed_PLAIN`, `_io_file_lexfeed_UCS2_LE` and `_io_file_lexfeed_UCS2_BE`. -/
inductive LexFeed where
  | PLAIN | UCS2_LE | UCS2_BE
deriving DecidableEq, Repr

/-- `((c>>8)&0x00FF)| ((c<<8)&0xFF00)`. -/
def swapUnit (c : Nat) : Nat := ((c >>> 8) &&& 0x00FF) ||| ((c <<< 8) &&& 0xFF00)

/-- What a function makes of what it has read. -/
def LexFeed.convert : LexFeed → Int → Int
  | .PLAIN, ret => ret
  | .UCS2_LE, ret => if ret > 0 then ret else 0
  | .UCS2_BE, c => if c > 0 then swapUnit c.toNat else 0

/-- A call of the function. -/
def LexFeed.run (wchar : WChar) (func : LexFeed) (iobuffer : IOBuffer) :
    Option (Int × IOBuffer) := do
  let (ret, iobuffer) ←
    if func = .PLAIN then _read_byte iobuffer else _read_two_bytes wchar iobuffer
  return (func.convert ret, iobuffer)

/-- The results of so many calls, one after the other. -/
def LexFeed.calls (wchar : WChar) (func : LexFeed) : Nat → IOBuffer → Option (List Int)
  | 0, _ => some []
  | n + 1, iobuffer => do
    let (c, iobuffer) ← func.run wchar iobuffer
    let later ← func.calls wchar n iobuffer
    return c :: later

/-! ### `gstd_loadfile` -/

def GS_BYTECODE_STREAM_TAG : Nat := 0xFAFA

/-- What `gstd_loadfile` hands on: a stream of bytecode, or a script to `GS_compile`. -/
inductive Load where
  | bytecode
  | script (func : LexFeed) (buffer : IOBuffer)
  | error (message : List UInt8)

/-- `gstd_loadfile`, for the bytes of a file. -/
def gstd_loadfile (file : List UInt8) : Load :=
  let us := if 2 ≤ file.length then Codec.ofBytes (file.take 2) else 0
  let rest := file.drop 2
  if us = GS_BYTECODE_STREAM_TAG then .bytecode
  else if us = 0xFFFE then .script .UCS2_BE { file := rest }
  else if us = 0xFEFF then .script .UCS2_LE { file := rest }
  else if us = 0xBBEF then
    match rest with
    | [] => .error (sc "io error")
    | uc :: rest =>
      if uc ≠ 0xBF then .error (sc "Unrecognized encoding")
      else .script .PLAIN { file := rest }
  else .script .PLAIN { file := file }

/-! ### Files in UTF-16 -/

inductive ByteOrder where
  | little | big
deriving DecidableEq, Repr

namespace ByteOrder

/-- The byte order mark. -/
def mark : ByteOrder → List UInt8
  | .little => [0xFF, 0xFE]
  | .big => [0xFE, 0xFF]

/-- The bytes of a code unit. -/
def bytes : ByteOrder → UInt16 → List UInt8
  | .little, u => [u.toUInt8, (u >>> 8).toUInt8]
  | .big, u => [(u >>> 8).toUInt8, u.toUInt8]

/-- The file of code units. -/
def file (order : ByteOrder) (units : List UInt16) : List UInt8 :=
  order.mark ++ units.flatMap order.bytes

def feed : ByteOrder → LexFeed
  | .little => .UCS2_LE
  | .big => .UCS2_BE

end ByteOrder

/-- The lexer is fed the characters and then the end of input. -/
def Fed (wchar : WChar) (file : List UInt8) (chars : List Int) : Prop :=
  ∃ func buffer, gstd_loadfile file = .script func buffer ∧
    ∀ m, func.calls wchar (chars.length + m) buffer = some (chars ++ List.replicate m 0)

theorem loadfile_marked (order : ByteOrder) (rest : List UInt8) :
    gstd_loadfile (order.mark ++ rest) = .script order.feed { file := rest } := by
  have hlen : 2 ≤ (order.mark ++ rest).length := by
    rw [List.length_append]
    cases order with
    | little => exact Nat.le_add_right 2 _
    | big => exact Nat.le_add_right 2 _
  unfold gstd_loadfile
  rw [if_pos hlen]
  cases order with
  | little => rfl
  | big => rfl

/-! ### Units of two bytes -/

/-- The bytes that are still to be read. -/
def IOBuffer.pending (b : IOBuffer) : List UInt8 :=
  (b.buffer.drop b.ptr).take (b.size - b.ptr) ++ b.file

/-- A buffer that ends with a unit, before a rest of whole units. -/
structure Ready (b : IOBuffer) : Prop where
  size_le : b.size ≤ b.buffer.length
  even : (b.size - b.ptr) % 2 = 0
  file : b.file.length % 2 = 0

theorem readWChar_two (buffer : List UInt8) {ptr : Nat} {x y : UInt8} {rest : List UInt8}
    (h : buffer.drop ptr = x :: y :: rest) :
    readWChar .unsignedShort buffer ptr = some (Codec.ofBytes [x, y] : Nat) := by
  unfold readWChar
  rw [h]
  rfl

/-- What `gstd_fread` puts at the beginning of the buffer. -/
theorem take_fread (b : IOBuffer) :
    (gstd_fread b).buffer.take (gstd_fread b).size = b.file.take IO_BUFFER_SIZE := by
  have h := Memory.take_drop_overwrite (Nat.zero_le b.buffer.length) (b.file.take IO_BUFFER_SIZE)
  rwa [List.drop_zero] at h

theorem size_le_fread (b : IOBuffer) : (gstd_fread b).size ≤ (gstd_fread b).buffer.length := by
  show (b.file.take IO_BUFFER_SIZE).length ≤ (Memory.overwrite _ 0 _).length
  rw [Memory.length_overwrite (Nat.zero_le _)]
  omega

/-- The buffer after a read from the file, from its beginning. -/
def IOBuffer.refilled (b : IOBuffer) : IOBuffer := { gstd_fread b with ptr := 0 }

theorem refilled_pending (b : IOBuffer) : b.refilled.pending = b.file := by
  show (gstd_fread b).buffer.take (gstd_fread b).size ++ b.file.drop IO_BUFFER_SIZE = _
  rw [take_fread, List.take_append_drop]

theorem Ready.refilled {b : IOBuffer} (h : Ready b) : Ready b.refilled where
  size_le := size_le_fread b
  even := by
    have hfile := h.file
    show (b.file.take IO_BUFFER_SIZE).length % 2 = 0
    rw [List.length_take, IO_BUFFER_SIZE]
    omega
  file := by
    have hfile := h.file
    show (b.file.drop IO_BUFFER_SIZE).length % 2 = 0
    rw [List.length_drop, IO_BUFFER_SIZE]
    omega

/-- At the end of the buffer, the next unit is the first one of what the file gives. -/
theorem read_refilled (wchar : WChar) {b : IOBuffer} (hptr : ¬ b.ptr < b.size)
    (hfile : 2 ≤ b.file.length) :
    _read_two_bytes wchar b = _read_two_bytes wchar b.refilled := by
  have hsize : 2 ≤ (gstd_fread b).size := by
    show 2 ≤ (b.file.take IO_BUFFER_SIZE).length
    rw [List.length_take, IO_BUFFER_SIZE]
    omega
  have hpos : 0 < (gstd_fread b).size := by omega
  have hwhole : ¬ (gstd_fread b).size < 2 := by omega
  unfold _read_two_bytes
  rw [if_neg hptr, if_pos (show b.refilled.ptr < b.refilled.size from hpos),
    if_neg (show ¬ b.refilled.size < 2 from hwhole)]
  exact (if_pos hpos).trans (if_neg hwhole)

/-- A unit in the buffer is read. -/
theorem read_buffered {b : IOBuffer} (hb : Ready b) (hptr : b.ptr < b.size) {x y : UInt8}
    {rest : List UInt8} (h : b.pending = x :: y :: rest) :
    ∃ b', _read_two_bytes .unsignedShort b = some (↑(Codec.ofBytes [x, y]), b') ∧
      Ready b' ∧ b'.pending = rest := by
  have hsize := hb.size_le
  have heven := hb.even
  unfold IOBuffer.pending at h
  obtain ⟨p, q, tail, hdrop⟩ : ∃ p q tail, b.buffer.drop b.ptr = p :: q :: tail := by
    have hlen : 2 ≤ (b.buffer.drop b.ptr).length := by
      rw [List.length_drop]
      omega
    match b.buffer.drop b.ptr, hlen with
    | p :: q :: tail, _ => exact ⟨p, q, tail, rfl⟩
  obtain ⟨k, hk⟩ : ∃ k, b.size - b.ptr = k + 2 := ⟨b.size - b.ptr - 2, by omega⟩
  rw [hdrop, hk] at h
  cases h
  refine ⟨{ b with ptr := b.ptr + 2 }, ?_, ⟨hsize, ?_, hb.file⟩, ?_⟩
  · unfold _read_two_bytes
    rw [if_pos hptr, if_neg (by omega), readWChar_two b.buffer hdrop]
    rfl
  · show (b.size - (b.ptr + 2)) % 2 = 0
    omega
  · show (b.buffer.drop (b.ptr + 2)).take (b.size - (b.ptr + 2)) ++ b.file = _
    rw [← List.drop_drop, hdrop, show b.size - (b.ptr + 2) = k by omega]
    rfl

/-- At the end of the buffer nothing is pending but the file. -/
theorem pending_eq_file {b : IOBuffer} (hptr : ¬ b.ptr < b.size) : b.pending = b.file := by
  unfold IOBuffer.pending
  rw [Nat.sub_eq_zero_of_le (Nat.le_of_not_lt hptr), List.take_zero, List.nil_append]

/-- A unit is read, from the buffer or from the file. -/
theorem read_unit {b : IOBuffer} (hb : Ready b) {x y : UInt8} {rest : List UInt8}
    (h : b.pending = x :: y :: rest) :
    ∃ b', _read_two_bytes .unsignedShort b = some (↑(Codec.ofBytes [x, y]), b') ∧
      Ready b' ∧ b'.pending = rest := by
  by_cases hptr : b.ptr < b.size
  · exact read_buffered hb hptr h
  · have hfile : b.file = x :: y :: rest := (pending_eq_file hptr).symm.trans h
    have hpos : b.refilled.ptr < b.refilled.size := by
      show 0 < (b.file.take IO_BUFFER_SIZE).length
      rw [hfile]
      exact Nat.succ_pos _
    rw [read_refilled _ hptr (hfile ▸ Nat.le_add_left 2 _)]
    exact read_buffered hb.refilled hpos ((refilled_pending b).trans hfile)

/-- After the last unit there are only zeros. -/
theorem read_end (wchar : WChar) {b : IOBuffer} (hb : Ready b) (h : b.pending = []) :
    ∃ b', _read_two_bytes wchar b = some (0, b') ∧ Ready b' ∧ b'.pending = [] := by
  obtain ⟨hbuffered, hfile⟩ := List.append_eq_nil_iff.mp h
  have hsize := hb.size_le
  have hptr : ¬ b.ptr < b.size := by
    intro hlt
    have hlen := congrArg List.length hbuffered
    rw [List.length_take, List.length_drop, List.length_nil] at hlen
    omega
  have hread : (gstd_fread b).size = 0 := by
    show (b.file.take IO_BUFFER_SIZE).length = 0
    rw [hfile]
    rfl
  have hleft : (gstd_fread b).file = [] := by
    show b.file.drop IO_BUFFER_SIZE = []
    rw [hfile]
    rfl
  refine ⟨gstd_fread b, ?_, ⟨size_le_fread b, ?_, ?_⟩, ?_⟩
  · unfold _read_two_bytes
    rw [if_neg hptr]
    exact if_neg (Nat.not_lt.mpr (Nat.le_of_eq hread))
  · rw [hread, Nat.zero_sub]
  · rw [hleft]
    rfl
  · rw [pending_eq_file (by omega), hleft]

/-! ### The characters -/

theorem swapUnit_bytes (x y : UInt8) :
    swapUnit (Codec.ofBytes [x, y]) = Codec.ofBytes [y, x] := by
  have hx := x.toNat_lt
  have hy := y.toNat_lt
  have hunit : Codec.ofBytes [x, y] = x.toNat + 256 * y.toNat := rfl
  have hhigh : Codec.ofBytes [x, y] >>> 8 &&& 0x00FF = y.toNat := by
    rw [hunit, Nat.shiftRight_eq_div_pow, Nat.and_two_pow_sub_one_eq_mod _ 8]
    omega
  have hlow : Codec.ofBytes [x, y] <<< 8 &&& 0xFF00 = x.toNat <<< 8 := by
    rw [show 0xFF00 = 0xFF <<< 8 from rfl, ← Nat.shiftLeft_and_distrib,
      Nat.and_two_pow_sub_one_eq_mod _ 8, hunit]
    congr 1
    omega
  unfold swapUnit
  rw [hhigh, hlow, Nat.or_comm, ← Nat.shiftLeft_add_eq_or_of_lt hy, Nat.shiftLeft_eq,
    Nat.mul_comm, Nat.add_comm]
  rfl

theorem ofBytes_unit (u : UInt16) : Codec.ofBytes (ByteOrder.little.bytes u) = u.toNat := by
  have hu := u.toNat_lt
  have hlow : u.toUInt8.toNat = u.toNat % 256 := rfl
  have hhigh : (u >>> 8).toUInt8.toNat = u.toNat / 256 % 256 := by
    rw [UInt16.toNat_toUInt8, UInt16.toNat_shiftRight, Nat.shiftRight_eq_div_pow]
    rfl
  show u.toUInt8.toNat + 256 * ((u >>> 8).toUInt8.toNat + 256 * 0) = u.toNat
  omega

/-- The functions give the unit back that the bytes are of. -/
theorem convert_unit (order : ByteOrder) {u : UInt16} (hu : u ≠ 0) :
    ∃ x y, order.bytes u = [x, y] ∧ order.feed.convert ↑(Codec.ofBytes [x, y]) = u.toNat := by
  have hpos : 0 < u.toNat := Nat.pos_of_ne_zero fun h => hu (UInt16.toNat_inj.mp h)
  have hlittle : Codec.ofBytes [u.toUInt8, (u >>> 8).toUInt8] = u.toNat := ofBytes_unit u
  cases order with
  | little =>
    refine ⟨_, _, rfl, ?_⟩
    rw [hlittle]
    exact if_pos (Int.natCast_pos.mpr hpos)
  | big =>
    have hswap := swapUnit_bytes (u >>> 8).toUInt8 u.toUInt8
    refine ⟨_, _, rfl, ?_⟩
    have hread : 0 < Codec.ofBytes [(u >>> 8).toUInt8, u.toUInt8] := by
      refine Nat.pos_of_ne_zero fun h => ?_
      rw [h, hlittle] at hswap
      exact absurd hswap (Nat.ne_of_lt hpos)
    show (if (Codec.ofBytes [(u >>> 8).toUInt8, u.toUInt8] : Int) > 0 then
      (swapUnit (Codec.ofBytes [(u >>> 8).toUInt8, u.toUInt8]) : Int) else 0) = u.toNat
    rw [if_pos (Int.natCast_pos.mpr hread), hswap, hlittle]

theorem feed_run (order : ByteOrder) (wchar : WChar) (b : IOBuffer) :
    order.feed.run wchar b =
      (_read_two_bytes wchar b).map fun read => (order.feed.convert read.1, read.2) := by
  unfold LexFeed.run
  rw [if_neg (by cases order <;> decide)]
  cases _read_two_bytes wchar b with
  | none => rfl
  | some read => rfl

theorem calls_succ (wchar : WChar) (func : LexFeed) (n : Nat) {b b' : IOBuffer} {c : Int}
    (h : func.run wchar b = some (c, b')) :
    func.calls wchar (n + 1) b = (func.calls wchar n b').map (c :: ·) := by
  rw [LexFeed.calls, h]
  show ((func.calls wchar n b').bind fun later => some (c :: later)) = _
  cases func.calls wchar n b' with
  | none => rfl
  | some later => rfl

theorem calls_end (order : ByteOrder) (wchar : WChar) (m : Nat) :
    ∀ b : IOBuffer, Ready b → b.pending = [] →
      order.feed.calls wchar m b = some (List.replicate m 0) := by
  induction m with
  | zero => exact fun _ _ _ => rfl
  | succ m ih =>
    intro b hb h
    obtain ⟨b', hread, hb', h'⟩ := read_end wchar hb h
    have hrun : order.feed.run wchar b = some (0, b') := by
      rw [feed_run, hread]
      cases order with
      | little => rfl
      | big => rfl
    rw [calls_succ wchar _ m hrun, ih b' hb' h']
    rfl

/-- With two bytes for a `wchar_t`, the calls give the units in order. -/
theorem calls_units (order : ByteOrder) (m : Nat) (units : List UInt16) :
    ∀ b : IOBuffer, (∀ u ∈ units, u ≠ 0) → Ready b → b.pending = units.flatMap order.bytes →
      order.feed.calls .unsignedShort (units.length + m) b =
        some (units.map (fun u => (u.toNat : Int)) ++ List.replicate m 0) := by
  induction units with
  | nil =>
    intro b _ hb h
    rw [List.length_nil, Nat.zero_add]
    exact calls_end order _ m b hb h
  | cons u units ih =>
    intro b hunits hb h
    obtain ⟨x, y, hbytes, hconvert⟩ := convert_unit order (hunits u List.mem_cons_self)
    rw [List.flatMap_cons, hbytes] at h
    obtain ⟨b', hread, hb', h'⟩ := read_unit hb h
    have hrun : order.feed.run .unsignedShort b = some (↑u.toNat, b') := by
      rw [feed_run, hread, Option.map_some, hconvert]
    rw [List.length_cons, Nat.add_right_comm, calls_succ _ _ _ hrun,
      ih b' (fun u hu => hunits u (List.mem_cons_of_mem _ hu)) hb' h']
    rfl

theorem length_flatMap_bytes (order : ByteOrder) (units : List UInt16) :
    (units.flatMap order.bytes).length = 2 * units.length := by
  induction units with
  | nil => rfl
  | cons u units ih =>
    rw [List.flatMap_cons, List.length_append, ih, List.length_cons]
    cases order with
    | little => exact (Nat.add_comm 2 _).trans (Nat.mul_succ 2 _).symm
    | big => exact (Nat.add_comm 2 _).trans (Nat.mul_succ 2 _).symm

/-! ### Units of four bytes -/

theorem readWChar_wide {wchar : WChar} (hwide : wchar.size = 4) (buffer : List UInt8) (ptr : Nat)
    (h : buffer.length < ptr + 4) : readWChar wchar buffer ptr = none := by
  unfold readWChar
  rw [hwide]
  refine if_neg ?_
  rw [List.length_take, List.length_drop]
  omega

/-- Past the last unit of a full buffer there is nothing to read the other half from. The calls
before it leave the buffer as it is. -/
theorem calls_wide (order : ByteOrder) {wchar : WChar} (hwide : wchar.size = 4) (d : Nat) :
    ∀ (n : Nat) (b : IOBuffer), b.buffer.length = b.size → b.size = b.ptr + 2 * d + 2 → d < n →
      order.feed.calls wchar n b = none := by
  induction d with
  | zero =>
    intro n b hlen hsize hn
    obtain ⟨n, rfl⟩ := Nat.exists_eq_succ_of_ne_zero (Nat.ne_of_gt hn)
    have hread : _read_two_bytes wchar b = none := by
      unfold _read_two_bytes
      rw [if_pos (by omega), if_neg (by omega), readWChar_wide hwide b.buffer b.ptr (by omega)]
      rfl
    rw [LexFeed.calls, feed_run, hread]
    rfl
  | succ d ih =>
    intro n b hlen hsize hn
    obtain ⟨n, rfl⟩ := Nat.exists_eq_succ_of_ne_zero (Nat.ne_of_gt (Nat.zero_lt_of_lt hn))
    obtain ⟨ret, hread⟩ : ∃ ret,
        _read_two_bytes wchar b = some (ret, { b with ptr := b.ptr + 2 }) := by
      unfold _read_two_bytes readWChar
      rw [if_pos (by omega), if_neg (by omega), if_pos]
      · exact ⟨_, rfl⟩
      · rw [hwide, List.length_take, List.length_drop]
        omega
    have hrun : order.feed.run wchar b =
        some (order.feed.convert ret, { b with ptr := b.ptr + 2 }) := by
      rw [feed_run, hread]
      rfl
    have hsize' : b.size = b.ptr + 2 + 2 * d + 2 := by omega
    rw [calls_succ _ _ _ hrun,
      ih n { b with ptr := b.ptr + 2 } hlen hsize' (Nat.lt_of_succ_lt_succ hn)]
    rfl

/-- With four bytes for a `wchar_t`, not every call has bytes to read. -/
theorem calls_wide_undefined (order : ByteOrder) {wchar : WChar} (hwide : wchar.size = 4)
    {file : List UInt8} {n : Nat} (hfile : file.length = 2 * n) (hn : n ≠ 0) :
    order.feed.calls wchar n { file := file } = none := by
  let b : IOBuffer := { file := file }
  have hread : b.refilled.size = min 2048 (2 * n) := by
    show (file.take IO_BUFFER_SIZE).length = _
    rw [List.length_take, hfile]
    rfl
  have hbuffer : b.refilled.buffer.length = b.refilled.size :=
    congrArg List.length (Memory.overwrite_all (Nat.zero_le _))
  have hfirst : order.feed.run wchar b = order.feed.run wchar b.refilled := by
    rw [feed_run, feed_run, read_refilled wchar (Nat.lt_irrefl 0) (show 2 ≤ file.length by omega)]
  have hcalls : order.feed.calls wchar n b = order.feed.calls wchar n b.refilled := by
    obtain ⟨n, rfl⟩ := Nat.exists_eq_succ_of_ne_zero hn
    rw [LexFeed.calls, LexFeed.calls, hfirst]
  have hsize : b.refilled.size = b.refilled.ptr + 2 * (min 1024 n - 1) + 2 := by
    rw [hread, show b.refilled.ptr = 0 from rfl]
    omega
  rw [hcalls]
  exact calls_wide order hwide _ n b.refilled hbuffer hsize (by omega)

/-! ### Main result -/

/-- The characters of a file in UTF-16 are its code units, exactly where a `wchar_t` has two bytes
or there are no units. -/
theorem utf16_fed_iff (wchar : WChar) (order : ByteOrder) {units : List UInt16}
    (hunits : ∀ u ∈ units, u ≠ 0) :
    Fed wchar (order.file units) (units.map fun u => (u.toNat : Int)) ↔
      wchar.size = 2 ∨ units = [] := by
  have hload := loadfile_marked order (units.flatMap order.bytes)
  constructor
  · rintro ⟨func, buffer, hfunc, hcalls⟩
    cases hload.symm.trans hfunc
    by_cases hwide : wchar.size = 2
    · exact .inl hwide
    · refine .inr (Classical.not_not.mp fun hne => ?_)
      have hfour : wchar.size = 4 := by cases wchar <;> first | rfl | exact absurd rfl hwide
      have hn : units.length ≠ 0 := fun h => hne (List.length_eq_zero_iff.mp h)
      have hundefined :=
        calls_wide_undefined order hfour (length_flatMap_bytes order units) hn
      have hzero := hcalls 0
      rw [List.length_map, Nat.add_zero, hundefined] at hzero
      cases hzero
  · intro h
    have hready : Ready { file := units.flatMap order.bytes } := by
      refine ⟨Nat.le_refl 0, rfl, ?_⟩
      show (units.flatMap order.bytes).length % 2 = 0
      rw [length_flatMap_bytes, Nat.mul_mod_right]
    refine ⟨_, _, hload, fun m => ?_⟩
    rcases h with hsize | hempty
    · have hshort : wchar = .unsignedShort := by cases wchar <;> first | rfl | cases hsize
      rw [hshort, List.length_map]
      exact calls_units order m units _ hunits hready rfl
    · rw [hempty] at hready ⊢
      rw [List.map_nil, List.length_nil, Nat.zero_add]
      exact calls_end order wchar m _ hready rfl

/-- `AB` in UTF-16, on Windows. -/
theorem utf16_fed_windows :
    Fed .unsignedShort (ByteOrder.big.file [0x41, 0x42]) [0x41, 0x42] :=
  (utf16_fed_iff .unsignedShort .big
    (List.forall_mem_cons.mpr ⟨by decide, List.forall_mem_singleton.mpr (by decide)⟩)).mpr
      (.inl rfl)

/-- The first character of `AB` is read together with the second one. -/
theorem utf16_not_fed : ¬ Fed .int (ByteOrder.little.file [0x41, 0x42]) [0x41, 0x42] := by
  rintro ⟨func, buffer, hfunc, hcalls⟩
  cases hfunc
  exact absurd (hcalls 0) (by decide)

end GameScript.Io
