import GameScript.FuncProto
import GameScript.Lib.Codec

/-!
The bytecode stream: `GSFunctionProto::Save` and `Load` and the object and
closure envelopes around them (`GSobject.cpp`).

The two traversals are translated separately, in the order of the source, and
compared with the rules of `GameScript.Codec`. They agree on every section and
on the three trailing fields. The declared return type is in neither: `Save`
does not write `_rettype` and `Load` does not set it, so the prototype that is
read back has it unset whatever the saved one declared. `load_save` says what
is read back, and `load_save_eq_iff` that this is the saved prototype exactly
when no function in it has a return type to lose. A stream that ends early is
rejected wherever it is cut.
-/

namespace GameScript

open GameScript.Codec

abbrev Save := ByteWriter String
abbrev Load := ByteReader String

def GS_CLOSURESTREAM_HEAD : Nat := 0x53514952
def GS_CLOSURESTREAM_PART : Nat := 0x50415254
def GS_CLOSURESTREAM_TAIL : Nat := 0x5441494C

/-! ### Words, tags and objects -/

def ioError : String :=
  "io error, read function failure, the origin stream could be corrupted/trucated"

/-- `SafeRead`: nothing is asked of the read function when `size` is zero. -/
def safeRead (size : Nat) : Load Nat := takeWord ioError size

/-- `SafeWrite` of a number of `size` bytes. -/
def safeWrite (size v : Nat) : Save Unit := emitWord size v

def writeTag (tag : Nat) : Save Unit := safeWrite 4 tag

def checkTag (tag : Nat) : Load Unit := do
  let t ← safeRead 4
  if t = tag then pure () else throw "invalid or corrupted closure stream"

/-- The bits of a `GSInteger` in memory. -/
def integerBits (n : GSInteger) : Nat := n.toBitVec.toNat

def writeInteger (n : GSInteger) : Save Unit := safeWrite 8 (integerBits n)

def readInteger : Load GSInteger := do
  let v ← safeRead 8
  return Int64.ofBitVec (BitVec.ofNat 64 v)

/-- A `GSInteger` that counts the elements of a section. -/
def writeCount (n : Nat) : Save Unit := writeInteger (Int64.ofNat n)

/-- A count read back bounds a loop from zero, so a negative one runs it not at all. -/
def readCount : Load Nat := do
  let n ← readInteger
  return n.toInt.toNat

def writeObject (o : Object) : Save Unit := do
  safeWrite 4 o.type.code
  match o with
  | .string s =>
      writeInteger (Int64.ofNat s.length)
      emit s
  | .bool n | .integer n => writeInteger n
  | .float f => safeWrite 4 f.toNat
  | .null => pure ()
  | o => throw s!"cannot serialize a {o.typeName}"

def readObject : Load Object := do
  let type ← safeRead 4
  if type = ObjectType.string.code then
    let len ← readInteger
    -- a negative length is a size no read function can return
    if len.toInt < 0 then throw ioError
    let s ← take ioError len.toInt.toNat
    return .string s
  else if type = ObjectType.integer.code then
    let i ← readInteger
    return .integer i
  else if type = ObjectType.bool.code then
    let i ← readInteger
    return .bool i
  else if type = ObjectType.float.code then
    let f ← safeRead 4
    return .float (BitVec.ofNat 32 f)
  else if type = ObjectType.null.code then
    return .null
  else throw s!"cannot serialize a {idType2Name type}"

/-! ### The elements of the sections -/

/-- `_type` is a 4-byte enumeration written as a `GSUnsignedInteger`: the other
four bytes are the padding that follows it in memory. -/
def writeOuterVar (padding : OuterVar → BitVec 32) (ov : OuterVar) : Save Unit := do
  safeWrite 8 (ov.type.code + 2 ^ 32 * (padding ov).toNat)
  writeObject ov.src
  writeObject ov.name

def readOuterVar : Load OuterVar := do
  let type ← safeRead 8
  let o ← readObject
  let name ← readObject
  return { type := if type % 2 ^ 32 = 0 then .otLOCAL else .otOUTER, name := name, src := o }

def writeLocalVarInfo (lvi : LocalVarInfo) : Save Unit := do
  writeObject lvi.name
  safeWrite 8 lvi.pos.toNat
  safeWrite 8 lvi.startOp.toNat
  safeWrite 8 lvi.endOp.toNat

def readLocalVarInfo : Load LocalVarInfo := do
  let name ← readObject
  let pos ← safeRead 8
  let startOp ← safeRead 8
  let endOp ← safeRead 8
  return { name := name, pos := UInt64.ofNat pos, startOp := UInt64.ofNat startOp,
           endOp := UInt64.ofNat endOp }

def writeLineInfo (li : LineInfo) : Save Unit := do
  writeInteger li.line
  writeInteger li.op

def readLineInfo : Load LineInfo := do
  let line ← readInteger
  let op ← readInteger
  return { line := line, op := op }

/-- The memory of a `GSInstruction`: `_arg1`, `op`, `_arg0`, `_arg2`, `_arg3`. -/
def writeInstruction (i : Instruction) : Save Unit := do
  safeWrite 4 i.arg1.toBitVec.toNat
  safeWrite 1 i.op.code.toNat
  safeWrite 1 i.arg0.toNat
  safeWrite 1 i.arg2.toNat
  safeWrite 1 i.arg3.toNat

def readInstruction : Load Instruction := do
  let arg1 ← safeRead 4
  let op ← safeRead 1
  let arg0 ← safeRead 1
  let arg2 ← safeRead 1
  let arg3 ← safeRead 1
  return { op := Opcode.ofCode (UInt8.ofNat op), arg0 := UInt8.ofNat arg0,
           arg1 := Int32.ofBitVec (BitVec.ofNat 32 arg1), arg2 := UInt8.ofNat arg2,
           arg3 := UInt8.ofNat arg3 }

/-! ### Prototypes -/

mutual
/-- `GSFunctionProto::Save`. -/
def FunctionProto.save (padding : OuterVar → BitVec 32) : FunctionProto → Save Unit
  | ⟨sourcename, name, stacksize, bgenerator, varparams, _, localvarinfos, lineinfos,
      literals, parameters, functions, outervalues, defaultparams, instructions⟩ => do
    writeTag GS_CLOSURESTREAM_PART
    writeObject sourcename
    writeObject name
    writeTag GS_CLOSURESTREAM_PART
    writeCount literals.length
    writeCount parameters.length
    writeCount outervalues.length
    writeCount localvarinfos.length
    writeCount lineinfos.length
    writeCount defaultparams.length
    writeCount instructions.length
    writeCount functions.length
    writeTag GS_CLOSURESTREAM_PART
    each writeObject literals
    writeTag GS_CLOSURESTREAM_PART
    each writeObject parameters
    writeTag GS_CLOSURESTREAM_PART
    each (writeOuterVar padding) outervalues
    writeTag GS_CLOSURESTREAM_PART
    each writeLocalVarInfo localvarinfos
    writeTag GS_CLOSURESTREAM_PART
    each writeLineInfo lineinfos
    writeTag GS_CLOSURESTREAM_PART
    each writeInteger defaultparams
    writeTag GS_CLOSURESTREAM_PART
    each writeInstruction instructions
    writeTag GS_CLOSURESTREAM_PART
    FunctionProto.saveAll padding functions
    writeInteger stacksize
    safeWrite 1 (if bgenerator then 1 else 0)
    writeInteger varparams

/-- The loop over `_functions` in `Save`. -/
def FunctionProto.saveAll (padding : OuterVar → BitVec 32) : List FunctionProto → Save Unit
  | [] => pure ()
  | p :: ps => do
      p.save padding
      FunctionProto.saveAll padding ps
end

/-- `GSFunctionProto::Load`. `fuel` bounds the nesting of functions. The new
prototype's `_rettype` is not set. -/
def FunctionProto.load : Nat → Load FunctionProto
  | 0 => throw "stack overflow"
  | fuel + 1 => do
      checkTag GS_CLOSURESTREAM_PART
      let sourcename ← readObject
      let name ← readObject
      checkTag GS_CLOSURESTREAM_PART
      let nliterals ← readCount
      let nparameters ← readCount
      let noutervalues ← readCount
      let nlocalvarinfos ← readCount
      let nlineinfos ← readCount
      let ndefaultparams ← readCount
      let ninstructions ← readCount
      let nfunctions ← readCount
      checkTag GS_CLOSURESTREAM_PART
      let literals ← many readObject nliterals
      checkTag GS_CLOSURESTREAM_PART
      let parameters ← many readObject nparameters
      checkTag GS_CLOSURESTREAM_PART
      let outervalues ← many readOuterVar noutervalues
      checkTag GS_CLOSURESTREAM_PART
      let localvarinfos ← many readLocalVarInfo nlocalvarinfos
      checkTag GS_CLOSURESTREAM_PART
      let lineinfos ← many readLineInfo nlineinfos
      checkTag GS_CLOSURESTREAM_PART
      let defaultparams ← many readInteger ndefaultparams
      checkTag GS_CLOSURESTREAM_PART
      let instructions ← many readInstruction ninstructions
      checkTag GS_CLOSURESTREAM_PART
      let functions ← many (FunctionProto.load fuel) nfunctions
      let stacksize ← readInteger
      let bgenerator ← safeRead 1
      let varparams ← readInteger
      return { sourcename := sourcename, name := name, stacksize := stacksize,
               bgenerator := bgenerator ≠ 0, varparams := varparams, rettype := none,
               localvarinfos := localvarinfos, lineinfos := lineinfos, literals := literals,
               parameters := parameters, functions := functions, outervalues := outervalues,
               defaultparams := defaultparams, instructions := instructions }

/-! ### The words and objects agree -/

theorem agree_safe {size v : Nat} (h : v < 256 ^ size) :
    Agree (safeWrite size v) (safeRead size) v :=
  agree_word ioError h

theorem agree_tag {tag : Nat} (h : tag < 256 ^ 4) : Agree (writeTag tag) (checkTag tag) () := by
  refine agree_last (agree_safe h) ?_
  rw [if_pos rfl]
  exact decodes_pure ()

theorem agree_part :
    Agree (writeTag GS_CLOSURESTREAM_PART) (checkTag GS_CLOSURESTREAM_PART) () :=
  agree_tag (by decide)

theorem agree_integer (n : GSInteger) : Agree (writeInteger n) readInteger n := by
  have hword : integerBits n < 256 ^ 8 := n.toBitVec.isLt
  refine agree_last (agree_safe hword) ?_
  have hback : Int64.ofBitVec (BitVec.ofNat 64 (integerBits n)) = n := by
    simp [integerBits]
  rw [hback]
  exact decodes_pure n

theorem agree_count {n : Nat} (h : n < 2 ^ 63) : Agree (writeCount n) readCount n := by
  refine agree_last (agree_integer _) ?_
  have hback : (Int64.ofNat n).toInt.toNat = n := by
    rw [Int64.toInt_ofNat_of_lt h]
    exact Int.toNat_natCast n
  rw [hback]
  exact decodes_pure n

/-- What the compiler keeps as a literal, a name or a source: an object the
stream can carry. -/
def Object.Serializable : Object → Prop
  | .null | .integer _ | .bool _ | .float _ => True
  | .string s => s.length < 2 ^ 63
  | _ => False

theorem agree_object {o : Object} (h : o.Serializable) : Agree (writeObject o) readObject o := by
  have htype : Agree (safeWrite 4 o.type.code) (safeRead 4) o.type.code :=
    agree_safe o.type.code_lt
  refine agree_bind htype ?_
  cases o with
  | null => exact agree_pure _
  | integer n => exact agree_map _ (agree_integer n)
  | bool n => exact agree_map _ (agree_integer n)
  | float f =>
      refine agree_last (agree_safe f.isLt) ?_
      have hback : BitVec.ofNat 32 f.toNat = f := by simp
      rw [hback]
      exact decodes_pure _
  | string s =>
      refine agree_bind (agree_integer _) ?_
      have hlen : (Int64.ofNat s.length).toInt = s.length := Int64.toInt_ofNat_of_lt h
      rw [hlen, if_neg (by omega)]
      exact agree_map _ (agree_take ioError s (by simp))
  | table p | array p | userdata p | closure p | nativeclosure p | generator p
  | userpointer p | thread p | funcproto p | «class» p | «instance» p | weakref p
  | outer p => exact h.elim

/-! ### The sections agree -/

theorem agree_outerVar (padding : OuterVar → BitVec 32) {ov : OuterVar}
    (hname : ov.name.Serializable) (hsrc : ov.src.Serializable) :
    Agree (writeOuterVar padding ov) readOuterVar ov := by
  obtain ⟨type, name, src⟩ := ov
  have hpad : (padding ⟨type, name, src⟩).toNat < 2 ^ 32 := (padding _).isLt
  have htype : type.code < 2 := by cases type <;> decide
  refine agree_bind (agree_safe ?_) ?_
  · show type.code + 2 ^ 32 * _ < 256 ^ 8
    omega
  refine agree_bind (agree_object hsrc) ?_
  refine agree_last (agree_object hname) ?_
  -- the padding is above the enumeration's four bytes
  have hlow : (type.code + 2 ^ 32 * (padding ⟨type, name, src⟩).toNat) % 2 ^ 32 = type.code := by
    omega
  simp only [hlow]
  cases type with
  | otLOCAL => exact decodes_pure _
  | otOUTER => exact decodes_pure _

theorem agree_localVarInfo {lvi : LocalVarInfo} (hname : lvi.name.Serializable) :
    Agree (writeLocalVarInfo lvi) readLocalVarInfo lvi := by
  refine agree_bind (agree_object hname) ?_
  refine agree_bind (agree_safe lvi.pos.toNat_lt) ?_
  refine agree_bind (agree_safe lvi.startOp.toNat_lt) ?_
  refine agree_last (agree_safe lvi.endOp.toNat_lt) ?_
  simp only [UInt64.ofNat_toNat]
  exact decodes_pure lvi

theorem agree_lineInfo (li : LineInfo) : Agree (writeLineInfo li) readLineInfo li := by
  refine agree_bind (agree_integer li.line) ?_
  exact agree_last (agree_integer li.op) (decodes_pure li)

theorem agree_instruction {i : Instruction} (hop : i.op ∈ Opcode.all) :
    Agree (writeInstruction i) readInstruction i := by
  refine agree_bind (agree_safe i.arg1.toBitVec.isLt) ?_
  refine agree_bind (agree_safe i.op.code.toNat_lt) ?_
  refine agree_bind (agree_safe i.arg0.toNat_lt) ?_
  refine agree_bind (agree_safe i.arg2.toNat_lt) ?_
  refine agree_last (agree_safe i.arg3.toNat_lt) ?_
  simp only [UInt8.ofNat_toNat, Opcode.ofCode_code hop, BitVec.ofNat_toNat, BitVec.setWidth_eq,
    Int32.ofBitVec_toBitVec]
  exact decodes_pure i

/-! ### Prototypes round trip, less the return type -/

namespace FunctionProto

/-- Every object and opcode of `p`'s own sections is one the stream can carry,
and every section is small enough for its 64-bit count. -/
structure SectionsFit (p : FunctionProto) : Prop where
  sourcename : p.sourcename.Serializable
  name : p.name.Serializable
  literals : ∀ o ∈ p.literals, o.Serializable
  parameters : ∀ o ∈ p.parameters, o.Serializable
  outervalues : ∀ ov ∈ p.outervalues, ov.name.Serializable ∧ ov.src.Serializable
  localvarinfos : ∀ lvi ∈ p.localvarinfos, lvi.name.Serializable
  instructions : ∀ i ∈ p.instructions, i.op ∈ Opcode.all
  nliterals : p.literals.length < 2 ^ 63
  nparameters : p.parameters.length < 2 ^ 63
  noutervalues : p.outervalues.length < 2 ^ 63
  nlocalvarinfos : p.localvarinfos.length < 2 ^ 63
  nlineinfos : p.lineinfos.length < 2 ^ 63
  ndefaultparams : p.defaultparams.length < 2 ^ 63
  ninstructions : p.instructions.length < 2 ^ 63
  nfunctions : p.functions.length < 2 ^ 63

/-- A prototype as the compiler builds it: its literals are scalars and
strings, in every function nested in it. -/
def Compiled (p : FunctionProto) : Prop := ∀ q, Within p q → q.SectionsFit

theorem Compiled.sections {p : FunctionProto} (h : p.Compiled) : p.SectionsFit :=
  h p (.self p)

theorem Compiled.of_mem {p q : FunctionProto} (h : p.Compiled) (hq : q ∈ p.functions) :
    q.Compiled :=
  fun r hr => h r (.nested hq hr)

mutual
/-- `p` with the return type of every function unset: what `load` builds. -/
def dropRettype : FunctionProto → FunctionProto
  | ⟨sourcename, name, stacksize, bgenerator, varparams, _, localvarinfos, lineinfos,
      literals, parameters, functions, outervalues, defaultparams, instructions⟩ =>
    ⟨sourcename, name, stacksize, bgenerator, varparams, none, localvarinfos, lineinfos,
      literals, parameters, dropRettypes functions, outervalues, defaultparams, instructions⟩

def dropRettypes : List FunctionProto → List FunctionProto
  | [] => []
  | p :: ps => p.dropRettype :: dropRettypes ps
end

theorem dropRettypes_eq_map : ∀ ps : List FunctionProto, dropRettypes ps = ps.map dropRettype
  | [] => rfl
  | p :: ps => by rw [dropRettypes, dropRettypes_eq_map ps, List.map_cons]

theorem saveAll_eq_each (padding : OuterVar → BitVec 32) :
    ∀ ps : List FunctionProto, saveAll padding ps = each (save padding) ps
  | [] => by rw [saveAll, each]
  | p :: ps => by rw [saveAll, each, saveAll_eq_each padding ps]

/-- **What is written is read back**, on every section and nesting, except the
declared return types. The induction is on the nesting depth. -/
theorem agree_proto (padding : OuterVar → BitVec 32) :
    ∀ (fuel : Nat) (p : FunctionProto), p.Compiled → p.depth ≤ fuel →
      Agree (p.save padding) (load fuel) p.dropRettype
  | 0, p, _, hdepth => by
      rw [depth_eq] at hdepth
      omega
  | fuel + 1, p, hp, hdepth => by
      have hfit : p.SectionsFit := hp.sections
      have hnested : ∀ q ∈ p.functions, Agree (q.save padding) (load fuel) q.dropRettype := by
        intro q hq
        have hlt : q.depth < p.depth := depth_lt_of_mem hq
        exact agree_proto padding fuel q (hp.of_mem hq) (by omega)
      obtain ⟨sourcename, name, stacksize, bgenerator, varparams, rettype, localvarinfos,
        lineinfos, literals, parameters, functions, outervalues, defaultparams,
        instructions⟩ := p
      have hall : ∀ {α : Type} {w : α → Save Unit} {r : Load α} (as : List α),
          (∀ a ∈ as, Agree (w a) r a) → Agree (each w as) (many r as.length) as := by
        intro α w r as h
        simpa using agree_many (g := id) as h
      have hfunctions : Agree (saveAll padding functions) (many (load fuel) functions.length)
          (dropRettypes functions) := by
        rw [saveAll_eq_each, dropRettypes_eq_map]
        exact agree_many functions hnested
      have hgenerator : (if bgenerator then 1 else 0) < 256 ^ 1 := by
        cases bgenerator <;> decide
      rw [save, load, dropRettype]
      refine agree_bind agree_part ?_
      refine agree_bind (agree_object hfit.sourcename) ?_
      refine agree_bind (agree_object hfit.name) ?_
      refine agree_bind agree_part ?_
      refine agree_bind (agree_count hfit.nliterals) ?_
      refine agree_bind (agree_count hfit.nparameters) ?_
      refine agree_bind (agree_count hfit.noutervalues) ?_
      refine agree_bind (agree_count hfit.nlocalvarinfos) ?_
      refine agree_bind (agree_count hfit.nlineinfos) ?_
      refine agree_bind (agree_count hfit.ndefaultparams) ?_
      refine agree_bind (agree_count hfit.ninstructions) ?_
      refine agree_bind (agree_count hfit.nfunctions) ?_
      refine agree_bind agree_part ?_
      refine agree_bind (hall literals fun o ho => agree_object (hfit.literals o ho)) ?_
      refine agree_bind agree_part ?_
      refine agree_bind (hall parameters fun o ho => agree_object (hfit.parameters o ho)) ?_
      refine agree_bind agree_part ?_
      refine agree_bind (hall outervalues fun ov hov =>
        agree_outerVar padding (hfit.outervalues ov hov).1 (hfit.outervalues ov hov).2) ?_
      refine agree_bind agree_part ?_
      refine agree_bind (hall localvarinfos fun lvi h =>
        agree_localVarInfo (hfit.localvarinfos lvi h)) ?_
      refine agree_bind agree_part ?_
      refine agree_bind (hall lineinfos fun li _ => agree_lineInfo li) ?_
      refine agree_bind agree_part ?_
      refine agree_bind (hall defaultparams fun n _ => agree_integer n) ?_
      refine agree_bind agree_part ?_
      refine agree_bind (hall instructions fun i hi =>
        agree_instruction (hfit.instructions i hi)) ?_
      refine agree_bind agree_part ?_
      refine agree_bind hfunctions ?_
      refine agree_bind (agree_integer stacksize) ?_
      refine agree_bind (agree_safe hgenerator) ?_
      refine agree_last (agree_integer varparams) ?_
      cases bgenerator <;> exact decodes_pure _

/-! ### What is lost -/

/-- Unsetting the return types changes nothing exactly when none was set. -/
theorem dropRettype_eq_iff :
    ∀ (fuel : Nat) (p : FunctionProto), p.depth ≤ fuel →
      (p.dropRettype = p ↔ ∀ q, Within p q → q.rettype = none)
  | 0, p, hdepth => by
      rw [depth_eq] at hdepth
      omega
  | fuel + 1, p, hdepth => by
      have hnested : ∀ r ∈ p.functions,
          (r.dropRettype = r ↔ ∀ q, Within r q → q.rettype = none) := by
        intro r hr
        have hlt : r.depth < p.depth := depth_lt_of_mem hr
        exact dropRettype_eq_iff fuel r (by omega)
      have hunfold : p.dropRettype = p ↔
          p.rettype = none ∧ ∀ r ∈ p.functions, r.dropRettype = r := by
        have hmap : dropRettypes p.functions = p.functions ↔
            ∀ r ∈ p.functions, r.dropRettype = r := by
          rw [dropRettypes_eq_map]
          simpa using List.map_inj_left (l := p.functions) (f := dropRettype) (g := id)
        rw [← hmap]
        cases p
        simp [dropRettype, eq_comm]
      rw [hunfold]
      constructor
      · rintro ⟨hself, hall⟩ q hq
        cases hq with
        | self => exact hself
        | nested hr hq => exact (hnested _ hr).mp (hall _ hr) q hq
      · intro h
        refine ⟨h p (.self p), fun r hr => (hnested r hr).mpr ?_⟩
        exact fun q hq => h q (.nested hr hq)

/-- `load` reads back exactly what `save` wrote, with the return types unset. -/
theorem load_save (padding : OuterVar → BitVec 32) {p : FunctionProto} (hp : p.Compiled)
    {fuel : Nat} (hfuel : p.depth ≤ fuel) :
    ∃ bytes, Emits (p.save padding) bytes ∧
      ∀ rest, load fuel (bytes ++ rest) = .ok (p.dropRettype, rest) :=
  agree_proto padding fuel p hp hfuel

/-- **The bytecode stream returns the saved prototype exactly when no function
in it has a return type to lose.** Everything else always comes back, and `load`
stops where `save` did. -/
theorem load_save_eq_iff (padding : OuterVar → BitVec 32) (p : FunctionProto)
    (hp : p.Compiled) (fuel : Nat) (hfuel : p.depth ≤ fuel) (rest : List UInt8) :
    ∃ bytes, Emits (p.save padding) bytes ∧
      load fuel (bytes ++ rest) = .ok (p.dropRettype, rest) ∧
      (load fuel (bytes ++ rest) = .ok (p, rest) ↔ ∀ q, Within p q → q.rettype = none) := by
  obtain ⟨bytes, hsave, hload⟩ := load_save padding hp hfuel
  refine ⟨bytes, hsave, hload rest, ?_⟩
  rw [hload rest, ← dropRettype_eq_iff fuel p hfuel]
  simp

/-- `func f() -> int { return 1 }`, with `TK_INT` as its return type. -/
def intFunction : FunctionProto :=
  { sourcename := .string (sc "f.gs")
    name := .string (sc "f")
    stacksize := 2
    bgenerator := false
    varparams := 0
    rettype := some 330
    localvarinfos := [{ name := .string (sc "this"), startOp := 0, endOp := 2, pos := 0 }]
    lineinfos := [{ line := 1, op := 0 }]
    literals := []
    parameters := [.string (sc "this")]
    functions := []
    outervalues := []
    defaultparams := []
    instructions := [.make .LOADINT 1 1 0 0, .make .RETURN 1 1 2 0, .make .RETURN 0xFF 0 0 0] }

/-- A function without nested ones is as the compiler builds it when its own
sections are. -/
theorem SectionsFit.compiled {p : FunctionProto} (h : p.SectionsFit) (hleaf : p.functions = []) :
    p.Compiled := by
  intro q hq
  cases hq with
  | self => exact h
  | nested hr _ =>
      rw [hleaf] at hr
      exact absurd hr (by simp)

theorem intFunction_compiled : intFunction.Compiled := by
  refine SectionsFit.compiled ?_ rfl
  constructor <;> simp [intFunction, Object.Serializable, Instruction.make, Opcode.all] <;> decide

/-- The return type of `intFunction` does not survive the stream. -/
theorem not_load_save_intFunction :
    ¬ ∀ (padding : OuterVar → BitVec 32) (p : FunctionProto), p.Compiled →
      ∀ rest, ∃ fuel bytes, Emits (p.save padding) bytes ∧
        load fuel (bytes ++ rest) = .ok (p, rest) := by
  intro h
  obtain ⟨fuel, bytes, hsave, hload⟩ := h (fun _ => 0) intFunction intFunction_compiled []
  cases fuel with
  | zero => cases hload
  | succ fuel =>
      have hdepth : intFunction.depth ≤ fuel + 1 := Nat.succ_le_succ (Nat.zero_le fuel)
      obtain ⟨bytes', hsave', hload'⟩ := load_save (fun _ => 0) intFunction_compiled hdepth
      obtain rfl : bytes = bytes' := hsave.unique hsave'
      rw [hload' []] at hload
      simp [intFunction, dropRettype] at hload

theorem load_save_eq_iff_intFunction :
    ∃ bytes, Emits (intFunction.save fun _ => 0) bytes ∧
      load 1 (bytes ++ []) = .ok (intFunction.dropRettype, []) ∧
      (load 1 (bytes ++ []) = .ok (intFunction, []) ↔
        ∀ q, Within intFunction q → q.rettype = none) :=
  load_save_eq_iff (fun _ => 0) intFunction intFunction_compiled 1 (by decide) []

end FunctionProto

/-! ### The closure envelope -/

/-- `GSClosure::Save` of a closure of `p`: the sizes of `GSChar`, `GSInteger`
and `GSFloat` guard against another build. -/
def closureSave (padding : OuterVar → BitVec 32) (p : FunctionProto) : Save Unit := do
  writeTag GS_CLOSURESTREAM_HEAD
  writeTag 1
  writeTag 8
  writeTag 4
  p.save padding
  writeTag GS_CLOSURESTREAM_TAIL

/-- `GSClosure::Load`, less the creation of the closure. -/
def closureLoad (fuel : Nat) : Load FunctionProto := do
  checkTag GS_CLOSURESTREAM_HEAD
  checkTag 1
  checkTag 8
  checkTag 4
  let func ← FunctionProto.load fuel
  checkTag GS_CLOSURESTREAM_TAIL
  return func

/-- A closure stream carries its prototype as far as `FunctionProto.load_save` says. -/
theorem agree_closure (padding : OuterVar → BitVec 32) {p : FunctionProto} (hp : p.Compiled)
    {fuel : Nat} (hfuel : p.depth ≤ fuel) :
    Agree (closureSave padding p) (closureLoad fuel) p.dropRettype := by
  refine agree_bind (agree_tag (by decide)) ?_
  refine agree_bind (agree_tag (by decide)) ?_
  refine agree_bind (agree_tag (by decide)) ?_
  refine agree_bind (agree_tag (by decide)) ?_
  refine agree_bind (FunctionProto.agree_proto padding fuel p hp hfuel) ?_
  exact agree_last (agree_tag (by decide)) (decodes_pure _)

/-! ### Streams that end early -/

theorem streams_safe (size : Nat) : Streams ioError (safeRead size) := streams_word size

theorem streams_tag (tag : Nat) : Streams ioError (checkTag tag) := by
  refine streams_bind (streams_safe 4) fun t => ?_
  split
  · exact streams_pure ()
  · exact streams_throw _

theorem streams_integer : Streams ioError readInteger :=
  streams_bind (streams_safe 8) fun _ => streams_pure _

theorem streams_count : Streams ioError readCount :=
  streams_bind streams_integer fun _ => streams_pure _

theorem streams_object : Streams ioError readObject := by
  refine streams_bind (streams_safe 4) fun type => ?_
  split
  · refine streams_bind streams_integer fun len => ?_
    split
    · exact streams_bind (streams_throw _) fun _ =>
        streams_bind (streams_take _) fun s => streams_pure _
    · exact streams_bind (streams_take _) fun s => streams_pure _
  · split
    · exact streams_bind streams_integer fun i => streams_pure _
    · split
      · exact streams_bind streams_integer fun i => streams_pure _
      · split
        · exact streams_bind (streams_safe 4) fun f => streams_pure _
        · split
          · exact streams_pure _
          · exact streams_throw _

theorem streams_outerVar : Streams ioError readOuterVar := by
  refine streams_bind (streams_safe 8) fun type => ?_
  refine streams_bind streams_object fun o => ?_
  exact streams_bind streams_object fun name => streams_pure _

theorem streams_localVarInfo : Streams ioError readLocalVarInfo := by
  refine streams_bind streams_object fun name => ?_
  refine streams_bind (streams_safe 8) fun pos => ?_
  refine streams_bind (streams_safe 8) fun startOp => ?_
  exact streams_bind (streams_safe 8) fun endOp => streams_pure _

theorem streams_lineInfo : Streams ioError readLineInfo := by
  refine streams_bind streams_integer fun line => ?_
  exact streams_bind streams_integer fun op => streams_pure _

theorem streams_instruction : Streams ioError readInstruction := by
  refine streams_bind (streams_safe 4) fun arg1 => ?_
  refine streams_bind (streams_safe 1) fun op => ?_
  refine streams_bind (streams_safe 1) fun arg0 => ?_
  refine streams_bind (streams_safe 1) fun arg2 => ?_
  exact streams_bind (streams_safe 1) fun arg3 => streams_pure _

theorem streams_proto (fuel : Nat) : Streams ioError (FunctionProto.load fuel) := by
  induction fuel with
  | zero =>
      rw [FunctionProto.load]
      exact streams_throw _
  | succ fuel ih =>
      have hpart : Streams ioError (checkTag GS_CLOSURESTREAM_PART) := streams_tag _
      rw [FunctionProto.load]
      refine streams_bind hpart fun _ => ?_
      refine streams_bind streams_object fun sourcename => ?_
      refine streams_bind streams_object fun name => ?_
      refine streams_bind hpart fun _ => ?_
      refine streams_bind streams_count fun nliterals => ?_
      refine streams_bind streams_count fun nparameters => ?_
      refine streams_bind streams_count fun noutervalues => ?_
      refine streams_bind streams_count fun nlocalvarinfos => ?_
      refine streams_bind streams_count fun nlineinfos => ?_
      refine streams_bind streams_count fun ndefaultparams => ?_
      refine streams_bind streams_count fun ninstructions => ?_
      refine streams_bind streams_count fun nfunctions => ?_
      refine streams_bind hpart fun _ => ?_
      refine streams_bind (streams_many streams_object _) fun literals => ?_
      refine streams_bind hpart fun _ => ?_
      refine streams_bind (streams_many streams_object _) fun parameters => ?_
      refine streams_bind hpart fun _ => ?_
      refine streams_bind (streams_many streams_outerVar _) fun outervalues => ?_
      refine streams_bind hpart fun _ => ?_
      refine streams_bind (streams_many streams_localVarInfo _) fun localvarinfos => ?_
      refine streams_bind hpart fun _ => ?_
      refine streams_bind (streams_many streams_lineInfo _) fun lineinfos => ?_
      refine streams_bind hpart fun _ => ?_
      refine streams_bind (streams_many streams_integer _) fun defaultparams => ?_
      refine streams_bind hpart fun _ => ?_
      refine streams_bind (streams_many streams_instruction _) fun instructions => ?_
      refine streams_bind hpart fun _ => ?_
      refine streams_bind (streams_many ih _) fun functions => ?_
      refine streams_bind streams_integer fun stacksize => ?_
      refine streams_bind (streams_safe 1) fun bgenerator => ?_
      exact streams_bind streams_integer fun varparams => streams_pure _

theorem streams_closure (fuel : Nat) : Streams ioError (closureLoad fuel) := by
  refine streams_bind (streams_tag _) fun _ => ?_
  refine streams_bind (streams_tag _) fun _ => ?_
  refine streams_bind (streams_tag _) fun _ => ?_
  refine streams_bind (streams_tag _) fun _ => ?_
  refine streams_bind (streams_proto fuel) fun func => ?_
  exact streams_bind (streams_tag _) fun _ => streams_pure _

/-- A closure stream that is cut anywhere fails to load with the error of the read function. -/
theorem closureLoad_truncated (padding : OuterVar → BitVec 32) {p : FunctionProto}
    (hp : p.Compiled) {fuel : Nat} (hfuel : p.depth ≤ fuel) {bytes cut : List UInt8}
    (hsave : Emits (closureSave padding p) bytes) (hcut : cut <+: bytes) (hne : cut ≠ bytes) :
    closureLoad fuel cut = .error ioError := by
  obtain ⟨bytes', hsave', hload⟩ := agree_closure padding hp hfuel
  obtain rfl : bytes = bytes' := hsave.unique hsave'
  exact (streams_closure fuel).truncated hload hcut hne

/-- The stream of `intFunction` cut in the middle. -/
theorem closureLoad_truncated_intFunction :
    ∃ bytes, Emits (closureSave (fun _ => 0) FunctionProto.intFunction) bytes ∧
      bytes.length = 266 ∧ closureLoad 1 (bytes.take 150) = .error ioError := by
  obtain ⟨bytes, hsave, -⟩ :=
    agree_closure (fun _ => 0) FunctionProto.intFunction_compiled (Nat.le_refl _)
  have hlength : bytes.length = 266 := by
    have hrun : ((closureSave (fun _ => 0) FunctionProto.intFunction []).toOption.map
        fun x => x.2.length) = some 266 := by decide +kernel
    rw [hsave []] at hrun
    exact Option.some.inj hrun
  refine ⟨bytes, hsave, hlength, ?_⟩
  refine closureLoad_truncated (fun _ => 0) FunctionProto.intFunction_compiled (by decide) hsave
    (List.take_prefix 150 bytes) ?_
  intro heq
  have htake := congrArg List.length heq
  rw [List.length_take] at htake
  omega

end GameScript
