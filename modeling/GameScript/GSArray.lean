import GameScript.Tokens
import GameScript.Table.Basic
import GameScript.Lib.Fallible

/-!
`GSArray` and the operations a script has on arrays: the methods of `GSarray.h`,
`Append` of `GSvm.cpp`, the native functions of `GSbaselib.cpp` and the indexed
assignment of `GSVM::Set`.

An array may carry an element type and a maximum capacity, both `-1` while they
are not set. A function of a script that a native function calls can use any
array, so `apply` and `sort` work on the heap of arrays and take the function as
a parameter.
-/

namespace GameScript

structure GSArray where
  values : List Object
  maxCapacity : Int := -1
  elementType : Int := -1
deriving DecidableEq, Repr

namespace GSArray

/-! ### The methods -/

def size (a : GSArray) : Nat := a.values.length

/-- `Get`. -/
def get (referent : Ref → Object) (a : GSArray) (nidx : GSInteger) : Option Object :=
  if 0 ≤ nidx.toInt ∧ nidx.toInt < a.size then
    (a.values[nidx.toInt.toNat]?).map (Table.realval referent)
  else none

/-- `Set`. -/
def set (a : GSArray) (nidx : GSInteger) (val : Object) : Option GSArray :=
  if 0 ≤ nidx.toInt ∧ nidx.toInt < a.size then
    some { a with values := a.values.set nidx.toInt.toNat val }
  else none

/-- `Clone`: a new array of the same values, without type and capacity. -/
def clone (a : GSArray) : GSArray := { values := a.values }

/-- `Resize`. -/
def resize (a : GSArray) (size : Nat) (fill : Object) : GSArray :=
  { a with values := a.values.take size ++ List.replicate (size - a.size) fill }

/-- `Append`. -/
def append (a : GSArray) (o : Object) : Except String GSArray :=
  if a.maxCapacity ≠ -1 ∧ a.size ≥ a.maxCapacity.toNat then
    .error (s!"array bounds exceeded: attempted to push element {a.size + 1} " ++
      s!"into a fixed array of size {a.maxCapacity}")
  else if a.elementType ≠ -1 ∧ typeOk a.elementType o = false then
    .error "strict type mismatch: attempted to append invalid type to array"
  else .ok { a with values := a.values ++ [o] }

/-- `Extend`: the elements `Append` refuses are left out. -/
def extend (a : GSArray) : List Object → GSArray
  | [] => a
  | o :: os =>
      match a.append o with
      | .error _ => a.extend os
      | .ok a => a.extend os

/-- `Insert`. -/
def insert (a : GSArray) (idx : GSInteger) (val : Object) : Option GSArray :=
  if idx.toInt < 0 ∨ idx.toInt > a.size then none
  else some { a with values := a.values.insertIdx idx.toInt.toNat val }

/-- `Pop`. -/
def pop (a : GSArray) : GSArray := { a with values := a.values.dropLast }

/-- `Remove`. -/
def remove (a : GSArray) (idx : GSInteger) : Option GSArray :=
  if idx.toInt < 0 ∨ idx.toInt ≥ a.size then none
  else some { a with values := a.values.eraseIdx idx.toInt.toNat }

/-! ### Operations without a callback -/

/-- An operation of a script on one array. `extend` has the elements of the
other array, and `resize` the filler, null when the script gives none. -/
inductive Op where
  | set (key val : Object)
  | append (val : Object)
  | extend (vals : List Object)
  | insert (idx val : Object)
  | resize (nsize fill : Object)
  | reverse
  | pop
  | remove (idx : Object)
  | clear
deriving Repr

variable (fl : FloatOps) (referent : Ref → Object)

/-- `Raise_ParamTypeError` for a parameter that has to be a number. -/
def paramTypeError (nparam : Nat) (o : Object) : String :=
  s!"parameter {nparam} has an invalid type '{o.typeName}' ; expected: 'integer|float'"

/-- Run an operation. The result is the array and the value the operation gives
the script, `none` standing for the array itself. The argument masks of the
native functions refuse an index that is not a number. -/
def Op.run (a : GSArray) : Op → Except String (GSArray × Option Object)
  | .set key val =>
      if ¬ key.isNumeric then .error s!"indexing array with {key.typeName}"
      else
        match a.set (key.toInteger fl) val with
        | none => .error s!"the index '{key.printVal fl}' does not exist"
        | some a => .ok (a, some val)
  | .append val => do
      let a ← a.append val
      return (a, none)
  | .extend vals => .ok (a.extend vals, none)
  | .insert idx val =>
      if ¬ idx.isNumeric then .error (paramTypeError 1 idx)
      else
        match a.insert (idx.toInteger fl) val with
        | none => .error "index out of range"
        | some a => .ok (a, none)
  | .resize nsize fill =>
      if ¬ nsize.isNumeric then .error (paramTypeError 1 nsize)
      else if (nsize.toInteger fl).toInt < 0 then .error "resizing to negative length"
      else .ok (a.resize (nsize.toInteger fl).toInt.toNat fill, none)
  | .reverse => .ok ({ a with values := a.values.reverse }, none)
  | .pop =>
      match a.values.getLast? with
      | none => .error "empty array"
      | some val => .ok (a.pop, some val)
  | .remove idx =>
      if ¬ idx.isNumeric then .error (paramTypeError 1 idx)
      else
        match a.get referent (idx.toInteger fl), a.remove (idx.toInteger fl) with
        | some val, some a => .ok (a, some val)
        | _, _ => .error "idx out of range"
  | .clear => .ok (a.resize 0 .null, none)

end GSArray

/-! ### Operations with a callback -/

/-- The arrays of a virtual machine. -/
abbrev ArrayHeap := Ref → GSArray

/-- A native function at work: it changes arrays and may fail, and what it
changed before it failed stays changed. -/
abbrev Native := Fallible ArrayHeap

namespace ArrayHeap

/-- The array at an address. -/
def read (p : Ref) : Native GSArray := do return (← get) p

def write (p : Ref) (a : GSArray) : Native Unit := modify fun h => fun q => if q = p then a else h q

/-- The element at an index the source does not check. Past the end its
behaviour is undefined; here the function stops. -/
def at' (p : Ref) (i : Nat) : Native Object := do
  match (← read p).values[i]? with
  | some o => return o
  | none => failure

/-- `_Swap` of two elements. -/
def swap (p : Ref) (i j : Nat) : Native Unit := do
  let x ← at' p i
  let y ← at' p j
  let a ← read p
  write p { a with values := (a.values.set i y).set j x }

/-- The loop of `__map_array` with the array as its own destination, from index
`n` on. `call` is the call of the script function with index `n` and element
`temp`; an index that is gone leaves `temp` as it was, and a result for it is
dropped. -/
def mapArray (referent : Ref → Object) (call : Nat → Object → Native Object) (p : Ref) :
    (count n : Nat) → (temp : Object) → Native Unit
  | 0, _, _ => return ()
  | count + 1, n, temp => do
      let temp := ((← read p).get referent (Int64.ofNat n)).getD temp
      let val ← call n temp
      let a ← read p
      write p ((a.set (Int64.ofNat n) val).getD a)
      mapArray referent call p count (n + 1) temp

/-- `array_apply`. -/
def apply (referent : Ref → Object) (call : Nat → Object → Native Object) (p : Ref) :
    Native Unit := do
  mapArray referent call p (← read p).size 0 .null

/-- What a comparison of `sort` is done with: a function of the script, whose
call is checked for a resize or a reallocation of the array, or `ObjCmp`. -/
structure Comparison where
  compare : Object → Object → Native GSInteger
  func : Bool
  moved : Object → Object → ArrayHeap → Bool

/-- `_sort_compare`. -/
def sortCompare (cmp : Comparison) (p : Ref) (a b : Object) : Native GSInteger := do
  let before ← get
  let ret ← cmp.compare a b
  if cmp.func ∧ ((before p).size ≠ (← read p).size ∨ cmp.moved a b before) then failure
  else return ret

/-- `maxChild` of `_hsort_sift_down`. -/
def maxChild (cmp : Comparison) (p : Ref) (bottom root2 : Nat) : Native Nat :=
  if root2 = bottom then return root2
  else do
    let ret ← sortCompare cmp p (← at' p root2) (← at' p (root2 + 1))
    return if ret.toInt > 0 then root2 else root2 + 1

/-- `_hsort_sift_down`. The root moves to a larger index each time round, so
`bottom + 2` rounds are always enough. -/
def siftDown (cmp : Comparison) (p : Ref) (bottom : Nat) : (fuel root : Nat) → Native Unit
  | 0, _ => failure
  | fuel + 1, root =>
      if root * 2 ≤ bottom then do
        let child ← maxChild cmp p bottom (root * 2)
        let ret ← sortCompare cmp p (← at' p root) (← at' p child)
        if ret.toInt < 0 then
          -- a root that is its own child means an inconsistent comparison
          if root = child then failure
          else do
            swap p root child
            siftDown cmp p bottom fuel child
        else return ()
      else return ()

/-- The first loop of `_hsort`: `count` roots, down to the first. -/
def hsortBuild (cmp : Comparison) (p : Ref) (bottom : Nat) : (count : Nat) → Native Unit
  | 0 => return ()
  | count + 1 => do
      siftDown cmp p bottom (bottom + 2) count
      hsortBuild cmp p bottom count

/-- The second loop of `_hsort`: from index `i` down to the second element. -/
def hsortExtract (cmp : Comparison) (p : Ref) : (i : Nat) → Native Unit
  | 0 => return ()
  | i + 1 => do
      swap p 0 (i + 1)
      siftDown cmp p i (i + 2) 0
      hsortExtract cmp p i

/-- `array_sort`. -/
def sort (cmp : Comparison) (p : Ref) : Native Unit := do
  let size := (← read p).size
  if size > 1 then do
    hsortBuild cmp p (size - 1) (size / 2 + 1)
    hsortExtract cmp p (size - 1)

end ArrayHeap

end GameScript
