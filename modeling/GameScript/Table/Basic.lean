import GameScript.Object
import GameScript.Lib.Chain

/-!
`GSTable` (`GStable.cpp`): a chained scatter table in one array of nodes.

A free node has the null key. A key is stored at its main position, the low bits
of its hash, or in a node taken from `firstfree` downwards and linked into the
chain of its main position. Removing a key leaves its node linked. `hash` is
`HashObj`; the node array is a function of the index, of which the source
allocates the first `numofnodes`.

A loop of the source that follows links is bounded by fuel and gives `none` when
the fuel runs out; `next` through a null pointer is `none` as well.
-/

namespace GameScript

def MINPOWER2 : Nat := 4

/-- `_HashNode`; the pointer `next` is an index. -/
structure HashNode where
  val : Object := .null
  key : Object := .null
  next : Option Nat := none
deriving DecidableEq, Repr

structure Table where
  firstfree : Nat
  nodes : Nat → HashNode
  numofnodes : Nat
  usednodes : Int
  delegate : Option Ref

namespace Table

/-- `HashObj(key) & (_numofnodes - 1)`. -/
def mainPosition (hash : Object → Nat) (t : Table) (key : Object) : Nat :=
  hash key &&& (t.numofnodes - 1)

/-- The links of the node array. -/
def links (t : Table) : Nat → Option Nat := fun i => (t.nodes i).next

def setNode (t : Table) (i : Nat) (n : HashNode) : Table :=
  { t with nodes := Function.update t.nodes i n }

/-- `n->val = val`. -/
def setVal (t : Table) (i : Nat) (val : Object) : Table :=
  t.setNode i { t.nodes i with val := val }

/-! ### Creation and lookup -/

/-- `AllocNodes`. -/
def allocNodes (t : Table) (nSize : Nat) : Table :=
  { t with nodes := fun _ => {}, numofnodes := nSize, firstfree := nSize - 1 }

/-- The loop of the constructor: double until `nInitialSize` fits. -/
def growPow2 (nInitialSize : Nat) : Nat → Nat → Nat
  | 0, pow2size => pow2size
  | fuel + 1, pow2size =>
      if nInitialSize > pow2size then growPow2 nInitialSize fuel (pow2size * 2) else pow2size

/-- `GSTable::Create`; `nInitialSize` doublings are always enough. -/
def create (nInitialSize : Nat) : Table :=
  { firstfree := 0, nodes := fun _ => {}, numofnodes := 0, usednodes := 0,
    delegate := none : Table }.allocNodes (growPow2 nInitialSize nInitialSize MINPOWER2)

/-- `_Get`. -/
def _get (t : Table) (key : Object) (h : Nat) : Option (Option Nat) :=
  Chain.search t.links (fun i => (t.nodes i).key = key) t.numofnodes h

/-- `_realval`: a weak reference stands for its referent. -/
def realval (referent : Ref → Object) : Object → Object
  | .weakref p => referent p
  | o => o

/-- `Get`. -/
def get (hash : Object → Nat) (referent : Ref → Object) (t : Table) (key : Object) :
    Option (Option Object) :=
  if key = .null then some none
  else do
    match ← t._get key (t.mainPosition hash key) with
    | none => some none
    | some n => some (some (realval referent (t.nodes n).val))

/-- `Set`. -/
def set (hash : Object → Nat) (t : Table) (key val : Object) : Option (Table × Bool) := do
  match ← t._get key (t.mainPosition hash key) with
  | none => some (t, false)
  | some n => some (t.setVal n val, true)

/-! ### Insertion -/

/-- The part of `NewSlot` that takes a node for a key that is not in the table:
its main position `mp` when that is free, else a free node, into which the
colliding key is moved first when it is not in its own main position. The node
has the key but not yet the value. -/
def place (hash : Object → Nat) (t : Table) (mp : Nat) (key : Object) : Option (Table × Nat) :=
  if (t.nodes mp).key = .null then
    some (t.setNode mp { t.nodes mp with key := key }, mp)
  else
    let n := t.firstfree
    let othern := t.mainPosition hash (t.nodes mp).key
    if mp > n ∧ othern ≠ mp then do
      -- move the colliding node into the free position
      let prev ← Chain.search t.links (fun i => t.links i = some mp) t.numofnodes othern
      let prev ← prev
      let t := t.setNode prev { t.nodes prev with next := some n }
      let t := t.setNode n { t.nodes n with
        key := (t.nodes mp).key, val := (t.nodes mp).val, next := (t.nodes mp).next }
      let t := t.setNode mp {}
      some (t.setNode mp { t.nodes mp with key := key }, mp)
    else
      -- the new key goes into the free position
      let t := t.setNode n { t.nodes n with next := (t.nodes mp).next }
      let t := t.setNode mp { t.nodes mp with next := some n }
      some (t.setNode n { t.nodes n with key := key }, n)

/-- The loop that corrects `firstfree`: the first node from `i` downwards with
neither key nor link, or `none` at the bottom of the array. -/
def correctFirstfree (nodes : Nat → HashNode) : Nat → Option Nat
  | 0 => if (nodes 0).key = .null ∧ (nodes 0).next = none then some 0 else none
  | i + 1 =>
      if (nodes (i + 1)).key = .null ∧ (nodes (i + 1)).next = none then some (i + 1)
      else correctFirstfree nodes i

/-- Insert the pairs of `count` nodes from index `i` on, skipping the free ones. -/
def insertNodes (newSlot : Table → Object → Object → Option (Table × Bool))
    (nold : Nat → HashNode) : (count i : Nat) → Table → Option Table
  | 0, _, t => some t
  | count + 1, i, t =>
      if (nold i).key ≠ .null then do
        let (t, _) ← newSlot t (nold i).key (nold i).val
        insertNodes newSlot nold count (i + 1) t
      else insertNodes newSlot nold count (i + 1) t

/-- The number of nodes `Rehash` allocates, if it does. -/
def rehashSize (force : Bool) (oldsize : Nat) (nelems : Int) : Option Nat :=
  if nelems ≥ (oldsize - oldsize / 4 : Nat) then some (oldsize * 2)
  else if nelems ≤ (oldsize / 4 : Nat) ∧ oldsize > MINPOWER2 then some (oldsize / 2)
  else if force then some oldsize
  else none

/-- `Rehash`, given the `NewSlot` it calls. -/
def rehash (newSlot : Table → Object → Object → Option (Table × Bool)) (force : Bool)
    (t : Table) : Option Table :=
  let oldsize := if t.numofnodes < 4 then 4 else t.numofnodes
  match rehashSize force oldsize t.usednodes with
  | none => some t
  | some nSize =>
      insertNodes newSlot t.nodes oldsize 0 { t.allocNodes nSize with usednodes := 0 }

/-- `NewSlot`. `fuel` bounds how deep `NewSlot` and `Rehash` call each other. -/
def newSlot (hash : Object → Nat) : Nat → Table → Object → Object → Option (Table × Bool)
  | 0, _, _, _ => none
  | fuel + 1, t, key, val => do
      match ← t._get key (t.mainPosition hash key) with
      | some n => some (t.setVal n val, false)
      | none =>
          let (t, mp) ← t.place hash (t.mainPosition hash key) key
          match correctFirstfree t.nodes t.firstfree with
          | some firstfree =>
              some ({ t.setVal mp val with
                firstfree := firstfree, usednodes := t.usednodes + 1 }, true)
          | none =>
              let t ← rehash (newSlot hash fuel) true { t with firstfree := 0 }
              newSlot hash fuel t key val

/-! ### Removal, clearing, iteration and cloning -/

/-- `Remove`. -/
def remove (hash : Object → Nat) (fuel : Nat) (t : Table) (key : Object) : Option Table := do
  match ← t._get key (t.mainPosition hash key) with
  | none => some t
  | some n =>
      let t := t.setNode n { t.nodes n with val := .null, key := .null }
      rehash (newSlot hash fuel) false { t with usednodes := t.usednodes - 1 }

/-- `_ClearNodes`: the links stay. -/
def _clearNodes (t : Table) : Table :=
  { t with nodes := fun i =>
      if i < t.numofnodes then { t.nodes i with key := .null, val := .null } else t.nodes i }

/-- `Clear`. -/
def clear (hash : Object → Nat) (fuel : Nat) (t : Table) : Option Table :=
  rehash (newSlot hash fuel) true { t._clearNodes with usednodes := 0 }

/-- `Next`, from index `idx` and over `count` nodes: the first stored key with
its value and the index to go on from. -/
def nextFrom (referent : Ref → Object) (t : Table) (getweakrefs : Bool) :
    (count idx : Nat) → Option (Nat × Object × Object)
  | 0, _ => none
  | count + 1, idx =>
      let n := t.nodes idx
      if n.key ≠ .null then
        some (idx + 1, n.key, if getweakrefs then n.val else realval referent n.val)
      else nextFrom referent t getweakrefs count (idx + 1)

/-- `Next`; the source gives `-1` where there is nothing left. -/
def next (referent : Ref → Object) (t : Table) (getweakrefs : Bool) (refpos : Nat) :
    Option (Nat × Object × Object) :=
  nextFrom referent t getweakrefs (t.numofnodes - refpos) refpos

/-- The loop of `Clone`, at most `count` times round. -/
def cloneFrom (hash : Object → Nat) (fuel : Nat) (t : Table) :
    (count ridx : Nat) → Table → Option Table
  | 0, _, _ => none
  | count + 1, ridx, nt =>
      match t.next (fun _ => .null) true ridx with
      | none => some nt
      | some (ridx, key, val) => do
          let (nt, _) ← newSlot hash fuel nt key val
          cloneFrom hash fuel t count ridx nt

/-- `Clone`. -/
def clone (hash : Object → Nat) (fuel : Nat) (t : Table) : Option Table := do
  let nt ← cloneFrom hash fuel t (t.numofnodes + 1) 0 (create t.numofnodes)
  some { nt with delegate := t.delegate }

end Table

end GameScript
