import Mathlib.Data.List.Perm.Subperm
import Mathlib.Data.List.Flatten
import GameScript.Object
import GameScript.Lib.Linked

/-!
`RefTable` (`GSstate.cpp`): the objects the host holds, each with its count.

The bucket chains and the free list are threaded through one array of nodes; a
node is free exactly when it holds the null object. `hash` is `HashObj`. The
node array and the buckets are functions of the index, of which the source
allocates the first `numofslots`. A null pointer that the source would follow
gives `none`, and so does a walk that does not come to an end.
-/

namespace GameScript

open LinkedList

/-- `RefNode`; the pointer `next` is an index. -/
structure RefNode where
  obj : Object := .null
  refs : Nat := 0
  next : Option Nat := none

structure RefTable where
  numofslots : Nat
  slotused : Nat
  nodes : Nat → RefNode
  freelist : Option Nat
  buckets : Nat → Option Nat

namespace RefTable

/-- The links of the node array. -/
def links (t : RefTable) : Nat → Option Nat := fun i => (t.nodes i).next

/-- `HashObj(obj) & (_numofslots - 1)`. -/
def mainpos (hash : Object → Nat) (t : RefTable) (obj : Object) : Nat :=
  hash obj &&& (t.numofslots - 1)

def setNode (t : RefTable) (i : Nat) (n : RefNode) : RefTable :=
  { t with nodes := Function.update t.nodes i n }

/-- `nn->refs = refs`. -/
def setRefs (t : RefTable) (i : Nat) (refs : Nat) : RefTable :=
  t.setNode i { t.nodes i with refs := refs }

def setBucket (t : RefTable) (mainpos : Nat) (head : Option Nat) : RefTable :=
  { t with buckets := Function.update t.buckets mainpos head }

/-- `AllocNodes`: every node is free. -/
def allocNodes (size : Nat) : RefTable where
  numofslots := size
  slotused := 0
  nodes n := { next := if n + 1 < size then some (n + 1) else none }
  freelist := some 0
  buckets _ := none

/-- The constructor. -/
def init : RefTable := allocNodes 4

/-- `Add`: the first free node comes first in its bucket. -/
def add (t : RefTable) (mainpos : Nat) (obj : Object) : Option (RefTable × Nat) := do
  let newnode ← t.freelist
  let node := t.nodes newnode
  let t' := { t with freelist := node.next, slotused := t.slotused + 1 }
  let t' := t'.setNode newnode { node with obj := obj, next := t.buckets mainpos }
  return (t'.setBucket mainpos (some newnode), newnode)

/-- `Resize`: every node in use is added to the new arrays, with its count. -/
def resize (hash : Object → Nat) (t : RefTable) (size : Nat) : Option RefTable :=
  (List.range t.numofslots).foldlM
    (fun t' n => do
      let node := t.nodes n
      if node.obj ≠ .null then
        let (t', nn) ← t'.add (t'.mainpos hash node.obj) node.obj
        return t'.setRefs nn node.refs
      else return t')
    (allocNodes size)

/-- What `Get` hands back: the main position, the node before the one found (`prev`)
and the node itself. -/
structure Found where
  mainpos : Nat
  prev : Option Nat
  ref : Option Nat

/-- `Get`. -/
def get (hash : Object → Nat) (t : RefTable) (obj : Object) (add : Bool) :
    Option (RefTable × Found) := do
  let mainpos := t.mainpos hash obj
  let (prev, ref) ← find t.links (fun i => (t.nodes i).obj = obj) t.numofslots none
    (t.buckets mainpos)
  if ref.isNone && add then
    let t ← (if t.numofslots = t.slotused then t.resize hash (t.numofslots * 2) else some t)
    let mainpos := t.mainpos hash obj
    let (t, ref) ← t.add mainpos obj
    return (t, { mainpos := mainpos, prev := prev, ref := some ref })
  else
    return (t, { mainpos := mainpos, prev := prev, ref := ref })

/-- `AddRef`. -/
def addRef (hash : Object → Nat) (t : RefTable) (obj : Object) : Option RefTable := do
  let (t, found) ← t.get hash obj true
  let ref ← found.ref
  return t.setRefs ref ((t.nodes ref).refs + 1)

/-- `GetRefCount`. -/
def getRefCount (hash : Object → Nat) (t : RefTable) (obj : Object) : Option Nat := do
  let (t, found) ← t.get hash obj false
  match found.ref with
  | some ref => return (t.nodes ref).refs
  | none => return 0

/-- The end of `Release` for the last reference: the node `ref` leaves its chain, where it
comes behind `prev` or first, and heads the free list. -/
def freeNode (t : RefTable) (mainpos : Nat) (prev : Option Nat) (ref : Nat) : RefTable :=
  let next := (t.nodes ref).next
  let t := match prev with
    | some prev => t.setNode prev { t.nodes prev with next := next }
    | none => t.setBucket mainpos next
  let t := t.setNode ref { t.nodes ref with next := t.freelist, obj := .null }
  { t with freelist := some ref, slotused := t.slotused - 1 }

/-- `Release`. -/
def release (hash : Object → Nat) (t : RefTable) (obj : Object) : Option (RefTable × Bool) := do
  let (t, found) ← t.get hash obj false
  match found.ref with
  | some ref =>
      let t := t.setRefs ref ((t.nodes ref).refs - 1)
      if (t.nodes ref).refs = 0 then return (t.freeNode found.mainpos found.prev ref, true)
      else return (t, false)
  | none => return (t, false)

end RefTable

/-! ### The host's calls -/

namespace RefTable

/-- `GS_addref`. -/
def GS_addref (hash : Object → Nat) (t : RefTable) (po : Object) : Option RefTable :=
  if po.isRefCounted then t.addRef hash po else some t

/-- `GS_getrefcount`. -/
def GS_getrefcount (hash : Object → Nat) (t : RefTable) (po : Object) : Option Nat :=
  if po.isRefCounted then t.getRefCount hash po else some 0

/-- `GS_release`. -/
def GS_release (hash : Object → Nat) (t : RefTable) (po : Object) : Option (RefTable × Bool) :=
  if po.isRefCounted then t.release hash po else some (t, true)

end RefTable

namespace RefTable

variable {hash : Object → Nat} {t t' : RefTable} {chain : Nat → List Nat} {free : List Nat}
  {c : Object → Nat} {o : Object}

/-! ### The chains and the free list -/

/-- The buckets' chains and the free list visit each node of the array once: a node
in use is on the chain its object hashes to, the others are free. -/
structure Threads (hash : Object → Nat) (t : RefTable) (chain : Nat → List Nat)
    (free : List Nat) : Prop where
  slots_pos : 0 < t.numofslots
  chain_isList : ∀ i < t.numofslots, IsList t.links (t.buckets i) (chain i)
  free_isList : IsList t.links t.freelist free
  chain_nodup : ∀ i < t.numofslots, (chain i).Nodup
  free_nodup : free.Nodup
  mem_chain : ∀ i < t.numofslots, ∀ a, a ∈ chain i ↔
    a < t.numofslots ∧ (t.nodes a).obj ≠ .null ∧ t.mainpos hash (t.nodes a).obj = i
  mem_free : ∀ a, a ∈ free ↔ a < t.numofslots ∧ (t.nodes a).obj = .null
  slotused_add : t.slotused + free.length = t.numofslots

/-- The count of every node in use is that of its object, and an object has a node
while its count is positive. -/
structure Counts (t : RefTable) (c : Object → Nat) : Prop where
  refs_eq : ∀ a < t.numofslots, (t.nodes a).obj ≠ .null → (t.nodes a).refs = c (t.nodes a).obj
  free_refs : ∀ a < t.numofslots, (t.nodes a).obj = .null → (t.nodes a).refs = 0
  held : ∀ o, o ≠ .null → (0 < c o ↔ ∃ a < t.numofslots, (t.nodes a).obj = o)
  unique : ∀ a < t.numofslots, ∀ b < t.numofslots, (t.nodes a).obj ≠ .null →
    (t.nodes a).obj = (t.nodes b).obj → a = b

theorem mainpos_congr (hn : t'.numofslots = t.numofslots) :
    t'.mainpos hash o = t.mainpos hash o := by
  rw [mainpos, mainpos, hn]

theorem Threads.mainpos_lt (h : Threads hash t chain free) (o : Object) :
    t.mainpos hash o < t.numofslots := by
  have hle : t.mainpos hash o ≤ t.numofslots - 1 := Nat.and_le_right
  have hpos := h.slots_pos
  omega

/-- A chain is no longer than the array. -/
theorem Threads.chain_length (h : Threads hash t chain free) {i : Nat} (hi : i < t.numofslots) :
    (chain i).length ≤ t.numofslots := by
  have hsub : chain i ⊆ List.range t.numofslots := by
    intro a ha
    exact List.mem_range.mpr ((h.mem_chain i hi a).mp ha).1
  have hle := ((h.chain_nodup i hi).subperm hsub).length_le
  simpa using hle

/-- Chains and free list do not read the counts. -/
theorem Threads.congr (h : Threads hash t chain free) (hn : t'.numofslots = t.numofslots)
    (hu : t'.slotused = t.slotused) (hf : t'.freelist = t.freelist) (hb : t'.buckets = t.buckets)
    (hobj : ∀ a, (t'.nodes a).obj = (t.nodes a).obj)
    (hnext : ∀ a, (t'.nodes a).next = (t.nodes a).next) : Threads hash t' chain free := by
  have hlinks : t'.links = t.links := funext hnext
  have hmain : t'.mainpos hash = t.mainpos hash := funext fun _ => mainpos_congr hn
  constructor
  · rw [hn]
    exact h.slots_pos
  · rw [hn, hlinks, hb]
    exact h.chain_isList
  · rw [hlinks, hf]
    exact h.free_isList
  · rw [hn]
    exact h.chain_nodup
  · exact h.free_nodup
  · simp only [hn, hobj, hmain]
    exact h.mem_chain
  · simp only [hn, hobj]
    exact h.mem_free
  · rw [hu, hn]
    exact h.slotused_add

theorem setRefs_obj (t : RefTable) (i refs a : Nat) :
    ((t.setRefs i refs).nodes a).obj = (t.nodes a).obj := by
  by_cases ha : a = i
  · subst ha
    simp [setRefs, setNode]
  · simp [setRefs, setNode, ha]

theorem setRefs_next (t : RefTable) (i refs a : Nat) :
    ((t.setRefs i refs).nodes a).next = (t.nodes a).next := by
  by_cases ha : a = i
  · subst ha
    simp [setRefs, setNode]
  · simp [setRefs, setNode, ha]

theorem setRefs_refs (t : RefTable) (i refs a : Nat) :
    ((t.setRefs i refs).nodes a).refs = if a = i then refs else (t.nodes a).refs := by
  by_cases ha : a = i
  · subst ha
    simp [setRefs, setNode]
  · simp [setRefs, setNode, ha]

theorem Threads.setRefs (h : Threads hash t chain free) (i refs : Nat) :
    Threads hash (t.setRefs i refs) chain free :=
  h.congr rfl rfl rfl rfl (setRefs_obj t i refs) (setRefs_next t i refs)

/-! ### Looking for an object -/

/-- An object with a node is found on its chain, behind the node before it. -/
theorem find_held (h : Threads hash t chain free) (hc : Counts t c) (ho : o ≠ .null)
    {a : Nat} (ha : a < t.numofslots) (hobj : (t.nodes a).obj = o) :
    ∃ l₁ l₂, chain (t.mainpos hash o) = l₁ ++ a :: l₂ ∧
      find t.links (fun i => (t.nodes i).obj = o) t.numofslots none
        (t.buckets (t.mainpos hash o)) = some (l₁.getLast?, some a) := by
  have hi := h.mainpos_lt o
  have hmem : a ∈ chain (t.mainpos hash o) := by
    rw [h.mem_chain _ hi]
    exact ⟨ha, hobj ▸ ho, by rw [hobj]⟩
  obtain ⟨l₁, b, l₂, hsplit, hbefore, hb⟩ :=
    exists_first (fun i => decide ((t.nodes i).obj = o)) hmem (by simp [hobj])
  have hbn : b < t.numofslots := by
    have hbmem : b ∈ chain (t.mainpos hash o) := by simp [hsplit]
    exact ((h.mem_chain _ hi b).mp hbmem).1
  have hbo : (t.nodes b).obj = o := by simpa using hb
  -- the objects of two nodes in use differ
  obtain rfl : b = a := hc.unique b hbn a ha (hbo ▸ ho) (hbo.trans hobj.symm)
  refine ⟨l₁, l₂, hsplit, ?_⟩
  have hlist := h.chain_isList _ hi
  have hlen := h.chain_length hi
  rw [hsplit] at hlist hlen
  have hfuel : l₁.length < t.numofslots := by
    simp at hlen
    omega
  simpa using find_of_mem none hlist hfuel hbefore hb

/-- The walk for an object without a node comes to the end of the chain. -/
theorem find_missing (h : Threads hash t chain free)
    (hnone : ∀ a < t.numofslots, (t.nodes a).obj ≠ o) :
    ∃ prev, find t.links (fun i => (t.nodes i).obj = o) t.numofslots none
      (t.buckets (t.mainpos hash o)) = some (prev, none) := by
  have hi := h.mainpos_lt o
  refine ⟨_, find_of_not_mem none (h.chain_isList _ hi) (h.chain_length hi) ?_⟩
  intro b hb
  simpa using hnone b ((h.mem_chain _ hi b).mp hb).1

/-! ### Adding a node -/

/-- `Add` moves the first free node to the front of the bucket. -/
theorem add_eq (h : Threads hash t chain free) (hfree : free ≠ []) (ho : o ≠ .null) :
    ∃ f rest t', free = f :: rest ∧ f < t.numofslots ∧ (t.nodes f).obj = .null ∧
      t.add (t.mainpos hash o) o = some (t', f) ∧
      Threads hash t' (Function.update chain (t.mainpos hash o)
        (f :: chain (t.mainpos hash o))) rest ∧
      t'.numofslots = t.numofslots ∧ t'.slotused = t.slotused + 1 ∧
      (t'.nodes f).obj = o ∧ (t'.nodes f).refs = (t.nodes f).refs ∧
      ∀ a, a ≠ f → t'.nodes a = t.nodes a := by
  obtain ⟨f, rest, rfl⟩ := List.exists_cons_of_ne_nil hfree
  have hi := h.mainpos_lt o
  obtain ⟨hfn, hfnull⟩ := (h.mem_free f).mp List.mem_cons_self
  obtain ⟨hhead, hrest⟩ : t.freelist = some f ∧ IsList t.links (t.links f) rest := by
    have hlist := h.free_isList
    generalize t.freelist = head at hlist
    cases hlist with
    | cons hrest => exact ⟨rfl, hrest⟩
  have hfrest : f ∉ rest := (List.nodup_cons.mp h.free_nodup).1
  have hfchain : ∀ i < t.numofslots, f ∉ chain i := by
    intro i hi hf
    exact ((h.mem_chain i hi f).mp hf).2.1 hfnull
  let t₁ : RefTable := { t with freelist := (t.nodes f).next, slotused := t.slotused + 1 }
  let t₂ := t₁.setNode f { t.nodes f with obj := o, next := t.buckets (t.mainpos hash o) }
  have hadd : t.add (t.mainpos hash o) o =
      some (t₂.setBucket (t.mainpos hash o) (some f), f) := by
    simp only [add, hhead]
    rfl
  refine ⟨f, rest, _, rfl, hfn, hfnull, hadd, ?_, rfl, rfl, ?_, ?_, ?_⟩
  · have hlinks : ∀ a, a ≠ f → ∀ (x : RefNode), (Function.update t.nodes f x a).next = t.links a := by
      intro a ha x
      rw [Function.update_of_ne ha]
      rfl
    constructor
    · exact h.slots_pos
    · intro i hin
      by_cases hieq : i = t.mainpos hash o
      · subst hieq
        simp only [setBucket, setNode, t₁, t₂, Function.update_self]
        have hpush := (h.chain_isList _ hi).push (hfchain _ hi)
        refine hpush.congr ?_
        intro a _
        by_cases ha : a = f
        · subst ha
          simp [links]
        · simp [links, ha]
      · simp only [setBucket, setNode, t₁, t₂, Function.update_of_ne hieq]
        apply (h.chain_isList i hin).congr
        intro a ha
        have hne : a ≠ f := fun heq => hfchain i hin (heq ▸ ha)
        exact hlinks a hne _
    · apply hrest.congr
      intro a ha
      have hne : a ≠ f := fun heq => hfrest (heq ▸ ha)
      exact hlinks a hne _
    · intro i hin
      by_cases hieq : i = t.mainpos hash o
      · subst hieq
        rw [Function.update_self]
        exact List.nodup_cons.mpr ⟨hfchain _ hi, h.chain_nodup _ hi⟩
      · rw [Function.update_of_ne hieq]
        exact h.chain_nodup i hin
    · exact (List.nodup_cons.mp h.free_nodup).2
    · intro i hin a
      have hold := h.mem_chain i hin a
      by_cases ha : a = f
      · subst ha
        simp only [setBucket, setNode, t₁, t₂, Function.update_self]
        by_cases hieq : i = t.mainpos hash o
        · subst hieq
          simp only [Function.update_self, List.mem_cons_self, true_iff]
          exact ⟨hfn, ho, mainpos_congr rfl⟩
        · rw [Function.update_of_ne hieq]
          simp only [hfchain i hin, false_iff, not_and]
          intro _ _ heq
          exact hieq (heq.symm.trans (mainpos_congr rfl))
      · simp only [setBucket, setNode, t₁, t₂, Function.update_of_ne ha]
        by_cases hieq : i = t.mainpos hash o
        · subst hieq
          rw [Function.update_self, List.mem_cons]
          simp only [ha, false_or]
          exact hold
        · rw [Function.update_of_ne hieq]
          exact hold
    · intro a
      have hold := h.mem_free a
      by_cases ha : a = f
      · subst ha
        simp [setBucket, setNode, t₂, ho, hfrest]
      · simp only [setBucket, setNode, t₁, t₂, Function.update_of_ne ha]
        rw [← hold, List.mem_cons]
        simp [ha]
    · have hsum := h.slotused_add
      simp only [List.length_cons] at hsum
      simp only [setBucket, setNode, t₁, t₂]
      omega
  · simp [setBucket, setNode, t₂]
  · simp [setBucket, setNode, t₂]
  · intro a ha
    simp [setBucket, setNode, t₁, t₂, ha]

/-! ### Counts -/

/-- A node takes the count `r` for its object, or a free one for an object that has
no node yet. -/
theorem Counts.assign (hc : Counts t c) (hn : t'.numofslots = t.numofslots) {f r : Nat}
    (hf : f < t.numofslots) (ho : o ≠ .null)
    (hnode : (t.nodes f).obj = o ∨ (t.nodes f).obj = .null ∧ c o = 0) (hr : 0 < r)
    (hobj : (t'.nodes f).obj = o) (hrefs : (t'.nodes f).refs = r)
    (hother : ∀ a, a ≠ f →
      (t'.nodes a).obj = (t.nodes a).obj ∧ (t'.nodes a).refs = (t.nodes a).refs) :
    Counts t' (Function.update c o r) := by
  -- no other node holds `o`
  have hsole : ∀ a < t.numofslots, a ≠ f → (t.nodes a).obj ≠ o := by
    intro a ha hne heq
    rcases hnode with hfo | ⟨_, hzero⟩
    · exact hne (hc.unique a ha f hf (heq ▸ ho) (heq.trans hfo.symm))
    · have hpos : 0 < c o := (hc.held o ho).mpr ⟨a, ha, heq⟩
      omega
  constructor
  · intro a ha hnull
    rw [hn] at ha
    by_cases haf : a = f
    · subst haf
      rw [hobj, hrefs, Function.update_self]
    · rw [(hother a haf).1] at hnull ⊢
      rw [(hother a haf).2, Function.update_of_ne (hsole a ha haf)]
      exact hc.refs_eq a ha hnull
  · intro a ha hnull
    rw [hn] at ha
    by_cases haf : a = f
    · subst haf
      exact absurd (hobj ▸ hnull) ho
    · rw [(hother a haf).1] at hnull
      rw [(hother a haf).2]
      exact hc.free_refs a ha hnull
  · intro o' ho'
    rw [hn]
    by_cases heq : o' = o
    · subst heq
      rw [Function.update_self]
      exact ⟨fun _ => ⟨f, hf, hobj⟩, fun _ => hr⟩
    · rw [Function.update_of_ne heq, hc.held o' ho']
      constructor
      · rintro ⟨a, ha, hao⟩
        have haf : a ≠ f := by
          rintro rfl
          rcases hnode with hfo | ⟨hfnull, _⟩
          · exact heq (hao.symm.trans hfo)
          · exact ho' (hao.symm.trans hfnull)
        exact ⟨a, ha, (hother a haf).1.trans hao⟩
      · rintro ⟨a, ha, hao⟩
        have haf : a ≠ f := by
          rintro rfl
          exact heq (hao.symm.trans hobj)
        exact ⟨a, ha, (hother a haf).1.symm.trans hao⟩
  · intro a ha b hb hnull hab
    rw [hn] at ha hb
    by_cases haf : a = f <;> by_cases hbf : b = f
    · rw [haf, hbf]
    · subst haf
      rw [hobj, (hother b hbf).1] at hab
      exact absurd hab.symm (hsole b hb hbf)
    · subst hbf
      rw [hobj, (hother a haf).1] at hab
      exact absurd hab (hsole a ha haf)
    · rw [(hother a haf).1, (hother b hbf).1] at hab
      rw [(hother a haf).1] at hnull
      exact hc.unique a ha b hb hnull hab

/-- The node of an object becomes free. -/
theorem Counts.clear (hc : Counts t c) (hn : t'.numofslots = t.numofslots) {f : Nat}
    (hf : f < t.numofslots) (ho : o ≠ .null) (hnode : (t.nodes f).obj = o)
    (hobj : (t'.nodes f).obj = .null) (hrefs : (t'.nodes f).refs = 0)
    (hother : ∀ a, a ≠ f →
      (t'.nodes a).obj = (t.nodes a).obj ∧ (t'.nodes a).refs = (t.nodes a).refs) :
    Counts t' (Function.update c o 0) := by
  have hsole : ∀ a < t.numofslots, a ≠ f → (t.nodes a).obj ≠ o := by
    intro a ha hne heq
    exact hne (hc.unique a ha f hf (heq ▸ ho) (heq.trans hnode.symm))
  constructor
  · intro a ha hnull
    rw [hn] at ha
    have haf : a ≠ f := by
      rintro rfl
      exact hnull hobj
    rw [(hother a haf).1] at hnull ⊢
    rw [(hother a haf).2, Function.update_of_ne (hsole a ha haf)]
    exact hc.refs_eq a ha hnull
  · intro a ha hnull
    rw [hn] at ha
    by_cases haf : a = f
    · subst haf
      exact hrefs
    · rw [(hother a haf).1] at hnull
      rw [(hother a haf).2]
      exact hc.free_refs a ha hnull
  · intro o' ho'
    rw [hn]
    by_cases heq : o' = o
    · subst heq
      rw [Function.update_self]
      constructor
      · intro hlt
        exact absurd hlt (Nat.lt_irrefl 0)
      · rintro ⟨a, ha, hao⟩
        have haf : a ≠ f := by
          rintro rfl
          exact ho' (hao.symm.trans hobj)
        exact absurd ((hother a haf).1.symm.trans hao) (hsole a ha haf)
    · rw [Function.update_of_ne heq, hc.held o' ho']
      constructor
      · rintro ⟨a, ha, hao⟩
        have haf : a ≠ f := by
          rintro rfl
          exact heq (hao.symm.trans hnode)
        exact ⟨a, ha, (hother a haf).1.trans hao⟩
      · rintro ⟨a, ha, hao⟩
        have haf : a ≠ f := by
          rintro rfl
          exact ho' (hao.symm.trans hobj)
        exact ⟨a, ha, (hother a haf).1.symm.trans hao⟩
  · intro a ha b hb hnull hab
    rw [hn] at ha hb
    have haf : a ≠ f := by
      rintro rfl
      exact hnull hobj
    have hbf : b ≠ f := by
      rintro rfl
      exact hnull (hab.trans hobj)
    rw [(hother a haf).1, (hother b hbf).1] at hab
    rw [(hother a haf).1] at hnull
    exact hc.unique a ha b hb hnull hab

/-- The count of null does not matter. -/
theorem Counts.congr {c' : Object → Nat} (hc : Counts t c) (hcc : ∀ o, o ≠ .null → c' o = c o) :
    Counts t c' := by
  constructor
  · intro a ha hnull
    rw [hcc _ hnull]
    exact hc.refs_eq a ha hnull
  · exact hc.free_refs
  · intro o ho
    rw [hcc o ho]
    exact hc.held o ho
  · exact hc.unique

/-- An object without a node has the count zero. -/
theorem Counts.eq_zero (hc : Counts t c) (ho : o ≠ .null)
    (hnone : ∀ a < t.numofslots, (t.nodes a).obj ≠ o) : c o = 0 := by
  by_cases hpos : 0 < c o
  · obtain ⟨a, ha, hao⟩ := (hc.held o ho).mp hpos
    exact absurd hao (hnone a ha)
  · omega

/-- A free node holds the object `o` at the count it is given. -/
theorem Counts.add (hc : Counts t c) {s : RefTable} (hn : s.numofslots = t.numofslots) {f r : Nat}
    (hf : f < t.numofslots) (hfnull : (t.nodes f).obj = .null) (ho : o ≠ .null) (hzero : c o = 0)
    (hr : 0 < r) (hobj : (s.nodes f).obj = o) (hother : ∀ a, a ≠ f → s.nodes a = t.nodes a) :
    Counts (s.setRefs f r) (Function.update c o r) := by
  have hn' : (s.setRefs f r).numofslots = t.numofslots := hn
  apply hc.assign hn' hf ho (.inr ⟨hfnull, hzero⟩) hr
  · rw [setRefs_obj]
    exact hobj
  · rw [setRefs_refs, if_pos rfl]
  · intro a ha
    rw [setRefs_obj, setRefs_refs, if_neg ha, hother a ha]
    exact ⟨rfl, rfl⟩

/-! ### Fresh arrays and resizing -/

/-- A new table has all its nodes on the free list. -/
theorem allocNodes_isList (size n : Nat) : ∀ k, k + n = size →
    IsList (allocNodes size).links (if k < size then some k else none) (List.range' k n) := by
  induction n with
  | zero =>
      intro k hk
      have hlt : ¬ k < size := by omega
      rw [if_neg hlt]
      exact .nil
  | succ n ih =>
      intro k hk
      have hlt : k < size := by omega
      rw [if_pos hlt, List.range'_succ]
      apply IsList.cons
      exact ih (k + 1) (by omega)

/-- A new table has an empty chain in every position. -/
theorem allocNodes_threads {size : Nat} (hsize : 0 < size) :
    Threads hash (allocNodes size) (fun _ => []) (List.range size) := by
  constructor
  · exact hsize
  · intro i _
    exact .nil
  · have hlist := allocNodes_isList size size 0 (by omega)
    rw [if_pos hsize] at hlist
    rw [List.range_eq_range']
    exact hlist
  · intro i _
    exact List.nodup_nil
  · exact List.nodup_range
  · intro i _ a
    simp [allocNodes]
  · intro a
    simp [allocNodes]
  · simp [allocNodes]

theorem allocNodes_counts (size : Nat) : Counts (allocNodes size) (fun _ => 0) := by
  constructor
  · intro a _ hnull
    exact absurd rfl hnull
  · intro a _ _
    rfl
  · intro o ho
    constructor
    · intro hlt
      exact absurd hlt (Nat.lt_irrefl 0)
    · rintro ⟨a, _, hao⟩
      exact absurd hao.symm ho
  · intro a _ b _ hnull _
    exact absurd rfl hnull

/-- The counts of the objects of the first `k` nodes. -/
def countsBelow (t : RefTable) (c : Object → Nat) (k : Nat) (o : Object) : Nat :=
  if ∃ a < k, (t.nodes a).obj = o then c o else 0

/-- One pass of the loop of `Resize`: the node `k` is added back. -/
theorem countsBelow_succ (hc : Counts t c) {k : Nat} (hk : k < t.numofslots)
    (hnull : (t.nodes k).obj ≠ .null) :
    countsBelow t c k (t.nodes k).obj = 0 ∧
      Function.update (countsBelow t c k) (t.nodes k).obj (t.nodes k).refs =
        countsBelow t c (k + 1) := by
  constructor
  · rw [countsBelow, if_neg]
    rintro ⟨a, ha, hao⟩
    have hak : a = k := hc.unique a (by omega) k hk (hao ▸ hnull) hao
    omega
  · funext o
    by_cases ho : o = (t.nodes k).obj
    · subst ho
      have hex : ∃ a < k + 1, (t.nodes a).obj = (t.nodes k).obj := ⟨k, by omega, rfl⟩
      rw [Function.update_self, countsBelow, if_pos hex, hc.refs_eq k hk hnull]
    · rw [Function.update_of_ne ho, countsBelow, countsBelow]
      have hiff : (∃ a < k, (t.nodes a).obj = o) ↔ ∃ a < k + 1, (t.nodes a).obj = o := by
        constructor
        · rintro ⟨a, ha, hao⟩
          exact ⟨a, by omega, hao⟩
        · rintro ⟨a, ha, hao⟩
          have hak : a ≠ k := by
            rintro rfl
            exact ho hao.symm
          exact ⟨a, by omega, hao⟩
      simp only [hiff]

theorem countsBelow_succ_null {k : Nat} (hnull : (t.nodes k).obj = .null) (ho : o ≠ .null) :
    countsBelow t c (k + 1) o = countsBelow t c k o := by
  rw [countsBelow, countsBelow]
  have hiff : (∃ a < k + 1, (t.nodes a).obj = o) ↔ ∃ a < k, (t.nodes a).obj = o := by
    constructor
    · rintro ⟨a, ha, hao⟩
      have hak : a ≠ k := by
        rintro rfl
        exact ho (hao.symm.trans hnull)
      exact ⟨a, by omega, hao⟩
    · rintro ⟨a, ha, hao⟩
      exact ⟨a, by omega, hao⟩
  simp only [hiff]

/-- `Resize` keeps every count and leaves room. -/
theorem resize_eq (hc : Counts t c) {size : Nat} (hpos : 0 < size) (hsize : t.numofslots ≤ size) :
    ∃ s chain' free', t.resize hash size = some s ∧ Threads hash s chain' free' ∧ Counts s c ∧
      s.numofslots = size ∧ s.slotused ≤ t.numofslots := by
  suffices hloop : ∀ k ≤ t.numofslots, ∃ s chain' free',
      (List.range k).foldlM
        (fun t' n => do
          let node := t.nodes n
          if node.obj ≠ .null then
            let (t', nn) ← t'.add (t'.mainpos hash node.obj) node.obj
            return t'.setRefs nn node.refs
          else return t') (allocNodes size) = some s ∧
      Threads hash s chain' free' ∧ Counts s (countsBelow t c k) ∧ s.numofslots = size ∧
      s.slotused ≤ k by
    obtain ⟨s, chain', free', heq, hthreads, hcounts, hn, hused⟩ := hloop _ (Nat.le_refl _)
    refine ⟨s, chain', free', heq, hthreads, ?_, hn, hused⟩
    apply hcounts.congr
    intro o ho
    rw [countsBelow]
    split
    · rfl
    · next hnone =>
        apply hc.eq_zero ho
        intro a ha hao
        exact hnone ⟨a, ha, hao⟩
  intro k
  induction k with
  | zero =>
      intro _
      refine ⟨_, _, _, rfl, allocNodes_threads hpos, ?_, rfl, Nat.le_refl 0⟩
      apply (allocNodes_counts size).congr
      intro o _
      simp [countsBelow]
  | succ k ih =>
      intro hk
      obtain ⟨s, chain', free', heq, hthreads, hcounts, hn, hused⟩ := ih (by omega)
      rw [List.range_succ, List.foldlM_append, heq]
      simp only [List.foldlM_cons, List.foldlM_nil, Option.bind_eq_bind, Option.bind_some]
      by_cases hnull : (t.nodes k).obj = .null
      · refine ⟨s, chain', free', by simp [hnull], hthreads, ?_, hn, by omega⟩
        apply hcounts.congr
        intro o ho
        exact countsBelow_succ_null hnull ho
      · have hfree : free' ≠ [] := by
          rintro rfl
          have hsum := hthreads.slotused_add
          simp at hsum
          omega
        obtain ⟨f, rest, s', rfl, hf, hfnull, hadd, hthreads', hn', hused', hobj, _, hother⟩ :=
          add_eq hthreads hfree hnull
        obtain ⟨hzero, hnext⟩ := countsBelow_succ hc (by omega) hnull
        have hrefs : 0 < (t.nodes k).refs := by
          rw [hc.refs_eq k (by omega) hnull]
          exact (hc.held _ hnull).mpr ⟨k, by omega, rfl⟩
        refine ⟨s'.setRefs f (t.nodes k).refs, _, rest, ?_, hthreads'.setRefs _ _, ?_,
          hn'.trans hn, ?_⟩
        · simp [hnull, hadd]
        · rw [← hnext]
          exact hcounts.add hn' hf hfnull hnull hzero hrefs hobj hother
        · simp only [setRefs, setNode]
          omega

/-! ### The three operations -/

/-- `t` keeps the counts `c`. -/
def Represents (hash : Object → Nat) (t : RefTable) (c : Object → Nat) : Prop :=
  ∃ chain free, Threads hash t chain free ∧ Counts t c

theorem init_represents : Represents hash init fun _ => 0 :=
  ⟨_, _, allocNodes_threads (by decide), allocNodes_counts 4⟩

/-- The search for a held object ends at its node, with the one before it. -/
theorem get_held (h : Threads hash t chain free) (hc : Counts t c) (ho : o ≠ .null) {a : Nat}
    (ha : a < t.numofslots) (hobj : (t.nodes a).obj = o) (add : Bool) :
    ∃ l₁ l₂, chain (t.mainpos hash o) = l₁ ++ a :: l₂ ∧
      t.get hash o add =
        some (t, { mainpos := t.mainpos hash o, prev := l₁.getLast?, ref := some a }) := by
  obtain ⟨l₁, l₂, hsplit, hfind⟩ := find_held h hc ho ha hobj
  refine ⟨l₁, l₂, hsplit, ?_⟩
  simp [get, hfind]

theorem get_missing (h : Threads hash t chain free)
    (hnone : ∀ a < t.numofslots, (t.nodes a).obj ≠ o) :
    ∃ prev, t.get hash o false =
      some (t, { mainpos := t.mainpos hash o, prev := prev, ref := none }) := by
  obtain ⟨prev, hfind⟩ := find_missing h hnone
  refine ⟨prev, ?_⟩
  simp [get, hfind]

/-- `Get` with `add` makes room when the table is full and takes a free node. -/
theorem get_add (h : Threads hash t chain free) (hc : Counts t c) (ho : o ≠ .null)
    (hnone : ∀ a < t.numofslots, (t.nodes a).obj ≠ o) :
    ∃ s chain' free' f t' found, Threads hash s chain' free' ∧ Counts s c ∧
      t.get hash o true = some (t', found) ∧ found.ref = some f ∧
      (∃ chain'' free'', Threads hash t' chain'' free'') ∧ t'.numofslots = s.numofslots ∧
      f < s.numofslots ∧ (s.nodes f).obj = .null ∧ (t'.nodes f).obj = o ∧
      (t'.nodes f).refs = 0 ∧ ∀ a, a ≠ f → t'.nodes a = s.nodes a := by
  obtain ⟨prev, hfind⟩ := find_missing h hnone
  -- after the test for room there is a free node, whether or not the table grew
  obtain ⟨s, chain', free', hroom, hs, hcs, hfree⟩ : ∃ s chain' free',
      (if t.numofslots = t.slotused then t.resize hash (t.numofslots * 2) else some t) = some s ∧
      Threads hash s chain' free' ∧ Counts s c ∧ free' ≠ [] := by
    have hpos := h.slots_pos
    by_cases hfull : t.numofslots = t.slotused
    · rw [if_pos hfull]
      obtain ⟨s, chain', free', heq, hs, hcs, hn, hused⟩ : ∃ s chain' free',
          t.resize hash (t.numofslots * 2) = some s ∧ Threads hash s chain' free' ∧
            Counts s c ∧ s.numofslots = t.numofslots * 2 ∧ s.slotused ≤ t.numofslots :=
        resize_eq hc (by omega) (by omega)
      refine ⟨s, chain', free', heq, hs, hcs, ?_⟩
      rintro rfl
      have hsum := hs.slotused_add
      simp at hsum
      omega
    · rw [if_neg hfull]
      refine ⟨t, chain, free, rfl, h, hc, ?_⟩
      rintro rfl
      have hsum := h.slotused_add
      simp at hsum
      omega
  obtain ⟨f, rest, t', rfl, hf, hfnull, hadd, ht', hn', _, hobj, hrefs, hother⟩ :=
    add_eq hs hfree ho
  refine ⟨s, chain', f :: rest, f, t',
    { mainpos := s.mainpos hash o, prev := prev, ref := some f }, hs, hcs, ?_, rfl,
    ⟨_, _, ht'⟩, hn', hf, hfnull, hobj, ?_, hother⟩
  · simp [get, hfind, hroom, hadd]
  · rw [hrefs]
    exact hcs.free_refs f hf hfnull

/-- `AddRef` always succeeds and counts one more. -/
theorem addRef_eq (h : Represents hash t c) (ho : o ≠ .null) :
    ∃ t', t.addRef hash o = some t' ∧ Represents hash t' (Function.update c o (c o + 1)) := by
  obtain ⟨chain, free, hthreads, hc⟩ := h
  by_cases hheld : ∃ a < t.numofslots, (t.nodes a).obj = o
  · obtain ⟨a, ha, hobj⟩ := hheld
    obtain ⟨l₁, l₂, _, hget⟩ := get_held hthreads hc ho ha hobj true
    have hrefs : (t.nodes a).refs = c o := by
      rw [← hobj]
      exact hc.refs_eq a ha (hobj ▸ ho)
    refine ⟨t.setRefs a (c o + 1), by simp [addRef, hget, hrefs], chain, free,
      hthreads.setRefs _ _, ?_⟩
    have hn : (t.setRefs a (c o + 1)).numofslots = t.numofslots := rfl
    apply hc.assign hn ha ho (.inl hobj) (Nat.succ_pos _)
    · rw [setRefs_obj]
      exact hobj
    · rw [setRefs_refs, if_pos rfl]
    · intro b hb
      rw [setRefs_obj, setRefs_refs, if_neg hb]
      exact ⟨rfl, rfl⟩
  · have hnone : ∀ a < t.numofslots, (t.nodes a).obj ≠ o :=
      fun a ha hao => hheld ⟨a, ha, hao⟩
    obtain ⟨s, _, _, f, t', found, _, hcs, hget, href, ⟨chain', free', ht'⟩, hn, hf, hfnull, hobj,
      hrefs, hother⟩ := get_add hthreads hc ho hnone
    have hzero : c o = 0 := hc.eq_zero ho hnone
    refine ⟨t'.setRefs f 1, by simp [addRef, hget, href, hrefs], chain', free',
      ht'.setRefs _ _, ?_⟩
    rw [hzero]
    exact hcs.add hn hf hfnull ho hzero Nat.one_pos hobj hother

/-- `GetRefCount` reads the count. -/
theorem getRefCount_eq (h : Represents hash t c) (ho : o ≠ .null) :
    t.getRefCount hash o = some (c o) := by
  obtain ⟨chain, free, hthreads, hc⟩ := h
  by_cases hheld : ∃ a < t.numofslots, (t.nodes a).obj = o
  · obtain ⟨a, ha, hobj⟩ := hheld
    obtain ⟨l₁, l₂, _, hget⟩ := get_held hthreads hc ho ha hobj false
    have hrefs : (t.nodes a).refs = c o := by
      rw [← hobj]
      exact hc.refs_eq a ha (hobj ▸ ho)
    simp [getRefCount, hget, hrefs]
  · have hnone : ∀ a < t.numofslots, (t.nodes a).obj ≠ o :=
      fun a ha hao => hheld ⟨a, ha, hao⟩
    obtain ⟨prev, hget⟩ := get_missing hthreads hnone
    simp [getRefCount, hget, hc.eq_zero ho hnone]

/-- The release of an object that is not held changes nothing. -/
theorem release_missing (h : Represents hash t c) (ho : o ≠ .null) (hzero : c o = 0) :
    t.release hash o = some (t, false) := by
  obtain ⟨chain, free, hthreads, hc⟩ := h
  have hnone : ∀ a < t.numofslots, (t.nodes a).obj ≠ o := by
    intro a ha hao
    have hpos : 0 < c o := (hc.held o ho).mpr ⟨a, ha, hao⟩
    omega
  obtain ⟨prev, hget⟩ := get_missing hthreads hnone
  simp [release, hget]

section FreeNode

variable {mp a b : Nat} {prev : Option Nat}

theorem freeNode_numofslots : (t.freeNode mp prev a).numofslots = t.numofslots := by
  cases prev <;> rfl

theorem freeNode_slotused : (t.freeNode mp prev a).slotused = t.slotused - 1 := by
  cases prev <;> rfl

theorem freeNode_freelist : (t.freeNode mp prev a).freelist = some a := by
  cases prev <;> rfl

theorem freeNode_buckets : (t.freeNode mp prev a).buckets =
    Function.update t.buckets mp (if prev = none then t.links a else t.buckets mp) := by
  cases prev with
  | none => rfl
  | some p =>
      simp only [freeNode, setNode, reduceCtorEq, if_false]
      exact (Function.update_eq_self mp t.buckets).symm

/-- A freed node is taken out of its chain and put in front of the free list.
-/
theorem freeNode_links (hprev : prev ≠ some a) : (t.freeNode mp prev a).links =
    Function.update (unlink t.links prev (t.links a)) a t.freelist := by
  funext b
  by_cases hb : b = a
  · subst hb
    cases prev <;> simp [links, freeNode, setNode, setBucket]
  · cases prev with
    | none => simp [links, freeNode, setNode, setBucket, unlink, hb]
    | some p =>
        by_cases hbp : b = p
        · subst hbp
          simp [links, freeNode, setNode, unlink, hb]
        · simp [links, freeNode, setNode, unlink, hb, hbp]

theorem freeNode_obj_self : ((t.freeNode mp prev a).nodes a).obj = .null := by
  cases prev <;> simp [freeNode, setNode, setBucket]

theorem freeNode_obj (hb : b ≠ a) :
    ((t.freeNode mp prev a).nodes b).obj = (t.nodes b).obj := by
  cases prev with
  | none => simp [freeNode, setNode, setBucket, hb]
  | some p =>
      by_cases hbp : b = p
      · subst hbp
        simp [freeNode, setNode, hb]
      · simp [freeNode, setNode, hb, hbp]

theorem freeNode_refs : ((t.freeNode mp prev a).nodes b).refs = (t.nodes b).refs := by
  by_cases hb : b = a
  · subst hb
    cases prev with
    | none => simp [freeNode, setNode, setBucket]
    | some p =>
        by_cases hbp : b = p
        · subst hbp
          simp [freeNode, setNode]
        · simp [freeNode, setNode, hbp]
  · cases prev with
    | none => simp [freeNode, setNode, setBucket, hb]
    | some p =>
        by_cases hbp : b = p
        · subst hbp
          simp [freeNode, setNode, hb]
        · simp [freeNode, setNode, hb, hbp]

end FreeNode

/-- There are fewer free nodes than nodes while one is in use. -/
theorem Threads.free_length_lt (h : Threads hash t chain free) {a : Nat} (ha : a < t.numofslots)
    (hafree : a ∉ free) : free.length < t.numofslots := by
  have hsub : free ⊆ (List.range t.numofslots).erase a := by
    intro b hb
    have hba : b ≠ a := fun heq => hafree (heq ▸ hb)
    exact (List.mem_erase_of_ne hba).mpr (List.mem_range.mpr ((h.mem_free b).mp hb).1)
  have hle := (h.free_nodup.subperm hsub).length_le
  rw [List.length_erase_of_mem (List.mem_range.mpr ha), List.length_range] at hle
  omega

/-- A node in use is not free. -/
theorem Threads.not_free (h : Threads hash t chain free) {i : Nat} (hi : i < t.numofslots) {a : Nat}
    (ha : a ∈ chain i) : a ∉ free :=
  fun hfree => ((h.mem_chain i hi a).mp ha).2.1 ((h.mem_free a).mp hfree).2

/-- A node is on one chain. -/
theorem Threads.chain_disjoint (h : Threads hash t chain free) {i j : Nat} (hi : i < t.numofslots)
    (hj : j < t.numofslots) (hij : i ≠ j) {a : Nat} (ha : a ∈ chain j) : a ∉ chain i :=
  fun hai => hij (((h.mem_chain i hi a).mp hai).2.2.symm.trans ((h.mem_chain j hj a).mp ha).2.2)

section Removed

variable {a : Nat} {l₁ l₂ : List Nat} (h : Threads hash t chain free)
  (hsplit : chain (t.mainpos hash o) = l₁ ++ a :: l₂)

include h hsplit

/-- The chains without the node. -/
theorem Threads.mem_without {i : Nat} (hi : i < t.numofslots) (b : Nat) :
    b ∈ Function.update chain (t.mainpos hash o) (l₁ ++ l₂) i ↔ b ≠ a ∧ b ∈ chain i := by
  have hmp := h.mainpos_lt o
  have hnodup : (l₁ ++ a :: l₂).Nodup := hsplit ▸ h.chain_nodup _ hmp
  obtain ⟨hal₁, hal₂⟩ := not_mem_of_nodup hnodup
  by_cases hieq : i = t.mainpos hash o
  · subst hieq
    rw [Function.update_self, hsplit]
    by_cases hba : b = a
    · simp [hba, hal₁, hal₂]
    · simp [hba]
  · rw [Function.update_of_ne hieq]
    have hai : a ∉ chain i := h.chain_disjoint hi hmp hieq (by simp [hsplit])
    by_cases hba : b = a
    · simp [hba, hai]
    · simp [hba]

/-- The links without the node are those of the chains without it. -/
theorem Threads.isList_without {i : Nat} (hi : i < t.numofslots) (r : Option Nat) :
    IsList (Function.update (unlink t.links l₁.getLast? (t.links a)) a r)
      (Function.update t.buckets (t.mainpos hash o)
        (if l₁ = [] then t.links a else t.buckets (t.mainpos hash o)) i)
      (Function.update chain (t.mainpos hash o) (l₁ ++ l₂) i) := by
  have hmp := h.mainpos_lt o
  by_cases hieq : i = t.mainpos hash o
  · subst hieq
    rw [Function.update_self, Function.update_self]
    have hlist := h.chain_isList _ hmp
    rw [hsplit] at hlist
    exact hlist.remove_reuse (hsplit ▸ h.chain_nodup _ hmp) r
  · rw [Function.update_of_ne hieq, Function.update_of_ne hieq]
    have hdisj : ∀ b ∈ l₁ ++ a :: l₂, b ∉ chain i :=
      fun b hb => h.chain_disjoint hi hmp hieq (hsplit ▸ hb)
    exact (h.chain_isList i hi).remove_other (hdisj a (by simp)) fun p hp =>
      hdisj p (List.mem_append_left _ hp)

/-- Taking the last reference away: the node leaves its chain for the free list. -/
theorem Threads.removed (hn : t'.numofslots = t.numofslots) (hused : t'.slotused = t.slotused - 1)
    (hfree : t'.freelist = some a)
    (hbuckets : t'.buckets = Function.update t.buckets (t.mainpos hash o)
      (if l₁ = [] then t.links a else t.buckets (t.mainpos hash o)))
    (hlinks : t'.links = Function.update (unlink t.links l₁.getLast? (t.links a)) a t.freelist)
    (hnull : (t'.nodes a).obj = .null)
    (hother : ∀ b, b ≠ a → (t'.nodes b).obj = (t.nodes b).obj) :
    Threads hash t' (Function.update chain (t.mainpos hash o) (l₁ ++ l₂)) (a :: free) := by
  have hmp := h.mainpos_lt o
  have hmem : ∀ b ∈ l₁ ++ a :: l₂, b ∈ chain (t.mainpos hash o) := fun b hb => hsplit ▸ hb
  have hnodup : (l₁ ++ a :: l₂).Nodup := hsplit ▸ h.chain_nodup _ hmp
  have ha : a < t.numofslots := ((h.mem_chain _ hmp a).mp (hmem a (by simp))).1
  have hafree : a ∉ free := h.not_free hmp (hmem a (by simp))
  have hmain : ∀ o', t'.mainpos hash o' = t.mainpos hash o' := fun _ => mainpos_congr hn
  constructor
  · rw [hn]
    exact h.slots_pos
  · intro i hi
    rw [hlinks, hbuckets]
    exact h.isList_without hsplit (hn ▸ hi) _
  · rw [hfree]
    apply IsList.cons
    rw [hlinks, Function.update_self]
    exact h.free_isList.remove_other hafree fun p hp =>
      h.not_free hmp (hmem p (List.mem_append_left _ hp))
  · intro i hi
    by_cases hieq : i = t.mainpos hash o
    · subst hieq
      rw [Function.update_self]
      exact hnodup.sublist (List.Sublist.append_left (List.sublist_cons_self a l₂) l₁)
    · rw [Function.update_of_ne hieq]
      exact h.chain_nodup i (hn ▸ hi)
  · exact List.nodup_cons.mpr ⟨hafree, h.free_nodup⟩
  · intro i hi b
    rw [hn] at hi ⊢
    rw [h.mem_without hsplit hi, h.mem_chain i hi]
    by_cases hba : b = a
    · simp [hba, hnull]
    · simp [hba, hother b hba, hmain]
  · intro b
    rw [hn]
    by_cases hba : b = a
    · subst hba
      simp [ha, hnull]
    · rw [hother b hba, ← h.mem_free b]
      simp [hba]
  · have hsum := h.slotused_add
    have hlt := h.free_length_lt ha hafree
    rw [hused, hn, List.length_cons]
    omega

end Removed

/-- `Release` of a held object counts one less; it says so when none is left. -/
theorem release_held (h : Represents hash t c) (ho : o ≠ .null) (hpos : 0 < c o) :
    ∃ t', t.release hash o = some (t', decide (c o = 1)) ∧
      Represents hash t' (Function.update c o (c o - 1)) := by
  obtain ⟨chain, free, hthreads, hc⟩ := h
  obtain ⟨a, ha, hobj⟩ := (hc.held o ho).mp hpos
  obtain ⟨l₁, l₂, hsplit, hget⟩ := get_held hthreads hc ho ha hobj false
  have hrefs : (t.nodes a).refs = c o := by
    rw [← hobj]
    exact hc.refs_eq a ha (hobj ▸ ho)
  have hself : ((t.setRefs a (c o - 1)).nodes a).refs = c o - 1 := by
    rw [setRefs_refs, if_pos rfl]
  by_cases hlast : c o = 1
  · have hi := hthreads.mainpos_lt o
    have hal₁ : a ∉ l₁ := by
      have hnodup := hthreads.chain_nodup _ hi
      rw [hsplit] at hnodup
      exact (not_mem_of_nodup hnodup).1
    have hprev : l₁.getLast? ≠ some a := fun heq => hal₁ (List.mem_of_getLast? heq)
    let s := t.setRefs a (c o - 1)
    have hs : Threads hash s chain free := hthreads.setRefs a _
    have hsplit' : chain (s.mainpos hash o) = l₁ ++ a :: l₂ := hsplit
    refine ⟨s.freeNode (t.mainpos hash o) l₁.getLast? a, ?_, _, _, hs.removed hsplit'
      freeNode_numofslots freeNode_slotused freeNode_freelist ?_ (freeNode_links hprev)
      freeNode_obj_self fun b hb => freeNode_obj hb, ?_⟩
    · have hnone : ((t.setRefs a 0).nodes a).refs = 0 := by
        rw [setRefs_refs, if_pos rfl]
      simp [release, hget, hrefs, hnone, hlast, s]
    · have hfirst : (l₁ = []) ↔ l₁.getLast? = none := List.getLast?_eq_none_iff.symm
      simp only [hfirst]
      exact freeNode_buckets
    · have hzero : c o - 1 = 0 := by omega
      rw [hzero]
      have hn : (s.freeNode (t.mainpos hash o) l₁.getLast? a).numofslots = t.numofslots :=
        freeNode_numofslots
      apply hc.clear hn ha ho hobj freeNode_obj_self
      · rw [freeNode_refs, hself, hzero]
      · intro b hb
        rw [freeNode_obj hb, freeNode_refs, setRefs_obj, setRefs_refs, if_neg hb]
        exact ⟨rfl, rfl⟩
  · have hne : c o - 1 ≠ 0 := by omega
    refine ⟨t.setRefs a (c o - 1), ?_, chain, free, hthreads.setRefs _ _, ?_⟩
    · simp [release, hget, hrefs, hself, hne, hlast]
    · have hn : (t.setRefs a (c o - 1)).numofslots = t.numofslots := rfl
      apply hc.assign hn ha ho (.inl hobj) (by omega)
      · rw [setRefs_obj]
        exact hobj
      · exact hself
      · intro b hb
        rw [setRefs_obj, setRefs_refs, if_neg hb]
        exact ⟨rfl, rfl⟩

/-! ### What the array looks like -/

/-- Some node of the table holds `o`. -/
def holds (t : RefTable) (o : Object) : Prop := ∃ a < t.numofslots, (t.nodes a).obj = o

instance (t : RefTable) (o : Object) : Decidable (t.holds o) := by
  unfold holds
  infer_instance

/-- The bucket chains and the free list partition the array; `slotused` counts the
nodes on the chains. -/
def Partitioned (t : RefTable) : Prop :=
  ∃ chain free, (∀ i < t.numofslots, IsList t.links (t.buckets i) (chain i)) ∧
    IsList t.links t.freelist free ∧
    ((List.range t.numofslots).flatMap chain ++ free).Perm (List.range t.numofslots) ∧
    t.slotused = ((List.range t.numofslots).flatMap chain).length

/-- Every node is in one chain or on the free list. -/
theorem Threads.partitioned (h : Threads hash t chain free) : t.Partitioned := by
  have hmem : ∀ a, a ∈ (List.range t.numofslots).flatMap chain ↔
      a < t.numofslots ∧ (t.nodes a).obj ≠ .null := by
    intro a
    simp only [List.mem_flatMap, List.mem_range]
    constructor
    · rintro ⟨i, hi, ha⟩
      obtain ⟨hlt, hnull, _⟩ := (h.mem_chain i hi a).mp ha
      exact ⟨hlt, hnull⟩
    · rintro ⟨hlt, hnull⟩
      have hi := h.mainpos_lt (t.nodes a).obj
      exact ⟨_, hi, (h.mem_chain _ hi a).mpr ⟨hlt, hnull, rfl⟩⟩
  have hnodup : ((List.range t.numofslots).flatMap chain ++ free).Nodup := by
    apply List.nodup_append.mpr ⟨_, h.free_nodup, _⟩
    · apply List.nodup_flatMap.mpr
      constructor
      · intro i hi
        exact h.chain_nodup i (List.mem_range.mp hi)
      · apply List.Pairwise.imp_of_mem _ List.nodup_range
        intro i j hi hj hne a hai haj
        -- a node is on the chain of its object's main position only
        have hmi := ((h.mem_chain i (List.mem_range.mp hi) a).mp hai).2.2
        have hmj := ((h.mem_chain j (List.mem_range.mp hj) a).mp haj).2.2
        exact hne (hmi.symm.trans hmj)
    · intro a ha b hb hab
      subst hab
      exact ((hmem a).mp ha).2 ((h.mem_free a).mp hb).2
  have hperm : ((List.range t.numofslots).flatMap chain ++ free).Perm
      (List.range t.numofslots) := by
    rw [List.perm_ext_iff_of_nodup hnodup List.nodup_range]
    intro a
    rw [List.mem_append, hmem, h.mem_free, List.mem_range]
    constructor
    · rintro (⟨hlt, _⟩ | ⟨hlt, _⟩) <;> exact hlt
    · intro hlt
      by_cases hnull : (t.nodes a).obj = .null
      · exact .inr ⟨hlt, hnull⟩
      · exact .inl ⟨hlt, hnull⟩
  refine ⟨chain, free, h.chain_isList, h.free_isList, hperm, ?_⟩
  have hlen := hperm.length_eq
  rw [List.length_append, List.length_range] at hlen
  have hsum := h.slotused_add
  omega

theorem Represents.holds_iff (h : Represents hash t c) (ho : o ≠ .null) :
    t.holds o ↔ 0 < c o := by
  obtain ⟨_, _, _, hc⟩ := h
  exact (hc.held o ho).symm

theorem Represents.partitioned (h : Represents hash t c) : t.Partitioned := by
  obtain ⟨_, _, hthreads, _⟩ := h
  exact hthreads.partitioned

/-! ### Runs -/

/-- A call of the host. -/
inductive HostCall where
  | addref (po : Object)
  | release (po : Object)
  | getrefcount (po : Object)

/-- The table, with how often each object was added, and how often it was released
while the table held it. -/
structure Host where
  table : RefTable
  addRefs : Object → Nat
  releases : Object → Nat

def Host.init : Host where
  table := RefTable.init
  addRefs _ := 0
  releases _ := 0

/-- One more for `o`. -/
def bump (c : Object → Nat) (o : Object) : Object → Nat := Function.update c o (c o + 1)

def Host.call (hash : Object → Nat) (s : Host) : HostCall → Option Host
  | .addref po => do
      let table ← s.table.GS_addref hash po
      return { s with table := table, addRefs := bump s.addRefs po }
  | .release po => do
      let (table, _) ← s.table.GS_release hash po
      return { s with
        table := table
        releases := if s.table.holds po then bump s.releases po else s.releases }
  | .getrefcount po => do
      let _ ← s.table.GS_getrefcount hash po
      return s

def Host.run (hash : Object → Nat) (calls : List HostCall) : Option Host :=
  calls.foldlM (Host.call hash) Host.init

theorem ne_null_of_isRefCounted (ho : o.isRefCounted) : o ≠ .null := by
  rintro rfl
  exact absurd ho (by decide)

/-- The table keeps the counts `c`, which for the objects the host may hold are the
balance of its calls. -/
def Host.Balanced (hash : Object → Nat) (s : Host) : Prop :=
  ∃ c, Represents hash s.table c ∧
    ∀ o, o.isRefCounted → s.addRefs o = c o + s.releases o

/-- **A call of the host keeps every count equal to its balance.** -/
theorem Host.call_balanced {s : Host} (h : s.Balanced hash) (call : HostCall) :
    ∃ s', s.call hash call = some s' ∧ s'.Balanced hash := by
  obtain ⟨c, hrep, hbal⟩ := h
  cases call with
  | addref po =>
      by_cases hpo : po.isRefCounted
      · obtain ⟨t', hadd, hrep'⟩ := addRef_eq hrep (ne_null_of_isRefCounted hpo)
        refine ⟨_, by simp [Host.call, GS_addref, hpo, hadd]; rfl, _, hrep', ?_⟩
        intro o ho
        have hold := hbal o ho
        by_cases heq : o = po
        · subst heq
          simp only [bump, Function.update_self]
          omega
        · simpa [bump, heq] using hold
      · refine ⟨{ s with addRefs := bump s.addRefs po }, by simp [Host.call, GS_addref, hpo], c,
          hrep, ?_⟩
        intro o ho
        have heq : o ≠ po := fun heq => hpo (heq ▸ ho)
        simpa [bump, heq] using hbal o ho
  | release po =>
      by_cases hpo : po.isRefCounted
      · have hnull := ne_null_of_isRefCounted hpo
        by_cases hpos : 0 < c po
        · have hholds : s.table.holds po := (hrep.holds_iff hnull).mpr hpos
          obtain ⟨t', hrel, hrep'⟩ := release_held hrep hnull hpos
          refine ⟨_, by simp [Host.call, GS_release, hpo, hrel, hholds]; rfl, _, hrep', ?_⟩
          intro o ho
          have hold := hbal o ho
          by_cases heq : o = po
          · subst heq
            simp only [bump, Function.update_self]
            omega
          · simpa [bump, heq] using hold
        · have hholds : ¬ s.table.holds po := fun hh => hpos ((hrep.holds_iff hnull).mp hh)
          have hrel := release_missing hrep hnull (by omega)
          refine ⟨s, by simp [Host.call, GS_release, hpo, hrel, hholds], c, hrep, hbal⟩
      · refine ⟨{ s with releases := if s.table.holds po then bump s.releases po else s.releases },
          by simp [Host.call, GS_release, hpo], c, hrep, ?_⟩
        intro o ho
        have heq : o ≠ po := fun heq => hpo (heq ▸ ho)
        have hold := hbal o ho
        by_cases hholds : s.table.holds po
        · simpa [bump, hholds, heq] using hold
        · simpa [hholds] using hold
  | getrefcount po =>
      by_cases hpo : po.isRefCounted
      · have hget := getRefCount_eq hrep (ne_null_of_isRefCounted hpo)
        exact ⟨s, by simp [Host.call, GS_getrefcount, hpo, hget], c, hrep, hbal⟩
      · exact ⟨s, by simp [Host.call, GS_getrefcount, hpo], c, hrep, hbal⟩

/-- No sequence of calls fails, and every count is its balance in the end. -/
theorem Host.run_balanced (calls : List HostCall) :
    ∃ s, Host.run hash calls = some s ∧ s.Balanced hash := by
  have hloop : ∀ s : Host, s.Balanced hash →
      ∃ s', calls.foldlM (Host.call hash) s = some s' ∧ s'.Balanced hash := by
    induction calls with
    | nil =>
        intro s hs
        exact ⟨s, rfl, hs⟩
    | cons call calls ih =>
        intro s hs
        obtain ⟨s', hcall, hs'⟩ := s.call_balanced hs call
        obtain ⟨s'', hrest, hs''⟩ := ih s' hs'
        exact ⟨s'', by simp [hcall, hrest], hs''⟩
  apply hloop
  exact ⟨_, init_represents, fun _ _ => rfl⟩

/-- After any calls of the host, on any objects: every call succeeds, the count of an object
is its `AddRef`s less the `Release`s that found it, the table holds it while that is
positive, `Release` says whether a held object's count came to zero, and the chains
and the free list partition the nodes. -/
theorem refCount_eq_balance (hash : Object → Nat) (calls : List HostCall) :
    ∃ s, Host.run hash calls = some s ∧ s.table.Partitioned ∧
      ∀ o, o.isRefCounted →
        s.releases o ≤ s.addRefs o ∧
        s.table.GS_getrefcount hash o = some (s.addRefs o - s.releases o) ∧
        (s.table.holds o ↔ 0 < s.addRefs o - s.releases o) ∧
        ∃ t' zero, s.table.GS_release hash o = some (t', zero) ∧
          (zero = true ↔ s.table.holds o ∧ t'.GS_getrefcount hash o = some 0) := by
  obtain ⟨s, hrun, c, hrep, hbal⟩ : ∃ s, Host.run hash calls = some s ∧ s.Balanced hash :=
    Host.run_balanced calls
  refine ⟨s, hrun, hrep.partitioned, ?_⟩
  intro o ho
  have hnull := ne_null_of_isRefCounted ho
  have hco : s.addRefs o - s.releases o = c o := by
    have := hbal o ho
    omega
  rw [hco, hrep.holds_iff hnull]
  refine ⟨?_, ?_, Iff.rfl, ?_⟩
  · have := hbal o ho
    omega
  · simp [GS_getrefcount, ho, getRefCount_eq hrep hnull]
  · simp only [GS_release, GS_getrefcount, ho, if_true]
    by_cases hpos : 0 < c o
    · obtain ⟨t', hrel, hrep'⟩ := release_held hrep hnull hpos
      refine ⟨t', _, hrel, ?_⟩
      rw [getRefCount_eq hrep' hnull, Function.update_self, decide_eq_true_eq, Option.some.injEq]
      omega
    · refine ⟨s.table, false, release_missing hrep hnull (by omega), ?_⟩
      simp [hpos]

/-- Two objects with one hash, of which one is released as often as it was added, and the other one
less. -/
def twoObjects : List HostCall :=
  [.addref (.table 1), .addref (.table 2), .addref (.table 1), .release (.table 3),
    .release (.table 2), .release (.table 1), .release (.table 2)]

def released : Host := (Host.run (fun _ => 0) twoObjects).getD Host.init

/-- Two objects in one chain, of which one is released. -/
theorem refCount_eq_balance_table :
    Host.run (fun _ => 0) twoObjects = some released ∧
      released.table.GS_getrefcount (fun _ => 0) (.table 1) = some (2 - 1) ∧
      released.table.GS_getrefcount (fun _ => 0) (.table 2) = some (1 - 1) ∧
      released.table.holds (.table 1) ∧ ¬ released.table.holds (.table 2) := by
  obtain ⟨s, hrun, _, hall⟩ := refCount_eq_balance (fun _ => 0) twoObjects
  have hsome : Host.run (fun _ => 0) twoObjects = some released := by
    rw [released, hrun, Option.getD_some]
  cases hrun.symm.trans hsome
  have hone : released.addRefs (.table 1) = 2 ∧ released.releases (.table 1) = 1 := by
    decide +kernel
  have htwo : released.addRefs (.table 2) = 1 ∧ released.releases (.table 2) = 1 := by
    decide +kernel
  obtain ⟨-, hcount₁, hholds₁, -⟩ := hall (.table 1) (by decide)
  obtain ⟨-, hcount₂, hholds₂, -⟩ := hall (.table 2) (by decide)
  rw [hone.1, hone.2] at hcount₁ hholds₁
  rw [htwo.1, htwo.2] at hcount₂ hholds₂
  exact ⟨hsome, hcount₁, hcount₂, hholds₁.mpr (by decide), fun h => absurd (hholds₂.mp h) (by decide)⟩

end RefTable

end GameScript
