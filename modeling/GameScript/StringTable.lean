import Mathlib.Data.List.GetD
import GameScript.Object
import GameScript.Lib.Buckets

/-!
`GSStringTable` (`GSstate.cpp`): the table of interned strings.

Strings of one bucket are linked through `_next`. `mem` is the memory the strings
live in; an allocation takes the address `top`, which is in no use. A string is
given as the characters a call is about: a buffer holds at least as many as the
length says. A walk that does not come to an end gives `none`.
-/

namespace GameScript

open LinkedList

/-! ### The two hash routines (`GSstring.h`) -/

/-- `(unsigned short)c` of a signed `GSChar`. -/
def hashChar (c : UInt8) : UInt64 := if c < 128 then c.toUInt64 else c.toUInt64 + 0xFF00

/-- `h ^ ((h << 5) + (h >> 2) + c)`. -/
def hashMix (h : UInt64) (c : UInt8) : UInt64 := h ^^^ ((h <<< 5) + (h >>> 2) + hashChar c)

/-- The loop of `_hashstr` from `l1` downwards, in steps of `skip + 1`. -/
def hashLoop (s : List UInt8) (skip : Nat) (l1 : Nat) (h : UInt64) : UInt64 :=
  if l1 ≥ skip + 1 then hashLoop s skip (l1 - (skip + 1)) (hashMix h (s.getD (l1 - 1) 0)) else h
termination_by l1

/-- `_hashstr`: the step is `(l >> 5) + 1`. -/
def _hashstr (s : List UInt8) : UInt64 :=
  hashLoop s (s.length >>> 5) s.length (UInt64.ofNat s.length)

/-- The first loop of `_hashstr2`, over the second piece; it leaves when the index falls
into the first one. -/
def hashLoop2 (as bs : List UInt8) (skip : Nat) (l1 : Nat) (h : UInt64) : Nat × UInt64 :=
  if l1 ≥ skip + 1 then
    let idx : Int := l1 - 1 - as.length
    if idx < 0 then (l1, h)
    else hashLoop2 as bs skip (l1 - (skip + 1)) (hashMix h (bs.getD idx.toNat 0))
  else (l1, h)
termination_by l1
decreasing_by
  rename_i hskip _
  exact Nat.sub_lt (Nat.lt_of_lt_of_le (Nat.succ_pos skip) hskip) (Nat.succ_pos skip)

/-- `_hashstr2`. -/
def _hashstr2 (as bs : List UInt8) : UInt64 :=
  let l := as.length + bs.length
  let (l1, h) := hashLoop2 as bs (l >>> 5) l (UInt64.ofNat l)
  hashLoop as (l >>> 5) l1 h

theorem hashLoop_of_ge {s : List UInt8} {skip l1 : Nat} (h : UInt64) (hge : l1 ≥ skip + 1) :
    hashLoop s skip l1 h =
      hashLoop s skip (l1 - (skip + 1)) (hashMix h (s.getD (l1 - 1) 0)) := by
  rw [hashLoop, if_pos hge]

theorem hashLoop_of_lt {s : List UInt8} {skip l1 : Nat} (h : UInt64) (hlt : ¬ l1 ≥ skip + 1) :
    hashLoop s skip l1 h = h := by
  rw [hashLoop, if_neg hlt]

/-- Below the end of the first piece the walk does not see the second. -/
theorem hashLoop_append (as bs : List UInt8) (skip l1 : Nat) (h : UInt64)
    (hl : l1 ≤ as.length) : hashLoop (as ++ bs) skip l1 h = hashLoop as skip l1 h := by
  induction l1, h using hashLoop.induct as skip with
  | case1 l1 h hge ih =>
      have hget : (as ++ bs).getD (l1 - 1) 0 = as.getD (l1 - 1) 0 :=
        List.getD_append _ _ _ _ (by omega)
      rw [hashLoop_of_ge h hge, hashLoop_of_ge h hge, hget]
      exact ih (by omega)
  | case2 l1 h hlt => rw [hashLoop_of_lt h hlt, hashLoop_of_lt h hlt]

/-- The two loops one after the other read what the one loop over both pieces reads. -/
theorem hashLoop2_eq (as bs : List UInt8) (skip l1 : Nat) (h : UInt64) :
    hashLoop as skip (hashLoop2 as bs skip l1 h).1 (hashLoop2 as bs skip l1 h).2 =
      hashLoop (as ++ bs) skip l1 h := by
  induction l1, h using hashLoop2.induct as bs skip with
  | case1 l1 h hge idx hidx =>
      rw [hashLoop2, if_pos hge, if_pos hidx]
      exact (hashLoop_append as bs skip l1 h (by omega)).symm
  | case2 l1 h hge idx hidx ih =>
      have hget : (as ++ bs).getD (l1 - 1) 0 = bs.getD idx.toNat 0 := by
        have hidx' : l1 - 1 - as.length = idx.toNat := by omega
        rw [List.getD_eq_getElem?_getD, List.getElem?_append_right (by omega), hidx',
          List.getD_eq_getElem?_getD]
      rw [hashLoop2, if_pos hge, if_neg hidx, hashLoop_of_ge h hge, hget]
      exact ih
  | case3 l1 h hlt => rw [hashLoop2, if_neg hlt, hashLoop_of_lt h hlt, hashLoop_of_lt h hlt]

/-- The hash of two pieces is the hash of their concatenation, wherever it is split. -/
theorem _hashstr2_eq (as bs : List UInt8) : _hashstr2 as bs = _hashstr (as ++ bs) := by
  rw [_hashstr2, _hashstr, List.length_append]
  exact hashLoop2_eq as bs _ _ _

/-! ### The table -/

/-- `GSString`: the characters, their hash and the next string of the bucket. -/
structure GSString where
  val : List UInt8 := []
  hash : UInt64 := 0
  next : Option Ref := none

structure StringTable where
  strings : Nat → Option Ref
  numofslots : Nat
  slotused : Nat
  mem : Ref → GSString
  top : Ref

namespace StringTable

/-- The links of the memory. -/
def links (t : StringTable) : Ref → Option Ref := fun p => (t.mem p).next

/-- `hash & (_numofslots - 1)`. -/
def slot (t : StringTable) (hash : UInt64) : Nat := hash.toNat &&& (t.numofslots - 1)

def setHead (t : StringTable) (h : Nat) (head : Option Ref) : StringTable :=
  { t with strings := Function.update t.strings h head }

/-- `p->_next = next`. -/
def setNext (t : StringTable) (p : Ref) (next : Option Ref) : StringTable :=
  { t with mem := Function.update t.mem p { t.mem p with next := next } }

/-- `AllocNodes`. -/
def allocNodes (t : StringTable) (size : Nat) : StringTable :=
  { t with numofslots := size, strings := fun _ => none }

/-- The constructor. -/
def init : StringTable :=
  { strings := fun _ => none, numofslots := 0, slotused := 0, mem := fun _ => {}, top := 0 :
    StringTable }.allocNodes 4

/-- The inner loop of `Resize`: the strings of one old bucket go to the front of the new
buckets, one after the other. -/
def moveChain : Nat → Option Ref → StringTable → Option StringTable
  | _, none, t => some t
  | 0, some _, _ => none
  | fuel + 1, some p, t =>
      let next := (t.mem p).next
      let h := t.slot (t.mem p).hash
      moveChain fuel next ((t.setNext p (t.strings h)).setHead h (some p))

/-- `Resize`. -/
def resize (t : StringTable) (size : Nat) : Option StringTable :=
  (List.range t.numofslots).foldlM (fun t' i => moveChain t'.slotused (t.strings i) t')
    (t.allocNodes size)

/-- The new string of `Add` and `Concat`, in front of its bucket. -/
def push (t : StringTable) (val : List UInt8) (newhash : UInt64) : StringTable :=
  let h := t.slot newhash
  let p := t.top
  let s : GSString := { val := val, hash := newhash, next := t.strings h }
  let t := { t with mem := Function.update t.mem p s, top := p + 1, slotused := t.slotused + 1 }
  t.setHead h (some p)

/-- The end of `Add` and `Concat`: a new string, and more buckets when it is too crowded. -/
def insert (t : StringTable) (val : List UInt8) (newhash : UInt64) : Option (StringTable × Ref) := do
  let p := t.top
  let t := t.push val newhash
  let t ← (if t.slotused > t.numofslots then t.resize (t.numofslots * 2) else some t)
  return (t, p)

/-- `Concat`. -/
def concat (t : StringTable) (a b : List UInt8) : Option (StringTable × Ref) := do
  let newhash := _hashstr2 a b
  let same (p : Ref) : Bool :=
    (t.mem p).val.length = a.length + b.length ∧
      (t.mem p).val.take a.length = a ∧ (t.mem p).val.drop a.length = b
  let (_, s) ← find t.links same t.slotused none (t.strings (t.slot newhash))
  match s with
  | some s => return (t, s)
  | none => t.insert (a ++ b) newhash

/-- The characters `Add` is about: all up to the first NUL of a negative length, as `scstrlen`
counts them, else as many as the length says. -/
def chars (news : List UInt8) (len : Int) : List UInt8 :=
  if len < 0 then news.takeWhile (· ≠ 0) else news.take len.toNat

/-- `Add`. -/
def add (t : StringTable) (news : List UInt8) (len : Int) : Option (StringTable × Ref) := do
  let val := chars news len
  let newhash := _hashstr val
  let same (p : Ref) : Bool := (t.mem p).val.length = val.length ∧ (t.mem p).val = val
  let (_, s) ← find t.links same t.slotused none (t.strings (t.slot newhash))
  match s with
  | some s => return (t, s)
  | none => t.insert val newhash

/-- `Remove`. A string that is not in the table fails the assertion, which a release build
does not have. -/
def remove (t : StringTable) (bs : Ref) : Option StringTable := do
  let h := t.slot (t.mem bs).hash
  let (prev, s) ← find t.links (· = bs) t.slotused none (t.strings h)
  match s with
  | some s =>
      let next := (t.mem s).next
      let t := match prev with
        | some prev => t.setNext prev next
        | none => t.setHead h next
      return { t with slotused := t.slotused - 1 }
  | none => return t

variable {t t' : StringTable} {live : List Ref} {val : List UInt8}

/-! ### The invariant -/

/-- The bucket of the string at `p`. -/
def key (t : StringTable) (p : Ref) : Nat := t.slot (t.mem p).hash

/-- The strings `live` are in the buckets their hashes select, with no text twice. -/
structure Interned (t : StringTable) (live : List Ref) : Prop where
  slots_pos : 0 < t.numofslots
  buckets : Buckets t.links t.strings t.numofslots t.key live
  nodup : live.Nodup
  slotused : t.slotused = live.length
  below : ∀ p ∈ live, p < t.top
  hash_eq : ∀ p ∈ live, (t.mem p).hash = _hashstr (t.mem p).val
  unique : ∀ p ∈ live, ∀ q ∈ live, (t.mem p).val = (t.mem q).val → p = q

theorem slot_lt (hpos : 0 < t.numofslots) (hash : UInt64) : t.slot hash < t.numofslots := by
  have hle : t.slot hash ≤ t.numofslots - 1 := Nat.and_le_right
  omega

/-! ### Rehashing -/

/-- `t` with other buckets: the strings have kept their text and their hash. -/
structure SameStrings (t t' : StringTable) : Prop where
  slotused : t'.slotused = t.slotused
  top : t'.top = t.top
  val : ∀ p, (t'.mem p).val = (t.mem p).val
  hash : ∀ p, (t'.mem p).hash = (t.mem p).hash

theorem SameStrings.refl (t : StringTable) : SameStrings t t :=
  ⟨rfl, rfl, fun _ => rfl, fun _ => rfl⟩

theorem SameStrings.trans {t'' : StringTable} (h : SameStrings t t') (h' : SameStrings t' t'') :
    SameStrings t t'' :=
  ⟨h'.slotused.trans h.slotused, h'.top.trans h.top, fun p => (h'.val p).trans (h.val p),
    fun p => (h'.hash p).trans (h.hash p)⟩

/-- One string moves to the front of its new bucket. -/
def movedTo (t : StringTable) (p : Ref) : StringTable :=
  (t.setNext p (t.strings (t.key p))).setHead (t.key p) (some p)

theorem movedTo_sameStrings (t : StringTable) (p : Ref) : SameStrings t (t.movedTo p) := by
  have hmem : ∀ q, ((t.movedTo p).mem q).val = (t.mem q).val ∧
      ((t.movedTo p).mem q).hash = (t.mem q).hash := by
    intro q
    by_cases hq : q = p
    · subst hq
      simp [movedTo, setHead, setNext]
    · simp [movedTo, setHead, setNext, hq]
  exact ⟨rfl, rfl, fun q => (hmem q).1, fun q => (hmem q).2⟩

theorem movedTo_links (t : StringTable) (p : Ref) :
    (t.movedTo p).links = Function.update t.links p (t.strings (t.key p)) := by
  funext q
  by_cases hq : q = p
  · subst hq
    simp [links, movedTo, setHead, setNext]
  · simp [links, movedTo, setHead, setNext, hq]

theorem SameStrings.key_eq (h : SameStrings t t') (hn : t'.numofslots = t.numofslots) :
    t'.key = t.key := by
  funext p
  rw [key, key, h.hash p, slot, slot, hn]

/-- The inner loop empties one old bucket into the new ones. -/
theorem moveChain_eq {l done : List Ref} {head : Option Ref} {fuel : Nat}
    (hl : IsList t.links head l) (hfuel : l.length ≤ fuel) (hnodup : l.Nodup)
    (hdisj : ∀ p ∈ l, p ∉ done) (hdone : Buckets t.links t.strings t.numofslots t.key done) :
    ∃ t', moveChain fuel head t = some t' ∧ SameStrings t t' ∧ t'.numofslots = t.numofslots ∧
      Buckets t'.links t'.strings t'.numofslots t'.key (l.reverse ++ done) ∧
      ∀ p, p ∉ l → t'.links p = t.links p := by
  induction l generalizing t head done fuel with
  | nil =>
      cases hl
      refine ⟨t, by cases fuel <;> rfl, SameStrings.refl t, rfl, hdone, fun _ _ => rfl⟩
  | cons p l ih =>
      cases hl with
      | cons hl =>
          obtain ⟨fuel, rfl⟩ : ∃ n, fuel = n + 1 := ⟨fuel - 1, by simp at hfuel; omega⟩
          obtain ⟨hpl, hnodup⟩ := List.nodup_cons.mp hnodup
          have hpdone : p ∉ done := hdisj p List.mem_cons_self
          have hsame := movedTo_sameStrings t p
          have hkey : (t.movedTo p).key = t.key := hsame.key_eq rfl
          have hrest : IsList (t.movedTo p).links (t.links p) l := by
            apply hl.congr
            intro q hq
            have hqp : q ≠ p := fun heq => hpl (heq ▸ hq)
            rw [movedTo_links, Function.update_of_ne hqp]
          have hpushed : Buckets (t.movedTo p).links (t.movedTo p).strings
              (t.movedTo p).numofslots (t.movedTo p).key (p :: done) := by
            rw [hkey, movedTo_links]
            exact hdone.push hpdone
          have hdisj' : ∀ q ∈ l, q ∉ p :: done := by
            intro q hq hmem
            rcases List.mem_cons.mp hmem with rfl | hmem
            · exact hpl hq
            · exact hdisj q (List.mem_cons_of_mem _ hq) hmem
          obtain ⟨t', heq, hsame', hn, hb, hframe⟩ :=
            ih hrest (by simpa using hfuel) hnodup hdisj' hpushed
          refine ⟨t', heq, hsame.trans hsame', hn, ?_, ?_⟩
          · rw [List.reverse_cons, List.append_assoc]
            exact hb
          · intro q hq
            rw [List.mem_cons, not_or] at hq
            rw [hframe q hq.2, movedTo_links, Function.update_of_ne hq.1]

/-- `Resize` moves every string and changes none. -/
theorem resize_eq (h : Interned t live) {size : Nat} (hsize : 0 < size) :
    ∃ t', t.resize size = some t' ∧ SameStrings t t' ∧ Interned t' live := by
  suffices hloop : ∀ k ≤ t.numofslots, ∃ t' done,
      (List.range k).foldlM (fun t' i => moveChain t'.slotused (t.strings i) t')
        (t.allocNodes size) = some t' ∧ SameStrings t t' ∧ t'.numofslots = size ∧
      Buckets t'.links t'.strings t'.numofslots t'.key done ∧
      (∀ p, p ∈ done ↔ p ∈ live ∧ t.key p < k) ∧
      ∀ p ∈ live, k ≤ t.key p → t'.links p = t.links p by
    obtain ⟨t', done, heq, hsame, hn, hb, hmem, -⟩ := hloop _ (Nat.le_refl _)
    refine ⟨t', heq, hsame, ?_⟩
    constructor
    · rw [hn]
      exact hsize
    · apply hb.mem_congr
      intro p
      rw [hmem p]
      constructor
      · intro hp
        exact hp.1
      · intro hp
        exact ⟨hp, slot_lt h.slots_pos _⟩
    · exact h.nodup
    · rw [hsame.slotused]
      exact h.slotused
    · rw [hsame.top]
      exact h.below
    · intro p hp
      rw [hsame.hash, hsame.val]
      exact h.hash_eq p hp
    · intro p hp q hq hval
      rw [hsame.val, hsame.val] at hval
      exact h.unique p hp q hq hval
  intro k
  induction k with
  | zero =>
      intro _
      refine ⟨t.allocNodes size, [], rfl, ⟨rfl, rfl, fun _ => rfl, fun _ => rfl⟩, rfl, ?_, ?_, ?_⟩
      · exact Buckets.empty
      · simp
      · intro p _ _
        rfl
  | succ k ih =>
      intro hk
      obtain ⟨s, done, heq, hsame, hn, hb, hmem, hframe⟩ := ih (by omega)
      obtain ⟨l, hl, hnodup, hlmem⟩ := h.buckets k (by omega)
      have hl' : IsList s.links (t.strings k) l := by
        apply hl.congr
        intro p hp
        obtain ⟨hlive, hkey⟩ := (hlmem p).mp hp
        exact hframe p hlive (by omega)
      have hfuel : l.length ≤ s.slotused := by
        have hsub : l ⊆ live := fun p hp => ((hlmem p).mp hp).1
        have hlen := (hnodup.subperm hsub).length_le
        rw [hsame.slotused, h.slotused]
        exact hlen
      have hdisj : ∀ p ∈ l, p ∉ done := by
        intro p hp hpd
        have hlt := ((hmem p).mp hpd).2
        have hkey := ((hlmem p).mp hp).2
        omega
      obtain ⟨t', heq', hsame', hn', hb', hframe'⟩ := moveChain_eq hl' hfuel hnodup hdisj hb
      refine ⟨t', l.reverse ++ done, ?_, hsame.trans hsame', hn'.trans hn, hb', ?_, ?_⟩
      · rw [List.range_succ, List.foldlM_append, heq]
        simp [heq']
      · intro p
        rw [List.mem_append, List.mem_reverse, hlmem p, hmem p, ← and_or_left]
        constructor
        · rintro ⟨hp, hkey | hkey⟩ <;> exact ⟨hp, by omega⟩
        · rintro ⟨hp, hkey⟩
          exact ⟨hp, by omega⟩
      · intro p hp hkp
        have hpl : p ∉ l := by
          intro hpl
          have hkey := ((hlmem p).mp hpl).2
          omega
        rw [hframe' p hpl]
        exact hframe p hp (by omega)

/-! ### Looking up and inserting -/

/-- What `Add` and `Concat` both do for the text `val`. -/
def intern (t : StringTable) (val : List UInt8) : Option (StringTable × Ref) := do
  let (_, s) ← find t.links (fun p => (t.mem p).val = val) t.slotused none
    (t.strings (t.slot (_hashstr val)))
  match s with
  | some s => return (t, s)
  | none => t.insert val (_hashstr val)

theorem add_eq_intern (t : StringTable) (news : List UInt8) (len : Int) :
    t.add news len = t.intern (chars news len) := by
  have hsame : (fun p => decide ((t.mem p).val.length = (chars news len).length ∧
      (t.mem p).val = chars news len)) = fun p => decide ((t.mem p).val = chars news len) := by
    funext p
    rw [decide_eq_decide]
    constructor
    · rintro ⟨_, hval⟩
      exact hval
    · intro hval
      exact ⟨by rw [hval], hval⟩
  simp only [add, intern, hsame]

theorem concat_eq_intern (t : StringTable) (a b : List UInt8) :
    t.concat a b = t.intern (a ++ b) := by
  have hsame : (fun p => decide ((t.mem p).val.length = a.length + b.length ∧
      (t.mem p).val.take a.length = a ∧ (t.mem p).val.drop a.length = b)) =
      fun p => decide ((t.mem p).val = a ++ b) := by
    funext p
    rw [decide_eq_decide]
    constructor
    · rintro ⟨_, ha, hb⟩
      rw [← List.take_append_drop a.length (t.mem p).val, ha, hb]
    · intro hval
      rw [hval]
      simp
  simp only [concat, intern, hsame, _hashstr2_eq]

section Push

variable {hash : UInt64}

theorem push_mem_top : (t.push val hash).mem t.top =
    { val := val, hash := hash, next := t.strings (t.slot hash) } := by
  simp [push, setHead]

theorem push_mem {q : Ref} (hq : q ≠ t.top) : (t.push val hash).mem q = t.mem q := by
  simp [push, setHead, hq]

theorem push_links : (t.push val hash).links =
    Function.update t.links t.top (t.strings (t.slot hash)) := by
  funext q
  by_cases hq : q = t.top
  · subst hq
    rw [links, push_mem_top, Function.update_self]
  · rw [links, push_mem hq, Function.update_of_ne hq]
    rfl

theorem push_key : (t.push val hash).key = Function.update t.key t.top (t.slot hash) := by
  funext q
  by_cases hq : q = t.top
  · subst hq
    rw [key, push_mem_top, Function.update_self]
    rfl
  · rw [key, push_mem hq, Function.update_of_ne hq]
    rfl

end Push

/-- The new string is at `top`, and its text is in the table once. -/
theorem push_interned (h : Interned t live) (hnew : ∀ q ∈ live, (t.mem q).val ≠ val) :
    Interned (t.push val (_hashstr val)) (t.top :: live) := by
  have htop : t.top ∉ live := fun hlive => Nat.lt_irrefl _ (h.below _ hlive)
  have hne : ∀ q ∈ live, q ≠ t.top := fun q hq heq => htop (heq ▸ hq)
  constructor
  · exact h.slots_pos
  · rw [push_links, push_key]
    have hkeys : Buckets t.links t.strings t.numofslots
        (Function.update t.key t.top (t.slot (_hashstr val))) live := by
      apply h.buckets.congr
      · intro _ _
        rfl
      · intro _ _
        rfl
      · intro q hq
        rw [Function.update_of_ne (hne q hq)]
    have hpush := hkeys.push htop
    rw [Function.update_self] at hpush
    exact hpush
  · exact List.nodup_cons.mpr ⟨htop, h.nodup⟩
  · simp [push, setHead, h.slotused]
  · intro q hq
    rcases List.mem_cons.mp hq with rfl | hq
    · exact Nat.lt_succ_self _
    · exact Nat.lt_succ_of_lt (h.below q hq)
  · intro q hq
    rcases List.mem_cons.mp hq with rfl | hq
    · rw [push_mem_top]
    · rw [push_mem (hne q hq)]
      exact h.hash_eq q hq
  · intro p hp q hq hval
    rcases List.mem_cons.mp hp with rfl | hp <;> rcases List.mem_cons.mp hq with rfl | hq
    · rfl
    · rw [push_mem_top, push_mem (hne q hq)] at hval
      exact absurd hval.symm (hnew q hq)
    · rw [push_mem_top, push_mem (hne p hp)] at hval
      exact absurd hval (hnew p hp)
    · rw [push_mem (hne p hp), push_mem (hne q hq)] at hval
      exact h.unique p hp q hq hval

/-- The walk finds a live string by its text. -/
theorem find_text (h : Interned t live) (val : List UInt8) :
    (∃ p ∈ live, (t.mem p).val = val ∧ t.intern val = some (t, p)) ∨
      (∀ p ∈ live, (t.mem p).val ≠ val) ∧ t.intern val = t.insert val (_hashstr val) := by
  have hslot := slot_lt h.slots_pos (_hashstr val)
  have hfuel : live.length ≤ t.slotused := Nat.le_of_eq h.slotused.symm
  by_cases hex : ∃ p ∈ live, (t.mem p).val = val
  · obtain ⟨p, hp, hval⟩ := hex
    have hkey : t.key p = t.slot (_hashstr val) := by
      rw [key, h.hash_eq p hp, hval]
    obtain ⟨prev, hfind, -⟩ := h.buckets.find_some
      (p := fun q => decide ((t.mem q).val = val)) (hkey ▸ hslot) hfuel h.nodup hp
      (by simp [hval])
      (by
        intro q hq _ hqval
        exact h.unique q hq p hp ((of_decide_eq_true hqval).trans hval.symm))
    rw [hkey] at hfind
    left
    exact ⟨p, hp, hval, by simp [intern, hfind]⟩
  · have hnone : ∀ p ∈ live, (t.mem p).val ≠ val := fun p hp hval => hex ⟨p, hp, hval⟩
    obtain ⟨prev, hfind⟩ := h.buckets.find_none
      (p := fun q => decide ((t.mem q).val = val)) hslot hfuel
      (by
        intro q hq _
        simpa using hnone q hq)
    right
    exact ⟨hnone, by simp [intern, hfind]⟩

/-- Interning a text gives the live string with it, or a new one. -/
theorem intern_eq (h : Interned t live) (val : List UInt8) :
    ∃ t' p, t.intern val = some (t', p) ∧ (t'.mem p).val = val ∧
      (∀ q ∈ live, (t'.mem q).val = (t.mem q).val) ∧
      Interned t' (if p ∈ live then live else p :: live) := by
  rcases find_text h val with ⟨p, hp, hval, heq⟩ | ⟨hnew, heq⟩
  · refine ⟨t, p, heq, hval, fun _ _ => rfl, ?_⟩
    rw [if_pos hp]
    exact h
  · have htop : t.top ∉ live := fun hlive => Nat.lt_irrefl _ (h.below _ hlive)
    have hpush := push_interned h hnew
    have hother : ∀ q ∈ live, ((t.push val (_hashstr val)).mem q).val = (t.mem q).val := by
      intro q hq
      have hne : q ≠ t.top := fun heq => htop (heq ▸ hq)
      rw [push_mem hne]
    have hgrow : ∃ t', (if (t.push val (_hashstr val)).slotused > (t.push val (_hashstr val)).numofslots
        then (t.push val (_hashstr val)).resize ((t.push val (_hashstr val)).numofslots * 2)
        else some (t.push val (_hashstr val))) = some t' ∧
        SameStrings (t.push val (_hashstr val)) t' ∧ Interned t' (t.top :: live) := by
      split
      · apply resize_eq hpush
        have hpos := hpush.slots_pos
        omega
      · exact ⟨_, rfl, SameStrings.refl _, hpush⟩
    obtain ⟨t', hgrow, hsame, hint⟩ := hgrow
    refine ⟨t', t.top, ?_, ?_, ?_, ?_⟩
    · simp [heq, insert, hgrow]
    · rw [hsame.val, push_mem_top]
    · intro q hq
      rw [hsame.val]
      exact hother q hq
    · rw [if_neg htop]
      exact hint

/-- `Remove` of a live string. -/
theorem remove_eq (h : Interned t live) {p : Ref} (hp : p ∈ live) :
    ∃ t', t.remove p = some t' ∧ (∀ q, (t'.mem q).val = (t.mem q).val) ∧
      Interned t' (live.erase p) := by
  have hslot : t.key p < t.numofslots := slot_lt h.slots_pos _
  obtain ⟨prev, hfind, hprev, hprevlive, hb⟩ := h.buckets.find_some (p := (· = p)) hslot
    (Nat.le_of_eq h.slotused.symm) h.nodup hp (by simp) (by
      intro q _ _ hq
      exact of_decide_eq_true hq)
  have hlen : (live.erase p).length = t.slotused - 1 := by
    rw [List.length_erase_of_mem hp, h.slotused]
  have hmem : ∀ q ∈ live.erase p, q ∈ live := fun q hq => List.mem_of_mem_erase hq
  have hfind' : find t.links (fun x => decide (x = p)) t.slotused none
      (t.strings (t.slot (t.mem p).hash)) = some (prev, some p) := hfind
  cases prev with
  | none =>
      refine ⟨{ t.setHead (t.key p) (t.links p) with slotused := t.slotused - 1 },
        by simp only [remove, hfind']; rfl, fun _ => rfl, ?_⟩
      constructor
      · exact h.slots_pos
      · exact hb
      · exact h.nodup.erase p
      · exact hlen.symm
      · exact fun q hq => h.below q (hmem q hq)
      · exact fun q hq => h.hash_eq q (hmem q hq)
      · exact fun q hq q' hq' => h.unique q (hmem q hq) q' (hmem q' hq')
  | some r =>
      let s : StringTable := { t.setNext r (t.links p) with slotused := t.slotused - 1 }
      have hval : ∀ q, (s.mem q).val = (t.mem q).val ∧ (s.mem q).hash = (t.mem q).hash := by
        intro q
        by_cases hq : q = r
        · subst hq
          simp [s, setNext]
        · simp [s, setNext, hq]
      have hkey : s.key = t.key := by
        funext q
        rw [key, key, (hval q).2]
        rfl
      have hlinks : s.links = unlink t.links (some r) (t.links p) := by
        funext q
        by_cases hq : q = r
        · subst hq
          simp [links, s, setNext, unlink]
        · simp [links, s, setNext, unlink, hq]
      refine ⟨s, by simp only [remove, hfind']; rfl, fun q => (hval q).1, ?_⟩
      constructor
      · exact h.slots_pos
      · rw [hkey, hlinks]
        apply hb.congr
        · intro i _
          simp [s, setNext]
        · intro _ _
          rfl
        · intro _ _
          rfl
      · exact h.nodup.erase p
      · exact hlen.symm
      · exact fun q hq => h.below q (hmem q hq)
      · intro q hq
        rw [(hval q).1, (hval q).2]
        exact h.hash_eq q (hmem q hq)
      · intro q hq q' hq' heq
        rw [(hval q).1, (hval q').1] at heq
        exact h.unique q (hmem q hq) q' (hmem q' hq') heq

/-- `Remove` of anything else finds nothing. -/
theorem remove_of_not_mem (h : Interned t live) {p : Ref} (hp : p ∉ live) :
    t.remove p = some t := by
  obtain ⟨prev, hfind⟩ := h.buckets.find_none (p := (· = p)) (slot_lt h.slots_pos (t.mem p).hash)
    (Nat.le_of_eq h.slotused.symm) (by
      intro q hq _ heq
      exact hp (of_decide_eq_true heq ▸ hq))
  simp [remove, hfind]

/-! ### Runs -/

/-- A call on the table. -/
inductive Call where
  | add (news : List UInt8) (len : Int)
  | concat (a b : List UInt8)
  | remove (bs : Ref)
  | resize (size : Nat) (pos : 0 < size)

/-- The table with the strings that were handed out and not removed since, and the text
each was asked for. -/
structure Session where
  table : StringTable
  live : List Ref
  text : Ref → List UInt8

def Session.init : Session where
  table := StringTable.init
  live := []
  text _ := []

/-- The string `p` was asked for by the text `val`. -/
def Session.handOut (s : Session) (table : StringTable) (p : Ref) (val : List UInt8) : Session where
  table := table
  live := if p ∈ s.live then s.live else p :: s.live
  text := Function.update s.text p val

def Session.call (s : Session) : Call → Option Session
  | .add news len => do
      let (table, p) ← s.table.add news len
      return s.handOut table p (chars news len)
  | .concat a b => do
      let (table, p) ← s.table.concat a b
      return s.handOut table p (a ++ b)
  | .remove bs => do
      let table ← s.table.remove bs
      return { s with table := table, live := s.live.erase bs }
  | .resize size _ => do
      let table ← s.table.resize size
      return { s with table := table }

def Session.run (calls : List Call) : Option Session :=
  calls.foldlM Session.call Session.init

/-- The live strings are interned under the texts they were asked for. -/
structure Session.Sound (s : Session) : Prop where
  interned : Interned s.table s.live
  text : ∀ p ∈ s.live, (s.table.mem p).val = s.text p

/-- Handing out the string for a text keeps what was handed out before. -/
theorem Session.Sound.handOut {s : Session} (h : s.Sound) (val : List UInt8) :
    ∃ t p, s.table.intern val = some (t, p) ∧ (s.handOut t p val).Sound := by
  obtain ⟨t, p, heq, hval, hother, hint⟩ := intern_eq h.interned val
  refine ⟨t, p, heq, hint, ?_⟩
  intro q hq
  by_cases hqp : q = p
  · subst hqp
    simp [Session.handOut, hval]
  · have hlive : q ∈ s.live := by
      simp only [Session.handOut] at hq
      split at hq
      · exact hq
      · exact (List.mem_cons.mp hq).resolve_left hqp
    simp only [Session.handOut, Function.update_of_ne hqp]
    rw [hother q hlive]
    exact h.text q hlive

theorem Session.call_sound {s : Session} (h : s.Sound) (call : Call) :
    ∃ s', s.call call = some s' ∧ s'.Sound := by
  cases call with
  | add news len =>
      obtain ⟨t, p, heq, hs⟩ := h.handOut (chars news len)
      exact ⟨_, by simp [Session.call, add_eq_intern, heq], hs⟩
  | concat a b =>
      obtain ⟨t, p, heq, hs⟩ := h.handOut (a ++ b)
      exact ⟨_, by simp [Session.call, concat_eq_intern, heq], hs⟩
  | remove bs =>
      by_cases hbs : bs ∈ s.live
      · obtain ⟨t, heq, hval, hint⟩ := remove_eq h.interned hbs
        refine ⟨{ s with table := t, live := s.live.erase bs },
          by simp [Session.call, heq], hint, ?_⟩
        intro q hq
        rw [hval]
        exact h.text q (List.mem_of_mem_erase hq)
      · have heq := remove_of_not_mem h.interned hbs
        refine ⟨s, ?_, h⟩
        simp [Session.call, heq, List.erase_of_not_mem hbs]
  | resize size pos =>
      obtain ⟨t, heq, hsame, hint⟩ := resize_eq h.interned pos
      refine ⟨{ s with table := t }, by simp [Session.call, heq], hint, ?_⟩
      intro q hq
      rw [hsame.val]
      exact h.text q hq

theorem Session.init_sound : Session.init.Sound := by
  constructor
  · constructor
    · decide
    · exact Buckets.empty
    · exact List.nodup_nil
    · rfl
    · intro p hp
      cases hp
    · intro p hp
      cases hp
    · intro p hp
      cases hp
  · intro p hp
    cases hp

theorem Session.run_sound (calls : List Call) : ∃ s, Session.run calls = some s ∧ s.Sound := by
  have hloop : ∀ s : Session, s.Sound →
      ∃ s', calls.foldlM Session.call s = some s' ∧ s'.Sound := by
    induction calls with
    | nil =>
        intro s hs
        exact ⟨s, rfl, hs⟩
    | cons call calls ih =>
        intro s hs
        obtain ⟨s', hcall, hs'⟩ := s.call_sound hs call
        obtain ⟨s'', hrest, hs''⟩ := ih s' hs'
        exact ⟨s'', by simp [hcall, hrest], hs''⟩
  exact hloop _ Session.init_sound

/-- After any calls: every call succeeds, the live strings are each in the bucket that the
hash of its text selects and nowhere else, `slotused` counts them, two of them are one
exactly when they were asked for by one text, and `Concat` of two pieces is `Add` of the
two put together. -/
theorem strings_interned (calls : List Call) :
    ∃ s, Session.run calls = some s ∧
      (∀ p ∈ s.live, (s.table.mem p).val = s.text p) ∧
      Buckets s.table.links s.table.strings s.table.numofslots
        (fun p => s.table.slot (_hashstr (s.text p))) s.live ∧
      s.live.Nodup ∧ s.table.slotused = s.live.length ∧
      (∀ p ∈ s.live, ∀ q ∈ s.live, p = q ↔ s.text p = s.text q) ∧
      (∀ news len, ∃ t p, s.table.add news len = some (t, p) ∧
        (t.mem p).val = chars news len) ∧
      ∀ a b, s.table.concat a b = s.table.add (a ++ b) (a.length + b.length) := by
  obtain ⟨s, hrun, hint, htext⟩ := Session.run_sound calls
  refine ⟨s, hrun, htext, ?_, hint.nodup, hint.slotused, ?_, ?_, ?_⟩
  · apply hint.buckets.congr
    · intro _ _
      rfl
    · intro _ _
      rfl
    · intro p hp
      rw [key, hint.hash_eq p hp, htext p hp]
  · intro p hp q hq
    constructor
    · intro heq
      rw [heq]
    · intro heq
      apply hint.unique p hp q hq
      rw [htext p hp, htext q hq, heq]
  · intro news len
    obtain ⟨t, p, heq, hval, -⟩ := intern_eq hint (chars news len)
    exact ⟨t, p, by rw [add_eq_intern, heq], hval⟩
  · intro a b
    have hchars : chars (a ++ b) (a.length + b.length) = a ++ b := by
      rw [chars, if_neg (by omega), List.take_of_length_le]
      rw [List.length_append]
      omega
    rw [concat_eq_intern, add_eq_intern, hchars]

end StringTable

end GameScript
