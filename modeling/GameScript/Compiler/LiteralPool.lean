import GameScript.Compiler.Basic
import GameScript.Lib.Effect
import GameScript.Lib.Numbering
import GameScript.Table.Iteration

/-!
The literals of a function while it is compiled (`GSfuncstate.cpp`): `GetConstant` numbers them with
a table and a counter, and `BuildProto` turns the table into the array of the prototype. `fuel`
bounds how deep `NewSlot` and `Rehash` call each other.
-/

namespace GameScript

open Table Effect GameScript.Numbering

/-- `_literals` and `_nliterals`. -/
structure LiteralPool where
  literals : Table := .create 0
  nliterals : GSInteger := 0

namespace LiteralPool

/-- `_integer` of a value that the pool stored. -/
def _integer : Object → Except CompileError GSInteger
  | .integer n => .ok n
  | _ => .error .undefined

/-- `GetConstant`. -/
def GetConstant (hash : Object → Nat) (referent : Ref → Object) (fuel : Nat) (pool : LiteralPool)
    (cons : Object) : Except CompileError (GSInteger × LiteralPool) :=
  match pool.literals.get hash referent cons with
  | none => .error .outOfFuel
  | some (some val) => do return (← _integer val, pool)
  | some none =>
    let val := pool.nliterals
    match newSlot hash fuel pool.literals cons (.integer val) with
    | none => .error .outOfFuel
    | some (literals, _) =>
      let nliterals := pool.nliterals + 1
      if nliterals > Int64.ofNat MAX_LITERALS then
        .error (.error "internal compiler error: too many literals")
      else .ok (val, ⟨literals, nliterals⟩)

/-- The calls of `GetConstant` for one function. -/
def GetConstants (hash : Object → Nat) (referent : Ref → Object) (fuel : Nat) :
    LiteralPool → List Object → Except CompileError (List GSInteger × LiteralPool)
  | pool, [] => .ok ([], pool)
  | pool, cons :: constants => do
    let (n, pool) ← GetConstant hash referent fuel pool cons
    let (indices, pool) ← GetConstants hash referent fuel pool constants
    return (n :: indices, pool)

/-- The loop of `BuildProto` over the table, at most `count` times round. An entry is `none` until
it is assigned; its constructor leaves a null there. -/
def fillLiterals (referent : Ref → Object) (table : Table) :
    (count refidx : Nat) → List (Option Object) → Except CompileError (List (Option Object))
  | 0, _, _ => .error .outOfFuel
  | count + 1, refidx, literals =>
    match table.next referent false refidx with
    | none => .ok literals
    | some (idx, key, val) => do
      let n ← _integer val
      if 0 ≤ n.toInt ∧ n.toInt < literals.length then
        fillLiterals referent table count idx (literals.set n.toInt.toNat (some key))
      else .error .undefined

/-- `BuildProto`, as far as it makes the literals. -/
def BuildProto (referent : Ref → Object) (pool : LiteralPool) :
    Except CompileError (List (Option Object)) :=
  fillLiterals referent pool.literals (pool.literals.numofnodes + 1) 0
    (List.replicate pool.nliterals.toInt.toNat none)

variable {hash : Object → Nat} {referent : Ref → Object} {fuel : Nat} {pool : LiteralPool}
  {keys : List Object} {cons : Object}

/-! ### Numbering -/

/-- What the table of a pool holds for `keys`. -/
def numbers (keys : List Object) : Contents := fun key =>
  (numberOf keys key).map fun n => .integer (Int64.ofNat n)

/-- The pool has numbered `keys`. -/
structure Numbers (hash : Object → Nat) (pool : LiteralPool) (keys : List Object) : Prop where
  represents : Represents hash pool.literals (numbers keys)
  nliterals : pool.nliterals = Int64.ofNat keys.length
  length_le : keys.length ≤ MAX_LITERALS
  nodup : keys.Nodup
  ne_null : ∀ key ∈ keys, key ≠ .null

theorem numbers_start : Numbers hash {} [] where
  represents := create_represents 0
  nliterals := rfl
  length_le := Nat.zero_le _
  nodup := .nil
  ne_null := nofun

/-- A new key gets the next number. -/
theorem numbers_concat (hcons : cons ∉ keys) :
    numbers (keys ++ [cons]) =
      Function.update (numbers keys) cons (some (.integer (Int64.ofNat keys.length))) := by
  funext k
  unfold numbers
  rw [numberOf_concat hcons, Function.update_apply]
  split
  · rfl
  · rfl

theorem toInt_ofNat_le {n : Nat} (h : n ≤ MAX_LITERALS + 1) : (Int64.ofNat n).toInt = n := by
  unfold MAX_LITERALS at h
  exact Int64.toInt_ofNat_of_lt (by omega)

theorem succ_gt_iff {n : Nat} (h : n ≤ MAX_LITERALS) :
    Int64.ofNat n + 1 > Int64.ofNat MAX_LITERALS ↔ MAX_LITERALS < n + 1 := by
  have hsucc : Int64.ofNat n + 1 = Int64.ofNat (n + 1) := (Int64.ofNat_add n 1).symm
  rw [hsucc, gt_iff_lt, Int64.lt_iff_toInt_lt, toInt_ofNat_le (Nat.le_succ MAX_LITERALS),
    toInt_ofNat_le (Nat.succ_le_succ h), Int.ofNat_lt]

/-- The error of `GetConstant`. -/
def tooMany : CompileError := .error "internal compiler error: too many literals"

/-- `GetConstant` of anything but null asks for its number, and fails only where there are too
many. -/
theorem GetConstant_spec (h : Numbers hash pool keys) (hcons : cons ≠ .null) :
    (MAX_LITERALS < (ask keys cons).2.length ∧
      GetConstant hash referent (fuel + 2) pool cons = .error tooMany) ∨
    ∃ pool', GetConstant hash referent (fuel + 2) pool cons =
        .ok (Int64.ofNat (ask keys cons).1, pool') ∧
      Numbers hash pool' (ask keys cons).2 := by
  have hget := get_represents h.represents hcons referent
  have hnodup := nodup_ask h.nodup cons
  unfold GetConstant
  cases hnumber : numberOf keys cons with
  | some n =>
    have hval : numbers keys cons = some (.integer (Int64.ofNat n)) := by
      unfold numbers
      rw [hnumber]
      rfl
    rw [hget, hval, ask_of_some hnumber]
    exact .inr ⟨pool, rfl, h⟩
  | none =>
    have hval : numbers keys cons = none := by
      unfold numbers
      rw [hnumber]
      rfl
    have habsent := numberOf_eq_none.mp hnumber
    obtain ⟨literals, created, hnew, hrepresents⟩ :=
      newSlot_represents h.represents hcons (.integer pool.nliterals) fuel
    rw [ask_of_none hnumber] at hnodup
    rw [hget, hval, ask_of_none hnumber]
    simp only [Option.map_none, hnew]
    split
    · rename_i hmax
      rw [h.nliterals, succ_gt_iff h.length_le] at hmax
      refine .inl ⟨?_, rfl⟩
      rw [List.length_append, List.length_singleton]
      exact hmax
    · rename_i hmax
      rw [h.nliterals, succ_gt_iff h.length_le] at hmax
      refine .inr ⟨_, by rw [h.nliterals], ?_⟩
      constructor
      · rw [numbers_concat habsent, ← h.nliterals]
        exact hrepresents
      · rw [List.length_append, List.length_singleton, Int64.ofNat_add]
        rfl
      · rw [List.length_append, List.length_singleton]
        omega
      · exact hnodup
      · intro key hkey
        rcases List.mem_append.mp hkey with hkey | hkey
        · exact h.ne_null key hkey
        · rw [List.mem_singleton.mp hkey]
          exact hcons

theorem GetConstants_spec (h : Numbers hash pool keys) {constants : List Object}
    (hnull : .null ∉ constants) :
    GetConstants hash referent (fuel + 2) pool constants = .error tooMany ∨
    ∃ pool', GetConstants hash referent (fuel + 2) pool constants =
        .ok ((askAll keys constants).1.map Int64.ofNat, pool') ∧
      Numbers hash pool' (askAll keys constants).2 := by
  induction constants generalizing pool keys with
  | nil => exact .inr ⟨pool, rfl, h⟩
  | cons cons constants ih =>
    have hcons : cons ≠ .null := fun heq => hnull (heq ▸ List.mem_cons_self)
    have hrest : .null ∉ constants := fun hmem => hnull (List.mem_cons_of_mem _ hmem)
    unfold GetConstants
    rcases GetConstant_spec h hcons with ⟨_, hcall⟩ | ⟨pool₁, hcall, h₁⟩
    · rw [hcall]
      exact .inl rfl
    · rw [hcall]
      rcases ih h₁ hrest with hcalls | ⟨pool', hcalls, h'⟩
      · left
        simp only [bind, Except.bind, hcalls]
      · right
        refine ⟨pool', ?_, h'⟩
        simp only [bind, Except.bind, hcalls]
        rfl

/-! ### The array -/

/-- The entries of the keys in the nodes before `idx` are assigned. -/
structure Filled (keys : List Object) (table : Table) (idx : Nat)
    (literals : List (Option Object)) : Prop where
  length : literals.length = keys.length
  behind : ∀ (i n : Nat), i < idx → (table.nodes i).key ≠ .null →
    keys[n]? = some (table.nodes i).key → literals[n]? = some (some (table.nodes i).key)

theorem filled_start (keys : List Object) (table : Table) :
    Filled keys table 0 (List.replicate keys.length none) where
  length := List.length_replicate
  behind i _ hi := absurd hi (Nat.not_lt_zero i)

/-- The number that is stored with a key. -/
theorem Numbers.stored (h : Numbers hash pool keys) {i : Nat}
    (hi : (pool.literals.nodes i).key ≠ .null) :
    ∃ n, (pool.literals.nodes i).val = .integer (Int64.ofNat n) ∧
      keys[n]? = some (pool.literals.nodes i).key := by
  have hval := (h.represents.stores _ _ hi).mp ⟨i, rfl, rfl⟩
  unfold numbers at hval
  obtain ⟨n, hn, hval⟩ := Option.map_eq_some_iff.mp hval
  exact ⟨n, hval.symm, numberOf_eq_some hn⟩

/-- Every key is in a node. -/
theorem Numbers.node (h : Numbers hash pool keys) {n : Nat} {key : Object}
    (hkey : keys[n]? = some key) : ∃ i, (pool.literals.nodes i).key = key := by
  have hne := h.ne_null key (List.mem_of_getElem? hkey)
  have hval : numbers keys key = some (.integer (Int64.ofNat n)) := by
    unfold numbers
    rw [(numberOf_eq_some_iff h.nodup).mpr hkey]
    rfl
  obtain ⟨i, hi, _⟩ := (h.represents.stores key _ hne).mpr hval
  exact ⟨i, hi⟩

theorem Filled.next (h : Numbers hash pool keys) {idx j n : Nat}
    {literals : List (Option Object)} (hfilled : Filled keys pool.literals idx literals)
    (hn : keys[n]? = some (pool.literals.nodes j).key)
    (hskip : ∀ i, idx ≤ i → i < j → (pool.literals.nodes i).key = .null) :
    Filled keys pool.literals (j + 1) (literals.set n (some (pool.literals.nodes j).key)) where
  length := List.length_set.trans hfilled.length
  behind i m hi hkey hm := by
    obtain ⟨hlt, _⟩ := List.getElem?_eq_some_iff.mp hm
    by_cases hnm : n = m
    · subst hnm
      rw [← Option.some.inj (hn.symm.trans hm)]
      exact List.getElem?_set_self (by rw [hfilled.length]; exact hlt)
    · -- another entry, whose key is not in the node `j`
      have hij : i ≠ j := by
        rintro rfl
        exact hnm ((List.getElem?_inj hlt h.nodup).mp (hm.trans hn.symm)).symm
      have hidx : i < idx := by
        by_contra hge
        exact hkey (hskip i (by omega) (by omega))
      rw [List.getElem?_set_ne hnm]
      exact hfilled.behind i m hidx hkey hm

/-- With all of the nodes behind, every entry is assigned. -/
theorem Filled.all (h : Numbers hash pool keys) {idx : Nat} {literals : List (Option Object)}
    (hfilled : Filled keys pool.literals idx literals)
    (hnull : ∀ j, idx ≤ j → (pool.literals.nodes j).key = .null) : literals = keys.map some := by
  apply List.ext_getElem?
  intro n
  rw [List.getElem?_map]
  cases hkey : keys[n]? with
  | none =>
    rw [List.getElem?_eq_none_iff] at hkey
    exact List.getElem?_eq_none (by rw [hfilled.length]; exact hkey)
  | some key =>
    obtain ⟨i, hi⟩ := h.node hkey
    have hne : (pool.literals.nodes i).key ≠ .null := by
      rw [hi]
      exact h.ne_null key (List.mem_of_getElem? hkey)
    have hlt : i < idx := by
      by_contra hge
      exact hne (hnull i (by omega))
    rw [← hi] at hkey ⊢
    exact hfilled.behind i n hlt hne hkey

/-- The loop assigns the entry of every key. -/
theorem fillLiterals_spec (h : Numbers hash pool keys) {count idx : Nat}
    {literals : List (Option Object)} (hfilled : Filled keys pool.literals idx literals)
    (hcount : pool.literals.numofnodes < count + idx) (hidx : idx ≤ pool.literals.numofnodes) :
    fillLiterals referent pool.literals count idx literals = .ok (keys.map some) := by
  induction count generalizing idx literals with
  | zero => omega
  | succ count ih =>
    unfold fillLiterals
    rcases next_spec h.represents.wellFormed referent false idx with
      ⟨hnone, hnull⟩ | ⟨j, hsome, hj, hle, hskip⟩
    · rw [hnone]
      exact congrArg Except.ok (hfilled.all h hnull)
    · obtain ⟨n, hval, hn⟩ := h.stored hj
      obtain ⟨hlt, _⟩ := List.getElem?_eq_some_iff.mp hn
      have hj_lt := h.represents.wellFormed.wired.key_lt j hj
      have hlength := h.length_le
      have hinrange : (Int64.ofNat n).toInt = n := toInt_ofNat_le (by omega)
      have hentry : 0 ≤ (n : Int) ∧ (n : Int) < literals.length := by
        rw [hfilled.length]
        omega
      rw [hsome, hval]
      change (if 0 ≤ (Int64.ofNat n).toInt ∧ (Int64.ofNat n).toInt < literals.length then _
        else _) = _
      rw [hinrange, if_pos hentry, Int.toNat_natCast]
      exact ih (hfilled.next h hn hskip) (by omega) (by omega)

/-- The loop assigns null to no entry. -/
theorem fillLiterals_ne_null {table : Table} {count idx : Nat}
    {literals literals' : List (Option Object)}
    (h : fillLiterals referent table count idx literals = .ok literals')
    (hnull : some .null ∉ literals) : some .null ∉ literals' := by
  induction count generalizing idx literals with
  | zero => cases h
  | succ count ih =>
    unfold fillLiterals at h
    rcases nextFrom_spec referent table false (table.numofnodes - idx) idx with
      ⟨hnone, _⟩ | ⟨j, hsome, hj, _⟩
    · rw [show table.next referent false idx = none from hnone] at h
      cases h
      exact hnull
    · rw [show table.next referent false idx = some _ from hsome] at h
      dsimp only at h
      cases hval : _integer (realval referent (table.nodes j).val) with
      | error e =>
        rw [if_neg Bool.false_ne_true, hval] at h
        cases h
      | ok n =>
        rw [if_neg Bool.false_ne_true, hval] at h
        change (if _ then _ else _) = _ at h
        split at h
        · apply ih h
          intro hmem
          rcases List.mem_or_eq_of_mem_set hmem with hmem | heq
          · exact hnull hmem
          · exact hj (Option.some.inj heq).symm
        · cases h

/-- `BuildProto` makes the array of the keys. -/
theorem BuildProto_spec (h : Numbers hash pool keys) :
    BuildProto referent pool = .ok (keys.map some) := by
  unfold BuildProto
  have hlength := h.length_le
  rw [h.nliterals, toInt_ofNat_le (by omega), Int.toNat_natCast]
  exact fillLiterals_spec h (filled_start keys _) (Nat.lt_succ_self _) (Nat.zero_le _)

theorem BuildProto_ne_null {literals : List (Option Object)}
    (h : BuildProto referent pool = .ok literals) : some .null ∉ literals := by
  apply fillLiterals_ne_null h
  intro hmem
  cases List.eq_of_mem_replicate hmem

/-! ### The literals of the compiler -/

/-- The compiler's own `GetConstant` keeps the list of the numbered constants where the source keeps
the table of the pool. -/
theorem getConstant_eq_ask (fs : FuncState) (hcons : cons ≠ .null) :
    fs.getConstant cons =
      ((ask fs.literals.toList cons).1,
        { fs with literals := (ask fs.literals.toList cons).2.toArray }) := by
  have hfind : fs.literals.findIdx? (· = cons) = numberOf fs.literals.toList cons := by
    unfold numberOf
    rw [← List.findIdx?_toArray, Array.toArray_toList]
  unfold FuncState.getConstant
  rw [if_neg hcons, hfind]
  cases hnumber : numberOf fs.literals.toList cons with
  | some n => rw [ask_of_some hnumber]
  | none =>
    rw [ask_of_none hnumber]
    simp only [Array.length_toList, ← List.push_toArray, Array.toArray_toList]

theorem Compiler_GetConstant_apply (cons : Object) (c : Compiler) :
    Compiler.GetConstant cons c =
      if MAX_LITERALS < (c.fs.getConstant cons).2.literals.size then
        .error tooMany { c with fs := (c.fs.getConstant cons).2 }
      else .ok (c.fs.getConstant cons).1 { c with fs := (c.fs.getConstant cons).2 } := by
  unfold Compiler.GetConstant
  rw [bind_apply, show Compiler.getFs c = .ok c.fs c from rfl]
  dsimp only
  generalize c.fs.getConstant cons = found
  rw [bind_apply]
  change (if MAX_LITERALS < found.2.literals.size then _ else _ : CompilerM Int) _ = _
  split
  · rfl
  · rfl

theorem Compiler_GetConstant_ok (c : Compiler) (hcons : cons ≠ .null)
    (hmax : (ask c.fs.literals.toList cons).2.length ≤ MAX_LITERALS) :
    Compiler.GetConstant cons c = .ok (ask c.fs.literals.toList cons).1
      { c with fs := { c.fs with literals := (ask c.fs.literals.toList cons).2.toArray } } := by
  rw [Compiler_GetConstant_apply, getConstant_eq_ask c.fs hcons]
  dsimp only
  rw [List.size_toArray, if_neg (Nat.not_lt.mpr hmax)]

/-- `GetConstant` of the compiler does what the one of the pool does. -/
theorem GetConstant_simulates {c : Compiler} (h : Numbers hash pool c.fs.literals.toList)
    (hcons : cons ≠ .null) :
    match Compiler.GetConstant cons c with
    | .ok n c' => ∃ pool', GetConstant hash referent (fuel + 2) pool cons =
          .ok (Int64.ofInt n, pool') ∧ Numbers hash pool' c'.fs.literals.toList
    | .error e _ => GetConstant hash referent (fuel + 2) pool cons = .error e := by
  rw [Compiler_GetConstant_apply, getConstant_eq_ask c.fs hcons]
  dsimp only
  rw [List.size_toArray]
  rcases GetConstant_spec h hcons with ⟨hmax, hcall⟩ | ⟨pool', hcall, h'⟩
  · rw [if_pos hmax]
    exact hcall
  · rw [if_neg (Nat.not_lt.mpr h'.length_le)]
    exact ⟨pool', hcall, h'⟩

/-- `BuildProto` makes the literals that the compiler's prototype has. -/
theorem BuildProto_simulates {fs : FuncState} (h : Numbers hash pool fs.literals.toList) :
    BuildProto referent pool = .ok (fs.buildProto.literals.map some) :=
  BuildProto_spec h

/-- A stretch of the compilation of a function: what its calls of `GetConstant` ask for and return,
and steps in between that leave the literals alone. -/
inductive Asks : Compiler → List Object → List Int → Compiler → Prop where
  | done (c : Compiler) : Asks c [] [] c
  | other {c c₁ c' : Compiler} {constants : List Object} {indices : List Int}
      (hsame : c₁.fs.literals = c.fs.literals) (hrest : Asks c₁ constants indices c') :
      Asks c constants indices c'
  | ask {c c₁ c' : Compiler} {cons : Object} {n : Int} {constants : List Object}
      {indices : List Int} (hcall : Compiler.GetConstant cons c = .ok n c₁)
      (hrest : Asks c₁ constants indices c') : Asks c (cons :: constants) (n :: indices) c'

/-- The pool keeps up with the compiler over a whole stretch. -/
theorem GetConstants_simulates {c c' : Compiler} {constants : List Object} {indices : List Int}
    (hasks : Asks c constants indices c') (hnull : .null ∉ constants)
    (h : Numbers hash pool c.fs.literals.toList) :
    ∃ pool', GetConstants hash referent (fuel + 2) pool constants =
        .ok (indices.map Int64.ofInt, pool') ∧
      Numbers hash pool' c'.fs.literals.toList := by
  induction hasks generalizing pool with
  | done c => exact ⟨pool, rfl, h⟩
  | other hsame _ ih =>
    rw [← hsame] at h
    exact ih hnull h
  | @ask c c₁ c' cons n constants indices hcall _ ih =>
    have hcons : cons ≠ .null := fun heq => hnull (heq ▸ List.mem_cons_self)
    have hrest : .null ∉ constants := fun hmem => hnull (List.mem_cons_of_mem _ hmem)
    have hsim := @GetConstant_simulates hash referent fuel _ cons _ h hcons
    rw [hcall] at hsim
    obtain ⟨pool₁, hpool, h₁⟩ := hsim
    obtain ⟨pool', hpools, h'⟩ := ih hrest h₁
    refine ⟨pool', ?_, h'⟩
    unfold GetConstants
    rw [hpool]
    simp only [bind, Except.bind, hpools]
    rfl

/-- **The compiler's literals are those of the table.** Over every stretch from the start of a
function, the calls of `GetConstant` over the table return the same indices and fail where the
compiler's fail, and the loop of `BuildProto` makes the literals of the prototype. -/
theorem literals_refine (hash : Object → Nat) (referent : Ref → Object) (fuel : Nat)
    {c c' : Compiler} {constants : List Object} {indices : List Int}
    (hstart : c.fs.literals = #[]) (hasks : Asks c constants indices c')
    (hnull : .null ∉ constants) :
    ∃ pool, GetConstants hash referent (fuel + 2) {} constants =
        .ok (indices.map Int64.ofInt, pool) ∧
      BuildProto referent pool = .ok (c'.fs.buildProto.literals.map some) ∧
      ∀ cons e c'', cons ≠ .null → Compiler.GetConstant cons c' = .error e c'' →
        GetConstant hash referent (fuel + 2) pool cons = .error e := by
  have h₀ : Numbers hash {} c.fs.literals.toList := by
    rw [hstart]
    exact numbers_start
  obtain ⟨pool, hcalls, h⟩ := GetConstants_simulates hasks hnull h₀
  refine ⟨pool, hcalls, BuildProto_simulates h, ?_⟩
  intro cons e c'' hcons hcall
  have hsim := @GetConstant_simulates hash referent fuel _ cons _ h hcons
  rw [hcall] at hsim
  exact hsim

/-- A function with `literals` and `instructions` so far. -/
def compiling (literals : Array Object) (instructions : Array Instruction) : Compiler where
  fs := { FuncState.init false .null .null with literals := literals, instructions := instructions }
  sourcename := .null
  lex := { input := [] }
  lineinfo := false

/-- `1`, an instruction, `"1"` and `1` again. -/
theorem literals_refine_ones :
    ∃ pool, GetConstants (fun _ => 0) (fun _ => .null) 2 {}
        [.integer 1, .string [0x31], .integer 1] = .ok ([0, 1, 0], pool) ∧
      BuildProto (fun _ => .null) pool = .ok [some (.integer 1), some (.string [0x31])] := by
  have hlast : Asks (compiling #[.integer 1, .string [0x31]] #[{ op := .LOAD }]) [.integer 1] [0]
      (compiling #[.integer 1, .string [0x31]] #[{ op := .LOAD }]) :=
    .ask (Compiler_GetConstant_ok _ (by decide) (by decide)) (.done _)
  have hrest : Asks (compiling #[.integer 1] #[{ op := .LOAD }]) [.string [0x31], .integer 1] [1, 0]
      (compiling #[.integer 1, .string [0x31]] #[{ op := .LOAD }]) :=
    .ask (Compiler_GetConstant_ok _ (by decide) (by decide)) hlast
  have hemitted : Asks (compiling #[.integer 1] #[]) [.string [0x31], .integer 1] [1, 0]
      (compiling #[.integer 1, .string [0x31]] #[{ op := .LOAD }]) := .other (by rfl) hrest
  have hasks : Asks (compiling #[] #[]) [.integer 1, .string [0x31], .integer 1] [0, 1, 0]
      (compiling #[.integer 1, .string [0x31]] #[{ op := .LOAD }]) :=
    .ask (Compiler_GetConstant_ok _ (by decide) (by decide)) hemitted
  obtain ⟨pool, hcalls, hbuild, -⟩ :=
    literals_refine (fun _ => 0) (fun _ => .null) 0 rfl hasks (by decide)
  exact ⟨pool, hcalls, hbuild⟩

/-! ### What the literals are for -/

/-- The calls for `constants` returned `indices`, of which each leads to its constant and to no
other, and no entry of the array is left as it was constructed. -/
structure Sound (constants : List Object) (indices : List GSInteger)
    (literals : List (Option Object)) : Prop where
  length : indices.length = constants.length
  index_eq : ∀ (i j : Nat) a b m n, constants[i]? = some a → constants[j]? = some b →
    indices[i]? = some m → indices[j]? = some n → (m = n ↔ a = b)
  literal : ∀ (i : Nat) a m, constants[i]? = some a → indices[i]? = some m →
    0 ≤ m.toInt ∧ literals[m.toInt.toNat]? = some (some a)
  assigned : none ∉ literals

/-- The numbers of a pool are no more than there may be literals. -/
theorem number_le (h : Numbers hash pool keys) {n : Nat} {key : Object}
    (hn : keys[n]? = some key) : n ≤ MAX_LITERALS := by
  obtain ⟨hlt, _⟩ := List.getElem?_eq_some_iff.mp hn
  have hlength := h.length_le
  omega

theorem ofNat_inj {m n : Nat} (hm : m ≤ MAX_LITERALS) (hn : n ≤ MAX_LITERALS) :
    Int64.ofNat m = Int64.ofNat n ↔ m = n := by
  rw [← Int64.toInt_inj, toInt_ofNat_le (by omega), toInt_ofNat_le (by omega), Int.ofNat_inj]

/-- What the calls return is sound where none of them is for null. -/
theorem Numbers.sound {constants : List Object}
    (h : Numbers hash pool (askAll [] constants).2) :
    Sound constants ((askAll [] constants).1.map Int64.ofNat)
      ((askAll [] constants).2.map some) where
  length := by rw [List.length_map, length_askAll]
  index_eq i j a b m n ha hb hm hn := by
    rw [List.getElem?_map] at hm hn
    obtain ⟨m', hm', rfl⟩ := Option.map_eq_some_iff.mp hm
    obtain ⟨n', hn', rfl⟩ := Option.map_eq_some_iff.mp hn
    have hmle := number_le h (askAll_getElem? _ _ ha hm')
    have hnle := number_le h (askAll_getElem? _ _ hb hn')
    rw [ofNat_inj hmle hnle]
    exact askAll_inj .nil ha hb hm' hn'
  literal i a m ha hm := by
    rw [List.getElem?_map] at hm
    obtain ⟨m', hm', rfl⟩ := Option.map_eq_some_iff.mp hm
    have hkey := askAll_getElem? _ _ ha hm'
    have hle := number_le h hkey
    rw [toInt_ofNat_le (by omega), Int.toNat_natCast, List.getElem?_map, hkey]
    exact ⟨Int.natCast_nonneg m', rfl⟩
  assigned hmem := by
    obtain ⟨key, _, hkey⟩ := List.mem_map.mp hmem
    cases hkey

/-- The literals of a function are sound if and only if none of its constants is null. Without null
the calls return, or there are too many literals. -/
theorem literals_sound_iff (hash : Object → Nat) (referent : Ref → Object) (fuel : Nat)
    (constants : List Object) :
    (.null ∉ constants → ∀ e, GetConstants hash referent (fuel + 2) {} constants = .error e →
      e = tooMany) ∧
    ∀ indices pool, GetConstants hash referent (fuel + 2) {} constants = .ok (indices, pool) →
      ((∃ literals, BuildProto referent pool = .ok literals ∧ Sound constants indices literals) ↔
        .null ∉ constants) := by
  constructor
  · intro hnull e he
    rcases GetConstants_spec numbers_start hnull with hcalls | ⟨pool, hcalls, _⟩
    · rw [hcalls] at he
      exact (Except.error.inj he).symm
    · rw [hcalls] at he
      cases he
  · intro indices pool hcalls
    constructor
    · rintro ⟨literals, hbuild, hsound⟩ hnull
      obtain ⟨i, hi⟩ := List.mem_iff_getElem?.mp hnull
      obtain ⟨hlt, _⟩ := List.getElem?_eq_some_iff.mp hi
      rw [← hsound.length] at hlt
      obtain ⟨_, hentry⟩ := hsound.literal i _ _ hi (List.getElem?_eq_getElem hlt)
      exact BuildProto_ne_null hbuild (List.mem_of_getElem? hentry)
    · intro hnull
      rcases GetConstants_spec numbers_start hnull with hcalls' | ⟨pool', hcalls', h⟩
      · rw [hcalls'] at hcalls
        cases hcalls
      · rw [hcalls'] at hcalls
        cases hcalls
        exact ⟨_, BuildProto_spec h, h.sound⟩

/-- Three literals for `1`, `1.0`, `"1"` and `1` again. -/
theorem literals_sound_ones :
    ∃ pool literals,
      GetConstants (fun _ => 0) (fun _ => .null) 2 {}
        [.integer 1, .float 0x3f800000#32, .string [0x31], .integer 1] =
          .ok ([0, 1, 2, 0], pool) ∧
      BuildProto (fun _ => .null) pool = .ok literals ∧
      Sound [.integer 1, .float 0x3f800000#32, .string [0x31], .integer 1] [0, 1, 2, 0]
        literals := by
  obtain ⟨literals, hbuild, hsound⟩ :=
    ((literals_sound_iff (fun _ => 0) (fun _ => .null) 0
      [.integer 1, .float 0x3f800000#32, .string [0x31], .integer 1]).2 [0, 1, 2, 0] _ rfl).mpr
        (by decide)
  exact ⟨_, literals, rfl, hbuild, hsound⟩

/-- A function with null twice among its constants has two literals for it, and neither entry is
ever assigned. -/
theorem literals_not_sound :
    ∃ pool, GetConstants (fun _ => 0) (fun _ => .null) 2 {} [.null, .null] = .ok ([0, 1], pool) ∧
      BuildProto (fun _ => .null) pool = .ok [none, none] ∧
      ∀ literals, ¬ Sound [.null, .null] [0, 1] literals := by
  refine ⟨_, rfl, rfl, ?_⟩
  intro literals h
  exact absurd ((h.index_eq 0 1 _ _ _ _ rfl rfl rfl rfl).mpr rfl) (by decide)

end LiteralPool

end GameScript
