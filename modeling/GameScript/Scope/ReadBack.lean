import GameScript.Scope.Isolation

/-!
Unqualified names. A read looks in `this`, in the tables `this` delegates to, among the default
methods of a table and in the root of the running closure (`Get`); an assignment looks in `this`,
in the tables it delegates to and in the root table of the machine (`Set`).
-/

namespace GameScript.Scope

variable {ρ : Type} {host : Host ρ} {w w' : World ρ}

/-! ### Reads through `this` -/

/-- `Get` of a table with a `selfidx` of 0, in a closure whose `_root` refers to `root`; it refers
to nothing when the table is gone. -/
def GetThis (host : Host ρ) (root : Option Ref) (w : World ρ) (r : Ref) (key : Object) :
    Option Object × World ρ :=
  match rawGet host w r key with
  | some v => (some v, w)
  | none =>
      match FallBackGet host ((w.heap.delegate r).map fun d => getChain host key (w.heap.chain d))
        r key w with
      | (.ok v, w) => (some v, w)
      | (.error, w) => (none, w)
      | (.noMatch, w) =>
          match table_ddel key with
          | some v => (some v, w)
          | none =>
              match root with
              | some r => Get host w (.table r) key
              | none => (none, w)

/-- The `_get` metamethods behind tables that have no slot of the name, asked from the last
table on. -/
def askMetamethods (host : Host ρ) (key : Object) : List Ref → World ρ → Option Object × World ρ
  | r :: d :: ds, w =>
      match askMetamethods host key (d :: ds) w with
      | (some v, w) => (some v, w)
      | (none, w) =>
          match getMetaMethod host w r MT_GET with
          | none => (none, w)
          | some closure =>
              match host.call closure [.table r, key] w with
              | (.ok v, w) => (some v, w)
              | (_, w) => (none, w)
  | _, w => (none, w)

/-- What a slot reads as: a weak reference is read as what it refers to. -/
def readsAs (host : Host ρ) (w : World ρ) (val : Object) : Object :=
  Table.realval (host.referent w.rest) val

/-- The first table of those that `r` delegates to, with itself, that has the slot. -/
def holder (w : World ρ) (r : Ref) (key : Object) : Option Ref :=
  (w.heap.chain r).find? fun d => HasSlot w d key

/-- When an assignment that succeeds is seen by the next read: the slot is the first one on the
way of both, and its value no weak reference. Elsewhere the read comes to something else, which is
the value only by chance. -/
def ReadsBack (host : Host ρ) (w : World ρ) (root : Option Ref) (env : Ref) (key val : Object) :
    Prop :=
  match holder w env key, table_ddel key, root with
  | some _, _, _ => readsAs host w val = val
  | none, some method, _ => method = val
  | none, none, none => False
  | none, none, some r =>
      match holder w r key with
      | some d =>
          if d = w.root then readsAs host w val = val else rawGet host w d key = some val
      | none =>
          (askMetamethods host key (w.heap.chain r) (w.setSlot w.root key val)).1 = some val

/-! ### Holders -/

theorem holder_eq_none {r : Ref} {key : Object} :
    holder w r key = none ↔ ∀ d ∈ w.heap.chain r, ¬ HasSlot w d key := by
  simp [holder]

theorem holder_eq_some {r d : Ref} {key : Object} (h : holder w r key = some d) :
    HasSlot w d key ∧ ∃ as ds, w.heap.chain r = as ++ d :: ds ∧ ∀ a ∈ as, ¬ HasSlot w a key := by
  obtain ⟨hd, as, ds, hchain, has⟩ := List.find?_eq_some_iff_append.mp h
  exact ⟨by simpa using hd, as, ds, hchain, fun a ha => by simpa using has a ha⟩

theorem rawGet_of_hasSlot (host : Host ρ) {d : Ref} {key : Object} (hkey : key ≠ .null)
    (hd : HasSlot w d key) :
    ∃ v, rawGet host w d key = some v := by
  obtain ⟨v, hv⟩ := Option.isSome_iff_exists.mp hd
  exact ⟨readsAs host w v, by simp [rawGet, hkey, hv, readsAs]⟩

/-- A lookup goes to the holder. -/
theorem lookup_eq {r : Ref} {key : Object} (hkey : key ≠ .null) :
    lookup host w r key = ((holder w r key).bind fun d => rawGet host w d key).or
      (table_ddel key) := by
  have hfind : ∀ rs : List Ref, (rs.findSome? fun d => rawGet host w d key) =
      (rs.find? fun d => HasSlot w d key).bind fun d => rawGet host w d key := by
    intro rs
    induction rs with
    | nil => rfl
    | cons a as ih =>
        rw [List.findSome?_cons, List.find?_cons]
        by_cases hslot : HasSlot w a key
        · obtain ⟨v, hv⟩ := rawGet_of_hasSlot host hkey hslot
          simp [hv, hslot]
        · have hraw : rawGet host w a key = none := (rawGet_eq_none hkey).mpr (by simpa using hslot)
          simp [hraw, hslot, ih]
  rw [lookup, holder, hfind]

/-- The slot that an assignment writes has a holder's name still. -/
theorem holder_setSlot {d : Ref} {key : Object} (val : Object) (hd : HasSlot w d key) (r' : Ref) :
    holder (w.setSlot d key val) r' key = holder w r' key := by
  have hsame : ∀ a, HasSlot (w.setSlot d key val) a key ↔ HasSlot w a key := by
    intro a
    rw [HasSlot, World.setSlot_slots]
    split
    · next heq =>
        rw [heq.1]
        exact ⟨fun _ => hd, fun _ => rfl⟩
    · rfl
  simp only [holder, World.setSlot_chain, hsame]

theorem rawGet_setSlot {d : Ref} {key : Object} (hkey : key ≠ .null) (val : Object) (a : Ref) :
    rawGet host (w.setSlot d key val) a key =
      if a = d then some (readsAs host w val) else rawGet host w a key := by
  rw [rawGet, if_neg hkey, World.setSlot_slots]
  by_cases ha : a = d
  · rw [if_pos ⟨ha, rfl⟩, if_pos ha]
    rfl
  · rw [if_neg fun h => ha h.1, if_neg ha, rawGet, if_neg hkey]
    rfl

/-! ### The two ways -/

/-- An assignment goes to the holder among the tables of `this`, else to the root table. -/
theorem Set_eq {env : Ref} {key : Object} (val : Object) (hplain : Plain w MT_SET env) :
    Set host w (.table env) key val 0 =
      match holder w env key with
      | some d => (true, w.setSlot d key val)
      | none => if HasSlot w w.root key then (true, w.setSlot w.root key val) else (false, w) := by
  cases hh : holder w env key with
  | some d =>
      obtain ⟨hd, as, ds, hchain, has⟩ := holder_eq_some hh
      simp only [Set]
      rw [hchain, setChain_found val hd ds has]
  | none =>
      simp only [Set, setChain_plain (holder_eq_none.mp hh) hplain, true_and]

/-- A read through `this` without a `_get` behind it. -/
theorem GetThis_eq {root : Option Ref} {env : Ref} {key : Object} (hplain : Plain w MT_GET env) :
    GetThis host root w env key =
      match lookup host w env key, root with
      | some v, _ => (some v, w)
      | none, some r => Get host w (.table r) key
      | none, none => (none, w) := by
  have hmm : getMetaMethod host w env MT_GET = none := getMetaMethod_eq_none hplain
  rw [GetThis, lookup_step]
  cases hraw : rawGet host w env key with
  | some v => rfl
  | none =>
      cases hd : w.heap.delegate env with
      | none =>
          simp only [Option.map_none, FallBackGet, Option.elim_none, Option.none_or]
          cases table_ddel key <;> cases root <;> rfl
      | some d =>
          have hget : getChain host key (w.heap.chain d) w = (lookup host w d key, w) :=
            getChain_plain (hplain.delegate hd)
          simp only [Option.map_some, FallBackGet, hget, Option.elim_some, Option.none_or]
          cases hlook : lookup host w d key with
          | some v => rfl
          | none =>
              rw [lookup, Option.or_eq_none_iff] at hlook
              simp only [hmm, hlook.2]
              cases root <;> rfl

/-- Where no table has a slot of the name, `Get` is what the metamethods answer. -/
theorem getChain_ask {key : Object} (hkey : key ≠ .null) (hddel : table_ddel key = none)
    {rs : List Ref} (hrs : ∀ d ∈ rs, ¬ HasSlot w d key) :
    getChain host key rs w = askMetamethods host key rs w := by
  induction rs with
  | nil => rfl
  | cons r ds ih =>
      have hraw : rawGet host w r key = none :=
        (rawGet_eq_none hkey).mpr (by simpa using hrs r List.mem_cons_self)
      have hget := ih fun d hd => hrs d (List.mem_cons_of_mem r hd)
      rw [getChain, hraw]
      cases ds with
      | nil => simp [FallBackGet, askMetamethods, hddel]
      | cons d ds =>
          rw [if_neg (by simp), FallBackGet, hget, askMetamethods]
          rcases askMetamethods host key (d :: ds) w with ⟨_ | v, w₁⟩
          · simp only
            cases getMetaMethod host w₁ r MT_GET with
            | none => simp [hddel]
            | some closure =>
                rcases hcall : host.call closure [.table r, key] w₁ with ⟨_ | _ | _, w₂⟩
                all_goals simp [hcall, hddel]
          · rfl

/-- An assignment makes no metamethod. -/
theorem Plain.setSlot {mm key : Object} {r d : Ref} (h : Plain w mm r) (val : Object)
    (hd : HasSlot w d key) : Plain (w.setSlot d key val) mm r := by
  intro a ha
  rw [World.setSlot_chain] at ha
  rw [World.setSlot_slots]
  split
  · next heq =>
      obtain ⟨rfl, rfl⟩ := heq
      rw [HasSlot, h a ha] at hd
      cases hd
  · exact h a ha

/-- An unqualified assignment that succeeds is what an unqualified read next comes to exactly
when the two ways meet. -/
theorem get_after_set_iff {root : Option Ref} {env : Ref} {s : List UInt8} {val : Object}
    (hget : Plain w MT_GET env) (hset : Plain w MT_SET env)
    (h : Set host w (.table env) (.string s) val 0 = (true, w')) :
    (GetThis host root w' env (.string s)).1 = some val ↔
      ReadsBack host w root env (.string s) val := by
  have hkey : Object.string s ≠ .null := by simp
  rw [Set_eq val hset] at h
  cases hh : holder w env (.string s) with
  | some d =>
      -- both meet the slot of the holder
      rw [hh] at h
      obtain rfl : w.setSlot d (.string s) val = w' := (Prod.mk.inj h).2
      have hd := (holder_eq_some hh).1
      rw [GetThis_eq (hget.setSlot val hd), lookup_eq hkey, holder_setSlot val hd, hh]
      simp [rawGet_setSlot hkey, ReadsBack, hh]
  | none =>
      rw [hh] at h
      simp only at h
      split at h
      · next hroot =>
          obtain rfl : w.setSlot w.root (.string s) val = w' := (Prod.mk.inj h).2
          rw [GetThis_eq (hget.setSlot val hroot), lookup_eq hkey, holder_setSlot val hroot, hh]
          cases hddel : table_ddel (.string s) with
          | some method => simp [ReadsBack, hh, hddel]
          | none =>
              cases root with
              | none => simp [ReadsBack, hh, hddel]
              | some r =>
                  simp only [Option.bind_none, Option.none_or, ReadsBack, hh, hddel]
                  cases hr : holder w r (.string s) with
                  | some d =>
                      have hd := (holder_eq_some hr).1
                      obtain ⟨v, hv⟩ := rawGet_of_hasSlot host hkey hd
                      have hlook : lookup host (w.setSlot w.root (.string s) val) r (.string s) =
                          some (if d = w.root then readsAs host w val else v) := by
                        rw [lookup_eq hkey, holder_setSlot val hroot, hr, hddel, Option.bind_some,
                          rawGet_setSlot hkey, hv]
                        split <;> rfl
                      rw [Get_lookup hlook]
                      by_cases hdr : d = w.root
                      · simp [hdr]
                      · simp [hdr, hv]
                  | none =>
                      have hnone : ∀ a ∈ w.heap.chain r,
                          ¬ HasSlot (w.setSlot w.root (.string s) val) a (.string s) := by
                        have hr' := holder_setSlot val hroot r
                        rw [hr] at hr'
                        have hno := holder_eq_none.mp hr'
                        rwa [World.setSlot_chain] at hno
                      rw [Get, World.setSlot_chain, getChain_ask hkey hddel hnone]
      · cases (Prod.mk.inj h).1

/-- A machine whose root table has the name `x`, the scope of a module, at 1, that has it too, and
a table without a delegate, at 2. -/
def shadowedWorld : World Unit :=
  (((World.initial ()).setSlot 0 (.string (sc "x")) (.integer 0)).create
    (Function.update Table.Contents.empty (.string (sc "x")) (some (.integer 1))) true).create .empty false

theorem plain_of_no_delegate {mm : Object} {r : Ref} (h : w.heap.delegate r = none) :
    Plain w mm r := by
  intro d hd
  rw [w.heap.chain_of_none h] at hd
  cases hd

theorem get_after_set_main : ∃ w', Set (Host.inert Unit) shadowedWorld (.table 0)
    (.string (sc "x")) (.integer 5) 0 = (true, w') ∧
    (GetThis (Host.inert Unit) (some 0) w' 0 (.string (sc "x"))).1 = some (.integer 5) := by
  have hplain : ∀ mm, Plain shadowedWorld mm 0 := fun _ => plain_of_no_delegate rfl
  refine ⟨shadowedWorld.setSlot 0 (.string (sc "x")) (.integer 5), rfl, ?_⟩
  exact (get_after_set_iff (hplain _) (hplain _) rfl).mpr rfl

/-- The module assigns the name of the root table and reads its own. -/
theorem not_get_after_set : ∃ w', Set (Host.inert Unit) shadowedWorld (.table 2)
    (.string (sc "x")) (.integer 5) 0 = (true, w') ∧
    Plain shadowedWorld MT_GET 2 ∧ Plain shadowedWorld MT_SET 2 ∧
    (GetThis (Host.inert Unit) (some 1) w' 2 (.string (sc "x"))).1 ≠ some (.integer 5) := by
  refine ⟨shadowedWorld.setSlot 0 (.string (sc "x")) (.integer 5), rfl,
    plain_of_no_delegate rfl, plain_of_no_delegate rfl, ?_⟩
  have hread : (GetThis (Host.inert Unit) (some 1)
      (shadowedWorld.setSlot 0 (.string (sc "x")) (.integer 5)) 2 (.string (sc "x"))).1 =
      some (.integer 1) := rfl
  rw [hread]
  decide

end GameScript.Scope
