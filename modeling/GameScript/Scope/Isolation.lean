import GameScript.Scope.Modules
import Mathlib.Data.List.TakeWhile

/-!
What an import does to the root table. The scope of a module delegates to the root table, so an
unqualified assignment in its body goes there when the scope does not have the name; all else
that the body does without naming the root table leaves its entries alone.
-/

namespace GameScript.Scope

variable {ρ S : Type} {host : Host ρ} {code : Code ρ S} {w w' w'' : World ρ}

/-! ### New entries of the root table -/

/-- The entries of the root table. -/
def rootSlots (w : World ρ) : Table.Contents := (w.heap.table w.root).slots

/-- The root table keeps its entries. Keys it gets an entry for satisfy `P`. -/
structure Gains (P : Object → Prop) (w w' : World ρ) : Prop where
  root : w'.root = w.root
  entries : ∀ key, rootSlots w' key ≠ rootSlots w key → P key ∧ rootSlots w key = none

/-- The root table is as it was. -/
def SameRoot (w w' : World ρ) : Prop := Gains (fun _ => False) w w'

namespace Gains

variable {P Q : Object → Prop}

theorem refl (w : World ρ) : Gains P w w := ⟨rfl, fun _ h => absurd rfl h⟩

theorem mono (h : Gains P w w') (hle : ∀ key, P key → Q key) : Gains Q w w' :=
  ⟨h.root, fun key hne => ⟨hle key (h.entries key hne).1, (h.entries key hne).2⟩⟩

theorem trans (h : Gains P w w') (h' : Gains P w' w'') : Gains P w w'' := by
  refine ⟨h'.root.trans h.root, fun key hne => ?_⟩
  by_cases hsame : rootSlots w' key = rootSlots w key
  · rw [← hsame] at hne ⊢
    exact h'.entries key hne
  · exact h.entries key hsame

end Gains

theorem SameRoot.gains {P : Object → Prop} (h : SameRoot w w') : Gains P w w' :=
  h.mono fun _ hfalse => hfalse.elim

theorem SameRoot.slots (h : SameRoot w w') : rootSlots w' = rootSlots w := by
  funext key
  apply Decidable.byContradiction
  intro hne
  exact (h.entries key hne).1

theorem sameRoot_of_eq (hroot : w'.root = w.root) (hslots : rootSlots w' = rootSlots w) :
    SameRoot w w' := ⟨hroot, fun key hne => absurd (congrFun hslots key) hne⟩

theorem sameRoot_setSlot {r : Ref} (hr : r ≠ w.root) (key val : Object) :
    SameRoot w (w.setSlot r key val) := by
  apply sameRoot_of_eq (World.setSlot_root r key val)
  funext key'
  rw [rootSlots, World.setSlot_slots, World.setSlot_root, if_neg fun h => hr h.1.symm]
  rfl

theorem sameRoot_create (slots : Table.Contents) (toRoot : Bool) :
    SameRoot w (w.create slots toRoot) := by
  apply sameRoot_of_eq (World.create_root slots toRoot)
  rw [rootSlots, World.create_root, World.create_old slots toRoot w.root_lt]
  rfl

/-- A slot that the root table does not have is a new entry. -/
theorem gains_setSlot {P : Object → Prop} {r : Ref} {key : Object} (val : Object)
    (hnew : r = w.root → P key ∧ rootSlots w key = none) : Gains P w (w.setSlot r key val) := by
  by_cases hr : r = w.root
  · refine ⟨rfl, fun key' hne => ?_⟩
    have hkey : key' = key := by
      apply Decidable.byContradiction
      intro h
      apply hne
      rw [rootSlots, World.setSlot_slots, if_neg fun hk => h hk.2]
      rfl
    exact hkey ▸ hnew hr
  · exact (sameRoot_setSlot hr key val).gains

/-! ### Handlers that leave the root table alone -/

/-- The functions of metamethods, and the accesses to other objects than tables, leave the root
table as it is. -/
structure Host.Confined (host : Host ρ) : Prop where
  call : ∀ f args w, SameRoot w (host.call f args w).2
  get : ∀ self key w, SameRoot w (host.get self key w).2
  newSlot : ∀ self key val w, SameRoot w (host.newSlot self key val w).2
  set : ∀ self key val w, SameRoot w (host.set self key val w).2

section

variable (hhost : host.Confined)
include hhost

theorem sameRoot_Get (w : World ρ) (self key : Object) : SameRoot w (Get host w self key).2 :=
  Get_effect Gains.refl (fun _ _ _ => Gains.trans) hhost.call hhost.get w self key

theorem gains_NewSlot {P : Object → Prop} {self key : Object} (val : Object)
    (hnew : self = .table w.root → P key ∧ rootSlots w key = none) :
    Gains P w (NewSlot host w self key val).2 := by
  apply NewSlot_effect Gains.refl (fun f args w => (hhost.call f args w).gains)
    fun self key val w => (hhost.newSlot self key val w).gains
  intro r hself
  apply gains_setSlot
  rintro rfl
  exact hnew hself

end

/-! ### Namespaces and imports -/

/-- The segments of a path as the loop of `BuildNamespaceTables` cuts it. -/
def segmentsLoop : List UInt8 → List UInt8 → List (List UInt8)
  | [], buf => if buf = [] then [] else [buf]
  | c :: str, buf =>
      if c = slash then buf :: segmentsLoop str []
      else segmentsLoop str (if buf.length < 255 then buf ++ [c] else buf)

/-- Where the loop comes to after some segments. -/
def descend (host : Host ρ) : List (List UInt8) → Object → World ρ → Object × World ρ
  | [], current, w => (current, w)
  | s :: q, current, w =>
      descend host q (ensureTable host w current s true).1 (ensureTable host w current s true).2

/-- Among `segments`, one that is looked up in the root table, on the way from `current`. -/
def AtRoot (host : Host ρ) (w : World ρ) (current : Object) (segments : List (List UInt8))
    (key : Object) : Prop :=
  ∃ q s rest, segments = q ++ s :: rest ∧ (descend host q current w).1 = .table w.root ∧
    key = .string s

section

variable (hhost : host.Confined)
include hhost

/-- A segment is added to its table only. -/
theorem gains_ensureTable (w : World ρ) (current : Object) (segment : List UInt8)
    (toRoot : Bool) :
    Gains (fun key => current = .table w.root ∧ key = .string segment) w
      (ensureTable host w current segment toRoot).2 := by
  have hget := sameRoot_Get hhost w current (.string segment)
  rw [ensureTable]
  rcases hg : Get host w current (.string segment) with ⟨_ | next_table, w₁⟩
  · rw [hg] at hget
    have hcreate := sameRoot_create (w := w₁) .empty toRoot
    apply hget.gains.trans
    apply hcreate.gains.trans
    apply gains_NewSlot hhost
    intro hself
    have hroot : current = .table w.root := by rw [hself, hcreate.root, hget.root]
    refine ⟨⟨hroot, rfl⟩, ?_⟩
    rw [hcreate.slots, hget.slots]
    exact Get_none (by simp) (hroot ▸ hg)
  · rw [hg] at hget
    exact hget.gains

/-- A namespace declaration adds to the root table its first segment at most.
-/
theorem gains_buildLoop :
    ∀ (str buf : List UInt8) (current : Object) (w : World ρ),
      Gains (AtRoot host w current (segmentsLoop str buf)) w
        (buildLoop host str buf current w).2
  | [], buf, current, w => by
      rw [buildLoop, segmentsLoop]
      split
      · exact .refl w
      · apply (gains_ensureTable hhost w current buf false).mono
        rintro key ⟨hroot, rfl⟩
        exact ⟨[], buf, [], rfl, hroot, rfl⟩
  | c :: str, buf, current, w => by
      rw [buildLoop, segmentsLoop]
      split
      · have hensure := gains_ensureTable hhost w current buf true
        have ih := gains_buildLoop str [] (ensureTable host w current buf true).1
          (ensureTable host w current buf true).2
        apply (hensure.mono _).trans (ih.mono _)
        · rintro key ⟨hroot, rfl⟩
          exact ⟨[], buf, _, rfl, hroot, rfl⟩
        · rintro key ⟨q, s, rest, hq, hat, rfl⟩
          exact ⟨buf :: q, s, rest, by rw [hq]; rfl, hat.trans (by rw [hensure.root]), rfl⟩
      · exact gains_buildLoop str _ current w

/-- The cache of modules is added to the root table where it is missing. -/
theorem gains_modulesTable (w : World ρ) :
    Gains (· = modules_key) w (modulesTable host w).2 := by
  have hget := sameRoot_Get hhost w (.table w.root) modules_key
  rw [modulesTable]
  rcases hg : Get host w (.table w.root) modules_key with ⟨_ | modules_table, w₁⟩
  · rw [hg] at hget
    have hcreate := sameRoot_create (w := w₁) .empty false
    apply hget.gains.trans
    apply hcreate.gains.trans
    apply gains_NewSlot hhost
    intro _
    refine ⟨rfl, ?_⟩
    rw [hcreate.slots, hget.slots]
    exact Get_none (by decide) hg
  · rw [hg] at hget
    exact hget.gains

theorem gains_enterModule {P : Object → Prop} {modules_table : Object} {path : List UInt8}
    (hnew : modules_table = .table w.root → P (.string path) ∧ rootSlots w (.string path) = none) :
    Gains P w (enterModule host code w modules_table path) := by
  have hroot : w.heap.size ≠ (w.create .empty true).root := Nat.ne_of_gt w.root_lt
  have hsandbox : SameRoot w (createSandbox w) :=
    (sameRoot_create .empty true).trans (sameRoot_setSlot hroot _ _)
  have hclosure : SameRoot w
      ((createSandbox w).withRest (code.newClosure (createSandbox w).rest).2) :=
    hsandbox.trans (sameRoot_of_eq rfl rfl)
  apply hclosure.gains.trans
  apply gains_NewSlot hhost
  intro hself
  obtain ⟨hP, hnone⟩ := hnew hself
  exact ⟨hP, (congrFun hclosure.slots _).trans hnone⟩

/-- The entries of the root table that an import makes: the table of the modules, and the entry
of the module where the root table itself is the table of the modules. -/
def CacheEntry (host : Host ρ) (w : World ρ) (path : List UInt8) (key : Object) : Prop :=
  key = modules_key ∨ (modulesTable host w).1 = .table w.root ∧ key = .string path

/-- An import adds nothing to the root table but the cache's entry. -/
theorem gains_opImport (w : World ρ) (site : CallSite) (path : List UInt8) :
    match opImport host code w site path with
    | .next w' | .raised _ w' | .started _ w' => Gains (CacheEntry host w path) w w'
    | .stray => True := by
  have hmodules := gains_modulesTable hhost w
  rw [opImport]
  rcases hm : modulesTable host w with ⟨modules_table, w₁⟩
  rw [hm] at hmodules
  have hget := sameRoot_Get hhost w₁ modules_table (.string path)
  have hcached : Gains (CacheEntry host w path) w (Get host w₁ modules_table (.string path)).2 :=
    (hmodules.mono fun _ h => .inl h).trans hget.gains
  simp only
  rcases hg : Get host w₁ modules_table (.string path) with ⟨_ | found, w₂⟩
  · rw [hg] at hcached hget
    have henter : Gains (CacheEntry host w path) w
        (enterModule host code w₂ modules_table path) := by
      apply hcached.trans
      apply gains_enterModule hhost
      intro hself
      have hroot : modules_table = .table w₁.root := by rw [hself, hget.root]
      refine ⟨.inr ⟨?_, rfl⟩, ?_⟩
      · rw [hm, hroot, hmodules.root]
      · rw [hget.slots]
        exact Get_none (by simp) (hroot ▸ hg)
    simp only
    cases code.source (filepath path) with
    | missing => exact hcached
    | broken => exact hcached
    | compiled bgenerator stacksize start =>
        simp only
        by_cases hdeep : site.tooDeep
        · rw [if_pos hdeep]
          exact henter
        · by_cases hroom : site.noRoom stacksize
          · rw [if_neg hdeep, if_pos hroom]
            trivial
          · cases bgenerator with
            | true =>
                rw [if_neg hdeep, if_neg hroom, if_pos rfl]
                exact henter
            | false =>
                rw [if_neg hdeep, if_neg hroom, if_neg (by decide)]
                exact henter
  · rw [hg] at hcached
    exact hcached

end

/-! ### Stores -/

/-- What a step of a script other than a namespace or an import does to the tables: an
unqualified assignment, an unqualified declaration (`<-`, `func` or `class`) in `this` or in the
root of the closure, or anything else. -/
inductive Store (ρ : Type) where
  | assign (self key val : Object)
  | declare (self key val : Object)
  | other (w : World ρ)

namespace Store

def apply (host : Host ρ) (w : World ρ) : Store ρ → World ρ
  | assign self key val => (Set host w self key val 0).2
  | declare self key val => (NewSlot host w self key val).2
  | other w' => w'

/-- The script does not name the root table: neither is it where an unqualified name goes
first, nor does another step change it. -/
def Confined (w : World ρ) : Store ρ → Prop
  | assign self _ _ => self ≠ .table w.root
  | declare self _ _ => self ≠ .table w.root
  | other w' => SameRoot w w'

end Store

/-- The table has a slot of that name. -/
abbrev HasSlot (w : World ρ) (r : Ref) (key : Object) : Prop :=
  ((w.heap.table r).slots key).isSome

/-- A table with those it delegates to, before the root table. -/
def ownChain (w : World ρ) (r : Ref) : List Ref := (w.heap.chain r).takeWhile (· ≠ w.root)

/-- The name of an assignment is found before the root table, or nowhere. A declaration in a
scope that delegates to the root table does not meet a metamethod there. -/
def Store.Own (host : Host ρ) (w : World ρ) : Store ρ → Prop
  | .assign (.table r) key _ =>
      (∃ d ∈ ownChain w r, HasSlot w d key) ∨
        (∀ d ∈ w.heap.chain r, ¬ HasSlot w d key) ∧ ¬ HasSlot w w.root key
  | .assign self key val => (host.set self key val w).1 ≠ .noMatch ∨ ¬ HasSlot w w.root key
  | .declare (.table r) key _ =>
      w.heap.delegate r = some w.root → HasSlot w r key ∨ ¬ HasSlot w w.root MT_NEWSLOT
  | _ => True

/-- The first table of the chain that has the slot takes the value. -/
theorem setChain_found {key : Object} (val : Object) {d : Ref} (hd : HasSlot w d key)
    (ds : List Ref) :
    ∀ {as : List Ref}, (∀ a ∈ as, ¬ HasSlot w a key) →
      setChain host key val (as ++ d :: ds) w = (.ok .null, w.setSlot d key val)
  | [], _ => by
      rw [List.nil_append, setChain, if_pos hd]
  | a :: as, has => by
      have ih := setChain_found val hd ds fun x hx => has x (List.mem_cons_of_mem a hx)
      have hne : as ++ d :: ds ≠ [] := by simp
      rw [List.cons_append, setChain, if_neg (has a List.mem_cons_self), if_neg hne, FallBackSet,
        ih]

/-- Where no table of the chain has the slot, a handler is all there is. -/
theorem setChain_missing (hhost : host.Confined) {key : Object} (val : Object) :
    ∀ {rs : List Ref}, (∀ r ∈ rs, ¬ HasSlot w r key) →
      SameRoot w (setChain host key val rs w).2
  | [], _ => .refl w
  | r :: ds, hrs => by
      have ih := setChain_missing hhost val fun x hx => hrs x (List.mem_cons_of_mem r hx)
      rw [setChain, if_neg (hrs r List.mem_cons_self)]
      by_cases hds : ds = []
      · rw [if_pos hds]
        exact .refl w
      · rw [if_neg hds, FallBackSet]
        rcases hset : setChain host key val ds w with ⟨_ | _ | _, w₁⟩
        all_goals
          rw [hset] at ih
          simp only
        · exact ih
        all_goals
          split
          · exact ih
          · exact ih.trans (hhost.call _ _ _)

/-- Without a `_set` there is not even a handler. -/
theorem setChain_plain {key val : Object} {r : Ref}
    (hmiss : ∀ d ∈ w.heap.chain r, ¬ HasSlot w d key) (hplain : Plain w MT_SET r) :
    setChain host key val (w.heap.chain r) w = (.noMatch, w) := by
  induction r using w.heap.acyclic.induction with
  | step r ih =>
      have hself := hmiss r (Heap.mem_chain_self r)
      rw [w.heap.chain_eq, setChain, if_neg hself]
      cases hd : w.heap.delegate r with
      | none => rfl
      | some d =>
          have hne : w.heap.chain d ≠ [] := List.ne_nil_of_mem (Heap.mem_chain_self d)
          have hset := ih d hd (fun x hx => hmiss x (by
            rw [w.heap.chain_of_some hd]
            exact List.mem_cons_of_mem r hx)) (hplain.delegate hd)
          rw [Option.elim_some, if_neg hne, FallBackSet]
          simp only [hset, getMetaMethod_eq_none hplain]

/-- The first table before the root table that has the slot. -/
theorem exists_first {r : Ref} {key : Object} (h : ∃ d ∈ ownChain w r, HasSlot w d key) :
    ∃ d ∈ ownChain w r, HasSlot w d key ∧ ∃ as ds, w.heap.chain r = as ++ d :: ds ∧
      ∀ a ∈ as, ¬ HasSlot w a key := by
  cases hfind : (ownChain w r).find? fun d => HasSlot w d key with
  | none =>
      obtain ⟨d, hd, hslot⟩ := h
      have hnone := List.find?_eq_none.mp hfind d hd
      simp [hslot] at hnone
  | some d =>
      have hmem := List.mem_of_find?_eq_some hfind
      obtain ⟨hd, as, ds, hown, has⟩ := List.find?_eq_some_iff_append.mp hfind
      have hchain : w.heap.chain r =
          as ++ d :: (ds ++ (w.heap.chain r).dropWhile (· ≠ w.root)) := by
        have hsplit : ownChain w r ++ (w.heap.chain r).dropWhile (· ≠ w.root) = w.heap.chain r :=
          List.takeWhile_append_dropWhile
        rw [hown, List.append_assoc, List.cons_append] at hsplit
        exact hsplit.symm
      exact ⟨d, hmem, by simpa using hd, as, _, hchain, fun a ha => by simpa using has a ha⟩

theorem ne_root_of_mem_ownChain {r d : Ref} (h : d ∈ ownChain w r) : d ≠ w.root := by
  simpa using List.mem_takeWhile_imp h

/-- An assignment that finds its name before the root table. -/
theorem Set_found (host : Host ρ) {r : Ref} {key : Object} (val : Object)
    (h : ∃ d ∈ ownChain w r, HasSlot w d key) :
    ∃ d ∈ ownChain w r, Set host w (.table r) key val 0 = (true, w.setSlot d key val) := by
  obtain ⟨d, hown, hd, as, ds, hchain, has⟩ := exists_first h
  refine ⟨d, hown, ?_⟩
  simp only [Set]
  rw [hchain, setChain_found val hd ds has]

/-- An assignment that finds its name nowhere. -/
theorem sameRoot_Set (hhost : host.Confined) {self key val : Object}
    (hmiss : ∀ r, self = .table r → ∀ d ∈ w.heap.chain r, ¬ HasSlot w d key)
    (hroot : ¬ HasSlot w w.root key) : SameRoot w (Set host w self key val 0).2 := by
  have hfall : ∃ p, SameRoot w p.2 ∧ Set host w self key val 0 =
      match p with
      | (FallBack.ok _, w) => (true, w)
      | (.error, w) => (false, w)
      | (.noMatch, w) =>
          if 0 = 0 ∧ ((w.heap.table w.root).slots key).isSome then
            (true, w.setSlot w.root key val)
          else (false, w) := by
    cases self with
    | table r => exact ⟨_, setChain_missing hhost val (hmiss r rfl), rfl⟩
    | _ => exact ⟨_, hhost.set _ key val w, rfl⟩
  obtain ⟨⟨_ | _ | _, w₁⟩, hp, heq⟩ := hfall
  · rw [heq]
    exact hp
  · have hnone : ¬ HasSlot w₁ w₁.root key := by
      have hslots := congrFun hp.slots key
      rw [rootSlots, rootSlots] at hslots
      rwa [HasSlot, hslots]
    rw [heq]
    simp only
    rw [if_neg fun h => hnone h.2]
    exact hp
  · rw [heq]
    exact hp

/-- An assignment to a member of an object that is not a table. -/
theorem sameRoot_Set_taken (hhost : host.Confined) {self key val : Object}
    (hself : ∀ r, self ≠ .table r) (htaken : (host.set self key val w).1 ≠ .noMatch) :
    SameRoot w (Set host w self key val 0).2 := by
  have hset := hhost.set self key val w
  have heq : (Set host w self key val 0).2 = (host.set self key val w).2 := by
    cases self with
    | table r => exact absurd rfl (hself r)
    | _ =>
        simp only [Set]
        split
        · next h => rw [h]
        · next h => rw [h]
        · next h =>
            rw [h] at htaken
            exact absurd rfl htaken
  rw [heq]
  exact hset

/-- A store under the condition leaves the root table as it is. -/
theorem Store.Own.sameRoot (hhost : host.Confined) {store : Store ρ} (hown : store.Own host w)
    (hconfined : store.Confined w) : SameRoot w (store.apply host w) := by
  cases store with
  | assign self key val =>
      by_cases hself : ∃ r, self = .table r
      · obtain ⟨r, rfl⟩ := hself
        rcases hown with hfound | ⟨hmiss, hroot⟩
        · obtain ⟨d, hd, hset⟩ := Set_found host val hfound
          rw [Store.apply, hset]
          exact sameRoot_setSlot (ne_root_of_mem_ownChain hd) key val
        · apply sameRoot_Set hhost _ hroot
          intro r' hr'
          obtain rfl := Object.table.inj hr'
          exact hmiss
      · have hother : ∀ r, self ≠ .table r := fun r h => hself ⟨r, h⟩
        have hown' : (host.set self key val w).1 ≠ .noMatch ∨ ¬ HasSlot w w.root key := by
          cases self with
          | table r => exact absurd rfl (hother r)
          | _ => exact hown
        rcases hown' with htaken | hroot
        · exact sameRoot_Set_taken hhost hother htaken
        · exact sameRoot_Set hhost (fun r h => absurd h (hother r)) hroot
  | declare self key val =>
      apply gains_NewSlot hhost
      intro h
      exact absurd h hconfined
  | other w' => exact hconfined

/-! ### Runs -/

/-- The step that a script takes next is not a store to the root table under its name. -/
def Config.Confined (host : Host ρ) (code : Code ρ S) (store : S → World ρ → Store ρ)
    (c : Config ρ S) : Prop :=
  match code.step c.active c.world with
  | .run _ w => w = (store c.active c.world).apply host c.world ∧
      (store c.active c.world).Confined c.world
  | .namespace root_obj _ _ => root_obj ≠ some c.world.root
  | _ => True

/-- The entries of the root table that the next step may make: those of the namespaces that are
looked up in the root table and of the cache of the modules. -/
def Config.Declares (host : Host ρ) (code : Code ρ S) (c : Config ρ S) (key : Object) : Prop :=
  match code.step c.active c.world with
  | .namespace _ path _ =>
      AtRoot host c.world (.table c.world.root) (segmentsLoop (cstring path) []) key
  | .import _ path _ => CacheEntry host c.world path key
  | _ => False

/-- The condition on the next step: an unqualified store finds its name in its own scope. -/
def Config.Own (host : Host ρ) (code : Code ρ S) (store : S → World ρ → Store ρ)
    (c : Config ρ S) : Prop :=
  match code.step c.active c.world with
  | .run _ _ => (store c.active c.world).Own host c.world
  | _ => True

/-- A step of an imported body, or of one imported by it, over `n` waiting scripts. -/
structure Config.Inside (host : Host ρ) (code : Code ρ S) (store : S → World ρ → Store ρ)
    (n : Nat) (c c' : Config ρ S) : Prop where
  step : c.step host code = some c'
  inside : n < c.waiting.length
  confined : c.Confined host code store

/-- What a step does to the root table. -/
theorem gains_step (hhost : host.Confined) {store : S → World ρ → Store ρ} {c c' : Config ρ S}
    (hstep : c.step host code = some c') (hconfined : c.Confined host code store)
    (hown : c.Own host code store) : Gains (c.Declares host code) c.world c'.world := by
  cases Config.move_of_step hstep with
  | @run s w hact =>
      rw [Config.Confined, hact] at hconfined
      rw [Config.Own, hact] at hown
      obtain ⟨rfl, hstore⟩ := hconfined
      exact (hown.sameRoot hhost hstore).gains
  | @«namespace» root_obj path s hact =>
      rw [Config.Confined, hact] at hconfined
      have hbuild := gains_buildLoop hhost (cstring path) [] (.table c.world.root) c.world
      have hdeclares : c.Declares host code =
          AtRoot host c.world (.table c.world.root) (segmentsLoop (cstring path) []) := by
        funext key
        rw [Config.Declares, hact]
      rw [hdeclares]
      apply hbuild.trans
      cases root_obj with
      | none => exact .refl _
      | some r =>
          apply SameRoot.gains
          apply sameRoot_setSlot
          rintro rfl
          exact hconfined (congrArg some hbuild.root)
  | @next site path k w hact himport =>
      have hop := @gains_opImport _ _ host code hhost c.world site path
      rw [himport] at hop
      apply hop.mono
      intro key hkey
      rwa [Config.Declares, hact]
  | @raised site path k err w hact himport =>
      have hop := @gains_opImport _ _ host code hhost c.world site path
      rw [himport] at hop
      apply hop.mono
      intro key hkey
      rwa [Config.Declares, hact]
  | @started site path k body w hact himport =>
      have hop := @gains_opImport _ _ host code hhost c.world site path
      rw [himport] at hop
      apply hop.mono
      intro key hkey
      rwa [Config.Declares, hact]
  | back hact hwaiting => exact .refl _

/-- In a scope that delegates to the root table nothing is in between. -/
theorem ownChain_scope {r : Ref} (hr : r ≠ w.root) (hdel : w.heap.delegate r = some w.root) :
    ownChain w r = [r] := by
  rw [ownChain, w.heap.chain_of_some hdel, List.takeWhile_cons_of_pos (by simpa using hr),
    w.heap.chain_eq w.root, List.takeWhile_cons_of_neg (by simp)]

/-- A declaration in such a scope makes the slot there. -/
theorem apply_declare {r : Ref} {key val : Object} (hdel : w.heap.delegate r = some w.root)
    (hown : (Store.declare (.table r) key val).Own host w) (hkey : key ≠ .null) :
    (Store.declare (.table r) key val).apply host w = w.setSlot r key val := by
  have hsome : HasSlot w r key → ∃ v, rawGet host w r key = some v := by
    intro h
    obtain ⟨v, hv⟩ := Option.isSome_iff_exists.mp h
    exact ⟨_, by rw [rawGet, if_neg hkey, hv]; rfl⟩
  rw [Store.apply, NewSlot, if_neg hkey]
  rcases hown hdel with hslot | hnone
  · obtain ⟨v, hv⟩ := hsome hslot
    rw [hv]
  · have hmm : getMetaMethod host w r MT_NEWSLOT = none := by
      rw [getMetaMethod, hdel, Option.bind_some, rawGet_eq_none (by decide)]
      simpa using hnone
    rw [hmm]
    cases rawGet host w r key <;> rfl

/-- An assignment there changes the slot, or nothing where the name is not found. -/
theorem apply_assign {r : Ref} {key val : Object} (hr : r ≠ w.root)
    (hdel : w.heap.delegate r = some w.root)
    (hown : (Store.assign (.table r) key val).Own host w) :
    (HasSlot w r key ∧ (Store.assign (.table r) key val).apply host w = w.setSlot r key val) ∨
      ¬ HasSlot w r key ∧ (Plain w MT_SET r →
        (Store.assign (.table r) key val).apply host w = w) := by
  rcases hown with hfound | ⟨hmiss, hroot⟩
  · left
    have hslot : HasSlot w r key := by
      obtain ⟨d, hd, hslot⟩ := hfound
      rw [ownChain_scope hr hdel] at hd
      exact List.mem_singleton.mp hd ▸ hslot
    obtain ⟨d, hd, hset⟩ := Set_found host val hfound
    rw [ownChain_scope hr hdel] at hd
    refine ⟨hslot, ?_⟩
    rw [Store.apply, hset, List.mem_singleton.mp hd]
  · right
    refine ⟨hmiss r (Heap.mem_chain_self r), fun hplain => ?_⟩
    rw [Store.apply, Set]
    simp only [setChain_plain hmiss hplain]
    rw [if_neg fun h => hroot h.2]

/-- In every import whose steps meet the condition the root table keeps its entries, and gets
new ones for the cache of the modules and for the declared namespaces only; what the body
declares or assigns without qualification in a scope that delegates to the root table is in
that scope. -/
theorem module_isolation (hhost : host.Confined) {store : S → World ρ → Store ρ}
    {c c₁ c₂ : Config ρ S} {site : CallSite} {path : List UInt8}
    {k : Except (List UInt8) Unit → S} (himport : code.step c.active c.world = .import site path k)
    (hstep : c.step host code = some c₁)
    (hrun : Relation.ReflTransGen (fun c' c'' =>
      c'.Inside host code store c.waiting.length c'' ∧ c'.Own host code store) c₁ c₂) :
    Gains (fun key => ∃ c', (c' = c ∨ c₁.Reaches host code c' ∧ c'.Reaches host code c₂) ∧
        c'.Declares host code key) c.world c₂.world ∧
      ∀ c' s w, c₁.Reaches host code c' → c'.Confined host code store → c'.Own host code store →
        code.step c'.active c'.world = .run s w →
        ∀ r key val, c'.world.heap.delegate r = some c'.world.root → key ≠ .null →
          (store c'.active c'.world = .declare (.table r) key val →
            w = c'.world.setSlot r key val) ∧
          (store c'.active c'.world = .assign (.table r) key val →
            HasSlot c'.world r key ∧ w = c'.world.setSlot r key val ∨
              ¬ HasSlot c'.world r key ∧ (Plain c'.world MT_SET r → w = c'.world)) := by
  constructor
  · have hconfined : c.Confined host code store := by
      rw [Config.Confined, himport]
      trivial
    have hown : c.Own host code store := by
      rw [Config.Own, himport]
      trivial
    have hstart := gains_step hhost hstep hconfined hown
    induction hrun with
    | refl =>
        apply hstart.mono
        intro key hkey
        exact ⟨c, .inl rfl, hkey⟩
    | @tail c' c'' hrun hlast ih =>
        have hreach : c₁.Reaches host code c' :=
          Relation.ReflTransGen.mono (fun _ _ h => h.1.step) _ _ hrun
        apply (ih.mono _).trans ((gains_step hhost hlast.1.step hlast.1.confined hlast.2).mono _)
        · rintro key ⟨d, rfl | ⟨hd, hd'⟩, hkey⟩
          · exact ⟨d, .inl rfl, hkey⟩
          · exact ⟨d, .inr ⟨hd, hd'.tail hlast.1.step⟩, hkey⟩
        · intro key hkey
          exact ⟨c', .inr ⟨hreach, .single hlast.1.step⟩, hkey⟩
  · intro c' s w _ hconfined hown hact r key val hdel hkey
    rw [Config.Confined, hact] at hconfined
    rw [Config.Own, hact] at hown
    obtain ⟨rfl, hstore⟩ := hconfined
    constructor
    · intro h
      rw [h] at hown hstore ⊢
      exact apply_declare hdel hown hkey
    · intro h
      rw [h] at hown hstore ⊢
      have hr : r ≠ c'.world.root := fun h' => hstore (congrArg Object.table h')
      exact apply_assign hr hdel hown

/-! ### Two modules -/

/-- A main script that imports `m`, whose body does the stores of a list in its scope. -/
def importing (body : List (Ref → Store Unit)) :
    Code Unit (Option (Ref × List (Ref → Store Unit))) where
  step s w :=
    match s with
    | none => .import ⟨0, 0, 0, 1024⟩ (sc "m") fun _ => some (0, [])
    | some (_, []) => .done
    | some (r, store :: rest) => .run (some (r, rest)) ((store r).apply (Host.inert Unit) w)
  source _ := .compiled false 0 fun sandbox => some (sandbox, body)
  newClosure u := (0, u)

/-- The store of the next step. -/
def nextStore : Option (Ref × List (Ref → Store Unit)) → World Unit → Store Unit
  | some (r, store :: _), _ => store r
  | _, w => .other w

/-- A root table with an entry `print`. -/
def printRoot : World Unit := (World.initial ()).setSlot 0 (.string (sc "print")) (.integer 1)

theorem inert_confined : (Host.inert Unit).Confined where
  call _ _ w := .refl w
  get _ _ w := .refl w
  newSlot _ _ _ w := .refl w
  set _ _ _ w := .refl w

/-- A module with the body `print <- 2; print = 3`. -/
def shadowing : Code Unit (Option (Ref × List (Ref → Store Unit))) :=
  importing [fun r => .declare (.table r) (.string (sc "print")) (.integer 2),
    fun r => .assign (.table r) (.string (sc "print")) (.integer 3)]

theorem module_isolation_shadowing :
    ∃ c₁ c₂ c₃, (Config.main none printRoot).step (Host.inert Unit) shadowing = some c₁ ∧
      c₁.step (Host.inert Unit) shadowing = some c₂ ∧
      c₂.step (Host.inert Unit) shadowing = some c₃ ∧
      Gains (fun key => ∃ c', (c' = Config.main none printRoot ∨
        c₁.Reaches (Host.inert Unit) shadowing c' ∧ c'.Reaches (Host.inert Unit) shadowing c₃) ∧
          c'.Declares (Host.inert Unit) shadowing key) printRoot c₃.world := by
  have hkept : ∀ c₁ c₂ c₃,
      (Config.main none printRoot).step (Host.inert Unit) shadowing = some c₁ →
      c₁.Inside (Host.inert Unit) shadowing nextStore 0 c₂ →
      c₁.Own (Host.inert Unit) shadowing nextStore →
      c₂.Inside (Host.inert Unit) shadowing nextStore 0 c₃ →
      c₂.Own (Host.inert Unit) shadowing nextStore → _ := fun c₁ c₂ c₃ h₁ h₂ hown₂ h₃ hown₃ =>
    (module_isolation inert_confined (c := Config.main none printRoot) rfl h₁
      (.tail (.single ⟨h₂, hown₂⟩) ⟨h₃, hown₃⟩)).1
  refine ⟨_, _, _, rfl, rfl, rfl, hkept _ _ _ rfl ⟨rfl, Nat.zero_lt_one, rfl, ?_⟩ ?_
    ⟨rfl, Nat.zero_lt_one, rfl, ?_⟩ ?_⟩
  · exact fun h => absurd (Object.table.inj h) (by decide +kernel)
  · exact fun _ => .inr (by decide +kernel)
  · exact fun h => absurd (Object.table.inj h) (by decide +kernel)
  · exact .inl ⟨2, by decide +kernel, by decide +kernel⟩

/-- `print = 5` in the body of a module is an assignment to the root table. -/
theorem not_module_isolation :
    ¬ ∀ c₁ c₂, (Config.main none printRoot).step (Host.inert Unit)
        (importing [fun r => .assign (.table r) (.string (sc "print")) (.integer 5)]) = some c₁ →
      Relation.ReflTransGen (Config.Inside (Host.inert Unit)
        (importing [fun r => .assign (.table r) (.string (sc "print")) (.integer 5)])
        nextStore 0) c₁ c₂ →
      rootSlots c₂.world (.string (sc "print")) = rootSlots printRoot (.string (sc "print")) := by
  intro h
  have hprint := h _ _ rfl (.single ⟨rfl, Nat.zero_lt_one, rfl,
    fun h => absurd (Object.table.inj h) (by decide +kernel)⟩)
  revert hprint
  decide +kernel

end GameScript.Scope
