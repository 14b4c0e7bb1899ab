import GameScript.Scope.Modules

/-!
A module is imported once. What carries the property is that the entry in the table of the
modules is made before the body runs and that nothing but a script takes it away: every
operation of the machine keeps the entries there are (`Kept`).
-/

namespace GameScript.Scope

variable {ρ S : Type} {host : Host ρ} {code : Code ρ S}

/-! ### The module cache -/

/-- The slot of the root table for the modules. -/
def cacheSlot (w : World ρ) : Option Object := (w.heap.table w.root).slots modules_key

/-- `m` is the table of the modules. It delegates to the root table when the declaration of a
namespace made it, and to nothing when an import did. -/
structure IsCache (w : World ρ) (m : Ref) : Prop where
  slot : cacheSlot w = some (.table m)
  lt : m < w.heap.size
  delegate : ∀ d, w.heap.delegate m = some d → d = w.root

/-- There is no table of the modules yet, or it is one the machine made. -/
def CacheOk (w : World ρ) : Prop := cacheSlot w = none ∨ ∃ m, IsCache w m

/-- The module cache has an entry for `path`. -/
def HasModule (w : World ρ) (path : List UInt8) : Prop :=
  ∃ m, IsCache w m ∧ ((w.heap.table m).slots (.string path)).isSome

/-- Script code has run and has not written the module cache. -/
structure Undisturbed (w w' : World ρ) : Prop where
  root : w'.root = w.root
  size : w.heap.size ≤ w'.heap.size
  slot : cacheSlot w' = cacheSlot w
  entries : ∀ m, IsCache w m → w'.heap.table m = w.heap.table m

/-- No script code writes the module cache: neither what runs between two instructions of the
machine nor what the machine calls. -/
structure NoCacheWrites (host : Host ρ) (code : Code ρ S) : Prop where
  run : ∀ s w s' w', code.step s w = .run s' w' → Undisturbed w w'
  call : ∀ f args w, Undisturbed w (host.call f args w).2
  get : ∀ self key w, Undisturbed w (host.get self key w).2
  newSlot : ∀ self key val w, Undisturbed w (host.newSlot self key val w).2

/-- The accesses of the machine to the module cache call no metamethod and find no other
`__modules` than the one of the root table. -/
structure Unhooked (w : World ρ) : Prop where
  bare : Bare w
  own : ∀ d ∈ (w.heap.chain w.root).tail, (w.heap.table d).slots modules_key = none

/-- The machine has done something and has kept the module cache. -/
structure Kept (w w' : World ρ) : Prop where
  root : w'.root = w.root
  size : w.heap.size ≤ w'.heap.size
  sound : CacheOk w → CacheOk w'
  modules : ∀ path, HasModule w path → HasModule w' path

theorem Undisturbed.refl (w : World ρ) : Undisturbed w w := ⟨rfl, Nat.le_refl _, rfl, fun _ _ => rfl⟩

theorem Kept.refl (w : World ρ) : Kept w w := ⟨rfl, Nat.le_refl _, id, fun _ => id⟩

theorem Kept.trans {w w' w'' : World ρ} (h : Kept w w') (h' : Kept w' w'') : Kept w w'' where
  root := h'.root.trans h.root
  size := Nat.le_trans h.size h'.size
  sound hok := h'.sound (h.sound hok)
  modules path hmod := h'.modules path (h.modules path hmod)

theorem Undisturbed.isCache {w w' : World ρ} (h : Undisturbed w w') {m : Ref}
    (hm : IsCache w m) : IsCache w' m where
  slot := h.slot.trans hm.slot
  lt := Nat.lt_of_lt_of_le hm.lt h.size
  delegate d hd := by
    rw [Heap.delegate, h.entries m hm] at hd
    exact (hm.delegate d hd).trans h.root.symm

/-- What leaves the cache and the root alone keeps them. -/
theorem Undisturbed.kept {w w' : World ρ} (h : Undisturbed w w') : Kept w w' where
  root := h.root
  size := h.size
  sound hok := by
    rcases hok with hnone | ⟨m, hm⟩
    · exact .inl (h.slot.trans hnone)
    · exact .inr ⟨m, h.isCache hm⟩
  modules path := by
    rintro ⟨m, hm, hsome⟩
    exact ⟨m, h.isCache hm, by rw [h.entries m hm]; exact hsome⟩

/-! ### The elementary edits -/

theorem cacheSlot_create (w : World ρ) (slots : Table.Contents) (toRoot : Bool) :
    cacheSlot (w.create slots toRoot) = cacheSlot w := by
  rw [cacheSlot, World.create_root, World.create_old slots toRoot w.root_lt, cacheSlot]

theorem IsCache.create {w : World ρ} {m : Ref} (hm : IsCache w m) (slots : Table.Contents)
    (toRoot : Bool) : IsCache (w.create slots toRoot) m where
  slot := (cacheSlot_create w slots toRoot).trans hm.slot
  lt := Nat.lt_succ_of_lt hm.lt
  delegate d hd := by
    rw [Heap.delegate, World.create_old slots toRoot hm.lt] at hd
    exact hm.delegate d hd

theorem cacheSlot_setSlot {w : World ρ} {r : Ref} {key : Object} (val : Object)
    (hslot : ¬ (w.root = r ∧ modules_key = key)) :
    cacheSlot (w.setSlot r key val) = cacheSlot w := by
  rw [cacheSlot, World.setSlot_slots, World.setSlot_root, if_neg hslot, cacheSlot]

theorem IsCache.setSlot {w : World ρ} {m r : Ref} {key : Object} (hm : IsCache w m)
    (val : Object) (hslot : ¬ (w.root = r ∧ modules_key = key)) :
    IsCache (w.setSlot r key val) m where
  slot := (cacheSlot_setSlot val hslot).trans hm.slot
  lt := hm.lt
  delegate := by simpa using hm.delegate

theorem IsCache.withRest {w : World ρ} {m : Ref} (hm : IsCache w m) (rest : ρ) :
    IsCache (w.withRest rest) m := ⟨hm.slot, hm.lt, hm.delegate⟩

theorem kept_withRest (w : World ρ) (rest : ρ) : Kept w (w.withRest rest) where
  root := rfl
  size := Nat.le_refl _
  sound hok := hok.imp id fun ⟨m, hm⟩ => ⟨m, hm.withRest rest⟩
  modules _ hmod := hmod.imp fun _ h => ⟨h.1.withRest rest, h.2⟩

theorem kept_create (w : World ρ) (slots : Table.Contents) (toRoot : Bool) :
    Kept w (w.create slots toRoot) := by
  refine ⟨rfl, Nat.le_succ _, ?_, ?_⟩
  · rintro (hnone | ⟨m, hm⟩)
    · exact .inl ((cacheSlot_create w slots toRoot).trans hnone)
    · exact .inr ⟨m, hm.create slots toRoot⟩
  · rintro path ⟨m, hm, hsome⟩
    refine ⟨m, hm.create slots toRoot, ?_⟩
    rw [World.create_old slots toRoot hm.lt]
    exact hsome

/-- The slot for the modules is written only while there is none, and with a table the machine
has made. -/
theorem kept_setSlot {w : World ρ} {r : Ref} {key val : Object}
    (hslot : r = w.root → key = modules_key → cacheSlot w = none ∧ ∃ m, val = .table m ∧
      m < w.heap.size ∧ ∀ d, w.heap.delegate m = some d → d = w.root) :
    Kept w (w.setSlot r key val) := by
  by_cases hwrites : w.root = r ∧ modules_key = key
  · obtain ⟨rfl, rfl⟩ := hwrites
    obtain ⟨hnone, m, rfl, hlt, hm⟩ := hslot rfl rfl
    have hnew : IsCache (w.setSlot w.root modules_key (.table m)) m := by
      refine ⟨?_, hlt, ?_⟩
      · simp [cacheSlot, World.setSlot_slots]
      · simpa using hm
    refine ⟨rfl, Nat.le_refl _, fun _ => .inr ⟨m, hnew⟩, ?_⟩
    rintro path ⟨m', hm', _⟩
    rw [hm'.slot] at hnone
    cases hnone
  · refine ⟨rfl, Nat.le_refl _, ?_, ?_⟩
    · rintro (hnone | ⟨m, hm⟩)
      · exact .inl ((cacheSlot_setSlot val hwrites).trans hnone)
      · exact .inr ⟨m, hm.setSlot val hwrites⟩
    · rintro path ⟨m, hm, hsome⟩
      refine ⟨m, hm.setSlot val hwrites, ?_⟩
      rw [World.setSlot_slots]
      split
      · rfl
      · exact hsome

/-! ### The accesses -/

theorem Undisturbed.trans {w w' w'' : World ρ} (h : Undisturbed w w')
    (h' : Undisturbed w' w'') : Undisturbed w w'' where
  root := h'.root.trans h.root
  size := Nat.le_trans h.size h'.size
  slot := h'.slot.trans h.slot
  entries m hm := (h'.entries m (h.isCache hm)).trans (h.entries m hm)

theorem NoCacheWrites.get_undisturbed (hquiet : NoCacheWrites host code) (w : World ρ)
    (self key : Object) : Undisturbed w (Get host w self key).2 :=
  Get_effect .refl (fun _ _ _ => .trans) hquiet.call hquiet.get w self key

theorem NoCacheWrites.newSlot_kept (hquiet : NoCacheWrites host code) {w : World ρ}
    {self key val : Object} (hset : ∀ r, self = .table r → Kept w (w.setSlot r key val)) :
    Kept w (NewSlot host w self key val).2 :=
  NewSlot_effect .refl (fun f args w => (hquiet.call f args w).kept)
    (fun self key val w => (hquiet.newSlot self key val w).kept) hset

/-- A table made where there is none keeps the cache, also when it becomes the cache. -/
theorem NoCacheWrites.ensureTable_kept (hquiet : NoCacheWrites host code) (w : World ρ)
    (current : Object) (segment : List UInt8) (toRoot : Bool) :
    Kept w (ensureTable host w current segment toRoot).2 := by
  have hget := hquiet.get_undisturbed w current (.string segment)
  rw [ensureTable]
  rcases hg : Get host w current (.string segment) with ⟨_ | v, w'⟩
  · rw [hg] at hget
    apply hget.kept.trans
    apply (kept_create w' .empty toRoot).trans
    apply hquiet.newSlot_kept
    intro r hr
    apply kept_setSlot
    rintro rfl hkey
    -- the root table had no slot for the modules when `Get` found nothing
    subst hr
    have hnone : cacheSlot w = none := by
      have h := Get_none (by simp) hg
      rwa [hkey, show (w'.create .empty toRoot).root = w.root from hget.root] at h
    refine ⟨?_, w'.heap.size, rfl, Nat.lt_succ_self _, ?_⟩
    · rw [cacheSlot, World.create_root, World.create_old _ _ w'.root_lt]
      exact hget.slot.trans hnone
    · intro d hd
      rw [Heap.delegate, World.create_new] at hd
      cases toRoot with
      | true => exact (Option.some.inj hd).symm
      | false => cases hd
  · rw [hg] at hget
    exact hget.kept

/-- A namespace declaration keeps the cache. -/
theorem NoCacheWrites.buildLoop_kept (hquiet : NoCacheWrites host code) :
    ∀ (str buf : List UInt8) (current : Object) (w : World ρ),
      Kept w (buildLoop host str buf current w).2
  | [], buf, current, w => by
      rw [buildLoop]
      split
      · exact .refl w
      · exact hquiet.ensureTable_kept w current buf false
  | c :: str, buf, current, w => by
      rw [buildLoop]
      split
      · exact (hquiet.ensureTable_kept w current buf true).trans
          (hquiet.buildLoop_kept str [] _ _)
      · exact hquiet.buildLoop_kept str _ current w

/-- The declaration of a namespace takes no module out of the cache. -/
theorem NoCacheWrites.opNamespace_kept (hquiet : NoCacheWrites host code) (w : World ρ)
    (root_obj : Option Ref) (path : List UInt8) : Kept w (opNamespace host w root_obj path) := by
  have hbuild : Kept w (BuildNamespaceTables host w path).2 := hquiet.buildLoop_kept _ _ _ w
  rw [opNamespace]
  cases root_obj with
  | none => exact hbuild
  | some r =>
      apply hbuild.trans
      apply kept_setSlot
      intro _ hkey
      exact absurd hkey (by decide)

/-! ### The accesses of an import -/

theorem Unhooked.create {w : World ρ} (h : Unhooked w) (slots : Table.Contents) (toRoot : Bool) :
    Unhooked (w.create slots toRoot) where
  bare := h.bare.create slots toRoot
  own d hd := by
    rw [World.create_root, World.create_chain_old slots toRoot w.root_lt] at hd
    rw [World.create_old slots toRoot (Heap.lt_of_mem_chain w.root_lt (List.mem_of_mem_tail hd))]
    exact h.own d hd

/-- An assignment that touches neither a hook nor the cache leaves imports
unhooked. -/
theorem Unhooked.setSlot {w : World ρ} (h : Unhooked w) {r : Ref} {key : Object} (val : Object)
    (hmm : key ≠ MT_GET ∧ key ≠ MT_NEWSLOT)
    (hown : key = modules_key → r ∉ (w.heap.chain w.root).tail) :
    Unhooked (w.setSlot r key val) where
  bare := h.bare.setSlot val fun _ => hmm
  own d hd := by
    rw [World.setSlot_chain] at hd
    rw [World.setSlot_slots, if_neg]
    · exact h.own d hd
    · rintro ⟨rfl, hkey⟩
      exact hown hkey.symm hd

/-- An import finds the cache, or makes it. -/
theorem modulesTable_spec {w : World ρ} (hok : CacheOk w) (h : Unhooked w) :
    ∃ m w', modulesTable host w = (.table m, w') ∧ Kept w w' ∧ IsCache w' m ∧ Unhooked w' ∧
      (∀ m', IsCache w m' → w' = w) := by
  rcases hok with hnone | ⟨m, hm⟩
  · have hlook : lookup host w w.root modules_key = none := by
      rw [lookup_eq_none (by decide)]
      refine ⟨fun d hd => ?_, by decide⟩
      rw [Heap.chain_eq] at hd
      rcases List.mem_cons.mp hd with rfl | hd
      · exact hnone
      · exact h.own d (by rw [Heap.chain_eq]; exact hd)
    have hcreate := h.create .empty false
    have hplain : Plain (w.create .empty false) MT_NEWSLOT w.root := hcreate.bare.plain_root.2
    refine ⟨w.heap.size, (w.create .empty false).setSlot w.root modules_key
      (.table w.heap.size), ?_, ?_, ?_, ?_, ?_⟩
    · rw [modulesTable, Get_table h.bare.plain_root.1, hlook]
      simp only
      rw [NewSlot_table (by decide) hplain]
    · apply (kept_create w .empty false).trans
      apply kept_setSlot
      intro _ _
      refine ⟨?_, w.heap.size, rfl, Nat.lt_succ_self _, ?_⟩
      · rw [cacheSlot, World.create_root, World.create_old _ _ w.root_lt]
        exact hnone
      · intro d hd
        rw [Heap.delegate, World.create_new] at hd
        cases hd
    · refine ⟨?_, Nat.lt_succ_self _, ?_⟩
      · simp [cacheSlot, World.setSlot_slots]
      · intro d hd
        rw [World.setSlot_delegate, Heap.delegate, World.create_new] at hd
        cases hd
    · apply hcreate.setSlot _ (by decide)
      intro _
      exact Heap.notMem_chain_tail _
    · intro m' hm'
      rw [hm'.slot] at hnone
      cases hnone
  · refine ⟨m, w, ?_, .refl w, hm, h, fun _ _ => rfl⟩
    have hraw : rawGet host w w.root modules_key = some (.table m) := by
      have hslot := hm.slot
      rw [cacheSlot] at hslot
      rw [rawGet, if_neg (by decide), hslot]
      rfl
    rw [modulesTable, Get_some hraw]

/-- The entry of a module is in the cache when its body is called. -/
theorem enterModule_spec {w : World ρ} {m : Ref} {path : List UInt8} (hm : IsCache w m)
    (h : Unhooked w) (hnone : (w.heap.table m).slots (.string path) = none) :
    Kept w (enterModule host code w (.table m) path) ∧
      HasModule (enterModule host code w (.table m) path) path := by
  have hns : modules_key ≠ ns_key := by decide
  have hkept : Kept w (createSandbox w) := by
    apply (kept_create w .empty true).trans
    apply kept_setSlot
    intro _ hkey
    exact absurd hkey.symm hns
  have hbox : Unhooked (createSandbox w) :=
    (h.create .empty true).setSlot _ (by decide) fun hkey => absurd hkey.symm hns
  have hmbox : IsCache (createSandbox w) m :=
    (hm.create .empty true).setSlot _ fun hslot => hns hslot.2
  have hnone' : ((createSandbox w).heap.table m).slots (.string path) = none := by
    rw [createSandbox, World.setSlot_slots, if_neg (fun h => Nat.ne_of_lt hm.lt h.1),
      World.create_old _ _ hm.lt]
    exact hnone
  -- the closure of the module goes to a part of the world the cache does not depend on
  have hnew : ∀ rest closure, NewSlot host ((createSandbox w).withRest rest) (.table m)
      (.string path) closure =
        (true, ((createSandbox w).withRest rest).setSlot m (.string path) closure) :=
    fun rest closure => NewSlot_table (by simp) (hbox.bare.plain hmbox.delegate).2
  have hslot : ¬ ((createSandbox w).root = m ∧ modules_key = .string path) := by
    rintro ⟨rfl, hkey⟩
    have hslot := hmbox.slot
    rw [cacheSlot, hkey, hnone'] at hslot
    cases hslot
  rw [enterModule, hnew]
  generalize (code.newClosure (createSandbox w).rest).2 = rest
  have hmrest : IsCache ((createSandbox w).withRest rest) m := hmbox.withRest rest
  constructor
  · apply hkept.trans
    apply (kept_withRest (createSandbox w) rest).trans
    exact kept_setSlot fun hr hkey => absurd ⟨hr.symm, hkey.symm⟩ hslot
  · refine ⟨m, hmrest.setSlot _ hslot, ?_⟩
    rw [World.setSlot_slots, if_pos ⟨rfl, rfl⟩]
    rfl

/-- What an import does, case by case; with an entry in the cache it does nothing. -/
theorem opImport_spec {w : World ρ} (hok : CacheOk w) (h : Unhooked w) (site : CallSite)
    (path : List UInt8) :
    match opImport host code w site path with
    | .next w' => Kept w w' ∧ (HasModule w path → w' = w)
    | .raised _ w' => Kept w w' ∧ ¬ HasModule w path
    | .started _ w' => Kept w w' ∧ ¬ HasModule w path ∧ HasModule w' path
    | .stray => ¬ HasModule w path := by
  obtain ⟨m, w', hmodules, hkept, hm, hun, hsame⟩ := @modulesTable_spec _ host _ hok h
  have hget := @Get_table _ host _ (.string path) _ (hun.bare.plain hm.delegate).1
  have hfound : HasModule w path → (lookup host w' m (.string path)).isSome := by
    intro hhas
    obtain ⟨m', hm', hsome⟩ := hkept.modules path hhas
    obtain rfl : m' = m := by simpa [hm.slot] using hm'.slot.symm
    rw [lookup, Heap.chain_eq, List.findSome?_cons]
    obtain ⟨v, hv⟩ := Option.isSome_iff_exists.mp hsome
    simp [rawGet, hv]
  rw [opImport, hmodules]
  simp only [hget]
  cases hlook : lookup host w' m (.string path) with
  | some v =>
      refine ⟨hkept, ?_⟩
      rintro ⟨m', hm', _⟩
      exact hsame m' hm'
  | none =>
      have hnot : ¬ HasModule w path := fun hhas => by simpa [hlook] using hfound hhas
      have hnone : (w'.heap.table m).slots (.string path) = none :=
        Get_none (by simp) (hget.trans (by rw [hlook]))
      obtain ⟨henter, hhas⟩ := @enterModule_spec _ _ host code _ _ _ hm hun hnone
      cases hsource : code.source (filepath path) with
      | missing => exact ⟨hkept, hnot⟩
      | broken => exact ⟨hkept, hnot⟩
      | compiled bgenerator stacksize start =>
          by_cases hdeep : site.tooDeep
          · simp only [if_pos hdeep]
            exact ⟨hkept.trans henter, fun hhas => absurd hhas hnot⟩
          · by_cases hroom : site.noRoom stacksize
            · simp only [if_neg hdeep, if_pos hroom]
              exact hnot
            · cases bgenerator with
              | true =>
                  simp only [if_neg hdeep, if_neg hroom]
                  exact ⟨hkept.trans henter, fun hhas => absurd hhas hnot⟩
              | false =>
                  simp only [if_neg hdeep, if_neg hroom]
                  exact ⟨hkept.trans henter, hnot, hhas⟩

/-! ### Runs -/

/-- What holds in every state of a run: the bodies that were started are different ones, and
each has its entry in the cache. -/
structure StartedOnce (c : Config ρ S) : Prop where
  cache : CacheOk c.world
  entries : ∀ path ∈ c.started, HasModule c.world path
  nodup : c.started.Nodup

theorem StartedOnce.kept {c : Config ρ S} (hc : StartedOnce c) {w : World ρ}
    (hkept : Kept c.world w) (s : S) (waiting : List S) :
    StartedOnce { c with active := s, waiting := waiting, world := w } where
  cache := hkept.sound hc.cache
  entries path hpath := hkept.modules path (hc.entries path hpath)
  nodup := hc.nodup

/-- **No step starts a module twice.** -/
theorem StartedOnce.step (hquiet : NoCacheWrites host code) {c c' : Config ρ S}
    (hc : StartedOnce c) (hun : Unhooked c.world) (hstep : c.step host code = some c') :
    StartedOnce c' := by
  cases Config.move_of_step hstep with
  | run hact => exact hc.kept (hquiet.run _ _ _ _ hact).kept _ c.waiting
  | «namespace» hact => exact hc.kept (hquiet.opNamespace_kept _ _ _) _ c.waiting
  | @next site path _ _ _ himport =>
      have hspec := @opImport_spec _ _ host code _ hc.cache hun site path
      rw [himport] at hspec
      exact hc.kept hspec.1 _ c.waiting
  | @raised site path _ _ _ _ himport =>
      have hspec := @opImport_spec _ _ host code _ hc.cache hun site path
      rw [himport] at hspec
      exact hc.kept hspec.1 _ c.waiting
  | @started site path _ _ _ _ himport =>
      have hspec := @opImport_spec _ _ host code _ hc.cache hun site path
      rw [himport] at hspec
      obtain ⟨hkept, hnot, hhas⟩ := hspec
      have hc' := hc.kept hkept c.active c.waiting
      refine ⟨hc'.cache, ?_, ?_⟩
      · intro path' hpath'
        rcases List.mem_cons.mp hpath' with rfl | hpath'
        · exact hhas
        · exact hc'.entries path' hpath'
      · apply List.nodup_cons.mpr ⟨_, hc.nodup⟩
        intro hmem
        exact hnot (hc.entries path hmem)
  | back _ _ => exact hc.kept (.refl _) _ _

theorem StartedOnce.run (hquiet : NoCacheWrites host code) {c c' : Config ρ S}
    (hc : StartedOnce c) (hun : ∀ c', c.Reaches host code c' → Unhooked c'.world)
    (hreach : c.Reaches host code c') : StartedOnce c' := by
  induction hreach with
  | refl => exact hc
  | tail hcb hstep ih => exact ih.step hquiet (hun _ hcb) hstep

/-- An import of a path that was started has no effect. -/
theorem StartedOnce.import_again {c : Config ρ S} (hc : StartedOnce c) (hun : Unhooked c.world)
    {site : CallSite} {path : List UInt8} {k : Except (List UInt8) Unit → S}
    (hact : code.step c.active c.world = .import site path k) (hpath : path ∈ c.started) :
    c.step host code = some { c with active := k (.ok ()) } := by
  have hspec := @opImport_spec _ _ host code _ hc.cache hun site path
  have hhas := hc.entries path hpath
  rw [Config.step, hact]
  simp only
  cases himport : opImport host code c.world site path with
  | next w =>
      rw [himport] at hspec
      rw [hspec.2 hhas]
  | raised err w =>
      rw [himport] at hspec
      exact absurd hhas hspec.2
  | started body w =>
      rw [himport] at hspec
      exact absurd hhas hspec.2.1
  | stray =>
      rw [himport] at hspec
      exact absurd hhas hspec

/-! ### Termination -/

/-- The script comes to an end from `s`, whatever its imports do. -/
inductive Terminates (host : Host ρ) (code : Code ρ S) : S → World ρ → Prop where
  | intro {s : S} {w : World ρ}
      (run : ∀ s' w', code.step s w = .run s' w' → Terminates host code s' w')
      («namespace» : ∀ root_obj path s', code.step s w = .namespace root_obj path s' →
        Terminates host code s' (opNamespace host w root_obj path))
      («import» : ∀ site path k, code.step s w = .import site path k →
        ∀ r w', Terminates host code (k r) w') :
      Terminates host code s w

/-- An import that starts a module has compiled it and made it a sandbox. -/
theorem opImport_started {w w' : World ρ} {site : CallSite} {path : List UInt8} {body : S}
    (h : opImport host code w site path = .started body w') :
    ∃ bgenerator stacksize start sandbox,
      code.source (filepath path) = .compiled bgenerator stacksize start ∧
        body = start sandbox := by
  simp only [opImport] at h
  split at h
  · cases h
  · split at h
    · cases h
    · cases h
    · next bgenerator stacksize start hsource =>
        split at h
        · cases h
        · split at h
          · cases h
          · split at h
            · cases h
            · obtain ⟨rfl, _⟩ := Imported.started.inj h
              exact ⟨_, _, _, _, hsource, rfl⟩

/-- Every run comes to an end that has `n` modules left to start and these scripts waiting. -/
def AllHalt (host : Host ρ) (code : Code ρ S) (modules : Finset (List UInt8)) (n : Nat)
    (waiting : List S) : Prop :=
  ∀ c : Config ρ S, c.waiting = waiting → (modules.filter (· ∉ c.started)).card = n →
    Terminates host code c.active c.world → StartedOnce c →
    (∀ c', c.Reaches host code c' → Unhooked c'.world) → c.Halts host code

section

variable (hquiet : NoCacheWrites host code) {modules : Finset (List UInt8)}
  (hmodules : ∀ s w site path k, code.step s w = .import site path k →
    ∀ bgenerator stacksize start,
      code.source (filepath path) = .compiled bgenerator stacksize start →
        path ∈ modules ∧ ∀ sandbox w, Terminates host code (start sandbox) w)
include hquiet hmodules

/-- The running script comes to its end, or starts a body, which uses up a module. -/
theorem allHalt_step {n : Nat} {waiting : List S}
    (hwaiting : ∀ s ∈ waiting, ∀ w, Terminates host code s w)
    (ihn : ∀ m < n, ∀ waiting, (∀ s ∈ waiting, ∀ w, Terminates host code s w) →
      AllHalt host code modules m waiting)
    (ihw : ∀ s rest, waiting = s :: rest → AllHalt host code modules n rest) :
    AllHalt host code modules n waiting := by
  intro c hcw hcard hterm hc hun
  generalize hs : c.active = s at hterm
  generalize hw : c.world = w at hterm
  induction hterm generalizing c with
  | @intro s w _ _ himp ihrun ihnamespace ihimport =>
      subst hs hw
      cases hstep : c.step host code with
      | none => exact ⟨c, .refl, hstep⟩
      | some c' =>
          have hc' := hc.step hquiet (hun c .refl) hstep
          have hun' : ∀ c'', c'.Reaches host code c'' → Unhooked c''.world :=
            fun c'' hreach => hun c'' (.head hstep hreach)
          apply Config.Halts.step hstep
          cases Config.move_of_step hstep with
          | run hact => exact ihrun _ _ hact _ hcw hcard hc' hun' rfl rfl
          | «namespace» hact => exact ihnamespace _ _ _ hact _ hcw hcard hc' hun' rfl rfl
          | next hact => exact ihimport _ _ _ hact _ _ _ hcw hcard hc' hun' rfl rfl
          | raised hact => exact ihimport _ _ _ hact _ _ _ hcw hcard hc' hun' rfl rfl
          | @started site path k body w' hact himport =>
              obtain ⟨bgenerator, stacksize, start, sandbox, hsource, rfl⟩ :=
                opImport_started himport
              have hnew : path ∉ c.started := (List.nodup_cons.mp hc'.nodup).1
              have hmod := hmodules _ _ _ _ _ hact bgenerator stacksize start hsource
              have hlt : (modules.filter (· ∉ path :: c.started)).card < n := by
                rw [← hcard]
                apply Finset.card_lt_card
                refine ⟨?_, fun hsub => ?_⟩
                · intro p hp
                  simp only [Finset.mem_filter, List.mem_cons, not_or] at hp ⊢
                  exact ⟨hp.1, hp.2.2⟩
                · have hmem := hsub (Finset.mem_filter.mpr ⟨hmod.1, hnew⟩)
                  simp at hmem
              apply ihn _ hlt (k (.ok ()) :: c.waiting) _ _ rfl rfl _ hc' hun'
              · intro s hs w
                rcases List.mem_cons.mp hs with rfl | hs
                · exact himp _ _ _ hact _ w
                · exact hwaiting s (hcw ▸ hs) w
              · exact hmod.2 sandbox w'
          | @back s rest _ hcons =>
              have hrest : waiting = s :: rest := hcw.symm.trans hcons
              apply ihw s rest hrest { c with active := s, waiting := rest } rfl hcard _ hc' hun'
              exact hwaiting s (hrest ▸ List.mem_cons_self) _

/-- Modules whose bodies end leave a run that ends. -/
theorem allHalt (n : Nat) (waiting : List S)
    (hwaiting : ∀ s ∈ waiting, ∀ w, Terminates host code s w) :
    AllHalt host code modules n waiting := by
  induction n using Nat.strong_induction_on generalizing waiting with
  | _ n ihn =>
      induction waiting with
      | nil => exact allHalt_step hquiet hmodules hwaiting ihn fun s rest h => by cases h
      | cons s₀ waiting ihw =>
          apply allHalt_step hquiet hmodules hwaiting ihn
          intro s rest hcons
          obtain ⟨rfl, rfl⟩ := List.cons.inj hcons
          exact ihw fun s hs => hwaiting s (List.mem_cons_of_mem _ hs)

end

/-- Import once, where the root table is not replaced and no table on its chain has a metamethod
for the accesses to the cache: in every run each body is started at most once, an import of a
path that was started has no effect, and the run of terminating scripts over finitely many
modules terminates. -/
theorem import_once (hquiet : NoCacheWrites host code) {s : S} {w : World ρ}
    (hcache : cacheSlot w = none)
    (hun : ∀ c, (Config.main s w).Reaches host code c → Unhooked c.world) :
    (∀ c, (Config.main s w).Reaches host code c → c.started.Nodup ∧
      ∀ site path k, code.step c.active c.world = .import site path k → path ∈ c.started →
        c.step host code = some { c with active := k (.ok ()) }) ∧
    ∀ modules : Finset (List UInt8),
      (∀ s w site path k, code.step s w = .import site path k → ∀ bgenerator stacksize start,
        code.source (filepath path) = .compiled bgenerator stacksize start →
          path ∈ modules ∧ ∀ sandbox w, Terminates host code (start sandbox) w) →
      Terminates host code s w → (Config.main s w).Halts host code := by
  have hmain : StartedOnce (Config.main s w) :=
    ⟨.inl hcache, fun _ hpath => absurd hpath List.not_mem_nil, List.nodup_nil⟩
  constructor
  · intro c hreach
    have hc := hmain.run hquiet hun hreach
    exact ⟨hc.nodup, fun site path k => hc.import_again (hun c hreach)⟩
  · intro modules hmodules hterm
    have hall := allHalt hquiet hmodules
      (modules.filter (· ∉ (Config.main s w).started)).card [] fun s hs => by cases hs
    exact hall _ rfl rfl hterm hmain hun

/-- A main script that imports `a`, whose body imports itself. -/
def selfImport : Code Unit Nat where
  step s _ :=
    match s with
    | 0 | 2 => .import ⟨1, 0, 0, 1024⟩ (sc "a") fun _ => 1
    | _ => .done
  source file := if file = sc "a.gs" then .compiled false 4 fun _ => 2 else .missing
  newClosure _ := (0, ())

theorem selfImport_quiet : NoCacheWrites (Host.inert Unit) selfImport where
  run s w s' w' h := by
    simp only [selfImport] at h
    split at h <;> cases h
  call _ _ := .refl
  get _ _ := .refl
  newSlot _ _ _ := .refl

theorem unhooked_of_root {w : World ρ} (h : w.heap.delegate w.root = none ∧
    (w.heap.table w.root).slots MT_GET = none ∧ (w.heap.table w.root).slots MT_NEWSLOT = none) :
    Unhooked w where
  bare := .of_root h.1 h.2.1 h.2.2
  own d hd := by
    rw [w.heap.chain_of_none h.1] at hd
    cases hd

theorem selfImport_terminates (s : Nat) (w : World Unit) :
    Terminates (Host.inert Unit) selfImport s w := by
  have hdone : ∀ w, Terminates (Host.inert Unit) selfImport 1 w :=
    fun w => .intro (fun _ _ h => by cases h) (fun _ _ _ h => by cases h) fun _ _ _ h => by cases h
  apply Terminates.intro
  · intro s' w' h
    simp only [selfImport] at h
    split at h <;> cases h
  · intro root_obj path s' h
    simp only [selfImport] at h
    split at h <;> cases h
  · intro site path k h r w'
    simp only [selfImport] at h
    split at h
    · cases h
      exact hdone w'
    · cases h
      exact hdone w'
    · cases h

theorem import_once_selfImport :
    (∀ c, (Config.main 0 (World.initial ())).Reaches (Host.inert Unit) selfImport c →
      c.started.Nodup) ∧
    (Config.main 0 (World.initial ())).Halts (Host.inert Unit) selfImport := by
  have hrun : ∀ n < 4, (Config.run (Host.inert Unit) selfImport n
      (Config.main 0 (World.initial ()))).all fun c => c.world.heap.delegate c.world.root = none ∧
        (c.world.heap.table c.world.root).slots MT_GET = none ∧
        (c.world.heap.table c.world.root).slots MT_NEWSLOT = none := by
    decide +kernel
  have hend : Config.run (Host.inert Unit) selfImport 4 (Config.main 0 (World.initial ())) = none := by
    rfl
  have honce := import_once selfImport_quiet (s := 0) (w := World.initial ()) rfl (by
    intro c hreach
    obtain ⟨n, hn⟩ := hreach.exists_run
    apply unhooked_of_root
    by_cases hlt : n < 4
    · simpa [hn] using hrun n hlt
    · rw [Config.run_eq_none hend (Nat.le_of_not_lt hlt)] at hn
      cases hn)
  refine ⟨fun c hreach => (honce.1 c hreach).1, honce.2 {sc "a"} ?_ (selfImport_terminates _ _)⟩
  intro s w site path k hact bgenerator stacksize start hsource
  refine ⟨?_, fun sandbox w => selfImport_terminates _ _⟩
  simp only [selfImport] at hact
  split at hact
  · cases hact
    exact Finset.mem_singleton_self _
  · cases hact
    exact Finset.mem_singleton_self _
  · cases hact

/-- A main script that imports `a` twice. -/
def importTwice : Code Unit Nat where
  step s _ :=
    match s with
    | 0 => .import ⟨1, 0, 0, 1024⟩ (sc "a") fun _ => 1
    | 1 => .import ⟨1, 0, 0, 1024⟩ (sc "a") fun _ => 2
    | _ => .done
  source file := if file = sc "a.gs" then .compiled false 4 fun _ => 3 else .missing
  newClosure _ := (0, ())

/-- A root table with a delegate whose `_newslot` does nothing. -/
def swallowingWorld : World Unit where
  heap := (Heap.empty.create (Function.update Table.Contents.empty MT_NEWSLOT (some (.closure 0))) none
    Heap.no_delegate).create .empty (some 0) (by decide)
  root := 1
  root_lt := by decide
  rest := ()

def swallowingHost : Host Unit := { Host.inert Unit with call := fun _ _ w => (.ok .null, w) }

/-- No script writes the module cache, and a body is started twice. -/
theorem not_import_once :
    NoCacheWrites swallowingHost importTwice ∧ cacheSlot swallowingWorld = none ∧
    ¬ ∀ c, (Config.main 0 swallowingWorld).Reaches swallowingHost importTwice c →
      c.started.Nodup := by
  refine ⟨⟨?_, fun _ _ => .refl, fun _ _ => .refl, fun _ _ _ => .refl⟩, by decide, ?_⟩
  · intro s w s' w' h
    simp only [importTwice] at h
    split at h <;> cases h
  · intro hnodup
    have hrun : ((Config.run swallowingHost importTwice 3 (Config.main 0 swallowingWorld)).any
        fun c => !decide c.started.Nodup) = true := by
      decide +kernel
    obtain ⟨c, hc, hdup⟩ := (Option.any_eq_true _ _).mp hrun
    simp [hnodup c (Config.reaches_of_run hc)] at hdup

end GameScript.Scope
