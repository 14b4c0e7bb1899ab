import GameScript.Scope.Modules

/-!
Namespace paths. `BuildNamespaceTables` walks the segments of a path with a `Get` that
delegates, and makes a table where it finds nothing. Where what it finds is the table of an
earlier declaration or nothing, the new tables hang under the last one it found (`plant`), and
every declared path has a table of its own.
-/

namespace GameScript.Scope

variable {ρ : Type} {host : Host ρ} {w : World ρ}

/-! ### The segments of a path -/

/-- An identifier, as far as the loops see it. -/
structure IsSegment (s : List UInt8) : Prop where
  nonempty : s ≠ []
  slash : slash ∉ s
  nul : 0 ∉ s

/-- The segments with slashes between them. -/
def joinPath (segments : List (List UInt8)) : List UInt8 := [slash].intercalate segments

/-- The string `NamespaceStatement` makes of the segments. -/
def namespaceString (segments : List (List UInt8)) : List UInt8 := (joinPath segments).take 1023

theorem joinPath_cons_cons (s s' : List UInt8) (rest : List (List UInt8)) :
    joinPath (s :: s' :: rest) = s ++ slash :: joinPath (s' :: rest) := by
  simp [joinPath, List.intercalate]

theorem joinPath_singleton (s : List UInt8) : joinPath [s] = s := by
  simp [joinPath, List.intercalate]

theorem cstring_of_not_mem {s : List UInt8} (h : 0 ∉ s) : cstring s = s := by
  induction s with
  | nil => rfl
  | cons c s ih =>
      simp only [List.mem_cons, not_or] at h
      have hc : c ≠ 0 := fun heq => h.1 heq.symm
      rw [cstring, List.takeWhile_cons_of_pos (by simpa using hc)]
      exact congrArg (c :: ·) (ih h.2)

theorem zero_not_mem_joinPath :
    ∀ {segments : List (List UInt8)}, (∀ s ∈ segments, IsSegment s) → 0 ∉ joinPath segments
  | [], _ => by simp [joinPath, List.intercalate]
  | [s], h => by
      rw [joinPath_singleton]
      exact (h s List.mem_cons_self).nul
  | s :: s' :: rest, h => by
      have ih : 0 ∉ joinPath (s' :: rest) := zero_not_mem_joinPath fun t ht =>
        h t (List.mem_cons_of_mem _ ht)
      have hs := (h s List.mem_cons_self).nul
      rw [joinPath_cons_cons]
      simp [hs, ih, Scope.slash]

/-- The walk of `BuildNamespaceTables` over the segments of a path. -/
def walk (host : Host ρ) : List (List UInt8) → Object → World ρ → Object × World ρ
  | [], current, w => (current, w)
  | [s], current, w => ensureTable host w current s false
  | s :: s' :: rest, current, w =>
      let (next_table, w) := ensureTable host w current s true
      walk host (s' :: rest) next_table w

/-- The walk of `ResolveNamespaceTable`. -/
def resolve (host : Host ρ) : List (List UInt8) → Object → World ρ → Option Object × World ρ
  | [], current, w => (some current, w)
  | s :: rest, current, w =>
      match Get host w current (.string s) with
      | (some next_table, w) => resolve host rest next_table w
      | (none, w) => (none, w)

/-- A loop over the characters of a path collects those before a slash in its buffer, as many
as it has room for. -/
theorem collect_append {α : Type} {loop : List UInt8 → List UInt8 → α}
    (hloop : ∀ c rest buf, c ≠ slash →
      loop (c :: rest) buf = loop rest (if buf.length < 255 then buf ++ [c] else buf))
    {s : List UInt8} (hs : slash ∉ s) (rest : List UInt8) :
    ∀ {buf : List UInt8}, buf.length + s.length ≤ 255 →
      loop (s ++ rest) buf = loop rest (buf ++ s) := by
  induction s with
  | nil =>
      intro buf _
      simp
  | cons c s ih =>
      intro buf hlen
      simp only [List.mem_cons, not_or, List.length_cons] at hs hlen
      have hbuf : buf.length < 255 := by omega
      rw [List.cons_append, hloop c _ _ fun h => hs.1 h.symm, if_pos hbuf, ih hs.2]
      · simp
      · simp only [List.length_append, List.length_singleton]
        omega

theorem buildLoop_append {s : List UInt8} (hs : IsSegment s) (hlen : s.length ≤ 255)
    (rest : List UInt8) (current : Object) (w : World ρ) :
    buildLoop host (s ++ rest) [] current w = buildLoop host rest s current w := by
  apply @collect_append _ (fun str buf => buildLoop host str buf current w) _ _ hs.slash rest
  · simpa using hlen
  · intro c rest buf hc
    simp only [buildLoop, if_neg hc]

theorem resolveLoop_append {s : List UInt8} (hs : IsSegment s) (hlen : s.length ≤ 255)
    (rest : List UInt8) (current : Object) (w : World ρ) :
    resolveLoop host (s ++ rest) [] current w = resolveLoop host rest s current w := by
  apply @collect_append _ (fun str buf => resolveLoop host str buf current w) _ _ hs.slash rest
  · simpa using hlen
  · intro c rest buf hc
    simp only [resolveLoop, if_neg hc]

/-- Between slashes the loop collects the segments. -/
theorem buildLoop_joinPath :
    ∀ {segments : List (List UInt8)}, (∀ s ∈ segments, IsSegment s ∧ s.length ≤ 255) →
      ∀ (current : Object) (w : World ρ),
        buildLoop host (joinPath segments) [] current w = walk host segments current w
  | [], _, current, w => by simp [joinPath, List.intercalate, buildLoop, walk]
  | [s], h, current, w => by
      obtain ⟨hs, hlen⟩ := h s List.mem_cons_self
      have happend := @buildLoop_append _ host _ hs hlen [] current w
      rw [List.append_nil] at happend
      rw [joinPath_singleton, happend, buildLoop, if_neg hs.nonempty, walk]
  | s :: s' :: rest, h, current, w => by
      obtain ⟨hs, hlen⟩ := h s List.mem_cons_self
      have ih := @buildLoop_joinPath (s' :: rest) fun t ht =>
        h t (List.mem_cons_of_mem _ ht)
      rw [joinPath_cons_cons, buildLoop_append hs hlen, buildLoop, if_pos rfl, walk]
      exact ih _ _

theorem resolveLoop_joinPath :
    ∀ {segments : List (List UInt8)}, (∀ s ∈ segments, IsSegment s ∧ s.length ≤ 255) →
      ∀ (current : Object) (w : World ρ),
        resolveLoop host (joinPath segments) [] current w = resolve host segments current w
  | [], _, current, w => by simp [joinPath, List.intercalate, resolveLoop, resolve]
  | [s], h, current, w => by
      obtain ⟨hs, hlen⟩ := h s List.mem_cons_self
      have happend := @resolveLoop_append _ host _ hs hlen [] current w
      rw [List.append_nil] at happend
      rw [joinPath_singleton, happend, resolveLoop, if_neg hs.nonempty, resolve]
      rcases Get host w current (.string s) with ⟨_ | v, w'⟩
      · rfl
      · simp [resolve]
  | s :: s' :: rest, h, current, w => by
      obtain ⟨hs, hlen⟩ := h s List.mem_cons_self
      have ih := @resolveLoop_joinPath (s' :: rest) fun t ht =>
        h t (List.mem_cons_of_mem _ ht)
      rw [joinPath_cons_cons, resolveLoop_append hs hlen, resolveLoop, if_pos rfl, resolve]
      rcases Get host w current (.string s) with ⟨_ | v, w'⟩
      · rfl
      · exact ih _ _

/-- `BuildNamespaceTables` on the string of a path that is cut nowhere. -/
theorem BuildNamespaceTables_eq {segments : List (List UInt8)}
    (h : ∀ s ∈ segments, IsSegment s ∧ s.length ≤ 255)
    (hlen : (joinPath segments).length ≤ 1023) (w : World ρ) :
    BuildNamespaceTables host w (namespaceString segments) =
      walk host segments (.table w.root) w := by
  have hnul := zero_not_mem_joinPath fun s hs => (h s hs).1
  rw [BuildNamespaceTables, namespaceString, List.take_of_length_le hlen,
    cstring_of_not_mem hnul, buildLoop_joinPath h]

theorem ResolveNamespaceTable_eq {segments : List (List UInt8)}
    (h : ∀ s ∈ segments, IsSegment s ∧ s.length ≤ 255)
    (hlen : (joinPath segments).length ≤ 1023) (w : World ρ) :
    ResolveNamespaceTable host w (namespaceString segments) =
      resolve host segments (.table w.root) w := by
  have hnul := zero_not_mem_joinPath fun s hs => (h s hs).1
  rw [ResolveNamespaceTable, namespaceString, List.take_of_length_le hlen,
    cstring_of_not_mem hnul, resolveLoop_joinPath h]

/-! ### Planting new tables -/

/-- A new table under the slot `s` of `c`. -/
def World.grow (w : World ρ) (c : Ref) (s : List UInt8) (toRoot : Bool) : World ρ :=
  (w.create .empty toRoot).setSlot c (.string s) (.table w.heap.size)

namespace World

variable {c : Ref} {s : List UInt8} {toRoot : Bool}

@[simp] theorem grow_root : (w.grow c s toRoot).root = w.root := rfl

@[simp] theorem grow_rest : (w.grow c s toRoot).rest = w.rest := rfl

@[simp] theorem grow_size : (w.grow c s toRoot).heap.size = w.heap.size + 1 := rfl

theorem grow_delegate_old {r : Ref} (hr : r < w.heap.size) :
    (w.grow c s toRoot).heap.delegate r = w.heap.delegate r := by
  rw [grow, setSlot_delegate, Heap.delegate, create_old _ _ hr]
  rfl

theorem grow_delegate_new :
    (w.grow c s toRoot).heap.delegate w.heap.size = if toRoot then some w.root else none := by
  rw [grow, setSlot_delegate, Heap.delegate, create_new]

theorem grow_chain_old {r : Ref} (hr : r < w.heap.size) :
    (w.grow c s toRoot).heap.chain r = w.heap.chain r := by
  rw [grow, setSlot_chain, create_chain_old _ _ hr]

theorem grow_slots_old {r : Ref} (hr : r < w.heap.size) (key : Object) :
    ((w.grow c s toRoot).heap.table r).slots key =
      if r = c ∧ key = .string s then some (.table w.heap.size)
      else (w.heap.table r).slots key := by
  rw [grow, setSlot_slots, create_old _ _ hr]

theorem grow_slots_new (hc : c < w.heap.size) (key : Object) :
    ((w.grow c s toRoot).heap.table w.heap.size).slots key = none := by
  rw [grow, setSlot_slots, if_neg (fun h => Nat.ne_of_gt hc h.1), create_new]
  rfl

end World

/-- A chain of new tables under a slot of `c`, one for each segment. All but the last delegate
to the root table. -/
def plant : List (List UInt8) → Ref → World ρ → World ρ
  | [], _, w => w
  | s :: rest, c, w => plant rest w.heap.size (w.grow c s (rest ≠ []))

@[simp] theorem plant_root :
    ∀ (segments : List (List UInt8)) (c : Ref) (w : World ρ), (plant segments c w).root = w.root
  | [], _, _ => rfl
  | _ :: rest, _, w => by
      rw [plant, plant_root]
      rfl

@[simp] theorem plant_rest :
    ∀ (segments : List (List UInt8)) (c : Ref) (w : World ρ), (plant segments c w).rest = w.rest
  | [], _, _ => rfl
  | _ :: rest, _, w => by
      rw [plant, plant_rest]
      rfl

@[simp] theorem plant_size :
    ∀ (segments : List (List UInt8)) (c : Ref) (w : World ρ),
      (plant segments c w).heap.size = w.heap.size + segments.length
  | [], _, _ => rfl
  | s :: rest, _, w => by
      rw [plant, plant_size, World.grow_size, List.length_cons]
      omega

theorem plant_delegate_old :
    ∀ (segments : List (List UInt8)) {c r : Nat} (w : World ρ), r < w.heap.size →
      (plant segments c w).heap.delegate r = w.heap.delegate r
  | [], _, _, _, _ => rfl
  | s :: rest, c, r, w, hr => by
      rw [plant, plant_delegate_old rest _ (Nat.lt_succ_of_lt hr), World.grow_delegate_old hr]

theorem plant_chain_old :
    ∀ (segments : List (List UInt8)) {c r : Nat} (w : World ρ), r < w.heap.size →
      (plant segments c w).heap.chain r = w.heap.chain r
  | [], _, _, _, _ => rfl
  | s :: rest, c, r, w, hr => by
      rw [plant, plant_chain_old rest _ (Nat.lt_succ_of_lt hr), World.grow_chain_old hr]

/-- Of the tables there were, only the one it is planted in has a new slot. -/
theorem plant_slots_old :
    ∀ (segments : List (List UInt8)) {c r : Nat} (w : World ρ), r < w.heap.size →
      ∀ key, ((plant segments c w).heap.table r).slots key =
        if r = c ∧ segments.head?.map Object.string = some key then some (.table w.heap.size)
        else (w.heap.table r).slots key
  | [], _, _, _, _, _ => by simp [plant]
  | s :: rest, c, r, w, hr, key => by
      have hne : r ≠ w.heap.size := Nat.ne_of_lt hr
      rw [plant, plant_slots_old rest _ (Nat.lt_succ_of_lt hr), if_neg (fun h => hne h.1),
        World.grow_slots_old hr]
      simp [eq_comm]

/-- A new table delegates to the root table or to nothing. -/
theorem plant_delegate_new :
    ∀ (segments : List (List UInt8)) (c : Ref) (w : World ρ) (j : Nat), j < segments.length →
      (plant segments c w).heap.delegate (w.heap.size + j) =
        if j + 1 < segments.length then some w.root else none
  | s :: rest, c, w, 0, _ => by
      rw [plant, plant_delegate_old _ _ (Nat.lt_succ_self _), Nat.add_zero,
        World.grow_delegate_new]
      cases rest <;> simp
  | s :: rest, c, w, j + 1, h => by
      have ih := plant_delegate_new rest w.heap.size (w.grow c s (rest ≠ [])) j
        (Nat.lt_of_succ_lt_succ h)
      have hidx : w.heap.size + (j + 1) = w.heap.size + 1 + j := by omega
      rw [plant, hidx]
      refine ih.trans ?_
      simp

/-- A new table has a slot for the next one and no other. -/
theorem plant_slots_new :
    ∀ (segments : List (List UInt8)) (c : Ref) (w : World ρ) (j : Nat) (key : Object),
      c < w.heap.size → j < segments.length →
      ((plant segments c w).heap.table (w.heap.size + j)).slots key =
        if segments[j + 1]?.map Object.string = some key then some (.table (w.heap.size + j + 1))
        else none
  | s :: rest, c, w, 0, key, hc, _ => by
      rw [plant, plant_slots_old _ _ (Nat.lt_succ_self _), Nat.add_zero,
        World.grow_slots_new hc]
      simp [List.head?_eq_getElem?]
  | s :: rest, c, w, j + 1, key, hc, h => by
      have ih := plant_slots_new rest w.heap.size (w.grow c s (rest ≠ [])) j key
        (Nat.lt_succ_self _) (Nat.lt_of_succ_lt_succ h)
      have hidx : w.heap.size + (j + 1) = w.heap.size + 1 + j := by omega
      rw [plant, hidx]
      exact ih

/-! ### The walk where nothing is found -/

/-- The slot `s` of `c` is found nowhere, and none of the segments that follow is seen from the
root table, before or once that slot is there. -/
structure Clear (host : Host ρ) (w : World ρ) (c : Ref) (s : List UInt8)
    (rest : List (List UInt8)) : Prop where
  lt : c < w.heap.size
  bare : Bare w
  plain : Plain w MT_GET c ∧ Plain w MT_NEWSLOT c
  miss : lookup host w c (.string s) = none
  name : c ∈ w.heap.chain w.root → Object.string s ≠ MT_GET ∧ Object.string s ≠ MT_NEWSLOT
  hidden : ∀ t ∈ rest, lookup host w w.root (.string t) = none ∧
    (c ∈ w.heap.chain w.root → t ≠ s)

/-- Where a segment is found nowhere, a new table is made for it. -/
theorem ensureTable_missing {c : Ref} {s : List UInt8} (hlt : c < w.heap.size)
    (hplain : Plain w MT_GET c ∧ Plain w MT_NEWSLOT c)
    (hmiss : lookup host w c (.string s) = none) (toRoot : Bool) :
    ensureTable host w (.table c) s toRoot = (.table w.heap.size, w.grow c s toRoot) := by
  have hnew : Plain (w.create .empty toRoot) MT_NEWSLOT c := by
    intro d hd
    rw [World.create_chain_old _ _ hlt] at hd
    rw [World.create_old _ _ (Heap.lt_of_mem_chain hlt (List.mem_of_mem_tail hd))]
    exact hplain.2 d hd
  rw [ensureTable, Get_table hplain.1, hmiss]
  simp only
  rw [NewSlot_table (by simp) hnew]
  rfl

theorem ensureTable_found {c : Ref} {s : List UInt8} {v : Object}
    (hlook : lookup host w c (.string s) = some v) (toRoot : Bool) :
    ensureTable host w (.table c) s toRoot = (v, w) := by
  rw [ensureTable, Get_lookup hlook]

namespace Clear

variable {c : Ref} {s s' : List UInt8} {rest : List (List UInt8)}

theorem ensureTable_eq (h : Clear host w c s rest) (toRoot : Bool) :
    ensureTable host w (.table c) s toRoot = (.table w.heap.size, w.grow c s toRoot) :=
  ensureTable_missing h.lt h.plain h.miss toRoot

/-- The new table is where the next one goes. -/
theorem next (h : Clear host w c s (s' :: rest)) :
    Clear host (w.grow c s true) w.heap.size s' rest := by
  have hlt : ∀ d ∈ w.heap.chain w.root, d < w.heap.size :=
    fun d hd => Heap.lt_of_mem_chain w.root_lt hd
  have hchain : (w.grow c s true).heap.chain w.root = w.heap.chain w.root :=
    World.grow_chain_old w.root_lt
  have hnew : w.heap.size ∉ (w.grow c s true).heap.chain (w.grow c s true).root := by
    rw [World.grow_root, hchain]
    exact fun hmem => Nat.lt_irrefl _ (hlt _ hmem)
  have hbare : Bare (w.grow c s true) := by
    apply (h.bare.create .empty true).setSlot
    rw [World.create_root, World.create_chain_old _ _ w.root_lt]
    exact h.name
  have hmiss : ∀ t ∈ s' :: rest,
      lookup host (w.grow c s true) (w.grow c s true).root (.string t) = none := by
    intro t ht
    obtain ⟨hnone, hne⟩ := h.hidden t ht
    rw [lookup_eq_none (by simp)] at hnone ⊢
    refine ⟨fun d hd => ?_, hnone.2⟩
    rw [World.grow_root, hchain] at hd
    rw [World.grow_slots_old (hlt d hd), if_neg]
    · exact hnone.1 d hd
    · rintro ⟨rfl, hkey⟩
      exact hne hd (Object.string.inj hkey)
  refine ⟨Nat.lt_succ_self _, hbare, ?_, ?_, fun hmem => absurd hmem hnew, ?_⟩
  · apply hbare.plain
    intro d hd
    rw [World.grow_delegate_new] at hd
    exact (Option.some.inj hd).symm
  · have hroot := hmiss s' List.mem_cons_self
    rw [lookup_eq_none (by simp)] at hroot ⊢
    refine ⟨fun d hd => ?_, hroot.2⟩
    rw [Heap.chain_of_some _ World.grow_delegate_new] at hd
    rcases List.mem_cons.mp hd with rfl | hd
    · exact World.grow_slots_new h.lt _
    · exact hroot.1 d hd
  · exact fun t ht => ⟨hmiss t (List.mem_cons_of_mem _ ht), fun hmem => absurd hmem hnew⟩

/-- From where it finds nothing the walk plants the rest of the path. -/
theorem walk_eq (h : Clear host w c s rest) :
    walk host (s :: rest) (.table c) w =
      (.table (w.heap.size + rest.length), plant (s :: rest) c w) := by
  induction rest generalizing w c s with
  | nil =>
      rw [walk, h.ensureTable_eq]
      rfl
  | cons s' rest ih =>
      have hidx : w.heap.size + 1 + rest.length = w.heap.size + (s' :: rest).length := by
        rw [List.length_cons]
        omega
      rw [walk, h.ensureTable_eq]
      simp only
      rw [ih h.next, World.grow_size, hidx]
      rfl

end Clear

end GameScript.Scope
