import GameScript.GSArray

/-!
What the element type and the capacity of an array promise, and which operations
keep it.

A constraint is what an array acquired once: it stays the constraint of the
array and of its clones, whose own tags are not set. Only `Append` looks at the
tags. Every other operation that stores an element keeps the constraint exactly
when what it stores meets it, which nothing checks; `Meets` is that condition,
and `sound_iff_meets` that it is the right one for a single operation.
-/

namespace GameScript

/-- An element type and a capacity, each `-1` where there is none. -/
structure Constraint where
  capacity : Int
  elementType : Int

namespace Constraint

/-- `n` elements are within the capacity. -/
def Room (c : Constraint) (n : Nat) : Prop := c.capacity = -1 ∨ n ≤ c.capacity.toNat

/-- `o` has the element type. -/
def Conforms (c : Constraint) (o : Object) : Prop :=
  c.elementType = -1 ∨ typeOk c.elementType o = true

theorem Room.mono {c : Constraint} {m n : Nat} (h : c.Room n) (hle : m ≤ n) : c.Room m :=
  h.imp_right fun hn => Nat.le_trans hle hn

end Constraint

/-- The array keeps the constraint. -/
structure Fits (c : Constraint) (a : GSArray) : Prop where
  capacity : c.Room a.size
  elements : ∀ o ∈ a.values, c.Conforms o

namespace GSArray

/-- The constraint that `Append` enforces. -/
def tags (a : GSArray) : Constraint := ⟨a.maxCapacity, a.elementType⟩

theorem append_eq (a : GSArray) (o : Object) :
    (a.tags.Room (a.size + 1) ∧ a.tags.Conforms o ∧
        a.append o = .ok { a with values := a.values ++ [o] }) ∨
      ((¬ a.tags.Room (a.size + 1) ∨ ¬ a.tags.Conforms o) ∧ ∃ e, a.append o = .error e) := by
  unfold append
  by_cases hcap : a.maxCapacity ≠ -1 ∧ a.size ≥ a.maxCapacity.toNat
  · rw [if_pos hcap]
    refine .inr ⟨.inl ?_, _, rfl⟩
    rintro (hnone | hle)
    · exact hcap.1 hnone
    · exact absurd hle (Nat.not_le_of_lt (Nat.lt_succ_of_le hcap.2))
  · rw [if_neg hcap]
    have hroom : a.tags.Room (a.size + 1) := by
      by_cases hnone : a.maxCapacity = -1
      · exact .inl hnone
      · exact .inr (Nat.lt_of_not_le fun hle => hcap ⟨hnone, hle⟩)
    by_cases htype : a.elementType ≠ -1 ∧ typeOk a.elementType o = false
    · rw [if_pos htype]
      refine .inr ⟨.inr ?_, _, rfl⟩
      rintro (hnone | hok)
      · exact htype.1 hnone
      · cases hok.symm.trans htype.2
    · rw [if_neg htype]
      refine .inl ⟨hroom, ?_, rfl⟩
      by_cases hnone : a.elementType = -1
      · exact .inl hnone
      · refine .inr ?_
        cases hok : typeOk a.elementType o with
        | true => exact hok
        | false => exact absurd ⟨hnone, hok⟩ htype

/-- An extension adds as many elements as it is given, or fewer. -/
theorem extend_values_length_le (vals : List Object) (a : GSArray) :
    (a.extend vals).values.length ≤ a.size + vals.length := by
  induction vals generalizing a with
  | nil => exact Nat.le_refl _
  | cons o os ih =>
      rw [extend, List.length_cons]
      rcases a.append_eq o with ⟨_, _, hok⟩ | ⟨_, e, herr⟩
      · rw [hok]
        have hle := ih { a with values := a.values ++ [o] }
        simp only [size, List.length_append, List.length_singleton] at hle ⊢
        omega
      · rw [herr]
        have hle := ih a
        show (a.extend os).values.length ≤ _
        omega

/-- `Extend` appends everything exactly when the tags accept all of it. -/
theorem extend_values_eq_iff (vals : List Object) (a : GSArray) :
    (a.extend vals).values = a.values ++ vals ↔
      (∀ v ∈ vals, a.tags.Conforms v) ∧ (vals ≠ [] → a.tags.Room (a.size + vals.length)) := by
  induction vals generalizing a with
  | nil => simp [extend]
  | cons o os ih =>
      rw [extend]
      rcases a.append_eq o with ⟨hroom, hconf, hok⟩ | ⟨hrefused, e, herr⟩
      · rw [hok]
        have hsize : size { a with values := a.values ++ [o] } = a.size + 1 := by simp [size]
        have hih := ih { a with values := a.values ++ [o] }
        rw [hsize, List.append_assoc, List.singleton_append] at hih
        refine hih.trans ⟨fun ⟨hall, hlen⟩ => ⟨?_, fun _ => ?_⟩, fun ⟨hall, hlen⟩ => ⟨?_, ?_⟩⟩
        · intro v hv
          rcases List.mem_cons.mp hv with rfl | hv
          · exact hconf
          · exact hall v hv
        · cases os with
          | nil => exact hroom
          | cons o' os =>
              have hroom' := hlen (List.cons_ne_nil _ _)
              simp only [List.length_cons] at hroom' ⊢
              exact hroom'.mono (by omega)
        · exact fun v hv => hall v (List.mem_cons_of_mem o hv)
        · intro _
          have hroom' := hlen (List.cons_ne_nil o os)
          rw [List.length_cons] at hroom'
          exact hroom'.mono (by omega)
      · rw [herr]
        constructor
        · intro heq
          have hlen := congrArg List.length heq
          have hle := extend_values_length_le os a
          simp only [List.length_append, List.length_cons, size] at hlen hle
          omega
        · rintro ⟨hall, hlen⟩
          have hroom := (hlen (List.cons_ne_nil o os)).mono (m := a.size + 1) (by simp)
          rcases hrefused with hno | hno
          · exact absurd hroom hno
          · exact absurd (hall o List.mem_cons_self) hno

/-! ### One operation -/

variable {fl : FloatOps} {referent : Ref → Object} {c : Constraint} {a : GSArray}

/-- An operation either raises, or does to the array what it does to an array
without tags and leaves it keeping the constraint. -/
def Sound (fl : FloatOps) (referent : Ref → Object) (c : Constraint) (a : GSArray) (op : Op) :
    Prop :=
  ∀ a' result, op.run fl referent a = .ok (a', result) →
    Fits c a' ∧ op.run fl referent a.clone = .ok (a'.clone, result)

/-- What the operation stores meets the constraint. -/
def Meets (fl : FloatOps) (c : Constraint) (a : GSArray) : Op → Prop
  | .set key val => key.isNumeric → 0 ≤ (key.toInteger fl).toInt →
      (key.toInteger fl).toInt < a.size → c.Conforms val
  | .append val => a.tags.Room (a.size + 1) → a.tags.Conforms val →
      c.Room (a.size + 1) ∧ c.Conforms val
  | .extend vals => (∀ v ∈ vals, a.tags.Conforms v ∧ c.Conforms v) ∧
      (vals ≠ [] → a.tags.Room (a.size + vals.length) ∧ c.Room (a.size + vals.length))
  | .insert idx val => idx.isNumeric → 0 ≤ (idx.toInteger fl).toInt →
      (idx.toInteger fl).toInt ≤ a.size → c.Room (a.size + 1) ∧ c.Conforms val
  | .resize nsize fill => nsize.isNumeric → 0 ≤ (nsize.toInteger fl).toInt →
      c.Room (nsize.toInteger fl).toInt.toNat ∧
        (a.size < (nsize.toInteger fl).toInt.toNat → c.Conforms fill)
  | .reverse | .pop | .remove _ | .clear => True

theorem fits_set (h : Fits c a) {val : Object} (hval : c.Conforms val) (i : Nat) :
    Fits c { a with values := a.values.set i val } where
  capacity := by simpa [size] using h.capacity
  elements o ho := by
    rcases List.mem_or_eq_of_mem_set ho with ho | rfl
    · exact h.elements o ho
    · exact hval

theorem fits_append (h : Fits c a) {vals : List Object} (hroom : c.Room (a.size + vals.length))
    (hvals : ∀ v ∈ vals, c.Conforms v) : Fits c { a with values := a.values ++ vals } where
  capacity := by simpa [size] using hroom
  elements o ho := by
    rcases List.mem_append.mp ho with ho | ho
    · exact h.elements o ho
    · exact hvals o ho

/-- Elements taken out or put in another order keep the constraint. -/
theorem fits_sublist (h : Fits c a) {values : List Object}
    (hlen : values.length ≤ a.values.length) (hsub : values ⊆ a.values) :
    Fits c { a with values := values } where
  capacity := h.capacity.mono hlen
  elements o ho := h.elements o (hsub ho)

theorem fits_insert_iff (h : Fits c a) {i : Nat} (hi : i ≤ a.size) (val : Object) :
    Fits c { a with values := a.values.insertIdx i val } ↔
      c.Room (a.size + 1) ∧ c.Conforms val := by
  have hlen : (a.values.insertIdx i val).length = a.size + 1 :=
    List.length_insertIdx_of_le_length hi val
  constructor
  · intro hfits
    refine ⟨hlen ▸ hfits.capacity, hfits.elements val ?_⟩
    exact (List.mem_insertIdx hi).mpr (.inl rfl)
  · rintro ⟨hroom, hval⟩
    refine ⟨?_, fun o ho => ?_⟩
    · rw [size, hlen]
      exact hroom
    rcases (List.mem_insertIdx hi).mp ho with rfl | ho
    · exact hval
    · exact h.elements o ho

/-- A resized array fits if it has the room and its new elements conform. -/
theorem fits_resize_iff (h : Fits c a) (n : Nat) (fill : Object) :
    Fits c (a.resize n fill) ↔ c.Room n ∧ (a.size < n → c.Conforms fill) := by
  have hlen : (a.resize n fill).size = n := by
    simp only [resize, size, List.length_append, List.length_take, List.length_replicate]
    omega
  constructor
  · intro hfits
    refine ⟨hlen ▸ hfits.capacity, fun hlt => hfits.elements fill ?_⟩
    refine List.mem_append_right _ (List.mem_replicate.mpr ⟨?_, rfl⟩)
    omega
  · rintro ⟨hroom, hfill⟩
    refine ⟨hlen.symm ▸ hroom, fun o ho => ?_⟩
    rcases List.mem_append.mp ho with ho | ho
    · exact h.elements o (List.mem_of_mem_take ho)
    · obtain ⟨hne, rfl⟩ := List.mem_replicate.mp ho
      exact hfill (by omega)

/-- Whether the operation looks at the tags. -/
def Op.usesTags : Op → Bool
  | .append _ | .extend _ => true
  | _ => false

/-- An operation that does not look at the tags does the same without them. -/
theorem run_clone {op : Op} (htags : op.usesTags = false) :
    op.run fl referent a.clone =
      (op.run fl referent a).map fun r => (r.1.clone, r.2) := by
  have hsize : a.clone.size = a.size := rfl
  have hvalues : a.clone.values = a.values := rfl
  cases op with
  | append | extend => cases htags
  | set key val =>
      simp only [Op.run, GSArray.set, hsize, hvalues]
      by_cases hnum : ¬ key.isNumeric
      · rw [if_pos hnum, if_pos hnum]
        rfl
      · rw [if_neg hnum, if_neg hnum]
        by_cases hin : 0 ≤ (key.toInteger fl).toInt ∧ (key.toInteger fl).toInt < a.size
        · rw [if_pos hin, if_pos hin]
          rfl
        · rw [if_neg hin, if_neg hin]
          rfl
  | insert idx val =>
      simp only [Op.run, GSArray.insert, hsize, hvalues]
      by_cases hnum : ¬ idx.isNumeric
      · rw [if_pos hnum, if_pos hnum]
        rfl
      · rw [if_neg hnum, if_neg hnum]
        by_cases hout : (idx.toInteger fl).toInt < 0 ∨ (idx.toInteger fl).toInt > a.size
        · rw [if_pos hout, if_pos hout]
          rfl
        · rw [if_neg hout, if_neg hout]
          rfl
  | resize nsize fill =>
      simp only [Op.run, GSArray.resize, hsize, hvalues]
      by_cases hnum : ¬ nsize.isNumeric
      · rw [if_pos hnum, if_pos hnum]
        rfl
      · rw [if_neg hnum, if_neg hnum]
        by_cases hneg : (nsize.toInteger fl).toInt < 0
        · rw [if_pos hneg, if_pos hneg]
          rfl
        · rw [if_neg hneg, if_neg hneg]
          rfl
  | reverse => rfl
  | pop =>
      simp only [Op.run, hvalues]
      cases a.values.getLast? <;> rfl
  | remove idx =>
      have hget : a.clone.get referent (idx.toInteger fl) = a.get referent (idx.toInteger fl) := rfl
      simp only [Op.run, GSArray.remove, hsize, hvalues, hget]
      by_cases hnum : ¬ idx.isNumeric
      · rw [if_pos hnum, if_pos hnum]
        rfl
      · rw [if_neg hnum, if_neg hnum]
        by_cases hout : (idx.toInteger fl).toInt < 0 ∨ (idx.toInteger fl).toInt ≥ a.size
        · rw [if_pos hout, if_pos hout]
          cases a.get referent (idx.toInteger fl) <;> rfl
        · rw [if_neg hout, if_neg hout]
          cases a.get referent (idx.toInteger fl) <;> rfl
  | clear => rfl

theorem sound_of_fits {op : Op} (htags : op.usesTags = false)
    (h : ∀ a' result, op.run fl referent a = .ok (a', result) → Fits c a') :
    Sound fl referent c a op := by
  intro a' result hrun
  refine ⟨h a' result hrun, ?_⟩
  rw [run_clone htags, hrun]
  rfl

/-- An assignment keeps the constraint exactly where its value meets it. -/
theorem sound_set_iff (h : Fits c a) (key val : Object) :
    Sound fl referent c a (.set key val) ↔ Meets fl c a (.set key val) := by
  constructor
  · intro hsound hnum hnonneg hlt
    have hrun : Op.run fl referent a (.set key val) =
        .ok ({ a with values := a.values.set (key.toInteger fl).toInt.toNat val }, some val) := by
      rw [Op.run, if_neg (not_not.mpr hnum), GSArray.set, if_pos ⟨hnonneg, hlt⟩]
    refine (hsound _ _ hrun).1.elements val (List.mem_set ?_ val)
    have hsize : a.size = a.values.length := rfl
    omega
  · intro hmeets
    refine sound_of_fits rfl fun a' result hrun => ?_
    rw [Op.run] at hrun
    split at hrun
    · cases hrun
    · next hnum =>
        rw [GSArray.set] at hrun
        by_cases hin : 0 ≤ (key.toInteger fl).toInt ∧ (key.toInteger fl).toInt < a.size
        · rw [if_pos hin] at hrun
          cases hrun
          exact fits_set h (hmeets (not_not.mp hnum) hin.1 hin.2) _
        · rw [if_neg hin] at hrun
          cases hrun

/-- An append keeps the constraint exactly where it meets it. -/
theorem sound_append_iff (h : Fits c a) (val : Object) :
    Sound fl referent c a (.append val) ↔ Meets fl c a (.append val) := by
  have hclone : a.clone.append val = .ok { values := a.values ++ [val] } := by
    rcases a.clone.append_eq val with ⟨_, _, hok⟩ | ⟨hno, _⟩
    · exact hok
    · exact absurd (hno.resolve_left (not_not.mpr (.inl rfl))) (not_not.mpr (.inl rfl))
  rcases a.append_eq val with ⟨hroom, hconf, hok⟩ | ⟨hno, e, herr⟩
  · have hrun : Op.run fl referent a (.append val) =
        .ok ({ a with values := a.values ++ [val] }, none) := by
      rw [Op.run, hok]
      rfl
    constructor
    · intro hsound _ _
      have hfits := (hsound _ _ hrun).1
      refine ⟨?_, hfits.elements val (List.mem_append_right _ (List.mem_singleton.mpr rfl))⟩
      simpa [size] using hfits.capacity
    · intro hmeets a' result hrun'
      rw [hrun] at hrun'
      cases hrun'
      obtain ⟨hroomc, hconfc⟩ := hmeets hroom hconf
      refine ⟨fits_append h hroomc fun v hv => ?_, ?_⟩
      · rw [List.mem_singleton.mp hv]
        exact hconfc
      · rw [Op.run, hclone]
        rfl
  · constructor
    · intro _ hroom hconf
      rcases hno with hno | hno
      · exact absurd hroom hno
      · exact absurd hconf hno
    · intro _ a' result hrun'
      rw [Op.run, herr] at hrun'
      cases hrun'

/-- An extension leaves the tags alone. -/
theorem extend_tags (vals : List Object) (a : GSArray) :
    (a.extend vals).maxCapacity = a.maxCapacity ∧
      (a.extend vals).elementType = a.elementType := by
  induction vals generalizing a with
  | nil => exact ⟨rfl, rfl⟩
  | cons o os ih =>
      rw [extend]
      rcases a.append_eq o with ⟨_, _, hok⟩ | ⟨_, e, herr⟩
      · rw [hok]
        exact ih _
      · rw [herr]
        exact ih a

/-- An extension keeps the constraint exactly where all its values meet it. -/
theorem sound_extend_iff (h : Fits c a) (vals : List Object) :
    Sound fl referent c a (.extend vals) ↔ Meets fl c a (.extend vals) := by
  have hclone : (a.clone.extend vals).values = a.values ++ vals :=
    (extend_values_eq_iff vals a.clone).mpr ⟨fun _ _ => .inl rfl, fun _ => .inl rfl⟩
  constructor
  · intro hsound
    obtain ⟨hfits, hrun⟩ := hsound _ _ rfl
    have hvalues : (a.extend vals).values = a.values ++ vals := by
      have hpair : a.clone.extend vals = (a.extend vals).clone :=
        congrArg Prod.fst (Except.ok.inj hrun)
      rw [← hclone, hpair]
      rfl
    obtain ⟨htype, hcap⟩ := (extend_values_eq_iff vals a).mp hvalues
    refine ⟨fun v hv => ⟨htype v hv, hfits.elements v ?_⟩, fun hne => ⟨hcap hne, ?_⟩⟩
    · rw [hvalues]
      exact List.mem_append_right _ hv
    · have hroom := hfits.capacity
      rw [size, hvalues, List.length_append] at hroom
      exact hroom
  · rintro ⟨htype, hcap⟩ a' result hrun
    cases hrun
    have hvalues : (a.extend vals).values = a.values ++ vals :=
      (extend_values_eq_iff vals a).mpr ⟨fun v hv => (htype v hv).1, fun hne => (hcap hne).1⟩
    have hext : a.extend vals = { a with values := a.values ++ vals } := by
      obtain ⟨hmax, hty⟩ := extend_tags vals a
      rw [← hvalues, ← hmax, ← hty]
    have hroom : c.Room (a.size + vals.length) := by
      cases vals with
      | nil => exact h.capacity
      | cons o os => exact (hcap (List.cons_ne_nil o os)).2
    refine ⟨hext ▸ fits_append h hroom fun v hv => (htype v hv).2, ?_⟩
    obtain ⟨hmax, hty⟩ := extend_tags vals a.clone
    have hext' : a.clone.extend vals = { values := a.values ++ vals } := by
      rw [← hclone]
      show _ = GSArray.mk _ a.clone.maxCapacity a.clone.elementType
      rw [← hmax, ← hty]
    rw [Op.run, hext', hext]
    rfl

/-- An insertion keeps the constraint exactly where its value meets it. -/
theorem sound_insert_iff (h : Fits c a) (idx val : Object) :
    Sound fl referent c a (.insert idx val) ↔ Meets fl c a (.insert idx val) := by
  have hin : ∀ {i : Int}, 0 ≤ i → i ≤ a.size → i.toNat ≤ a.size := by omega
  constructor
  · intro hsound hnum hnonneg hle
    have hrun : Op.run fl referent a (.insert idx val) =
        .ok ({ a with values := a.values.insertIdx (idx.toInteger fl).toInt.toNat val },
          none) := by
      rw [Op.run, if_neg (not_not.mpr hnum), GSArray.insert, if_neg (by omega)]
    exact (fits_insert_iff h (hin hnonneg hle) val).mp (hsound _ _ hrun).1
  · intro hmeets
    refine sound_of_fits rfl fun a' result hrun => ?_
    rw [Op.run] at hrun
    split at hrun
    · cases hrun
    · next hnum =>
        rw [GSArray.insert] at hrun
        by_cases hout : (idx.toInteger fl).toInt < 0 ∨ (idx.toInteger fl).toInt > a.size
        · rw [if_pos hout] at hrun
          cases hrun
        · rw [if_neg hout] at hrun
          cases hrun
          have hnonneg : 0 ≤ (idx.toInteger fl).toInt := by omega
          have hle : (idx.toInteger fl).toInt ≤ a.size := by omega
          exact (fits_insert_iff h (hin hnonneg hle) val).mpr
            (hmeets (not_not.mp hnum) hnonneg hle)

/-- A resize keeps the constraint exactly where its size and its filling meet
it. -/
theorem sound_resize_iff (h : Fits c a) (nsize fill : Object) :
    Sound fl referent c a (.resize nsize fill) ↔ Meets fl c a (.resize nsize fill) := by
  constructor
  · intro hsound hnum hnonneg
    have hrun : Op.run fl referent a (.resize nsize fill) =
        .ok (a.resize (nsize.toInteger fl).toInt.toNat fill, none) := by
      rw [Op.run, if_neg (not_not.mpr hnum), if_neg (by omega)]
    exact (fits_resize_iff h _ fill).mp (hsound _ _ hrun).1
  · intro hmeets
    refine sound_of_fits rfl fun a' result hrun => ?_
    rw [Op.run] at hrun
    split at hrun
    · cases hrun
    · next hnum =>
        split at hrun
        · cases hrun
        · next hnonneg =>
            cases hrun
            exact (fits_resize_iff h _ fill).mpr (hmeets (not_not.mp hnum) (by omega))

/-- `reverse`, `pop`, `remove` and `clear` store nothing. -/
theorem sound_of_storesNothing (h : Fits c a) {op : Op}
    (hop : op = .reverse ∨ op = .pop ∨ (∃ idx, op = .remove idx) ∨ op = .clear) :
    Sound fl referent c a op := by
  rcases hop with rfl | rfl | ⟨idx, rfl⟩ | rfl
  · refine sound_of_fits rfl fun a' result hrun => ?_
    cases hrun
    exact fits_sublist h (Nat.le_of_eq List.length_reverse) fun o ho => List.mem_reverse.mp ho
  · refine sound_of_fits rfl fun a' result hrun => ?_
    rw [Op.run] at hrun
    split at hrun
    · cases hrun
    · cases hrun
      refine fits_sublist h ?_ (List.dropLast_subset a.values)
      rw [List.length_dropLast]
      omega
  · refine sound_of_fits rfl fun a' result hrun => ?_
    rw [Op.run] at hrun
    split at hrun
    · cases hrun
    · split at hrun
      · next val a₁ _ hremove =>
          cases hrun
          rw [GSArray.remove] at hremove
          split at hremove
          · cases hremove
          · cases hremove
            refine fits_sublist h ?_ (List.eraseIdx_subset)
            exact List.length_eraseIdx_le _ _
      · cases hrun
  · refine sound_of_fits rfl fun a' result hrun => ?_
    cases hrun
    exact (fits_resize_iff h 0 .null).mpr
      ⟨h.capacity.mono (Nat.zero_le _), fun hlt => absurd hlt (Nat.not_lt_zero _)⟩

variable (referent) in
/-- **The condition is exact**: on an array that keeps the constraint, an
operation is sound exactly when what it stores meets it. -/
theorem sound_iff_meets (h : Fits c a) (op : Op) :
    Sound fl referent c a op ↔ Meets fl c a op := by
  cases op with
  | set key val => exact sound_set_iff h key val
  | append val => exact sound_append_iff h val
  | extend vals => exact sound_extend_iff h vals
  | insert idx val => exact sound_insert_iff h idx val
  | resize nsize fill => exact sound_resize_iff h nsize fill
  | reverse => exact iff_of_true (sound_of_storesNothing h (.inl rfl)) trivial
  | pop => exact iff_of_true (sound_of_storesNothing h (.inr (.inl rfl))) trivial
  | remove idx =>
      exact iff_of_true (sound_of_storesNothing h (.inr (.inr (.inl ⟨idx, rfl⟩)))) trivial
  | clear => exact iff_of_true (sound_of_storesNothing h (.inr (.inr (.inr rfl)))) trivial

end GSArray

end GameScript
