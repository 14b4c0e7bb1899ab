/-!
Numbering keys in the order in which they are first asked for. A key that has a number keeps it,
and a new key gets the next one; the keys so far are the list of which the numbers are the indices.
-/

namespace GameScript.Numbering

variable {α : Type} [DecidableEq α]

/-- The number of a key, if it has one. -/
def numberOf (keys : List α) (key : α) : Option Nat := keys.findIdx? (· = key)

/-- Ask for the number of a key. -/
def ask (keys : List α) (key : α) : Nat × List α :=
  match numberOf keys key with
  | some n => (n, keys)
  | none => (keys.length, keys ++ [key])

/-- Ask for one key after the other. -/
def askAll (keys : List α) : List α → List Nat × List α
  | [] => ([], keys)
  | key :: rest =>
    let (n, keys) := ask keys key
    let (ns, keys) := askAll keys rest
    (n :: ns, keys)

variable {keys : List α} {key : α}

/-! ### One key -/

theorem ask_of_some {n : Nat} (h : numberOf keys key = some n) : ask keys key = (n, keys) := by
  unfold ask
  rw [h]

theorem ask_of_none (h : numberOf keys key = none) :
    ask keys key = (keys.length, keys ++ [key]) := by
  unfold ask
  rw [h]

theorem numberOf_eq_some {n : Nat} (h : numberOf keys key = some n) : keys[n]? = some key := by
  obtain ⟨hn, hkey, _⟩ := List.findIdx?_eq_some_iff_getElem.mp h
  rw [List.getElem?_eq_getElem hn, of_decide_eq_true hkey]

theorem numberOf_eq_none : numberOf keys key = none ↔ key ∉ keys := by
  unfold numberOf
  rw [List.findIdx?_eq_none_iff]
  constructor
  · intro h hkey
    exact of_decide_eq_false (h key hkey) rfl
  · intro h k hk
    apply decide_eq_false
    rintro rfl
    exact h hk

/-- Where no key is twice, the number of a key is where it is. -/
theorem numberOf_eq_some_iff (hkeys : keys.Nodup) {n : Nat} :
    numberOf keys key = some n ↔ keys[n]? = some key := by
  constructor
  · exact numberOf_eq_some
  · intro h
    cases hnumber : numberOf keys key with
    | none => exact absurd (List.mem_of_getElem? h) (numberOf_eq_none.mp hnumber)
    | some m =>
      obtain ⟨hn, _⟩ := List.getElem?_eq_some_iff.mp h
      have heq := h.trans (numberOf_eq_some hnumber).symm
      rw [(List.getElem?_inj hn hkeys).mp heq]

/-- The next number is not given yet. -/
theorem numberOf_concat (hkey : key ∉ keys) (k : α) :
    numberOf (keys ++ [key]) k = if k = key then some keys.length else numberOf keys k := by
  unfold numberOf
  rw [List.findIdx?_append]
  split
  · next heq =>
    subst heq
    rw [show keys.findIdx? (· = k) = none from numberOf_eq_none.mpr hkey]
    simp
  · next hne =>
    cases keys.findIdx? (· = k) with
    | some n => rfl
    | none => simp [Ne.symm hne]

theorem ask_getElem? (keys : List α) (key : α) :
    (ask keys key).2[(ask keys key).1]? = some key := by
  cases h : numberOf keys key with
  | some n =>
    rw [ask_of_some h]
    exact numberOf_eq_some h
  | none =>
    rw [ask_of_none h]
    exact List.getElem?_concat_length

theorem prefix_ask (keys : List α) (key : α) : keys <+: (ask keys key).2 := by
  unfold ask
  split
  · exact List.prefix_rfl
  · exact List.prefix_append keys [key]

theorem nodup_ask (hkeys : keys.Nodup) (key : α) : (ask keys key).2.Nodup := by
  cases h : numberOf keys key with
  | some n =>
    rw [ask_of_some h]
    exact hkeys
  | none =>
    have hkey := numberOf_eq_none.mp h
    rw [ask_of_none h, List.nodup_append]
    refine ⟨hkeys, List.pairwise_singleton _ key, ?_⟩
    intro a ha b hb
    rw [List.mem_singleton] at hb
    rintro rfl
    exact hkey (hb ▸ ha)

/-! ### One key after the other -/

theorem length_askAll (rest : List α) (keys : List α) :
    (askAll keys rest).1.length = rest.length := by
  induction rest generalizing keys with
  | nil => rfl
  | cons key rest ih => exact congrArg (· + 1) (ih _)

theorem prefix_askAll (rest : List α) (keys : List α) : keys <+: (askAll keys rest).2 := by
  induction rest generalizing keys with
  | nil => exact List.prefix_rfl
  | cons key rest ih => exact (prefix_ask keys key).trans (ih _)

theorem nodup_askAll (rest : List α) {keys : List α} (hkeys : keys.Nodup) :
    (askAll keys rest).2.Nodup := by
  induction rest generalizing keys with
  | nil => exact hkeys
  | cons key rest ih => exact ih (nodup_ask hkeys key)

/-- Every key has its number in the end. -/
theorem askAll_getElem? (rest : List α) (keys : List α) {i n : Nat} {key : α}
    (hkey : rest[i]? = some key) (hn : (askAll keys rest).1[i]? = some n) :
    (askAll keys rest).2[n]? = some key := by
  induction rest generalizing keys i with
  | nil => cases hkey
  | cons first rest ih =>
    cases i with
    | zero =>
      obtain rfl : first = key := Option.some.inj hkey
      obtain rfl : (ask keys first).1 = n := Option.some.inj hn
      have hfirst := ask_getElem? keys first
      obtain ⟨hlt, heq⟩ := List.getElem?_eq_some_iff.mp hfirst
      have hkept := List.prefix_iff_getElem?.mp (prefix_askAll rest (ask keys first).2) _ hlt
      rw [heq] at hkept
      exact hkept
    | succ i => exact ih _ hkey hn

/-- Keys have one number if and only if they are equal. -/
theorem askAll_inj {rest keys : List α} (hkeys : keys.Nodup) {i j m n : Nat} {a b : α}
    (ha : rest[i]? = some a) (hb : rest[j]? = some b) (hm : (askAll keys rest).1[i]? = some m)
    (hn : (askAll keys rest).1[j]? = some n) : m = n ↔ a = b := by
  have hma := askAll_getElem? rest keys ha hm
  have hnb := askAll_getElem? rest keys hb hn
  constructor
  · rintro rfl
    exact Option.some.inj (hma.symm.trans hnb)
  · rintro rfl
    obtain ⟨hlt, _⟩ := List.getElem?_eq_some_iff.mp hma
    exact (List.getElem?_inj hlt (nodup_askAll rest hkeys)).mp (hma.trans hnb.symm)

end GameScript.Numbering
