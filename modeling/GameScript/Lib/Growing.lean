import Mathlib.Data.List.Basic

/-!
Places that grow along paths. A path is followed from the root, label by label, and where a label
is not found a new place is made under it. A place asks the places it falls back on for what it
does not have; a new one falls back on the root, unless the path ends there.

* `grow_eq_join`: paths that agree on what they make, and do not see it elsewhere, make the same
  one after the other as each alone.
* `grow_comm_iff`: only such paths make the same in either order.
-/

namespace GameScript.Growing

/-- A place that was there before, or the one made under a label of another. -/
inductive Place (α β : Type) where
  | old (a : α)
  | new (parent : Place α β) (label : β)
deriving DecidableEq

/-- What there is before: what a place has under a label (`some none` is no place), the places it
falls back on, the nearest first, and the labels that are found everywhere. -/
structure Ground (α β : Type) where
  root : α
  entry : α → β → Option (Option α)
  behind : α → List α
  everywhere : β → Bool
  behind_append : ∀ {a b : α} {l l' : List α}, behind a = l ++ b :: l' → behind b = l'

/-- Where places were made, and for each whether it falls back on the root. -/
abbrev Growth (α β : Type) := Place α β → β → Option Bool

/-- The labels of a path, of which the last may be missing. -/
structure Path (β : Type) where
  inner : List β
  last : Option β
deriving DecidableEq, Repr

variable {α β : Type}

theorem Place.new_ne (n : Place α β) (b : β) : Place.new n b ≠ n := by
  intro h
  have hsize := congrArg sizeOf h
  rw [Place.new.sizeOf_spec] at hsize
  omega

/-- Nothing has grown. -/
def bare : Growth α β := fun _ _ => none

/-- What grew in either of two ways. -/
def join (P Q : Growth α β) : Growth α β := fun n b => (P n b).or (Q n b)

/-- A new place under the label `b` of `n`. -/
def Growth.plant [DecidableEq α] [DecidableEq β] (G : Growth α β) (n : Place α β) (b : β)
    (inner : Bool) : Growth α β :=
  fun m c => if m = n ∧ c = b then some inner else G m c

section Walk

variable (S : Ground α β)

/-- The places that a place falls back on if it is no end of a path. -/
def fallback : Place α β → List α
  | .old a => S.behind a
  | .new _ _ => S.root :: S.behind S.root

/-- The places that are asked for a label, one after the other. -/
def chainOf (G : Growth α β) : Place α β → List (Place α β)
  | .old a => .old a :: (S.behind a).map .old
  | .new n b =>
      .new n b :: if G n b = some true then (S.root :: S.behind S.root).map .old else []

/-- What a place had under a label before. -/
def before : Place α β → β → Option (Option (Place α β))
  | .old a, b => (S.entry a b).map (Option.map .old)
  | .new _ _, _ => none

/-- What a place has under a label. -/
def entryOf (G : Growth α β) (b : β) (n : Place α β) : Option (Option (Place α β)) :=
  (before S n b).or ((G n b).map fun _ => some (.new n b))

/-- What is found under a label from a place. -/
def look (G : Growth α β) (n : Place α β) (b : β) : Option (Option (Place α β)) :=
  ((chainOf S G n).findSome? (entryOf S G b)).or (if S.everywhere b then some none else none)

variable [DecidableEq α] [DecidableEq β]

/-- The way along the labels of a path, up to something that is no place. -/
def follow : List β → Place α β → Growth α β → Option (Place α β) × Growth α β
  | [], n, G => (some n, G)
  | b :: rest, n, G =>
      match look S G n b with
      | some (some m) => follow rest m G
      | some none => (none, G)
      | none => follow rest (.new n b) (G.plant n b true)

/-- The end of a path. -/
def finish (last : Option β) (n : Option (Place α β)) (G : Growth α β) : Growth α β :=
  match n, last with
  | some n, some b => if look S G n b = none then G.plant n b false else G
  | _, _ => G

/-- What has grown once a path was followed. -/
def grow (p : Path β) (G : Growth α β) : Growth α β :=
  let (n, G) := follow S p.inner (.old S.root) G
  finish S p.last n G

end Walk

/-- What grew in one way is not seen in the other from a place that would have it itself. -/
def Overlooks (S : Ground α β) (P Q : Growth α β) : Prop :=
  ∀ n b, P n b ≠ none → Q n b = none → ∀ a ∈ fallback S n, Q (.old a) b = none

/-- Two ways of growing agree on the places they both make, and neither sees the other's
elsewhere. -/
structure Compatible (S : Ground α β) (P Q : Growth α β) : Prop where
  agree : ∀ n b k k', P n b = some k → Q n b = some k' → k = k'
  unseen : Overlooks S P Q
  unseen' : Overlooks S Q P

variable {S : Ground α β} {G R P Q : Growth α β} {n m : Place α β} {b c : β}

/-! ### What is found -/

theorem entryOf_eq_none : entryOf S G b n = none ↔ before S n b = none ∧ G n b = none := by
  unfold entryOf
  rw [Option.or_eq_none_iff, Option.map_eq_none_iff]

theorem look_eq_none : look S G n b = none ↔
    (∀ x ∈ chainOf S G n, before S x b = none ∧ G x b = none) ∧ S.everywhere b = false := by
  unfold look
  rw [Option.or_eq_none_iff, List.findSome?_eq_none_iff]
  simp only [entryOf_eq_none]
  cases S.everywhere b <;> simp

theorem mem_chainOf_self (S : Ground α β) (G : Growth α β) (n : Place α β) : n ∈ chainOf S G n := by
  cases n <;> exact List.mem_cons_self

/-- A place that falls back on the root if it is new. -/
def Live (G : Growth α β) (n : Place α β) : Prop := ∀ m c, n = .new m c → G m c = some true

/-- A place that was there before or has grown. -/
def Present (G : Growth α β) (n : Place α β) : Prop := ∀ m c, n = .new m c → G m c ≠ none

theorem present_old (G : Growth α β) (a : α) : Present G (.old a) := nofun

theorem chainOf_of_live (h : Live G n) : chainOf S G n = n :: (fallback S n).map .old := by
  cases n with
  | old a => rfl
  | new m c => rw [chainOf, if_pos (h m c rfl), fallback]

/-- The chain of a place is the place with what the ground has behind it, if
anything. -/
theorem chainOf_eq (S : Ground α β) (G : Growth α β) (n : Place α β) :
    chainOf S G n = [n] ∨ chainOf S G n = n :: (fallback S n).map .old := by
  cases n with
  | old a => exact .inr rfl
  | new m c =>
      by_cases hc : G m c = some true
      · exact .inr (by rw [chainOf, if_pos hc, fallback])
      · exact .inl (by rw [chainOf, if_neg hc])

/-- Behind a place there are only places of the ground. -/
theorem mem_fallback_of_mem (h : m ∈ chainOf S G n) (hne : m ≠ n) :
    ∃ a ∈ fallback S n, m = .old a := by
  rcases chainOf_eq S G n with heq | heq
  · rw [heq, List.mem_singleton] at h
    exact absurd h hne
  · rw [heq, List.mem_cons, List.mem_map] at h
    rcases h with h | ⟨a, ha, rfl⟩
    · exact absurd h hne
    · exact ⟨a, ha, rfl⟩

theorem fallback_append {a : α} {l l' : List α} (h : fallback S n = l ++ a :: l') :
    S.behind a = l' := by
  cases n with
  | old r => exact S.behind_append h
  | new m c =>
      cases l with
      | nil =>
          obtain ⟨rfl, rfl⟩ := List.cons.inj h
          rfl
      | cons _ l => exact S.behind_append (List.cons.inj h).2

/-- What is asked after a place is something it falls back on. -/
theorem mem_fallback_of_append {l l' : List (Place α β)}
    (h : chainOf S G n = l ++ m :: l') {x : Place α β} (hx : x ∈ l) :
    ∃ a ∈ fallback S x, m = .old a := by
  obtain ⟨l₁, l₂, rfl⟩ := List.append_of_mem hx
  rw [List.append_assoc, List.cons_append] at h
  have hm : m ∈ l₂ ++ m :: l' := by simp
  rcases chainOf_eq S G n with heq | heq
  · rw [heq] at h
    have hlen := congrArg List.length h
    simp only [List.length_append, List.length_cons, List.length_nil] at hlen
    omega
  · rw [heq] at h
    cases l₁ with
    | nil =>
        obtain ⟨rfl, hrest⟩ := List.cons.inj h
        rw [← hrest, List.mem_map] at hm
        obtain ⟨a, ha, rfl⟩ := hm
        exact ⟨a, ha, rfl⟩
    | cons _ l₁ =>
        obtain ⟨u, v, hfallback, -, hv⟩ := List.map_eq_append_iff.mp (List.cons.inj h).2
        obtain ⟨a, v, rfl, rfl, hrest⟩ := List.map_eq_cons_iff.mp hv
        rw [← hrest, List.mem_map] at hm
        obtain ⟨d, hd, rfl⟩ := hm
        refine ⟨d, ?_, rfl⟩
        rw [fallback, fallback_append hfallback]
        exact hd

theorem before_of_look {b : β} (h : look S G n b = none) (hm : m ∈ chainOf S G n) :
    before S m b = none ∧ G m b = none := (look_eq_none.mp h).1 m hm

theorem none_of_look (h : look S G n b = none) : before S n b = none ∧ G n b = none :=
  before_of_look h (mem_chainOf_self S G n)

/-! ### What grows -/

/-- Nothing that has grown changes. -/
def Extends (G R : Growth α β) : Prop := ∀ n b k, G n b = some k → R n b = some k

theorem Extends.trans (h : Extends G P) (h' : Extends P R) : Extends G R :=
  fun n b k hk => h' n b k (h n b k hk)

theorem Extends.eq_none (h : Extends G R) (hnone : R n b = none) : G n b = none := by
  cases hk : G n b with
  | none => rfl
  | some k =>
      rw [h n b k hk] at hnone
      cases hnone

theorem Extends.ne_none (h : Extends G R) (hne : G n b ≠ none) : R n b ≠ none :=
  fun hnone => hne (h.eq_none hnone)

theorem Extends.present (h : Extends G R) (hn : Present G n) : Present R n :=
  fun m c heq => h.ne_none (hn m c heq)

theorem Extends.live (h : Extends G R) (hn : Live G n) : Live R n :=
  fun m c heq => h m c true (hn m c heq)

/-- A place that is there already does not come to fall back on the root later. -/
theorem Extends.live_of_present (h : Extends G R) (hn : Present G n) (hlive : Live R n) :
    Live G n := by
  intro m c heq
  obtain ⟨k, hk⟩ := Option.ne_none_iff_exists'.mp (hn m c heq)
  have hR := hlive m c heq
  rw [h m c k hk] at hR
  rw [hk, hR]

/-- A place that is found is there. -/
theorem present_of_look (h : look S G n b = some (some m)) : Present G m := by
  unfold look at h
  rw [Option.or_eq_some_iff] at h
  rcases h with h | ⟨-, h⟩
  · obtain ⟨x, -, hx⟩ := List.exists_of_findSome?_eq_some h
    unfold entryOf at hx
    rw [Option.or_eq_some_iff] at hx
    rcases hx with hx | ⟨-, hx⟩
    · cases x with
      | old a =>
          obtain ⟨v, -, hv⟩ := Option.map_eq_some_iff.mp hx
          obtain ⟨r, -, rfl⟩ := Option.map_eq_some_iff.mp hv
          exact present_old G r
      | new _ _ => cases hx
    · obtain ⟨k, hk, hm⟩ := Option.map_eq_some_iff.mp hx
      cases Option.some.inj hm
      intro m c heq
      cases heq
      rw [hk]
      exact Option.some_ne_none k
  · split at h
    · cases h
    · cases h

/-- `R` has grown out of `G`: where a place was made, its label was not found. -/
structure GrownFrom (S : Ground α β) (G R : Growth α β) : Prop where
  mono : Extends G R
  present : ∀ n b, G n b = none → R n b ≠ none → Present R n
  missing : ∀ n b, G n b = none → R n b ≠ none → before S n b = none ∧ S.everywhere b = false
  unseen : ∀ n b, G n b = none → R n b ≠ none → Live R n →
    ∀ a ∈ fallback S n, before S (.old a) b = none ∧ G (.old a) b = none

theorem GrownFrom.refl (S : Ground α β) (G : Growth α β) : GrownFrom S G G where
  mono _ _ _ hk := hk
  present _ _ hnone hne := absurd hnone hne
  missing _ _ hnone hne := absurd hnone hne
  unseen _ _ hnone hne := absurd hnone hne

theorem GrownFrom.trans (h : GrownFrom S G P) (h' : GrownFrom S P R) : GrownFrom S G R where
  mono := h.mono.trans h'.mono
  present n b hnone hne := by
    by_cases hP : P n b = none
    · exact h'.present n b hP hne
    · exact h'.mono.present (h.present n b hnone hP)
  missing n b hnone hne := by
    by_cases hP : P n b = none
    · exact h'.missing n b hP hne
    · exact h.missing n b hnone hP
  unseen n b hnone hne hlive a ha := by
    by_cases hP : P n b = none
    · obtain ⟨hbefore, hold⟩ := h'.unseen n b hP hne hlive a ha
      exact ⟨hbefore, h.mono.eq_none hold⟩
    · exact h.unseen n b hnone hP (h'.mono.live_of_present (h.present n b hnone hP) hlive) a ha

/-- All places fall back on the root. -/
def Inner (G : Growth α β) : Prop := ∀ n b k, G n b = some k → k = true

/-- Places were made only under such as fall back on the root. -/
def Rooted (G : Growth α β) : Prop := ∀ n b, G n b ≠ none → Live G n

theorem Inner.live (h : Inner G) (hn : Present G n) : Live G n := by
  intro m c heq
  obtain ⟨k, hk⟩ := Option.ne_none_iff_exists'.mp (hn m c heq)
  rw [hk, h m c k hk]

/-! ### Two ways of growing -/

theorem join_eq_none : join P Q n b = none ↔ P n b = none ∧ Q n b = none := Option.or_eq_none_iff

theorem join_bare (P : Growth α β) : join P bare = P := by
  funext n b
  exact Option.or_none

/-- Growths that agree where both have something join in either order. -/
theorem join_comm (h : ∀ n b k k', P n b = some k → Q n b = some k' → k = k') :
    join P Q = join Q P := by
  funext n b
  unfold join
  cases hP : P n b with
  | none => rw [Option.none_or, Option.or_none]
  | some k =>
      cases hQ : Q n b with
      | none => rfl
      | some k' => rw [h n b k k' hP hQ, Option.some_or]

/-- Where a walk that ends with `Q` has come to, after `P` has grown. -/
structure Apart (S : Ground α β) (P Q G : Growth α β) (n : Place α β) : Prop where
  compatible : Compatible S P Q
  first : GrownFrom S bare P
  rooted : Rooted P
  rooted' : Rooted Q
  rest : GrownFrom S G Q
  live : Live G n

namespace Apart

variable (h : Apart S P Q G n)
include h

/-- What is grown changes no chain. -/
theorem chainOf_join : chainOf S (join P G) n = chainOf S G n := by
  rw [chainOf_of_live h.live, chainOf_of_live]
  intro m c heq
  have hG := h.live m c heq
  unfold join
  cases hP : P m c with
  | none => rw [hG, Option.none_or]
  | some k => rw [h.compatible.agree m c k true hP (h.rest.mono m c true hG), Option.some_or]

/-- What the walk finds it finds after `P` has grown. -/
theorem look_some {v : Option (Place α β)} (hlook : look S G n b = some v) :
    look S (join P G) n b = some v := by
  have hmono : ∀ {x v}, entryOf S G b x = some v → entryOf S (join P G) b x = some v := by
    intro x v hx
    unfold entryOf at hx ⊢
    rw [Option.or_eq_some_iff] at hx ⊢
    rcases hx with hx | ⟨hbefore, hx⟩
    · exact .inl hx
    · obtain ⟨k, hk, hv⟩ := Option.map_eq_some_iff.mp hx
      have hne : join P G x b ≠ none := by
        rw [Ne, join_eq_none, hk]
        exact fun hnone => Option.some_ne_none k hnone.2
      obtain ⟨k', hk'⟩ := Option.ne_none_iff_exists'.mp hne
      exact .inr ⟨hbefore, Option.map_eq_some_iff.mpr ⟨k', hk', hv⟩⟩
  unfold look at hlook ⊢
  rw [h.chainOf_join]
  rw [Option.or_eq_some_iff] at hlook ⊢
  rcases hlook with hfound | ⟨hnone, heverywhere⟩
  · left
    obtain ⟨l, d, l', hchain, hd, hl⟩ := List.findSome?_eq_some_iff.mp hfound
    refine List.findSome?_eq_some_iff.mpr ⟨l, d, l', hchain, hmono hd, ?_⟩
    intro x hx
    obtain ⟨hbefore, hG⟩ := entryOf_eq_none.mp (hl x hx)
    refine entryOf_eq_none.mpr ⟨hbefore, join_eq_none.mpr ⟨?_, hG⟩⟩
    by_contra hP
    -- `P` has made the label at `x`, in front of the place where the walk finds it
    obtain ⟨a, ha, rfl⟩ := mem_fallback_of_append hchain hx
    have hground := (h.first.unseen x b rfl hP (h.rooted x b hP) a ha).1
    have hgrown : G (.old a) b ≠ none := by
      intro hnone
      rw [entryOf_eq_none.mpr ⟨hground, hnone⟩] at hd
      cases hd
    have hQ : Q x b ≠ none := fun hnone =>
      h.rest.mono.ne_none hgrown (h.compatible.unseen x b hP hnone a ha)
    exact hgrown (h.rest.unseen x b hG hQ (h.rooted' x b hQ) a ha).2
  · right
    refine ⟨?_, heverywhere⟩
    rw [List.findSome?_eq_none_iff] at hnone ⊢
    intro x hx
    obtain ⟨hbefore, hG⟩ := entryOf_eq_none.mp (hnone x hx)
    refine entryOf_eq_none.mpr ⟨hbefore, join_eq_none.mpr ⟨?_, hG⟩⟩
    by_contra hP
    rw [(h.first.missing x b rfl hP).2] at heverywhere
    cases heverywhere

/-- Where `P` has made the same place, the walk finds it. -/
theorem look_made (hlook : look S G n b = none) (hP : P n b ≠ none) :
    look S (join P G) n b = some (some (.new n b)) := by
  obtain ⟨k, hk⟩ := Option.ne_none_iff_exists'.mp hP
  have hself : entryOf S (join P G) b n = some (some (.new n b)) := by
    unfold entryOf join
    rw [(none_of_look hlook).1, hk]
    rfl
  unfold look
  rw [h.chainOf_join, chainOf_of_live h.live, List.findSome?_cons, hself]
  rfl

/-- Where it has not, the walk makes the place still. -/
theorem look_none (hlook : look S G n b = none) (hP : P n b = none) (hQ : Q n b ≠ none) :
    look S (join P G) n b = none := by
  obtain ⟨hchain, heverywhere⟩ := look_eq_none.mp hlook
  refine look_eq_none.mpr ⟨fun x hx => ?_, heverywhere⟩
  rw [h.chainOf_join] at hx
  obtain ⟨hbefore, hG⟩ := hchain x hx
  refine ⟨hbefore, join_eq_none.mpr ⟨?_, hG⟩⟩
  by_cases hxn : x = n
  · rw [hxn]
    exact hP
  · obtain ⟨a, ha, rfl⟩ := mem_fallback_of_mem hx hxn
    exact h.compatible.unseen' n b hQ hP a ha

end Apart

theorem overlooks_of_grow (hmono : Extends P R) (hgrown : GrownFrom S Q R) (hrooted : Rooted P) :
    Overlooks S P Q :=
  fun n b hP hQ a ha =>
    (hgrown.unseen n b hQ (hmono.ne_none hP) (hmono.live (hrooted n b hP)) a ha).2

theorem Compatible.symm (h : Compatible S P Q) : Compatible S Q P :=
  ⟨fun n b k k' hk hk' => (h.agree n b k' k hk' hk).symm, h.unseen', h.unseen⟩

section Plant

variable [DecidableEq α] [DecidableEq β] {k : Bool}

theorem plant_self (G : Growth α β) (n : Place α β) (b : β) (k : Bool) :
    G.plant n b k n b = some k := if_pos ⟨rfl, rfl⟩

theorem plant_of_ne (h : ¬ (m = n ∧ c = b)) : G.plant n b k m c = G m c := if_neg h

theorem extends_plant (hnone : G n b = none) (k : Bool) : Extends G (G.plant n b k) := by
  intro m c k' hk
  rw [plant_of_ne]
  · exact hk
  · rintro ⟨rfl, rfl⟩
    rw [hnone] at hk
    cases hk

theorem present_plant (G : Growth α β) (n : Place α β) (b : β) (k : Bool) :
    Present (G.plant n b k) (.new n b) := by
  intro m c heq
  cases heq
  rw [plant_self]
  exact Option.some_ne_none k

/-- Planting where nothing is seen grows what is there. -/
theorem grownFrom_plant (hlook : look S G n b = none) (hn : Present G n) (k : Bool) :
    GrownFrom S G (G.plant n b k) := by
  have hmono := extends_plant (none_of_look hlook).2 k
  have hself : ∀ m c, G m c = none → G.plant n b k m c ≠ none → m = n ∧ c = b := by
    intro m c hnone hne
    by_contra h
    rw [plant_of_ne h] at hne
    exact hne hnone
  constructor
  · exact hmono
  · intro m c hnone hne
    obtain ⟨rfl, rfl⟩ := hself m c hnone hne
    exact hmono.present hn
  · intro m c hnone hne
    obtain ⟨rfl, rfl⟩ := hself m c hnone hne
    exact ⟨(none_of_look hlook).1, (look_eq_none.mp hlook).2⟩
  · intro m c hnone hne hlive a ha
    obtain ⟨rfl, rfl⟩ := hself m c hnone hne
    apply before_of_look hlook
    rw [chainOf_of_live (hmono.live_of_present hn hlive)]
    exact List.mem_cons_of_mem _ (List.mem_map_of_mem ha)

theorem Inner.plant (h : Inner G) : Inner (G.plant n b true) := by
  intro m c k hk
  by_cases heq : m = n ∧ c = b
  · obtain ⟨rfl, rfl⟩ := heq
    rw [plant_self] at hk
    exact (Option.some.inj hk).symm
  · rw [plant_of_ne heq] at hk
    exact h m c k hk

theorem Rooted.plant (h : Rooted G) (hnone : G n b = none) (hn : Live G n) (k : Bool) :
    Rooted (G.plant n b k) := by
  intro m c hne
  apply (extends_plant hnone k).live
  by_cases heq : m = n ∧ c = b
  · rw [heq.1]
    exact hn
  · rw [plant_of_ne heq] at hne
    exact h m c hne

/-! ### Following a path -/

/-- What holds on the way, step by step, holds at its end. -/
theorem follow_induction {motive : Place α β → Growth α β → Prop}
    (hfound : ∀ n G b m, motive n G → look S G n b = some (some m) → motive m G)
    (hplant : ∀ n G b, motive n G → look S G n b = none →
      motive (.new n b) (G.plant n b true)) :
    ∀ (l : List β) {n : Place α β} {G : Growth α β}, motive n G →
      (∃ m, motive m (follow S l n G).2) ∧
        ∀ m, (follow S l n G).1 = some m → motive m (follow S l n G).2
  | [], n, _, h => ⟨⟨n, h⟩, fun _ heq => Option.some.inj heq ▸ h⟩
  | b :: rest, n, G, h => by
      rw [follow]
      cases hlook : look S G n b with
      | none => exact follow_induction hfound hplant rest (hplant n G b h hlook)
      | some v =>
          cases v with
          | some m => exact follow_induction hfound hplant rest (hfound n G b m h hlook)
          | none => exact ⟨⟨n, h⟩, nofun⟩

/-- Following a path grows what is there and ends at a place that is present.
-/
theorem grownFrom_follow (l : List β) (hn : Present G n) :
    GrownFrom S G (follow S l n G).2 ∧
      ∀ m, (follow S l n G).1 = some m → Present (follow S l n G).2 m := by
  have h := @follow_induction _ _ S _ _ (fun n R => Present R n ∧ GrownFrom S G R) ?_ ?_ l n G
    ⟨hn, .refl S G⟩
  · obtain ⟨⟨_, -, hgrown⟩, hend⟩ := h
    exact ⟨hgrown, fun m hm => (hend m hm).1⟩
  · intro n R b m hR hlook
    exact ⟨present_of_look hlook, hR.2⟩
  · intro n R b hR hlook
    exact ⟨present_plant R n b true, hR.2.trans (grownFrom_plant hlook hR.1 true)⟩

/-- The end of a path grows what is there. -/
theorem grownFrom_finish (last : Option β) {n : Option (Place α β)}
    (hn : ∀ m, n = some m → Present G m) : GrownFrom S G (finish S last n G) := by
  unfold finish
  split
  · next n b =>
      split
      · next hlook => exact grownFrom_plant hlook (hn n rfl) false
      · exact .refl S G
  · exact .refl S G

theorem grownFrom_grow (p : Path β) (G : Growth α β) : GrownFrom S G (grow S p G) := by
  obtain ⟨hgrown, hend⟩ := @grownFrom_follow _ _ S G _ _ _ p.inner (present_old G S.root)
  exact hgrown.trans (grownFrom_finish p.last hend)

/-- On the way from nothing, places are made only under such as fall back on the root. -/
theorem rooted_follow (l : List β) :
    (Inner (follow S l (.old S.root) bare).2 ∧ Rooted (follow S l (.old S.root) bare).2) ∧
      ∀ m, (follow S l (.old S.root) bare).1 = some m →
        Live (follow S l (.old S.root) bare).2 m := by
  have h := @follow_induction _ _ S _ _ (fun n R => Present R n ∧ Inner R ∧ Rooted R) ?_ ?_ l
    (.old S.root) bare ⟨present_old bare S.root, nofun, fun _ _ hne => absurd rfl hne⟩
  · obtain ⟨⟨_, -, hrooted⟩, hend⟩ := h
    exact ⟨hrooted, fun m hm => hrooted.1.live (hend m hm).1⟩
  · intro n R b m hR hlook
    exact ⟨present_of_look hlook, hR.2⟩
  · intro n R b hR hlook
    have hlive := hR.2.1.live hR.1
    exact ⟨present_plant R n b true, hR.2.1.plant,
      hR.2.2.plant (none_of_look hlook).2 hlive true⟩

/-- A path grows nothing that hangs in the air. -/
theorem rooted_grow (p : Path β) : Rooted (grow S p bare) := by
  obtain ⟨⟨-, hrooted⟩, hend⟩ := @rooted_follow _ _ S _ _ p.inner
  unfold grow finish
  dsimp only
  split
  · next n b hn _ =>
      split
      · next hlook => exact hrooted.plant (none_of_look hlook).2 (hend n hn) false
      · exact hrooted
  · exact hrooted

/-! ### Two paths -/

theorem join_plant (hnone : P n b = none) : join P (G.plant n b k) = (join P G).plant n b k := by
  funext m c
  unfold join
  by_cases heq : m = n ∧ c = b
  · obtain ⟨rfl, rfl⟩ := heq
    rw [plant_self, plant_self, hnone, Option.none_or]
  · rw [plant_of_ne heq, plant_of_ne heq]

/-- What is planted where the first growth has something already is not seen.
-/
theorem join_plant_of_some (hne : P n b ≠ none) : join P (G.plant n b k) = join P G := by
  obtain ⟨k', hk'⟩ := Option.ne_none_iff_exists'.mp hne
  funext m c
  unfold join
  by_cases heq : m = n ∧ c = b
  · obtain ⟨rfl, rfl⟩ := heq
    rw [hk', Option.some_or, Option.some_or]
  · rw [plant_of_ne heq]

/-- A walk after `P` has grown goes the way it goes from nothing. -/
theorem follow_join (hcompatible : Compatible S P Q) (hP : GrownFrom S bare P)
    (hrooted : Rooted P) (hrooted' : Rooted Q) :
    ∀ (l : List β) {n : Place α β} {G : Growth α β}, Present G n → Inner G →
      GrownFrom S (follow S l n G).2 Q →
      follow S l n (join P G) = ((follow S l n G).1, join P (follow S l n G).2)
  | [], _, _, _, _, _ => rfl
  | b :: rest, n, G, hn, hinner, hQ => by
      have ih := @follow_join hcompatible hP hrooted hrooted' rest
      have hapart : Apart S P Q G n := ⟨hcompatible, hP, hrooted, hrooted',
        (grownFrom_follow (b :: rest) hn).1.trans hQ, hinner.live hn⟩
      rw [follow] at hQ
      rw [follow, follow]
      cases hlook : look S G n b with
      | some v =>
          rw [hlook] at hQ
          rw [hapart.look_some hlook]
          cases v with
          | some m => exact ih (present_of_look hlook) hinner hQ
          | none => rfl
      | none =>
          rw [hlook] at hQ
          have hrest := ih (present_plant G n b true) hinner.plant hQ
          have hmade : Q n b ≠ none := by
            have hgrown := (grownFrom_follow rest (present_plant G n b true)).1.trans hQ
            apply hgrown.mono.ne_none
            rw [plant_self]
            exact Option.some_ne_none true
          by_cases hnone : P n b = none
          · rw [hapart.look_none hlook hnone hmade]
            rw [join_plant hnone] at hrest
            exact hrest
          · rw [hapart.look_made hlook hnone]
            rw [join_plant_of_some hnone] at hrest
            exact hrest

/-- Apart from what the first growth adds, the end of a path is the same on
top of it. -/
theorem finish_join {last : Option β} {n : Option (Place α β)}
    (hapart : ∀ m, n = some m → Apart S P (finish S last n G) G m) :
    finish S last n (join P G) = join P (finish S last n G) := by
  cases n with
  | none => rfl
  | some n =>
      cases last with
      | none => rfl
      | some b =>
          have h := hapart n rfl
          unfold finish at h ⊢
          dsimp only at h ⊢
          cases hlook : look S G n b with
          | some v =>
              have hne := Option.some_ne_none v
              rw [h.look_some hlook, if_neg hne, if_neg hne]
          | none =>
              rw [if_pos rfl]
              rw [hlook, if_pos rfl] at h
              by_cases hnone : P n b = none
              · have hmade : G.plant n b false n b ≠ none := by
                  rw [plant_self]
                  exact Option.some_ne_none false
                rw [h.look_none hlook hnone hmade, if_pos rfl, join_plant hnone]
              · rw [h.look_made hlook hnone, if_neg (Option.some_ne_none _),
                  join_plant_of_some hnone]

/-- **Compatible paths.** A path makes the same after another one as from nothing. -/
theorem grow_eq_join {p q : Path β} (h : Compatible S (grow S p bare) (grow S q bare)) :
    grow S q (grow S p bare) = join (grow S p bare) (grow S q bare) := by
  have hP := @grownFrom_grow _ _ S _ _ p bare
  obtain ⟨⟨hinner, -⟩, hlive⟩ := @rooted_follow _ _ S _ _ q.inner
  have hend := (@grownFrom_follow _ _ S bare _ _ _ q.inner (present_old bare S.root)).2
  have hrest : GrownFrom S _ (grow S q bare) := grownFrom_finish q.last hend
  have hfollow := follow_join h hP (rooted_grow p) (rooted_grow q) q.inner
    (present_old bare S.root) nofun hrest
  rw [join_bare] at hfollow
  rw [grow, hfollow]
  exact finish_join fun m hm => ⟨h, hP, rooted_grow p, rooted_grow q, hrest, hlive m hm⟩

/-- **Paths in either order.** Two paths make the same in either order exactly if they are
compatible. -/
theorem grow_comm_iff (p q : Path β) :
    grow S q (grow S p bare) = grow S p (grow S q bare) ↔
      Compatible S (grow S p bare) (grow S q bare) := by
  constructor
  · intro heq
    have hP := @grownFrom_grow _ _ S _ _ q (grow S p bare)
    have hQ := @grownFrom_grow _ _ S _ _ p (grow S q bare)
    constructor
    · intro n b k k' hk hk'
      have hR := hP.mono n b k hk
      rw [heq, hQ.mono n b k' hk'] at hR
      exact (Option.some.inj hR).symm
    · rw [heq] at hP
      exact overlooks_of_grow hP.mono hQ (rooted_grow p)
    · rw [← heq] at hQ
      exact overlooks_of_grow hQ.mono hP (rooted_grow q)
  · intro h
    rw [grow_eq_join h, grow_eq_join h.symm]
    exact join_comm h.agree

end Plant

end GameScript.Growing
