import GameScript.Gstd.RexRuns
import GameScript.Gstd.RexCompiled
import GameScript.Gstd.RexSteady
import GameScript.Gstd.PatternUnique

/-!
The searches of `gstdrex.cpp`: what they report is a match, and the first one.
-/

namespace GameScript.Rex

open Effect

theorem Runs.run {α : Type} {risky : Prop} {base exp : Matching} {m : MatchM α}
    {post : α → Matching → Prop} (hm : Runs risky base exp m post) :
    Runs risky base exp m fun a exp' => post a exp' ∧ m exp = .ok a exp' := by
  unfold Runs at hm ⊢
  cases hrun : m exp with
  | ok a exp₁ =>
      rw [hrun] at hm
      exact ⟨hm.1, hm.2, rfl⟩
  | error e exp₁ =>
      rw [hrun] at hm
      cases e <;> exact hm

/-- The fuel that the nodes of an expression need. -/
def GSRex.fuel (rex : GSRex) : Nat := rank rex.nodes.length 0 rex.nodes.length + 1

/-- An attempt at a position that has been made without success. -/
def Failed (rex : GSRex) (fuel : Nat) (exp : Matching) (str : Int) : Prop :=
  ∃ exp₁ exp₂, Alike exp₁ exp ∧
    gstd_rex_matchnode rex.nodes fuel rex.first str none exp₁ = .ok none exp₂

section

variable {pattern : List UInt8} {r : Regex} {rex : GSRex} {front w back : List UInt8}

/-- The first node is the only one of its list. -/
theorem Compiled.first_node (h : Compiled pattern r rex) : ∃ m, rex.nodes[0]? = some m ∧
    m.next = -1 ∧ ∃ mid, HeadAt rex.nodes 0 mid 0 m r ∧
      Represents rex.nodes mid rex.nodes.length m.next r.tail := by
  obtain ⟨_, _, body, -, -, rfl⟩ := h.reads
  obtain ⟨i, mid, m, hi, hget, hhead, htail⟩ := h.represents.headAt nofun
  obtain rfl : i = 0 := (Int.ofNat_inj.mp hi).symm
  exact ⟨m, hget, htail.link_eq.mpr rfl, mid, hhead, htail⟩

/-- The whole pattern at one position. -/
theorem first_runs (h : Compiled pattern r rex) {fuel : Nat} (hfuel : rex.fuel ≤ fuel)
    {exp : Matching} (hready : Ready rex.nodes front w back exp) {p : Nat} (hp : p ≤ w.length) :
    Runs (Risky w back) exp exp
      (gstd_rex_matchnode rex.nodes fuel rex.first (front.length + p : Nat) none)
      fun o _ => ∀ cur, o = some cur → Reaches front w r p cur := by
  obtain ⟨m, hget, hlast, mid, hhead, htail⟩ := h.first_node
  have hrank : rank rex.nodes.length 0 mid < fuel := by
    have hmid := htail.le
    unfold GSRex.fuel rank at hfuel
    unfold rank
    omega
  have hr : r.head = r := by
    obtain ⟨_, _, body, -, -, rfl⟩ := h.reads
    rfl
  have hruns := (matchnode_runs fuel).1 hget hhead htail (Nat.le_refl _) hrank (.inl hlast)
    (follows_none mid) hready hp
  rw [hr] at hruns
  rw [h.first_eq]
  exact hruns

/-- An attempt at one position. Only its own counter matters to it. -/
theorem attempt_runs (h : Compiled pattern r rex) {fuel n : Nat} (hfuel : rex.fuel ≤ fuel)
    {base exp : Matching} (hkept : Kept base { exp with currsubexp := 0 })
    (hready : Ready rex.nodes front w back base) {p : Nat} (hp : p ≤ w.length) :
    Runs (Risky w back) base exp
      (attempt rex.nodes fuel (n + 2) rex.first (front.length + p : Nat)) fun res _ =>
        (res = (none, (rex.first : Int)) ∧ Failed rex fuel base (front.length + p : Nat)) ∨
          ∃ cur, res = (some cur, -1) ∧ Reaches front w r p cur := by
  obtain ⟨m, hget, hlast, -⟩ := h.first_node
  have hfirst : (rex.first : Int) ≠ -1 := by omega
  unfold attempt
  rw [if_pos hfirst]
  refine runs_bind_of_ok (modify_apply _ exp) ?_
  refine ((first_runs h hfuel (hready.same hkept.toSame) hp).run.widen hkept).bind
    fun o exp₁ hkept₁ ho => ?_
  obtain ⟨ho, hrun⟩ := ho
  cases o with
  | none =>
      exact runs_pure hkept₁ (.inl ⟨rfl, { exp with currsubexp := 0 }, exp₁,
        ⟨hkept.text, hkept.bol, hkept.eol⟩, hrun⟩)
  | some cur =>
      have hnode : nodeAt rex.nodes rex.first exp₁ = .ok m exp₁ := by
        rw [h.first_eq]
        exact nodeAt_apply hget exp₁
      refine runs_bind_of_ok hnode ?_
      rw [hlast]
      unfold attempt
      exact runs_pure hkept₁ (.inr ⟨cur, rfl, ho cur rfl⟩)

/-- What a search comes to from the position `p` on: the first match, or none. -/
def Found (rex : GSRex) (fuel : Nat) (exp : Matching) (front w : List UInt8) (r : Regex) (p : Nat) :
    Option (Int × Int) → Prop
  | some (first, last) => ∃ q : Nat, first = (front.length + q : Nat) ∧ p ≤ q ∧
      Reaches front w r q last ∧ ∀ k, p ≤ k → k < q → Failed rex fuel exp (front.length + k : Nat)
  | none => ∀ k, p ≤ k → k < w.length → Failed rex fuel exp (front.length + k : Nat)

theorem searchLoop_runs (h : Compiled pattern r rex) {fuel : Nat} (hfuel : rex.fuel ≤ fuel)
    {base : Matching} (hbase : base.currsubexp = 0) (hready : Ready rex.nodes front w back base)
    {n : Nat} : ∀ {exp : Matching} {p : Nat}, w.length ≤ n + p → p < w.length →
      Kept base { exp with currsubexp := 0 } →
      Runs (Risky w back) base exp
        (searchLoop rex.nodes fuel n rex.first (front.length + p : Nat) (front.length + w.length))
        fun o _ => Found rex fuel base front w r p o := by
  induction n with
  | zero =>
      intro exp p hn hp
      omega
  | succ n ih =>
      intro exp p hn hp hkept
      obtain ⟨size, hsize⟩ : ∃ k, rex.nodes.length = k + 1 :=
        ⟨rex.nodes.length - 1, by have := h.valid.first_lt; omega⟩
      unfold searchLoop
      rw [hsize]
      refine (attempt_runs h hfuel hkept hready (Nat.le_of_lt hp)).bind
        fun res exp₁ hkept₁ hres => ?_
      rcases hres with ⟨rfl, hfailed⟩ | ⟨cur, rfl, hcur⟩
      · dsimp only
        have hcast : ((front.length + p : Nat) : Int) + 1 = (front.length + (p + 1) : Nat) := by
          push_cast
          omega
        rw [hcast]
        by_cases hend : p + 1 = w.length
        · rw [if_neg (by omega)]
          refine runs_pure hkept₁ fun k hk hk' => ?_
          obtain rfl : k = p := by omega
          exact hfailed
        · rw [if_pos (by omega)]
          refine (ih (p := p + 1) (by omega) (by omega) (hkept₁.back (Int.le_of_eq hbase))).mono
            fun o exp₂ hkept₂ ho => ⟨hkept₂, ?_⟩
          cases o with
          | none =>
              intro k hk hk'
              by_cases hkp : k = p
              · rw [hkp]
                exact hfailed
              · exact ho k (by omega) hk'
          | some m =>
              obtain ⟨q, hq, hle, hreaches, hearlier⟩ := ho
              refine ⟨q, hq, Nat.le_of_succ_le hle, hreaches, fun k hk hk' => ?_⟩
              by_cases hkp : k = p
              · rw [hkp]
                exact hfailed
              · exact hearlier k (by omega) hk'
      · exact runs_pure hkept₁ ⟨p, rfl, Nat.le_refl _, hcur, fun k hk hk' => by omega⟩

/-- The characters of a range. -/
def Text.range (text : Text) (text_begin text_end : Int) : List UInt8 :=
  (text.chars.drop text_begin.toNat).take (text_end - text_begin).toNat

/-- The state that a search begins with. -/
def Matching.over (exp : Matching) (text_begin text_end : Int) : Matching :=
  { exp with bol := text_begin, eol := text_end, currsubexp := 0 }

theorem ranges_over {exp : Matching} {text_begin text_end : Int} (hbegin : 0 ≤ text_begin)
    (hlt : text_begin < text_end) (hend : text_end ≤ exp.text.chars.length) :
    (exp.over text_begin text_end).Ranges (exp.text.chars.take text_begin.toNat)
      (exp.text.range text_begin text_end) (exp.text.chars.drop text_end.toNat) := by
  have hfront : (exp.text.chars.take text_begin.toNat).length = text_begin.toNat := by
    rw [List.length_take]
    omega
  have hrange : (exp.text.range text_begin text_end).length =
      (text_end - text_begin).toNat := by
    unfold Text.range
    rw [List.length_take, List.length_drop]
    omega
  refine ⟨?_, ?_, ?_, fun hw => ?_⟩
  · have hback : text_end.toNat = text_begin.toNat + (text_end - text_begin).toNat := by omega
    show exp.text.chars = _
    unfold Text.range
    rw [hback, ← List.drop_drop, List.append_assoc, List.take_append_drop, List.take_append_drop]
  · show text_begin = _
    rw [hfront]
    omega
  · show text_end = _
    rw [hfront, hrange]
    omega
  · rw [hw] at hrange
    have hzero : 0 = (text_end - text_begin).toNat := hrange
    omega

/-- The groups of an expression have room in its captures. -/
theorem Compiled.room (h : Compiled pattern r rex) {exp : Matching}
    (hexp : exp.matches.length = rex.matches.length) : Room rex.nodes exp := by
  intro i n hget htype
  have hvalid := (h.valid.nodes n (List.mem_of_getElem? hget)).2
  rw [htype] at hvalid
  rw [hexp, h.length_matches]
  exact hvalid.2.2

/-- A search ends within its range, at the first match or without one. -/
theorem searchrange_runs (h : Compiled pattern r rex) {fuel : Nat} (hfuel : rex.fuel ≤ fuel)
    {exp : Matching} (hexp : exp.matches.length = rex.matches.length) {text_begin text_end : Int}
    (hbegin : 0 ≤ text_begin) (hlt : text_begin < text_end)
    (hend : text_end ≤ exp.text.chars.length) :
    Runs (Risky (exp.text.range text_begin text_end) (exp.text.chars.drop text_end.toNat))
      (exp.over text_begin text_end) exp (gstd_rex_searchrange rex fuel text_begin text_end)
      fun o _ => Found rex fuel (exp.over text_begin text_end)
        (exp.text.chars.take text_begin.toNat) (exp.text.range text_begin text_end) r 0 o := by
  have hranges := ranges_over hbegin hlt hend
  have hbol : text_begin = ((exp.text.chars.take text_begin.toNat).length : Int) := hranges.bol
  have heol : text_end = ((exp.text.chars.take text_begin.toNat).length : Int) +
      (exp.text.range text_begin text_end).length := hranges.eol
  have hready : Ready rex.nodes _ _ _ (exp.over text_begin text_end) := ⟨hranges, h.room hexp⟩
  unfold gstd_rex_searchrange
  rw [if_neg (by omega)]
  refine runs_bind_of_ok (modify_apply _ exp) ?_
  have hkept : Kept (exp.over text_begin text_end) { ({ exp with
      bol := text_begin, eol := text_end } : Matching) with currsubexp := 0 } := .refl _
  have hloop := searchLoop_runs h hfuel rfl hready (n := (text_end - text_begin).toNat + 1) (p := 0)
    (by omega) (by omega) hkept
  have hpos : (((exp.text.chars.take text_begin.toNat).length + 0 : Nat) : Int) = text_begin :=
    hbol.symm
  rw [← heol, hpos] at hloop
  exact hloop

/-- What the matcher answers at a position does not depend on the captures. -/
theorem Failed.eq_none {fuel : Nat} {exp exp₁ exp₂ : Matching} {str : Int} {o : Option Int}
    (h : Failed rex fuel exp str) (hlike : Alike exp₁ exp)
    (hrun : gstd_rex_matchnode rex.nodes fuel rex.first str none exp₁ = .ok o exp₂) :
    o = none := by
  obtain ⟨exp₁', exp₂', hlike', hrun'⟩ := h
  have halike : Alike exp₁ exp₁' := IsTrans.trans _ _ _ hlike hlike'.symm
  exact ((matchnode_steady fuel).1 _ _ _ _ _ halike _ _ _ _ hrun hrun').1

end

/-- At a position of the range of `exp`, the matcher answers that there is no match. -/
def Fails (rex : GSRex) (fuel : Nat) (exp : Matching) (str : Int) : Prop :=
  (∃ exp₁ exp₂, Alike exp₁ exp ∧
    gstd_rex_matchnode rex.nodes fuel rex.first str none exp₁ = .ok none exp₂) ∧
  ∀ exp₁ exp₂ o, Alike exp₁ exp →
    gstd_rex_matchnode rex.nodes fuel rex.first str none exp₁ = .ok o exp₂ → o = none

/-- From `first` to `last` is a match of the pattern in the range, and there is no earlier. -/
structure Genuine (rex : GSRex) (fuel : Nat) (r : Regex) (exp : Matching)
    (text_begin text_end first last : Int) : Prop where
  begin_le : text_begin ≤ first
  first_le : first ≤ last
  last_le : last ≤ text_end
  spans : r.Spans (exp.text.range text_begin text_end) (first - text_begin).toNat
    (last - text_begin).toNat
  fails : ∀ str, text_begin ≤ str → str < first →
    Fails rex fuel (exp.over text_begin text_end) str

/-- A match that a search reports is genuine: it is within the range, the pattern spans it, and
at every earlier position the matcher fails. -/
theorem searchrange_genuine {pattern : List UInt8} {rex : GSRex} {r : Regex}
    (hcompile : gstd_rex_compile pattern = .ok rex) (hreads : PatternReads pattern r)
    (hregular : r.Regular) {exp exp' : Matching}
    (hexp : exp.matches.length = rex.matches.length) {text_begin text_end : Int}
    (hbegin : 0 ≤ text_begin) (hend : text_end ≤ exp.text.chars.length) {fuel : Nat}
    (hfuel : rex.fuel ≤ fuel) {first last : Int}
    (hrun : gstd_rex_searchrange rex fuel text_begin text_end exp =
      .ok (some (first, last)) exp') :
    Genuine rex fuel r exp text_begin text_end first last := by
  obtain ⟨r', h⟩ := compiled_of_compile hcompile
  obtain rfl := h.reads.unique hreads
  by_cases hlt : text_begin < text_end
  · have hranges := ranges_over hbegin hlt hend
    have hbol : text_begin = ((exp.text.chars.take text_begin.toNat).length : Int) := hranges.bol
    have heol : text_end = ((exp.text.chars.take text_begin.toNat).length : Int) +
        (exp.text.range text_begin text_end).length := hranges.eol
    have hsearch := searchrange_runs h hfuel hexp hbegin hlt hend
    unfold Runs at hsearch
    rw [hrun] at hsearch
    obtain ⟨-, q, rfl, -, ⟨j, rfl, hqj, hj, hspans⟩, hearlier⟩ := hsearch
    refine ⟨?_, ?_, ?_, ?_, fun str hle hstr => ?_⟩
    · omega
    · omega
    · omega
    · rw [show (((exp.text.chars.take text_begin.toNat).length + q : Nat) - text_begin).toNat = q by
        omega, show (((exp.text.chars.take text_begin.toNat).length + j : Nat) -
        text_begin).toNat = j by omega]
      exact hspans hregular
    · have hfailed := hearlier (str - text_begin).toNat (Nat.zero_le _) (by omega)
      rw [show (((exp.text.chars.take text_begin.toNat).length + (str - text_begin).toNat : Nat) :
        Int) = str by omega] at hfailed
      exact ⟨hfailed, fun _ _ _ hlike => hfailed.eq_none hlike⟩
  · unfold gstd_rex_searchrange at hrun
    rw [if_pos (by omega)] at hrun
    cases hrun

/-- `ab*` in `xabbc`. -/
def starRex : GSRex where
  nodes := [⟨.OP_EXPR, 1, 0, -1⟩, ⟨.char (SC 'a'), -1, -1, 3⟩, ⟨.char (SC 'b'), -1, -1, -1⟩,
    ⟨.OP_GREEDY, 2, 0xFFFF, -1⟩]
  first := 0
  nsubexpr := 1
  «matches» := [⟨none, 0⟩]

def starText : Matching where
  text := ⟨0, sc "xabbc"⟩
  bol := 0
  eol := 0
  currsubexp := 0
  «matches» := [⟨none, 0⟩]

theorem star_reads : PatternReads (sc "ab*") (.group (some 0) (.atom (.char (SC 'a'))
    (.greedy 0 none (.atom (.char (SC 'b')) .nil) .nil)) .nil) := by
  refine ⟨1, [], _, .last (.elements (by decide) ?_) (by decide), rfl, rfl⟩
  refine .cons (e := .atom (.char (SC 'a')) .nil) (q := none)
    (.char (by decide) (by decide) (by decide) (by decide) (.plain (by decide) (by decide)))
    (.none (by decide) (by decide) (by decide) (by decide)) (by decide) ?_
  exact .last (e := .atom (.char (SC 'b')) .nil) (q := some (0, none))
    (.char (by decide) (by decide) (by decide) (by decide) (.plain (by decide) (by decide)))
    .star (by decide)

theorem searchrange_genuine_star : ∃ exp' r, gstd_rex_compile (sc "ab*") = .ok starRex ∧
    gstd_rex_searchrange starRex starRex.fuel 0 5 starText = .ok (some (1, 4)) exp' ∧
    Genuine starRex starRex.fuel r starText 0 5 1 4 :=
  have hrun : gstd_rex_searchrange starRex starRex.fuel 0 5 starText =
      .ok (some (1, 4)) ⟨⟨0, sc "xabbc"⟩, 0, 5, 1, [⟨some (0, 1), 3⟩]⟩ := by rfl
  ⟨_, _, rfl, hrun, searchrange_genuine rfl star_reads
    ⟨⟨trivial, by decide, nofun, ⟨trivial, trivial⟩, trivial⟩, trivial⟩ rfl (by decide) (by decide)
    (Nat.le_refl _) hrun⟩

end GameScript.Rex
