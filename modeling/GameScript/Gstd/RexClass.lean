import GameScript.Gstd.RexReads
import Mathlib.Tactic.Tauto

/-!
The functions of `gstdrex.cpp` that compile a character or a class.
-/

namespace GameScript.Rex

open Effect

/-! ### Characters -/
/-- What a function that makes the node of a character does, where `reads` says what the
character is and what is left of the text. -/
def CharacterMade (d : Nat) (isclass : Bool) (reads : Atom → List UInt8 → Prop) (s : List UInt8)
    (exp : Compiling) (i : Nat) (q' : Scan) (s' : List UInt8) (exp' : Compiling) : Prop :=
  s'.length < s.length ∧ Made exp i exp' ∧ exp'.nsubexpr = exp.nsubexpr ∧
    ∃ n a, exp'.nodes[i]? = some n ∧ n.next = -1 ∧ n.IsCharacter a ∧ reads a s' ∧
      q' = Scan.behind d isclass n.type.code

section

variable {d : Nat} {isclass : Bool} {reads : Atom → List UInt8 → Prop} {q : Scan}
  {s : List UInt8} {exp : Compiling}

/-- A character that needs no operand becomes a leaf. -/
theorem reads_character {type : NodeType} {c : UInt8} {a : Atom} (hfits : exp.Fits)
    (hleaf : type.IsLeaf) (hreads : reads a s) (hatom : (newNode type exp.nsubexpr).IsCharacter a)
    (hq : q = Scan.behind d isclass type.code) :
    Reads q s { exp with p := some s } (gstd_rex_newnode type)
      (CharacterMade d isclass reads (c :: s) exp) := by
  refine Reads.mono (reads_leaf rfl ⟨hfits.1, hfits.2⟩ hleaf) ?_
  rintro i q' s' exp' ⟨rfl, rfl, hmade, hsub, hget⟩
  exact ⟨Nat.lt_succ_self _, hmade.text, hsub, _, a, hget, rfl, hatom, hreads, hq⟩

/-- A character with operands becomes a leaf that holds them. -/
theorem reads_character_assign {type : NodeType} {c : UInt8} {g : Node → Node} {a : Atom}
    (hfits : exp.Fits) (hleaf : type.IsLeaf) (htype : ∀ n, (g n).type = n.type)
    (hnext : ∀ n, (g n).next = n.next) (hreads : reads a s)
    (hatom : (g (newNode type exp.nsubexpr)).IsCharacter a) (hq : q = Scan.behind d isclass type.code) :
    Reads q s { exp with p := some s } (do
        let n ← gstd_rex_newnode type
        assign n g
        return n)
      (CharacterMade d isclass reads (c :: s) exp) := by
  refine Reads.mono (reads_leaf_assign rfl ⟨hfits.1, hfits.2⟩ hleaf htype hnext) ?_
  rintro i q' s' exp' ⟨rfl, rfl, hmade, hsub, hget⟩
  refine ⟨Nat.lt_succ_self _, hmade.text, hsub, _, a, hget, hnext _, hatom, hreads, ?_⟩
  rw [htype]
  exact hq

/-- `\m` reads its two characters. -/
theorem balancednode_reads (hp : exp.p = some (SC 'm' :: s)) (hfits : exp.Fits)
    (hq : q.step (SC 'm') = ⟨.balanced isclass, d⟩) :
    Reads q (SC 'm' :: s) exp balancednode
      (CharacterMade d isclass (CharReads isclass (SC '\\' :: SC 'm' :: s)) (SC 'm' :: s) exp) := by
  unfold balancednode
  refine reads_advance_bind hq hp ?_
  cases s with
  | nil =>
      refine reads_peek_nil rfl ?_
      exact rfl
  | cons cb s =>
      refine reads_peek_cons rfl (reads_advance_bind rfl rfl ?_)
      cases s with
      | nil =>
          -- the end of the text is no character that closes
          refine reads_peek_nil rfl ?_
          simp only [or_true, if_true]
          exact Bool.false_ne_true
      | cons ce s =>
          refine reads_peek_cons rfl ?_
          by_cases hbad : cb = 0 ∨ ce = 0 ∨ cb = ce
          · refine reads_advance_bind (if_pos hbad) rfl ?_
            by_cases hzero : cb = 0 ∨ ce = 0
            · rw [if_pos hzero]
              exact reads_error (not_cut_rejected s)
            · rw [if_neg hzero, if_pos (by tauto)]
              exact reads_error (not_cut_rejected s)
          · refine reads_advance_bind (if_neg hbad) rfl ?_
            rw [if_neg (by tauto), if_neg (by tauto)]
            refine Reads.mono (reads_leaf_assign rfl ⟨hfits.1, hfits.2⟩ trivial (fun _ => rfl)
              fun _ => rfl) ?_
            rintro i q' s' exp' ⟨rfl, rfl, hmade, hsub, hget⟩
            refine ⟨?_, hmade.text.text.text, hsub, _, .balanced (GSChar cb) (GSChar ce), hget, rfl,
              fun _ _ _ => ⟨rfl, rfl, rfl⟩, .balanced (by tauto) (by tauto) (by tauto), rfl⟩
            simp only [List.length_cons]
            omega

/-- `\b` and `\B` become a boundary. -/
theorem boundarynode_reads {t : UInt8} (hp : exp.p = some (t :: s)) (hfits : exp.Fits)
    (hreads : reads (.boundary (GSChar t)) s) (hq : q.step t = ⟨.atom, d⟩) :
    Reads q (t :: s) exp (boundarynode t) (CharacterMade d false reads (t :: s) exp) := by
  unfold boundarynode
  refine reads_newnode_bind hp hfits fun exp' hp' hpushed hsub => ?_
  refine reads_assign_bind (by rw [hpushed.length]; exact Nat.lt_succ_self _) ?_
  have hpushed' := hpushed.assigned (f := fun n => { n with left := GSChar t })
  have hmade := hpushed'.grown (valid_leaf trivial rfl)
  refine reads_advance_bind hq hp' (reads_pure rfl ?_)
  exact ⟨Nat.lt_succ_self _, ⟨hmade.toGrown.text _ _, hmade.le, hmade.lt⟩, hsub, _,
    .boundary (GSChar t), hpushed'.getElem?, rfl, fun _ _ _ => ⟨rfl, rfl⟩, hreads, rfl⟩

/-- An escape becomes the character or class it stands for. -/
theorem escapednode_reads (hp : exp.p = some s) (hfits : exp.Fits) :
    Reads ⟨.escape isclass, d⟩ s exp (escapednode isclass)
      (CharacterMade d isclass (CharReads isclass (SC '\\' :: s)) s exp) := by
  unfold escapednode
  cases s with
  | nil => exact reads_peek_nil hp Bool.false_ne_true
  | cons t s =>
      refine reads_peek_cons hp ?_
      have hstep : Scan.step ⟨.escape isclass, d⟩ t = Scan.escape d t isclass := rfl
      unfold Scan.escape at hstep
      cases hcontrol : controlOf t with
      | some x =>
          rw [hcontrol] at hstep
          exact reads_advance_bind hstep hp
            (reads_character hfits trivial (.control hcontrol) (fun _ _ _ => rfl) rfl)
      | none =>
          rw [hcontrol] at hstep
          by_cases hclass : isClassLetter t
          · simp only [if_pos hclass] at hstep ⊢
            refine reads_advance_bind hstep hp ?_
            exact reads_character_assign hfits trivial (fun _ => rfl) (fun _ => rfl)
              (.cclass hcontrol hclass) (fun _ _ _ => ⟨rfl, rfl⟩) rfl
          · simp only [if_neg hclass] at hstep ⊢
            by_cases hm : t = SC 'm'
            · subst hm
              exact balancednode_reads hp hfits hstep
            · rw [if_neg hm] at hstep ⊢
              by_cases hzero : t = 0
              · rw [if_pos hzero] at hstep ⊢
                refine reads_error ?_
                rw [cut_cons, hstep]
                exact not_cut_rejected s
              · rw [if_neg hzero] at hstep ⊢
                by_cases hwb : (t = SC 'b' ∨ t = SC 'B') ∧ ¬ isclass = true
                · rw [if_pos hwb]
                  obtain rfl : isclass = false := Bool.eq_false_iff.mpr hwb.2
                  exact boundarynode_reads hp hfits (.boundary hwb.1 rfl) hstep
                · rw [if_neg hwb]
                  exact reads_advance_bind hstep hp (reads_character hfits trivial
                    (.escaped hcontrol hclass hm hzero hwb) (fun _ _ _ => rfl) rfl)

/-- The compiler reads a character as the scan does. -/
theorem charnode_reads (hat : At q s fun c => Scan.char d c isclass) (hp : exp.p = some s)
    (hfits : exp.Fits) : Reads q s exp (gstd_rex_charnode isclass)
      (CharacterMade d isclass (CharReads isclass s) s exp) := by
  unfold gstd_rex_charnode
  cases s with
  | nil => exact reads_peek_nil hp hat.not_cut_nil
  | cons c s =>
      have hstep := hat.step c s rfl
      simp only [Scan.char] at hstep
      refine reads_peek_cons hp ?_
      by_cases hc : c = SC '\\'
      · subst hc
        rw [if_pos rfl] at hstep ⊢
        refine reads_advance_bind hstep hp (Reads.mono (escapednode_reads rfl ⟨hfits.1, hfits.2⟩) ?_)
        exact fun i q' s' exp' h => ⟨Nat.lt_succ_of_lt h.1, h.2.1.text, h.2.2⟩
      · rw [if_neg hc] at hstep ⊢
        by_cases hprint : isPrint c
        · rw [if_neg (not_not_intro hprint)]
          rw [if_pos hprint] at hstep
          exact reads_advance_bind hstep hp
            (reads_character hfits trivial (.plain hc hprint) (fun _ _ _ => rfl) rfl)
        · rw [if_pos hprint]
          rw [if_neg hprint] at hstep
          refine reads_error ?_
          rw [cut_cons, hstep]
          exact not_cut_rejected s

end

/-! ### Classes -/

/-- From the node `i`, the next links lead by the members `ms` of a class to the last of them. -/
inductive Linked (nodes : List Node) (i : Nat) : Nat → List Member → Prop where
  | nil : Linked nodes i i []
  | snoc {j k : Nat} {ms : List Member} {n m : Node} : Linked nodes i j ms →
      nodes[j]? = some n → n.next = k → j < k → nodes[k]? = some m →
      Linked nodes i k (ms ++ [m.member])

section

variable {nodes nodes' : List Node} {i k : Nat} {ms : List Member}

theorem Linked.le (h : Linked nodes i k ms) : i ≤ k := by
  induction h with
  | nil => exact Nat.le_refl _
  | snoc _ _ _ hlt _ ih => exact Nat.le_trans ih (Nat.le_of_lt hlt)

/-- Of the last member, only the link may change. -/
theorem Linked.congr (h : Linked nodes i k ms) (heq : ∀ j < k, nodes'[j]? = nodes[j]?)
    (hlast : ∀ n, nodes[k]? = some n → ∃ n', nodes'[k]? = some n' ∧ n'.member = n.member) :
    Linked nodes' i k ms := by
  induction h with
  | nil => exact .nil
  | @snoc j k ms n m hlinked hn hnext hlt hm ih =>
      obtain ⟨m', hm', hmember⟩ := hlast m hm
      rw [← hmember]
      refine .snoc (ih (fun x hx => heq x (Nat.lt_trans hx hlt)) fun x hx => ⟨x, ?_, rfl⟩)
        ((heq j hlt).trans hn) hnext hlt hm'
      exact (heq j hlt).trans hx

/-- Read from the first member on. -/
theorem Linked.membersAt {hi : Nat} (h : Linked nodes i k ms) :
    ∀ {ms' : List Member} {n m : Node}, nodes[k]? = some n → MembersAt nodes hi (k + 1) n.next ms' →
      k < hi → nodes[i]? = some m → MembersAt nodes hi (i + 1) m.next (ms ++ ms') := by
  induction h with
  | nil =>
      intro ms' n m hn hmembers _ hm
      rw [hn] at hm
      cases hm
      exact hmembers
  | @snoc j k ms x y hlinked hx hnext hlt hy ih =>
      intro ms' n m hn hmembers hk hm
      rw [hy] at hn
      cases hn
      rw [List.append_assoc]
      exact ih hx (.cons hnext hlt hk hy hmembers) (Nat.lt_trans hlt hk) hm

end

/-- The class `exp₀.nodes.length` while its members `ms` are linked behind it: `chain` is the
last of them, and `first` a character not linked yet. -/
structure InClass (exp₀ : Compiling) (negated : Bool) (exp : Compiling) (chain : Nat)
    (first : Option Nat) (ms : List Member) : Prop where
  old : ∀ j < exp₀.nodes.length, exp.nodes[j]? = exp₀.nodes[j]?
  valid : ∀ j n, exp₀.nodes.length < j → exp.nodes[j]? = some n →
    n.Valid exp.nodes.length exp.nsubexpr
  head : ∃ n, exp.nodes[exp₀.nodes.length]? = some n ∧
    n.type = if negated then .OP_NCLASS else .OP_CLASS
  members : Linked exp.nodes exp₀.nodes.length chain ms
  chain_next : ∃ n, exp.nodes[chain]? = some n ∧ n.next = -1
  first_next : ∀ f, first = some f → chain < f ∧ ∃ n, exp.nodes[f]? = some n ∧ n.next = -1
  nsubexpr_eq : exp.nsubexpr = exp₀.nsubexpr
  fits : exp.Fits

section

variable {exp₀ exp exp' : Compiling} {negated : Bool} {chain : Nat} {first : Option Nat}
  {ms : List Member}

theorem InClass.chain_lt (h : InClass exp₀ negated exp chain first ms) :
    chain < exp.nodes.length := by
  obtain ⟨n, hn, -⟩ := h.chain_next
  exact (List.getElem?_eq_some_iff.mp hn).1

theorem InClass.first_lt {f : Nat} (h : InClass exp₀ negated exp chain (some f) ms) :
    f < exp.nodes.length := by
  obtain ⟨-, n, hn, -⟩ := h.first_next f rfl
  exact (List.getElem?_eq_some_iff.mp hn).1

/-- A class starts empty. -/
theorem Pushed.inClass {n : Node} (h : Pushed exp n exp') (negated : Bool)
    (htype : n.type = if negated then .OP_NCLASS else .OP_CLASS) (hnext : n.next = -1)
    (hsub : exp'.nsubexpr = exp.nsubexpr) :
    InClass exp negated exp' exp.nodes.length none [] := by
  have hlen := h.length
  refine ⟨fun j hj => ?_, fun j m hj hm => ?_, ⟨n, h.getElem?, htype⟩, .nil,
    ⟨n, h.getElem?, hnext⟩, nofun, hsub, h.fits⟩
  · rw [h.nodes, List.getElem?_append_left hj]
  · have hlt := (List.getElem?_eq_some_iff.mp hm).1
    omega

/-- Another character. -/
theorem InClass.made (h : InClass exp₀ negated exp chain first ms) {i : Nat} {m : Node}
    (hmade : Made exp i exp') (hm : exp'.nodes[i]? = some m) (hnext : m.next = -1)
    (hsub : exp'.nsubexpr = exp.nsubexpr) : InClass exp₀ negated exp' chain (some i) ms := by
  obtain ⟨n, hget, htype⟩ := h.head
  obtain ⟨k, hk, hknext⟩ := h.chain_next
  have hlt := h.chain_lt
  have hle := h.members.le
  have hlen := hmade.length_le
  have hi := hmade.le
  refine ⟨fun j hj => ?_, fun j m hj hm => ?_, ⟨n, ?_, htype⟩, ?_, ⟨k, ?_, hknext⟩, ?_,
    hsub.trans h.nsubexpr_eq, hmade.fits⟩
  · exact (hmade.old j (by omega)).trans (h.old j hj)
  · by_cases hj' : j < exp.nodes.length
    · rw [hmade.old j hj'] at hm
      exact (h.valid j m hj hm).mono hlen hmade.nsubexpr_le
    · exact hmade.valid j m (Nat.le_of_not_lt hj') hm
  · exact (hmade.old _ (by omega)).trans hget
  · refine h.members.congr (fun j hj => hmade.old j (by omega)) fun n hn => ⟨n, ?_, rfl⟩
    exact (hmade.old chain hlt).trans hn
  · exact (hmade.old chain hlt).trans hk
  · rintro f ⟨⟩
    exact ⟨by omega, m, hm, hnext⟩

/-- The character is linked. -/
theorem InClass.link {f : Nat} {m : Node} (h : InClass exp₀ negated exp chain (some f) ms)
    (hm : exp.nodes[f]? = some m) :
    InClass exp₀ negated (exp.assigned chain fun n => { n with next := f }) f none
      (ms ++ [m.member]) := by
  obtain ⟨n, hget, htype⟩ := h.head
  obtain ⟨k, hk, -⟩ := h.chain_next
  obtain ⟨hf, m', hm', hnext⟩ := h.first_next f rfl
  have hflt := h.first_lt
  have hle := h.members.le
  rw [hm'] at hm
  cases hm
  have hlinked : Linked (exp.assigned chain fun n => { n with next := f }).nodes
      exp₀.nodes.length chain ms := by
    refine h.members.congr (fun j hj => getElem?_assigned_ne (by omega)) fun n hn => ?_
    exact ⟨_, getElem?_assigned hn, rfl⟩
  refine ⟨fun j hj => ?_, fun j m hj hm => ?_, ?_, ?_, ?_, nofun, h.nsubexpr_eq, h.fits.assigned⟩
  · rw [getElem?_assigned_ne (by omega)]
    exact h.old j hj
  · rw [length_assigned]
    by_cases hij : chain = j
    · subst hij
      rw [getElem?_assigned hk] at hm
      cases hm
      exact (h.valid chain _ hj hk).link hflt
    · rw [getElem?_assigned_ne hij] at hm
      exact h.valid j m hj hm
  · by_cases hhead : chain = exp₀.nodes.length
    · subst hhead
      exact ⟨_, getElem?_assigned hget, htype⟩
    · refine ⟨n, ?_, htype⟩
      rw [getElem?_assigned_ne hhead]
      exact hget
  · refine .snoc hlinked (getElem?_assigned hk) rfl hf ?_
    rw [getElem?_assigned_ne (by omega)]
    exact hm'
  · refine ⟨m, ?_, hnext⟩
    rw [getElem?_assigned_ne (by omega)]
    exact hm'

/-- The class is complete. -/
theorem InClass.complete (h : InClass exp₀ negated exp chain none ms) (hne : ms ≠ []) :
    let exp' := exp.assigned exp₀.nodes.length fun n => { n with left := n.next, next := -1 }
    Made exp₀ exp₀.nodes.length exp' ∧ Represents exp'.nodes exp₀.nodes.length exp'.nodes.length
      exp₀.nodes.length (.atom (.class negated ms) .nil) := by
  intro exp'
  obtain ⟨n, hget, htype⟩ := h.head
  obtain ⟨k, hk, hnext⟩ := h.chain_next
  have hle := h.members.le
  have hlt := h.chain_lt
  have hlen : exp'.nodes.length = exp.nodes.length := length_assigned
  have hmembers : MembersAt exp.nodes exp.nodes.length (exp₀.nodes.length + 1) n.next ms := by
    have hall := h.members.membersAt hk (.nil hnext) hlt hget
    rw [List.append_nil] at hall
    exact hall
  have hleft : IsNode exp.nodes.length n.next := by
    cases hmembers with
    | nil => exact absurd rfl hne
    | cons hl _ hi =>
        rw [hl]
        exact isNode_of_lt hi
  refine ⟨⟨⟨?_, fun j hj => ?_, fun j m hj hm => ?_, Nat.le_of_eq h.nsubexpr_eq.symm,
    h.fits.assigned⟩, Nat.le_refl _, ?_⟩, ?_⟩
  · rw [hlen]
    omega
  · rw [getElem?_assigned_ne (by omega)]
    exact h.old j hj
  · rw [hlen]
    by_cases hij : exp₀.nodes.length = j
    · subst hij
      rw [getElem?_assigned hget] at hm
      cases hm
      refine ⟨.inl rfl, ?_⟩
      cases negated <;> rw [htype] <;> exact hleft
    · rw [getElem?_assigned_ne hij] at hm
      exact h.valid j m (by omega) hm
  · rw [hlen]
    omega
  · refine .atom rfl (Nat.le_refl _) (by omega) (getElem?_assigned hget) ⟨htype, hne, ?_⟩
      (.nil rfl (Nat.le_refl _))
    rw [hlen]
    exact hmembers.congr fun j hj _ => getElem?_assigned_ne (by omega)

theorem InClass.text (h : InClass exp₀ negated exp chain first ms) (p : Option (List UInt8)) :
    InClass exp₀ negated { exp with p := p } chain first ms :=
  ⟨h.old, h.valid, h.head, h.members, h.chain_next, h.first_next, h.nsubexpr_eq,
    ⟨h.fits.1, h.fits.2⟩⟩

end

section

variable {d : Nat} {q : Scan} {s : List UInt8} {exp : Compiling}

/-- The end of a range, where there is one. -/
theorem escapechar_reads {f : Int} (hp : exp.p = some s) (hrange : ¬ f > GSChar (s.headD 0))
    (hs : s ≠ [SC '\\']) :
    Reads ⟨.range f, d⟩ s exp gstd_rex_escapechar fun c q' s' exp' =>
      q' = ⟨.inClass none, d⟩ ∧ s'.length < s.length ∧ RangeEndReads s c s' ∧
        exp' = { exp with p := some s' } := by
  unfold gstd_rex_escapechar
  cases s with
  | nil => exact reads_peek_nil hp Bool.false_ne_true
  | cons c s =>
      have hstep : Scan.step ⟨.range f, d⟩ c = _ := if_neg hrange
      refine reads_peek_cons hp ?_
      by_cases hc : c = SC '\\'
      · subst hc
        rw [if_pos rfl] at hstep ⊢
        refine reads_advance_bind hstep hp ?_
        cases s with
        | nil => exact absurd rfl hs
        | cons t s =>
            refine reads_peek_cons rfl (reads_advance_bind rfl rfl (reads_pure rfl ?_))
            refine ⟨rfl, ?_, .escaped, rfl⟩
            simp only [List.length_cons]
            omega
      · rw [if_neg hc] at hstep ⊢
        by_cases hprint : isPrint c
        · rw [if_pos hprint] at hstep
          rw [if_neg (not_not_intro hprint)]
          exact reads_advance_bind hstep hp
            (reads_pure rfl ⟨rfl, Nat.lt_succ_self _, .plain hc hprint, rfl⟩)
        · rw [if_neg hprint] at hstep
          rw [if_pos hprint]
          refine reads_error ?_
          rw [cut_cons, hstep]
          exact not_cut_rejected s

theorem node_apply {i : Nat} {n : Node} (hn : exp.nodes[i]? = some n) :
    node i exp = .ok n exp := by
  unfold node
  rw [get_bind_apply, hn]
  rfl

theorem reads_node_bind {α : Type} {i : Nat} {n : Node} {f : Node → RexM α}
    {post : α → Scan → List UInt8 → Compiling → Prop} (hn : exp.nodes[i]? = some n)
    (h : Reads q s exp (f n) post) : Reads q s exp (node i >>= f) post := by
  unfold Reads at h ⊢
  rw [bind_apply, node_apply hn]
  exact h

variable {exp₀ : Compiling} {negated : Bool} {chain f : Nat} {n : Node} {ms : List Member}

/-- A range takes the character before the dash as its lower end. -/
theorem rangenode_reads (hclass : InClass exp₀ negated exp chain (some f) ms)
    (hn : exp.nodes[f]? = some n) (hp : exp.p = some (SC '-' :: s))
    (hq : q.step (SC '-') = ⟨.range n.type.code, d⟩)
    (hs : ¬ (s = [SC '\\'] ∧ ¬ n.type.code > GSChar (SC '\\'))) :
    Reads q (SC '-' :: s) exp (rangenode chain f) fun r q' s' exp' =>
      q' = ⟨.inClass none, d⟩ ∧ s'.length < (SC '-' :: s).length ∧
        ∃ c, ¬ n.type.code > GSChar (s.headD 0) ∧ RangeEndReads s c s' ∧
          InClass exp₀ negated exp' r none (ms ++ [.range n.type.code (GSChar c)]) := by
  unfold rangenode
  have hfits := hclass.fits
  have hflt := hclass.first_lt
  refine reads_peek_cons hp (reads_advance_bind hq hp ?_)
  rw [if_neg (by decide)]
  refine reads_newnode_bind rfl ⟨hfits.1, hfits.2⟩ fun exp₁ hp₁ hpushed hsub => ?_
  have hget : exp₁.nodes[f]? = some n := by
    rw [hpushed.nodes, List.getElem?_append_left hflt]
    exact hn
  refine reads_node_bind hget (reads_peek_bind hp₁ ?_)
  by_cases hrange : n.type.code > GSChar (s.headD 0)
  · rw [if_pos hrange]
    refine reads_error ?_
    cases s with
    | nil => exact Bool.false_ne_true
    | cons c s =>
        have hstep : Scan.step ⟨.range n.type.code, d⟩ c = ⟨.rejected, d⟩ := if_pos hrange
        rw [cut_cons, hstep]
        exact not_cut_rejected s
  · rw [if_neg hrange]
    by_cases htype : n.type = .OP_CCLASS
    · -- the code of a class of characters is above that of every character
      refine absurd ?_ hrange
      rw [htype]
      exact Int.lt_of_le_of_lt (GSChar_le _) (by decide)
    · rw [if_neg htype]
      refine Reads.bind (escapechar_reads hp₁ hrange ?_) ?_
      · rintro rfl
        exact hs ⟨rfl, hrange⟩
      · rintro t q' s' exp' hp' ⟨rfl, hlt, hend, rfl⟩
        have hpushed' := hpushed.assigned (f := fun m =>
          { m with left := n.type.code, right := GSChar t })
        have hmade := (hpushed'.grown (valid_leaf trivial rfl)).text
        have hlinked := ((hclass.made hmade hpushed'.getElem? rfl hsub).link
          hpushed'.getElem?).text (some s')
        refine reads_assign_bind (by rw [hpushed.length]; exact Nat.lt_succ_self _) ?_
        refine reads_assign_bind ?_ (reads_pure rfl ⟨rfl, Nat.lt_succ_of_lt hlt, t, hrange, hend,
          hlinked⟩)
        exact (hclass.made hmade hpushed'.getElem? rfl hsub).chain_lt

end

section

variable {d : Nat} {q : Scan} {s : List UInt8} {exp exp₀ : Compiling} {negated : Bool}
  {chain f : Nat} {n : Node} {ms : List Member}

/-- Behind a backslash at the end of the text, the end of a range is not there to be read. -/
theorem rangenode_cut (hclass : InClass exp₀ negated exp chain (some f) ms)
    (hn : exp.nodes[f]? = some n) (hp : exp.p = some [SC '-', SC '\\'])
    (hrange : ¬ n.type.code > GSChar (SC '\\')) :
    Delivers (rangenode chain f) exp fun _ exp' => exp'.p = none := by
  have hfits := hclass.fits
  have hflt := hclass.first_lt
  have hchain := hclass.chain_lt
  have htype : n.type ≠ .OP_CCLASS := by
    intro htype
    refine hrange ?_
    rw [htype]
    decide
  obtain ⟨exp₁, hrun, hp₁, hpushed, -⟩ :=
    newnode_apply { exp with p := some [SC '\\'] } ⟨hfits.1, hfits.2⟩ .OP_RANGE
  have hlen : exp₁.nodes.length = exp.nodes.length + 1 := hpushed.length
  have hget : exp₁.nodes[f]? = some n := by
    rw [hpushed.nodes, List.getElem?_append_left hflt]
    exact hn
  have hescape : gstd_rex_escapechar exp₁ = .ok 0 { exp₁ with p := none } := by
    unfold gstd_rex_escapechar
    rw [bind_apply, peek_apply hp₁]
    show (advance >>= _) exp₁ = _
    rw [bind_apply, advance_apply hp₁]
    rfl
  unfold rangenode
  refine delivers_bind_of_ok (peek_apply hp) (delivers_bind_of_ok (advance_apply hp) ?_)
  refine delivers_bind_of_ok hrun (delivers_bind_of_ok (node_apply hget) ?_)
  refine delivers_bind_of_ok (a := SC '\\') (peek_apply hp₁) ?_
  rw [if_neg hrange, if_neg htype]
  refine delivers_bind_of_ok hescape ?_
  have hr : exp.nodes.length < exp₁.nodes.length := by omega
  refine delivers_bind_of_ok (assign_apply _ hr) (delivers_bind_of_ok (assign_apply _ ?_) ?_)
  · rw [length_assigned]
    exact Nat.lt_trans hchain hr
  · exact delivers_pure rfl

/-- The character that is not linked yet: its node, its code, and what it was read as. -/
def IsFirst (exp : Compiling) : Option Nat → Option Int → Option Atom → Prop
  | some f, code, a => ∃ n b, exp.nodes[f]? = some n ∧ n.IsCharacter b ∧ code = some b.code ∧
      a = some b
  | none, code, a => code = none ∧ a = none

/-- The member that is not linked yet. -/
def pending (exp : Compiling) (first : Option Nat) : List Member :=
  ((first.bind fun f => exp.nodes[f]?).map Node.member).toList

/-- What the loop of a class comes to, with the members `ms` linked behind `chain` and the
character `a` pending: it reads the rest of the class, up to a bracket. -/
def ClassRead (d : Nat) (exp₀ : Compiling) (negated : Bool) (ms : List Member) (a : Option Atom)
    (s : List UInt8) (r : Nat × Option Nat) (q' : Scan) (s' : List UInt8) (exp' : Compiling) :
    Prop :=
  s'.length ≤ s.length ∧ (∃ t, s' = SC ']' :: t) ∧ q'.step (SC ']') = ⟨.atom, d⟩ ∧
    ∃ ls ms', InClass exp₀ negated exp' r.1 r.2 ls ∧ MembersRead a s ms' s' ∧
      ls ++ pending exp' r.2 = ms ++ ms'

/-- Behind the end of the pattern a class goes on into what is not known. -/
theorem classLoop_past {fuel : Nat} {first : Option Nat} (hp : exp.p = none) :
    classLoop (fuel + 1) chain first exp = .error .undefined exp := by
  unfold classLoop
  have hread : peek exp = .error .undefined exp := by
    unfold peek
    rw [get_bind_apply, hp]
    rfl
  rw [bind_apply, hread]

/-- One character of a class, and the rest of the class. -/
theorem classChar_reads {fuel : Nat}
    (ih : ∀ {q : Scan} {s : List UInt8} {exp : Compiling} {first : Option Nat}
      {code : Option Int} {a : Option Atom}, s.length < fuel → exp.p = some s →
      InClass exp₀ negated exp chain first ms → At q s (fun c => Scan.inClass d c code) →
      IsFirst exp first code a →
      Reads q s exp (classLoop fuel chain first) (ClassRead d exp₀ negated ms a s))
    (hfuel : s.length ≤ fuel) (hp : exp.p = some s)
    (hclass : InClass exp₀ negated exp chain none ms) (hat : At q s fun c => Scan.char d c true) :
    Reads q s exp (do
        let first ← gstd_rex_charnode true
        classLoop fuel chain (some first))
      fun r q' s' exp' => ∃ b s₁, CharReads true s b s₁ ∧ s₁.length < s.length ∧
        ClassRead d exp₀ negated ms (some b) s₁ r q' s' exp' := by
  refine (charnode_reads hat hp hclass.fits).bind ?_
  rintro i q' s' exp' hp' ⟨hlt, hmade, hsub, n, b, hget, hnext, hchar, hreads, rfl⟩
  have hcode : n.type.code = b.code := (hchar exp'.nodes 0 0).code
  have hat' : At (Scan.behind d true n.type.code) s' fun c => Scan.inClass d c (some b.code) := by
    rw [hcode]
    exact ⟨rfl, fun _ _ _ => rfl⟩
  refine Reads.mono (ih (by omega) hp' (hclass.made hmade hget hnext hsub) hat'
    ⟨n, b, hget, hchar, rfl, rfl⟩) ?_
  exact fun _ _ _ _ h => ⟨b, s', hreads, hlt, h⟩

/-- The loop reads the members of a class up to its bracket. -/
theorem classLoop_reads {fuel : Nat} : ∀ {q : Scan} {s : List UInt8} {exp : Compiling} {chain : Nat}
    {first : Option Nat} {code : Option Int} {a : Option Atom} {ms : List Member},
    s.length < fuel → exp.p = some s → InClass exp₀ negated exp chain first ms →
    At q s (fun c => Scan.inClass d c code) → IsFirst exp first code a →
    Reads q s exp (classLoop fuel chain first) (ClassRead d exp₀ negated ms a s) := by
  induction fuel with
  | zero =>
      intro q s exp chain first code a ms hfuel
      exact absurd hfuel (Nat.not_lt_zero _)
  | succ fuel ih =>
      intro q s exp chain first code a ms hfuel hp hclass hat hfirst
      unfold classLoop
      refine reads_peek_bind hp ?_
      by_cases hend : s.headD 0 = SC ']'
      · rw [if_pos hend]
        obtain ⟨t, rfl⟩ := eq_cons_of_headD (by decide) hend
        refine reads_pure hp ⟨Nat.le_refl _, ⟨t, rfl⟩, hat.step _ t rfl, ms, ?_⟩
        cases first with
        | none =>
            obtain ⟨-, rfl⟩ := hfirst
            exact ⟨[], hclass, .done, rfl⟩
        | some f =>
            obtain ⟨n, b, hn, hchar, -, rfl⟩ := hfirst
            refine ⟨[b.member], hclass, .last, ?_⟩
            rw [← (hchar exp.nodes 0 0).member]
            show ms ++ ((exp.nodes[f]?).map Node.member).toList = _
            rw [hn]
            rfl
      · rw [if_neg hend]
        have hfuel' : s.length ≤ fuel := Nat.le_of_lt_succ hfuel
        cases first with
        | none =>
            obtain ⟨rfl, rfl⟩ := hfirst
            refine Reads.mono (classChar_reads (fun h => ih h) hfuel' hp hclass
              ⟨hat.readsOn, ?_⟩) ?_
            · rintro c s' rfl
              rw [hat.step c s' rfl]
              exact if_neg hend
            · rintro r q' s' exp' ⟨b, s₁, hreads, hlt, hle, ht, hq, ls, ms', hclass', hmembers, hms⟩
              exact ⟨by omega, ht, hq, ls, ms', hclass', .first hend hreads hmembers, hms⟩
        | some f =>
            obtain ⟨n, b, hn, hchar, rfl, rfl⟩ := hfirst
            have hcode : n.type.code = b.code := (hchar exp.nodes 0 0).code
            have hmember : n.member = b.member := (hchar exp.nodes 0 0).member
            dsimp only
            by_cases hrange : s.headD 0 = SC '-'
            · rw [if_pos hrange]
              obtain ⟨s', rfl⟩ := eq_cons_of_headD (by decide) hrange
              have hq : q.step (SC '-') = ⟨.range n.type.code, d⟩ := by
                rw [hcode]
                exact hat.step _ s' rfl
              by_cases hcut : s' = [SC '\\'] ∧ ¬ n.type.code > GSChar (SC '\\')
              · obtain ⟨rfl, hle⟩ := hcut
                obtain ⟨r, exp', hrun, hp'⟩ := rangenode_cut hclass hn hp hle
                obtain ⟨fuel, rfl⟩ : ∃ k, fuel = k + 1 := ⟨fuel - 1, by simp at hfuel'; omega⟩
                have hstep : Scan.step ⟨.range n.type.code, d⟩ (SC '\\') = ⟨.rangeEscape, d⟩ :=
                  (if_neg hle).trans (if_pos rfl)
                have hcut : Cut q [SC '-', SC '\\'] := by
                  rw [cut_cons, hq, cut_cons, hstep]
                  exact rfl
                unfold Reads
                rw [bind_apply, hrun]
                dsimp only
                rw [classLoop_past hp']
                exact hcut
              · refine (rangenode_reads hclass hn hp hq hcut).bind ?_
                rintro r q' t exp' hp' ⟨rfl, hlt, c, hle, hrangeEnd, hclass'⟩
                refine Reads.mono (ih (by omega) hp' hclass' ⟨rfl, fun _ _ _ => rfl⟩
                  ⟨rfl, rfl⟩) ?_
                rintro r' q' s' exp' ⟨hle', ht, hq', ls, ms', hclass'', hmembers, hms⟩
                rw [hcode] at hle hms
                rw [List.append_assoc] at hms
                exact ⟨by omega, ht, hq', ls, _, hclass'', .range hle hrangeEnd hmembers, hms⟩
            · rw [if_neg hrange]
              refine reads_assign_bind hclass.chain_lt ?_
              refine Reads.mono (classChar_reads (fun h => ih h) hfuel' hp (hclass.link hn)
                ⟨hat.readsOn, ?_⟩) ?_
              · rintro c s' rfl
                rw [hat.step c s' rfl]
                exact (if_neg hend).trans (if_neg hrange)
              · rintro r q' s' exp' ⟨x, s₁, hreads, hlt, hle, ht, hq, ls, ms', hclass', hmembers,
                  hms⟩
                rw [hmember, List.append_assoc] at hms
                exact ⟨by omega, ht, hq, ls, _, hclass', .next hend hrange hreads hmembers, hms⟩

end

section

variable {d : Nat} {q : Scan} {s : List UInt8} {exp exp₀ : Compiling} {negated : Bool}
  {chain : Nat} {ms : List Member}

/-- The last character is linked to the members before it. -/
theorem linkLast_reads {first : Option Nat} (hp : exp.p = some s)
    (hclass : InClass exp₀ negated exp chain first ms) :
    Reads q s exp (linkLast chain first) fun _ q' s' exp' => q' = q ∧ s' = s ∧
      ∃ last, InClass exp₀ negated exp' last none (ms ++ pending exp first) := by
  cases first with
  | none =>
      refine reads_pure hp ⟨rfl, rfl, chain, ?_⟩
      show InClass exp₀ negated exp chain none (ms ++ [])
      rw [List.append_nil]
      exact hclass
  | some c =>
      obtain ⟨-, m, hm, -⟩ := hclass.first_next c rfl
      have hrun : linkLast chain (some c) exp = .ok () _ := assign_apply _ hclass.chain_lt
      have hpending : pending exp (some c) = [m.member] := by
        show ((exp.nodes[c]?).map Node.member).toList = _
        rw [hm]
        rfl
      unfold Reads
      rw [hrun, hpending]
      exact ⟨q, s, hp, Iff.rfl, rfl, rfl, c, hclass.link hm⟩

/-- A class is read with all its members, negated or not. -/
theorem classnode_reads (hp : exp.p = some s) (hfits : exp.Fits) :
    Reads ⟨.classOpen, d⟩ s exp classnode fun ret q' s' exp' => ret = exp.nodes.length ∧
      s'.length ≤ s.length ∧
      At q' s' (fun c => if c = SC ']' then ⟨.rejected, d⟩ else Scan.inClass d c none) ∧
      ∃ negated, InClass exp negated exp' exp.nodes.length none [] ∧
        s = (if negated then SC '^' :: s' else s') ∧ (negated = false → s'.headD 0 ≠ SC '^') := by
  unfold classnode
  refine reads_peek_bind hp ?_
  by_cases hneg : s.headD 0 = SC '^'
  · rw [if_pos hneg]
    obtain ⟨s', rfl⟩ := eq_cons_of_headD (by decide) hneg
    refine reads_newnode_bind hp hfits fun exp₁ hp₁ hpushed hsub => ?_
    refine reads_advance_bind rfl hp₁ (reads_pure rfl ⟨rfl, Nat.le_succ _, ⟨rfl, ?_⟩, true,
      (hpushed.inClass true rfl rfl hsub).text _, rfl, nofun⟩)
    exact fun c s'' _ => rfl
  · rw [if_neg hneg]
    obtain ⟨exp₁, hrun, hp₁, hpushed, hsub⟩ := newnode_apply exp hfits .OP_CLASS
    unfold Reads
    rw [hrun]
    refine ⟨_, s, hp₁.trans hp, Iff.rfl, rfl, Nat.le_refl _, ⟨rfl, ?_⟩, false,
      hpushed.inClass false rfl rfl hsub, rfl, fun _ => hneg⟩
    rintro c s' rfl
    exact if_neg hneg

/-- A class has a member. -/
theorem MembersRead.ne_nil {a : Option Atom} {s s' : List UInt8} (h : MembersRead a s ms s')
    (hs : s.headD 0 ≠ SC ']') : ms ≠ [] := by
  induction h with
  | done => exact absurd rfl hs
  | last => exact List.cons_ne_nil _ _
  | first _ _ hmembers =>
      cases hmembers <;> exact List.cons_ne_nil _ _
  | next => exact List.cons_ne_nil _ _
  | range => exact List.cons_ne_nil _ _

/-- A class, which is read in front of its closing bracket. -/
theorem class_reads {fuel : Nat} (hfuel : s.length < fuel) (hp : exp.p = some s)
    (hfits : exp.Fits) :
    Reads ⟨.classOpen, d⟩ s exp (gstd_rex_class fuel) fun i q' s' exp' => Made exp i exp' ∧
      s'.length ≤ s.length ∧ q'.step (SC ']') = ⟨.atom, d⟩ ∧ exp'.nsubexpr = exp.nsubexpr ∧
      ∃ e t, s' = SC ']' :: t ∧ HeadReads exp.nsubexpr (SC '[' :: s) e exp.nsubexpr t ∧
        e.IsElement ∧ Represents exp'.nodes exp.nodes.length exp'.nodes.length i e := by
  unfold gstd_rex_class
  refine (classnode_reads hp hfits).bind ?_
  rintro ret q₁ s₁ exp₁ hp₁ ⟨rfl, hle, hat, negated, hclass, hs, hnegated⟩
  refine reads_peek_bind hp₁ ?_
  by_cases hempty : s₁.headD 0 = SC ']'
  · rw [if_pos hempty]
    refine reads_error ?_
    cases s₁ with
    | nil => cases hempty
    | cons c t =>
        rw [hat.cut_cons, if_pos (show c = SC ']' from hempty)]
        exact not_cut_rejected t
  · rw [if_neg hempty]
    have hat' : At q₁ s₁ fun c => Scan.inClass d c none := by
      refine ⟨hat.readsOn, ?_⟩
      rintro c t rfl
      exact (hat.step c t rfl).trans (if_neg hempty)
    refine (classLoop_reads (by omega) hp₁ hclass hat' ⟨rfl, rfl⟩).bind ?_
    rintro ⟨chain, first⟩ q₂ s₂ exp₂ hp₂ ⟨hle₂, ⟨t, rfl⟩, hq₂, ls, ms, hclass₂, hmembers, hms⟩
    refine (linkLast_reads hp₂ hclass₂).bind ?_
    rintro _ q₃ s₃ exp₃ hp₃ ⟨rfl, rfl, last, hclass₃⟩
    rw [hms] at hclass₃
    have hlt := Nat.lt_of_le_of_lt hclass₃.members.le hclass₃.chain_lt
    obtain ⟨hmade, hrepresents⟩ := hclass₃.complete (hmembers.ne_nil hempty)
    refine reads_assign_bind hlt (reads_pure hp₃ ?_)
    refine ⟨hmade, Nat.le_trans hle₂ hle, hq₂, hclass₃.nsubexpr_eq,
      .atom (.class negated ms) .nil, t, rfl, ?_, rfl, hrepresents⟩
    cases negated with
    | true =>
        rw [hs]
        exact .negated hempty hmembers
    | false =>
        rw [hs]
        exact .class (hnegated rfl) hempty hmembers

end

end GameScript.Rex
