import GameScript.Gstd.RexMatch
import GameScript.Lib.Coupled

/-!
What the matcher of `gstdrex.cpp` returns does not depend on captures, nor on the counter of
the groups: only on the text and the range.
-/

namespace GameScript.Rex

open Effect

/-- The same text and the same range. -/
def Alike (exp exp' : Matching) : Prop :=
  exp.text = exp'.text ∧ exp.bol = exp'.bol ∧ exp.eol = exp'.eol

theorem Alike.symm {exp exp' : Matching} (h : Alike exp exp') : Alike exp' exp :=
  ⟨h.1.symm, h.2.1.symm, h.2.2.symm⟩

instance : Std.Refl Alike := ⟨fun _ => ⟨rfl, rfl, rfl⟩⟩

instance : IsTrans Matching Alike :=
  ⟨fun _ _ _ h h' => ⟨h.1.trans h'.1, h.2.1.trans h'.2.1, h.2.2.trans h'.2.2⟩⟩

section

variable {nodes : List Node}

theorem nodeAt_steady (i : Int) : Steady Alike (nodeAt nodes i) := by
  unfold nodeAt
  split
  · split
    · exact steady_pure _
    · exact steady_throw _
  · exact steady_throw _

theorem charAt_steady (str : Int) : Steady Alike (charAt str) := by
  unfold charAt
  refine steady_get_bind (fun _ _ h => by rw [h.1]) fun exp => ?_
  split
  · exact steady_pure _
  · exact steady_throw _

theorem matchclass_steady {fuel : Nat} :
    ∀ (i : Int) (c : UInt8), Steady Alike (gstd_rex_matchclass nodes fuel i c) := by
  induction fuel with
  | zero => exact fun _ _ => steady_throw _
  | succ fuel ih =>
      intro i c
      unfold gstd_rex_matchclass
      refine (nodeAt_steady i).bind fun node => ?_
      split
      · exact steady_pure _
      · split
        · exact ih _ c
        · exact steady_pure _

theorem noSpace_steady (here : Bool) (i : Int) : Steady Alike (noSpace here i) := by
  unfold noSpace
  split
  · exact (charAt_steady i).bind fun c => steady_pure _
  · exact steady_pure _

/-- A word boundary reads the text and nothing else. -/
theorem boundary_steady (str : Int) : Steady Alike (boundary str) := by
  unfold boundary
  refine steady_get_bind (fun _ _ h => by rw [h.2.1, h.2.2]) fun exp => ?_
  refine (noSpace_steady _ _).bind fun b => ?_
  split
  · exact steady_pure _
  · refine (noSpace_steady _ _).bind fun b => ?_
    split
    · exact steady_pure _
    · exact (charAt_steady _).bind fun c => (charAt_steady _).bind fun d => steady_pure _

/-- The search for a closing character reads the text and nothing else. -/
theorem balanceLoop_steady (cb ce : Int) {fuel : Nat} :
    ∀ (str : Int) (cont : Nat), Steady Alike (balanceLoop cb ce fuel str cont) := by
  induction fuel with
  | zero => exact fun _ _ => steady_throw _
  | succ fuel ih =>
      intro str cont
      unfold balanceLoop
      refine steady_get_bind (fun _ _ h => by rw [h.2.2]) fun exp => ?_
      split
      · refine (charAt_steady _).bind fun c => ?_
        split
        · split
          · exact steady_pure _
          · exact ih _ _
        · split <;> exact ih _ _
      · exact steady_pure _

theorem matchchar_steady {p : UInt8 → MatchM Bool} (hp : ∀ c, Steady Alike (p c)) (str : Int) :
    Steady Alike (matchchar p str) := by
  unfold matchchar
  refine steady_get_bind (fun _ _ h => by rw [h.2.2]) fun exp => ?_
  split
  · exact steady_pure _
  · refine (charAt_steady _).bind fun c => (hp c).bind fun b => ?_
    split <;> exact steady_pure _

/-- A leaf reads the text and nothing else. -/
theorem matchleaf_steady (fuel : Nat) (node : Node) (str : Int) :
    Steady Alike (matchleaf nodes fuel node str) := by
  unfold matchleaf
  split
  · exact (boundary_steady str).bind fun b => steady_pure _
  · exact steady_get_bind (fun _ _ h => by rw [h.2.1]) fun exp => steady_pure _
  · exact steady_get_bind (fun _ _ h => by rw [h.2.2]) fun exp => steady_pure _
  · refine steady_get_bind (fun _ _ h => by rw [h.2.2]) fun exp => ?_
    split <;> exact steady_pure _
  · exact matchchar_steady (matchclass_steady node.left) str
  · exact matchchar_steady (fun c => (matchclass_steady node.left c).bind fun b =>
      steady_pure (!b)) str
  · exact matchchar_steady (fun c => steady_pure _) str
  · refine (charAt_steady str).bind fun c => ?_
    split
    · exact steady_pure _
    · exact steady_get_bind (fun _ _ h => by rw [h.2.2]) fun exp => balanceLoop_steady _ _ _ _
  · exact matchchar_steady (fun c => steady_pure _) str

/-- A repetition is steady if its rounds are. -/
theorem greedyLoop_steady {once : Int → MatchM (Option Int)} {stop : Int → MatchM Bool}
    (honce : ∀ s, Steady Alike (once s)) (hstop : ∀ s, Steady Alike (stop s)) (p0 p1 : Nat)
    {fuel : Nat} : ∀ (nmaches : Nat) (s good : Int),
      Steady Alike (greedyLoop once stop p0 p1 fuel nmaches s good) := by
  induction fuel with
  | zero => exact fun _ _ _ => steady_throw _
  | succ fuel ih =>
      intro nmaches s good
      unfold greedyLoop
      split
      · refine (honce s).bind fun o => ?_
        split
        · exact steady_pure _
        · refine (hstop _).bind fun b => ?_
          split
          · exact steady_pure _
          · refine steady_get_bind (fun _ _ h => by rw [h.2.2]) fun exp => ?_
            split
            · exact steady_pure _
            · exact ih _ _ _
      · exact steady_pure _

theorem gnext_steady (greedystop : Node) (next : Option Int) :
    Steady Alike (gnext nodes greedystop next) := by
  unfold gnext
  split
  · exact steady_pure _
  · split
    · exact (nodeAt_steady _).bind fun n => steady_pure _
    · exact steady_pure _

/-- The look ahead is steady if the matcher is. -/
theorem satisfied_steady {matchnode : Int → Int → Option Int → MatchM (Option Int)}
    (hmatch : ∀ i s next, Steady Alike (matchnode i s next)) (greedystop next : Option Int)
    (s : Int) : Steady Alike (satisfied nodes matchnode greedystop next s) := by
  unfold satisfied
  split
  · exact steady_pure _
  · refine (nodeAt_steady _).bind fun node => ?_
    split
    · exact (gnext_steady node next).bind fun g => (hmatch _ s g).bind fun o => steady_pure _
    · exact steady_pure _

/-! ### Captures -/

theorem setMatch_within (capture : Nat) (m : Match) : Within Alike (setMatch capture m) := by
  unfold setMatch
  refine within_get_bind fun exp => ?_
  split <;> exact ⟨rfl, rfl, rfl⟩

theorem beginCapture_within (node : Node) (cur : Int) : Within Alike (beginCapture node cur) := by
  unfold beginCapture
  refine within_get_bind fun exp => ?_
  split
  · refine within_bind (setMatch_within _ _) (fun _ => within_bind (within_modify ?_)
      fun _ => within_pure _) exp
    exact fun _ => ⟨rfl, rfl, rfl⟩
  · exact ⟨rfl, rfl, rfl⟩

theorem dropCapture_within (capture : Option Nat) : Within Alike (dropCapture capture) := by
  cases capture with
  | none => exact within_pure _
  | some capture => exact setMatch_within _ _

theorem endCapture_within (cur : Int) (capture : Option Nat) :
    Within Alike (endCapture cur capture) := by
  cases capture with
  | none => exact within_pure _
  | some capture =>
      unfold endCapture
      refine within_get_bind fun exp => ?_
      split
      · split
        · exact setMatch_within _ _ exp
        · exact ⟨rfl, rfl, rfl⟩
      · exact ⟨rfl, rfl, rfl⟩

/-- Whether a group is captured has no influence on what it matches. -/
theorem group_steady (node : Node) (str : Int) {body : MatchM (Option Int)}
    (hbody : Steady Alike body) : Steady Alike (do
        let capture ← beginCapture node str
        let tempcap := (← get).currsubexp
        match ← body with
        | none =>
            dropCapture capture
            return none
        | some cur =>
            modify fun exp => { exp with currsubexp := tempcap }
            endCapture cur capture
            return some cur) := by
  have hcoupled : ∀ {α β : Type} {m : MatchM α} {m' : MatchM β}, Within Alike m → Within Alike m' →
      Coupled Alike (fun _ _ => True) m m' := coupled_of_within fun _ _ h => h.symm
  refine (hcoupled (beginCapture_within _ _) (beginCapture_within _ _)).bind fun c c' _ => ?_
  refine coupled_get_bind fun exp exp' _ => Coupled.bind hbody ?_
  rintro o _ rfl
  cases o with
  | none =>
      exact (hcoupled (dropCapture_within c) (dropCapture_within c')).bind
        fun _ _ _ => coupled_pure rfl
  | some cur =>
      refine Coupled.bind (hcoupled (within_modify ?_) (within_modify ?_)) fun _ _ _ => ?_
      · exact fun _ => ⟨rfl, rfl, rfl⟩
      · exact fun _ => ⟨rfl, rfl, rfl⟩
      · exact (hcoupled (endCapture_within cur c) (endCapture_within cur c')).bind
          fun _ _ _ => coupled_pure rfl

/-- What the matcher returns depends on the text and the range only. -/
theorem matchnode_steady (fuel : Nat) :
    (∀ i str next, Steady Alike (gstd_rex_matchnode nodes fuel i str next)) ∧
      (∀ l str, Steady Alike (orLoop nodes fuel l str)) ∧
      ∀ l str next, Steady Alike (exprLoop nodes fuel l str next) := by
  induction fuel with
  | zero => exact ⟨fun _ _ _ => steady_throw _, fun _ _ => steady_throw _,
      fun _ _ _ => steady_throw _⟩
  | succ fuel ih =>
      obtain ⟨ihnode, ihor, ihexpr⟩ := ih
      refine ⟨fun i str next => ?_, fun l str => ?_, fun l str next => ?_⟩
      · unfold gstd_rex_matchnode
        refine (nodeAt_steady i).bind fun node => ?_
        split
        · refine (greedyLoop_steady (fun s => ihnode _ s _) (satisfied_steady ihnode _ next) _ _
            _ _ _).bind fun res => steady_pure _
        · refine (ihor _ _).bind fun o => ?_
          split
          · exact steady_pure _
          · exact ihor _ _
        · exact group_steady node str (ihexpr _ _ _)
        · exact group_steady node str (ihexpr _ _ _)
        · exact matchleaf_steady _ _ _
      · unfold orLoop
        refine (ihnode _ _ _).bind fun o => ?_
        split
        · exact steady_pure _
        · refine (nodeAt_steady l).bind fun node => ?_
          split
          · exact ihor _ _
          · exact steady_pure _
      · unfold exprLoop
        refine (nodeAt_steady l).bind fun node => (ihnode _ _ _).bind fun o => ?_
        split
        · exact steady_pure _
        · split
          · exact ihexpr _ _ _
          · exact steady_pure _

end

end GameScript.Rex
