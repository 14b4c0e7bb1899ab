import Mathlib.Data.List.Forall2
import GameScript.Generics
import GameScript.Lib.Scopes

/-!
How the compiler looks a name up (`Factor` of `GScompiler.cpp`, `GetLocalVariable` and
`GetOuterVariable` of `GSfuncstate.cpp`). A variable of a function around is found through the
tables of outer variables: each entry is a register of the parent or an entry of the table of
the parent. `Leads` follows the entries to the register they end in.
-/

namespace GameScript

open Effect Scopes

namespace Compiler

/-! ### What a name stands for -/

/-- A register, an outer variable, a constant or a slot of `this`. -/
inductive Resolution where
  | register (pos : Nat)
  | outer (pos : Nat)
  | constant (c : Constant)
  | member
deriving DecidableEq, Repr

/-- The lookups of `Factor`. -/
def resolution (id : Object) : CompilerM Resolution := do
  match (← getFs).getLocalVariable id with
  | some pos => return .register pos
  | none =>
    match ← GetOuterVariable id with
    | some pos => return .outer pos
    | none =>
      match ← IsConstant id with
      | some constant => return .constant constant
      | none => return .member

/-- What `Factor` emits for a name. -/
def emitResolution (id : Object) : Resolution → CompilerM Unit
  | .register pos => do
    let _ ← PushTargetAt pos
    setEtype .LOCAL
    setEpos pos
  | .outer pos => do
    if ← NeedGet then
      let target ← PushTarget
      setEpos target
      AddInstruction .GETOUTER target pos
    else
      setEtype .OUTER
      setEpos pos
  | .constant c => emitConstant id c
  | .member => do
    let _ ← PushTargetAt 0
    let target ← PushTarget
    AddInstruction .LOAD target (← GetConstant id)
    if ← NeedGet then
      Emit2ArgsOP .GET
    setEtype .OBJECT

/-- `Factor` looks a name up and emits code for what it found. -/
theorem resolve_eq (id : Object) : resolve id = resolution id >>= emitResolution id := by
  unfold resolve resolution
  rw [bind_assoc]
  congr 1
  funext fs
  cases fs.getLocalVariable id with
  | some pos => rfl
  | none =>
      dsimp only
      rw [bind_assoc]
      congr 1
      funext outer
      cases outer with
      | some pos => rfl
      | none =>
          dsimp only
          rw [bind_assoc]
          congr 1
          funext constant
          cases constant <;> rfl

end Compiler

namespace FuncState

/-! ### Registers -/

/-- The names of the registers; those of temporary values have none. -/
def registers (fs : FuncState) : List (Option Object) :=
  fs.vlocals.toList.map fun lvi => if lvi.name = .null then none else some lvi.name

@[simp] theorem length_registers (fs : FuncState) : fs.registers.length = fs.vlocals.size := by
  simp [registers]

theorem registers_congr {fs fs' : FuncState}
    (h : fs'.vlocals.toList.map (·.name) = fs.vlocals.toList.map (·.name)) :
    fs'.registers = fs.registers := by
  have hmap (g : FuncState) : g.registers =
      (g.vlocals.toList.map (·.name)).map fun x => if x = .null then none else some x := by
    rw [List.map_map]
    rfl
  rw [hmap, hmap, h]

theorem getLocalVariable_eq (fs : FuncState) {name : Object} (hname : name ≠ .null) :
    fs.getLocalVariable name = (List.range fs.registers.length).reverse.find? fun n =>
      fs.registers[n]? = some (some name) := by
  rw [length_registers]
  unfold getLocalVariable
  congr 1
  funext n
  have hreg : fs.registers[n]? =
      fs.vlocals[n]?.map fun lvi => if lvi.name = .null then none else some lvi.name := by
    simp [registers]
  rw [hreg, decide_eq_decide]
  cases fs.vlocals[n]? with
  | none => simp
  | some lvi =>
      simp only [Option.map_some, Option.some.injEq]
      by_cases hnull : lvi.name = .null
      · rw [if_pos hnull, hnull]
        constructor
        · intro h
          exact absurd h.symm hname
        · intro h
          cases h
      · rw [if_neg hnull, Option.some.injEq]

/-- A function whose variables are `f` finds the innermost declaration. -/
theorem getLocalVariable_find {fs : FuncState} {f : Function Object}
    (h : Describes f fs.registers) {name : Object} (hname : name ≠ .null) :
    fs.getLocalVariable name = f.find name := by
  rw [getLocalVariable_eq fs hname, h.find]

@[simp] theorem registers_markLocalAsOuter (fs : FuncState) (pos : Nat) :
    (fs.markLocalAsOuter pos).registers = fs.registers := by
  apply registers_congr
  apply List.ext_getElem?
  intro n
  unfold markLocalAsOuter
  simp only [List.getElem?_map, Array.getElem?_toList, Array.getElem?_modify]
  split
  · rw [Option.map_map]
    rfl
  · rfl

@[simp] theorem registers_addOuterValue (fs : FuncState) (name : Object) (pos : Nat)
    (type : OuterType) : (fs.addOuterValue name pos type).registers = fs.registers := rfl

end FuncState

/-! ### Outer variables -/

/-- The entry `i` of the first table leads to the register `r` of the function that is `k`
functions away, where each table belongs to a function and is followed by that of its parent. -/
inductive Leads : List (List OuterVar) → Nat → Nat → Nat → Prop where
  | register {t : List OuterVar} {ts : List (List OuterVar)} {i r : Nat} {o : OuterVar} :
      t[i]? = some o → o.type = .otLOCAL → o.src = .integer (Int64.ofNat r) →
      Leads (t :: ts) i 1 r
  | outer {t : List OuterVar} {ts : List (List OuterVar)} {i j k r : Nat} {o : OuterVar} :
      t[i]? = some o → o.type = .otOUTER → o.src = .integer (Int64.ofNat j) →
      Leads ts j k r → Leads (t :: ts) i (k + 1) r

/-- Tables only grow. -/
abbrev TablesGrow : List (List OuterVar) → List (List OuterVar) → Prop := List.Forall₂ (· <+: ·)

theorem tablesGrow_refl (ts : List (List OuterVar)) : TablesGrow ts ts :=
  List.forall₂_same.mpr fun _ _ => List.prefix_rfl

theorem getElem?_of_grow {t t' : List OuterVar} (h : t <+: t') {i : Nat} {o : OuterVar}
    (ho : t[i]? = some o) : t'[i]? = some o := by
  obtain ⟨added, rfl⟩ := h
  obtain ⟨hlt, -⟩ := List.getElem?_eq_some_iff.mp ho
  rwa [List.getElem?_append_left hlt]

theorem Leads.grow {ts ts' : List (List OuterVar)} {i k r : Nat} (h : Leads ts i k r)
    (hgrow : TablesGrow ts ts') : Leads ts' i k r := by
  induction h generalizing ts' with
  | register ho htype hsrc =>
      cases hgrow with
      | cons hhead hrest => exact .register (getElem?_of_grow hhead ho) htype hsrc
  | outer ho htype hsrc _ ih =>
      cases hgrow with
      | cons hhead hrest => exact .outer (getElem?_of_grow hhead ho) htype hsrc (ih hrest)

/-- Every entry of a table leads to the innermost declaration of its name around the function. -/
def Sound : List (Function Object) → List (List OuterVar) → Prop
  | _ :: fs, t :: ts =>
    (∀ i o, t[i]? = some o → ∃ k r, lookup fs o.name = some (k, r) ∧
      Leads (t :: ts) i (k + 1) r) ∧ Sound fs ts
  | _, _ => True

/-- What a search for a name in the functions around gives. -/
def Found (fs : List (Function Object)) (ts : List (List OuterVar)) (name : Object) :
    Option Nat → Prop
  | some i => ∃ k r, lookup fs name = some (k, r) ∧ Leads ts i (k + 1) r
  | none => lookup fs name = none

namespace FuncState

/-- The tables of functions, each followed by its parent. -/
def tables (gs : List FuncState) : List (List OuterVar) := gs.map (·.outervalues.toList)

/-- The function has these variables. -/
def Has (f : Function Object) (g : FuncState) : Prop := Describes f g.registers

abbrev AllHave : List (Function Object) → List FuncState → Prop := List.Forall₂ Has

/-- A new entry of the first table. -/
theorem sound_addOuterValue {f : Function Object} {fs : List (Function Object)} {g : FuncState}
    {gs gs' : List FuncState} {name : Object} {pos k r : Nat} {type : OuterType}
    (h : Sound (f :: fs) (tables (g :: gs))) (hrest : Sound fs (tables gs'))
    (hgrow : TablesGrow (tables gs) (tables gs')) (hlookup : lookup fs name = some (k, r))
    (hleads : Leads (tables (g.addOuterValue name pos type :: gs')) g.outervalues.size (k + 1) r) :
    Sound (f :: fs) (tables (g.addOuterValue name pos type :: gs')) := by
  refine ⟨fun i o ho => ?_, hrest⟩
  have hprefix : g.outervalues.toList <+: (g.addOuterValue name pos type).outervalues.toList := by
    simp [addOuterValue]
  have hall : TablesGrow (tables (g :: gs)) (tables (g.addOuterValue name pos type :: gs')) :=
    .cons hprefix hgrow
  by_cases hi : i < g.outervalues.size
  · have hold : g.outervalues.toList[i]? = some o := by
      have ho' := ho
      simp only [addOuterValue, Array.toList_push] at ho'
      rwa [List.getElem?_append_left (by simpa using hi)] at ho'
    obtain ⟨k', r', hk, hl⟩ := h.1 i o hold
    exact ⟨k', r', hk, hl.grow hall⟩
  · have hnew : i = g.outervalues.size ∧ o.name = name := by
      simp only [addOuterValue, Array.toList_push] at ho
      rw [List.getElem?_append_right (by simpa using hi)] at ho
      obtain ⟨hlt, heq⟩ := List.getElem?_eq_some_iff.mp ho
      rw [List.length_singleton] at hlt
      rw [Array.length_toList] at hlt
      refine ⟨by omega, ?_⟩
      rw [← heq]
      simp
    obtain ⟨rfl, hname⟩ := hnew
    exact ⟨k, r, hname ▸ hlookup, hleads⟩

theorem getElem?_addOuterValue (g : FuncState) (name : Object) (pos : Nat) (type : OuterType) :
    (g.addOuterValue name pos type).outervalues.toList[g.outervalues.size]? =
      some { type := type, name := name, src := .integer (Int64.ofNat pos) } := by
  simp [addOuterValue]

/-- `GetOuterVariable` gives an entry that leads to the innermost declaration, and the tables
stay as they should be. -/
theorem getOuterVariable_spec {name : Object} (hname : name ≠ .null)
    {f : Function Object} {fs : List (Function Object)} {gs : List FuncState}
    (hhave : AllHave (f :: fs) gs) (hsound : Sound (f :: fs) (tables gs)) :
    AllHave (f :: fs) (getOuterVariable name gs).2 ∧
      Sound (f :: fs) (tables (getOuterVariable name gs).2) ∧
      TablesGrow (tables gs) (tables (getOuterVariable name gs).2) ∧
      Found fs (tables (getOuterVariable name gs).2) name (getOuterVariable name gs).1 := by
  induction gs generalizing f fs with
  | nil => cases hhave
  | cons g gs ih =>
      obtain ⟨hhead, hrest⟩ := List.forall₂_cons.mp hhave
      unfold getOuterVariable
      cases hcached : g.outervalues.findIdx? (fun o => o.name = name) with
      | some i =>
          refine ⟨hhave, hsound, tablesGrow_refl _, ?_⟩
          obtain ⟨hlt, hi, -⟩ := Array.findIdx?_eq_some_iff_getElem.mp hcached
          have ho : g.outervalues.toList[i]? = some g.outervalues[i] := by
            simp [hlt]
          obtain ⟨k, r, hk, hl⟩ := hsound.1 i _ ho
          rw [of_decide_eq_true hi] at hk
          exact ⟨k, r, hk, hl⟩
      | none =>
          cases hrest with
          | nil => exact ⟨hhave, hsound, tablesGrow_refl _, rfl⟩
          | @cons f' parent fs' rest hparent hrest =>
              dsimp only
              have hfind := getLocalVariable_find hparent hname
              cases hlocal : parent.getLocalVariable name with
              | some pos =>
                  have hlookup : lookup (f' :: fs') name = some (0, pos) := by
                    rw [lookup, ← hfind, hlocal]
                  have hleads : Leads (tables (g.addOuterValue name pos .otLOCAL ::
                      parent.markLocalAsOuter pos :: rest)) g.outervalues.size (0 + 1) pos :=
                    .register (getElem?_addOuterValue g name pos .otLOCAL) rfl rfl
                  refine ⟨?_, ?_, ?_, 0, pos, hlookup, hleads⟩
                  · have hmarked : Has f' (parent.markLocalAsOuter pos) := by
                      rw [Has, registers_markLocalAsOuter]
                      exact hparent
                    exact .cons hhead (.cons hmarked hrest)
                  · exact sound_addOuterValue hsound hsound.2 (tablesGrow_refl _) hlookup hleads
                  · apply List.Forall₂.cons
                    · simp [addOuterValue]
                    · exact tablesGrow_refl _
              | none =>
                  have hinner := ih (.cons hparent hrest) hsound.2
                  generalize getOuterVariable name (parent :: rest) = out at hinner ⊢
                  obtain ⟨found, parents⟩ := out
                  obtain ⟨hhave', hsound', hgrow, hfound⟩ := hinner
                  cases found with
                  | none =>
                      refine ⟨.cons hhead hhave', ⟨?_, hsound'⟩, ?_, ?_⟩
                      · intro i o ho
                        obtain ⟨k, r, hk, hl⟩ := hsound.1 i o ho
                        exact ⟨k, r, hk, hl.grow (.cons List.prefix_rfl hgrow)⟩
                      · exact .cons List.prefix_rfl hgrow
                      · have hnone : lookup fs' name = none := hfound
                        unfold Found
                        rw [lookup, ← hfind, hlocal, hnone]
                        rfl
                  | some pos =>
                      obtain ⟨k, r, hk, hl⟩ := hfound
                      have hlookup : lookup (f' :: fs') name = some (k + 1, r) := by
                        rw [lookup, ← hfind, hlocal, hk]
                        rfl
                      have hleads : Leads (tables (g.addOuterValue name pos .otOUTER :: parents))
                          g.outervalues.size (k + 1 + 1) r :=
                        .outer (getElem?_addOuterValue g name pos .otOUTER) rfl rfl hl
                      refine ⟨.cons hhead hhave', ?_, ?_, k + 1, r, hlookup, hleads⟩
                      · exact sound_addOuterValue hsound hsound' hgrow hlookup hleads
                      · apply List.Forall₂.cons _ hgrow
                        simp [addOuterValue]

end FuncState

end GameScript
