import GameScript.Opcodes

/-!
Function prototypes (`GSfuncproto.h`): what the compiler builds, the bytecode
stream carries and the virtual machine executes. A prototype owns its nested
functions, and nothing changes one after it is built.
-/

namespace GameScript

/-- `GSOuterType`. -/
inductive OuterType where
  | otLOCAL | otOUTER
deriving DecidableEq, Repr

def OuterType.code : OuterType → Nat
  | .otLOCAL => 0
  | .otOUTER => 1

/-- `GSOuterVar`: where a new closure finds one of its outer variables, a
register of the running frame or an outer variable of the running closure. -/
structure OuterVar where
  type : OuterType
  name : Object
  src : Object
deriving DecidableEq, Repr

/-- `GSLocalVarInfo`, less the declared type and size: its copy constructor
resets both, so no prototype carries them. -/
structure LocalVarInfo where
  name : Object
  startOp : UInt64
  endOp : UInt64
  pos : UInt64
deriving DecidableEq, Repr

/-- `GSLineInfo`. -/
structure LineInfo where
  line : GSInteger
  op : GSInteger
deriving DecidableEq, Repr

/-- `GSFunctionProto`. The constructor writes neither `_varparams` nor
`_rettype`; the first is set by everything that creates a prototype, the second
is not, so `rettype` is `none` while its storage has never been written. -/
structure FunctionProto where
  sourcename : Object
  name : Object
  stacksize : GSInteger
  bgenerator : Bool
  varparams : GSInteger
  rettype : Option GSInteger
  localvarinfos : List LocalVarInfo
  lineinfos : List LineInfo
  literals : List Object
  parameters : List Object
  functions : List FunctionProto
  outervalues : List OuterVar
  defaultparams : List GSInteger
  instructions : List Instruction
deriving Repr

namespace FunctionProto

/-- `Within p q`: `q` is `p` or a function nested in it at any depth. -/
inductive Within : FunctionProto → FunctionProto → Prop where
  | self (p) : Within p p
  | nested {p r q} : r ∈ p.functions → Within r q → Within p q

mutual
/-- The nesting depth of functions, the prototype itself included. -/
def depth : FunctionProto → Nat
  | ⟨_, _, _, _, _, _, _, _, _, _, functions, _, _, _⟩ => depthAll functions + 1

def depthAll : List FunctionProto → Nat
  | [] => 0
  | p :: ps => max p.depth (depthAll ps)
end

theorem depth_eq (p : FunctionProto) : p.depth = depthAll p.functions + 1 := by
  cases p
  rw [depth]

theorem depth_le_depthAll {p : FunctionProto} :
    ∀ {ps : List FunctionProto}, p ∈ ps → p.depth ≤ depthAll ps
  | q :: qs, h => by
      rw [depthAll]
      rcases List.mem_cons.mp h with rfl | h
      · exact Nat.le_max_left _ _
      · exact Nat.le_trans (depth_le_depthAll h) (Nat.le_max_right _ _)

theorem depth_lt_of_mem {p q : FunctionProto} (h : q ∈ p.functions) : q.depth < p.depth := by
  rw [depth_eq p]
  exact Nat.lt_succ_of_le (depth_le_depthAll h)

end FunctionProto

end GameScript
