import GameScript.Compiler.Statement
import GameScript.VM.Frames

/-!
Declared return types. The compiler writes the token of the annotation of a function
into its prototype and forgets the brackets of an array type; `RETURN` compares the
value it is given with that token. The value of a call conforms to a scalar type as
long as its frame returns a value explicitly and is not taken over by a closure of
another return type.
-/

namespace GameScript

open Effect

/-! ### What is declared -/

/-- The values of a type. An integer is also a value of `float`, and a type that is an
identifier has all values. -/
def Token.Accepts : Token → Object → Prop
  | .TK_INT, o => ∃ n, o = .integer n
  | .TK_FLOAT, o => (∃ f, o = .float f) ∨ ∃ n, o = .integer n
  | .TK_STRING, o => ∃ s, o = .string s
  | .TK_BOOL, o => ∃ n, o = .bool n
  | .TK_VOID, o => o = .null
  | .TK_IDENTIFIER, _ => True
  | _, _ => False

/-- `elements` gives the contents of arrays. -/
def Annotation.Conforms (elements : Ref → List Object) (a : Annotation) (o : Object) : Prop :=
  if a.isArray then ∃ p, o = .array p ∧ ∀ e ∈ elements p, a.type.Accepts e
  else a.type.Accepts o

namespace Compiler

/-- The annotation that follows. -/
def annotation : CompilerM (Option Annotation) := do
  if (← getToken) = .TK_ARROW then
    Lex
    let type ← getToken
    Lex
    return some { type := type, isArray := (← getToken) = .chr '[' }
  else return none

/-- The function that is compiled next has the annotation `a` after its parameters. -/
def Declares (n : Nat) (call : Proc → CompilerM Unit) (name : Object) (c : Compiler)
    (a : Annotation) : Prop :=
  ∃ p c₁ c₂, functionParameters n call name c = .ok p c₁ ∧ annotation c₁ = .ok (some a) c₂

/-- The type that the annotation names is the one the prototype gets. -/
theorem returnType_of_annotation {c c₁ c₂ : Compiler} {a : Annotation} {b : Option Annotation}
    (ha : annotation c = .ok (some a) c₁) (hr : returnType c = .ok b c₂) :
    a.type.isType = true ∧ expectedRettype b = a.type.code := by
  unfold annotation at ha
  unfold returnType at hr
  rw [getToken_bind_apply] at ha hr
  split at ha
  · rename_i harrow
    rw [if_pos harrow] at hr
    obtain ⟨_, c₃, hlex, ha⟩ := bind_eq_ok.mp ha
    rw [bind_apply, hlex] at hr
    dsimp only at hr
    rw [getToken_bind_apply] at ha hr
    obtain ⟨_, c₄, -, ha⟩ := bind_eq_ok.mp ha
    rw [getToken_bind_apply] at ha
    cases ha
    split at hr
    · cases hr
    rename_i htype
    obtain ⟨_, c₅, -, hr⟩ := bind_eq_ok.mp hr
    obtain ⟨_, c₆, -, hr⟩ := bind_eq_ok.mp hr
    cases hr
    exact ⟨by simpa using htype, rfl⟩
  · cases ha

/-- The prototype of a function with an annotation has its type. -/
theorem createFunction_rettype {n : Nat} {call : Proc → CompilerM Unit} {name : Object}
    {boundtarget : Int} {lambda : Bool} {c c' : Compiler} {a : Annotation}
    (hc : createFunction n call name boundtarget lambda c = .ok () c')
    (ha : Declares n call name c a) :
    a.type.isType = true ∧
      ∃ func, c'.fs.functions.back? = some func ∧
        func.rettype = some (Int64.ofInt a.type.code) := by
  obtain ⟨p, c₁, c₂, hp, hann⟩ := ha
  unfold createFunction at hc
  rw [bind_apply, hp] at hc
  obtain ⟨b, c₃, hb, hc⟩ := bind_eq_ok.mp hc
  obtain ⟨htype, hcode⟩ := returnType_of_annotation hann hb
  obtain ⟨_, c₄, -, hc⟩ := bind_eq_ok.mp hc
  obtain ⟨func, c₅, -, hc⟩ := bind_eq_ok.mp hc
  unfold leaveFunction at hc
  rw [get_bind_apply] at hc
  refine ⟨htype, { func with rettype := some (Int64.ofInt a.type.code) }, ?_, rfl⟩
  cases hparents : c₅.parents with
  | nil =>
    rw [hparents] at hc
    cases hc
  | cons currchunk parents =>
    rw [hparents] at hc
    cases hc
    simp [hcode]

end Compiler

namespace VM

variable {Heap : Type}

/-! ### The check of `RETURN` -/

theorem rettypeOk_iff {t : Token} (ht : t.isType = true) (o : Object) :
    rettypeOk t.code o = true ↔ t.Accepts o := by
  cases t with
  | TK_INT | TK_FLOAT | TK_STRING | TK_BOOL | TK_VOID | TK_IDENTIFIER =>
    cases o <;> simp [rettypeOk, typeOk, Token.Accepts, Token.code, Object.type]
  | _ => cases ht

/-- The token fits the field of the prototype. -/
theorem rettype_toInt {t : Token} (ht : t.isType = true) :
    (Int64.ofInt t.code).toInt = t.code := by
  cases t with
  | TK_INT | TK_FLOAT | TK_STRING | TK_BOOL | TK_VOID | TK_IDENTIFIER => rfl
  | _ => cases ht

theorem rettype_ne_zero {t : Token} (ht : t.isType = true) : Int64.ofInt t.code ≠ 0 := by
  cases t with
  | TK_INT | TK_FLOAT | TK_STRING | TK_BOOL | TK_VOID | TK_IDENTIFIER => decide
  | _ => cases ht

/-- The check of a value by the type of the running function. -/
theorem checkReturnType_apply {vm : VM Heap} {c : Closure} {i : Instruction} {t : Token}
    (hc : Runs vm c) (hrettype : c.function.rettype = some (Int64.ofInt t.code))
    (ht : t.isType = true) (hvalue : i.arg0 ≠ 0xFF) (harg1 : 0 ≤ i.arg1.toInt) :
    checkReturnType i vm =
      if rettypeOk t.code (vm.stack (vm.stackbase + i.arg1.toInt.toNat)) then .ok () vm
      else .error (.raise (.string (sc (rettypeError t.code)))) vm := by
  unfold checkReturnType when
  rw [if_pos hvalue, bind_apply, hc.currentClosure]
  dsimp only
  rw [hrettype]
  dsimp only
  rw [if_pos (rettype_ne_zero ht), bind_apply, STK1_apply harg1, rettype_toInt ht]
  dsimp only
  cases rettypeOk t.code (vm.stack (vm.stackbase + i.arg1.toInt.toNat)) <;> rfl

/-! ### Frames with a return type -/

/-- A frame, not of a generator, whose function has the return type `t`. Under an
identifier, which all values conform to, the function may be any. -/
def Typed (t : Token) (closures : List Closure) (ci : CallInfo) : Prop :=
  ci.generator = none ∧ (t = .TK_IDENTIFIER ∨ ∃ p c, ci.closure = some p ∧
    closures[p]? = some c ∧ c.function.rettype = some (Int64.ofInt t.code))

/-- The type that a frame's function declares does not change. -/
theorem stable_typed (t : Token) : Stable (Typed t) where
  counters {closures ci ci'} hci h := by
    have hgenerator : ci.fixed.generator = ci'.fixed.generator := by rw [hci]
    have hclosure : ci.fixed.closure = ci'.fixed.closure := by rw [hci]
    change ci.generator = ci'.generator at hgenerator
    change ci.closure = ci'.closure at hclosure
    unfold Typed
    rwa [← hgenerator, ← hclosure]
  append {closures ci} new h := by
    refine ⟨h.1, h.2.imp_right ?_⟩
    rintro ⟨p, c, hclosure, hp, hrettype⟩
    refine ⟨p, c, hclosure, ?_, hrettype⟩
    rw [List.getElem?_append_left (List.getElem?_eq_some_iff.mp hp).1]
    exact hp

theorem Typed.start {t : Token} {p : Ref} {c : Closure} {closures : List Closure} {ci : CallInfo}
    (h : With (Typed t) p c closures ci)
    (hc : t = .TK_IDENTIFIER ∨ c.function.rettype = some (Int64.ofInt t.code)) (target : Int) :
    Typed t closures (ci.start p target) :=
  ⟨h.1.1, hc.imp_right fun hrettype => ⟨p, c, rfl, h.2, hrettype⟩⟩

/-! ### Calls -/

/-- A call of a closure of `func`, which is no generator function, has just entered its
frame, the `d`-th. -/
def Entered (func : FunctionProto) (d : Nat) (vm : VM Heap) : Prop :=
  func.bgenerator = false ∧ ∃ ci callstack p c, vm.callstack = ci :: callstack ∧
    d = callstack.length + 1 ∧ ci.ip = 0 ∧ ci.generator = none ∧ ci.closure = some p ∧
    vm.closures[p]? = some c ∧ c.function = func

/-- The `d`-th frame is there, and when it is the current one its next instruction is `ok`. -/
def InCall (ok : VM Heap → Instruction → Prop) (d : Nat) (vm : VM Heap) : Prop :=
  d ≤ vm.callstack.length ∧
    (vm.callstack.length = d → ∀ i vm₁, fetch vm = .ok i vm₁ → ok vm₁ i)

/-- The value that an instruction `i` hands to the caller of its frame. -/
def returned (vm : VM Heap) (i : Instruction) : Object :=
  vm.returnValue i.arg0.toNat i.arg1.toInt.toNat

/-- In every run in which the frame of a call of `func` does what is `ok`, an instruction
that ends the frame without an error is a `RETURN` of a conforming value. -/
def ReturnsConform (rt : Runtime) (elements : Ref → List Object) (a : Annotation)
    (func : FunctionProto) (ok : VM rt.Heap → Instruction → Prop) : Prop :=
  ∀ d vm₀ vm i vm₁ control vm₂, Entered func d vm₀ →
    Guarded (InCall ok d) (fun vm vm' => step rt vm = .next vm') vm₀ vm → InCall ok d vm →
    vm.callstack.length = d → fetch vm = .ok i vm₁ → exec rt i vm₁ = .ok control vm₂ →
    vm₂.callstack.length < d → i.op = .RETURN ∧ a.Conforms elements (returned vm₁ i)

/-- A `return e` of `func` whose value conforms raises nothing. -/
def ReturnsAccepted (rt : Runtime) (elements : Ref → List Object) (a : Annotation)
    (func : FunctionProto) : Prop :=
  ∀ vm c i vm₁, Runs vm c → c.function = func → fetch vm = .ok i vm₁ → i.op = .RETURN →
    i.arg0 ≠ 0xFF → a.Conforms elements (returned vm₁ i) →
    ∀ e vm₂, exec rt i vm₁ ≠ .error (.raise e) vm₂

/-- What a function with a scalar return type must not do: return without a value, unless
its type is `void`, or hand its frame to a function of another type. An identifier
allows both. -/
def Regular (a : Annotation) (vm : VM Heap) (i : Instruction) : Prop :=
  a.type = .TK_IDENTIFIER ∨
    (i.op = .RETURN → i.arg0 = 0xFF → a.type = .TK_VOID) ∧
    (i.op = .TAILCALL → ∀ p c, Successor vm i p c →
      c.function.rettype = some (Int64.ofInt a.type.code))

theorem Entered.over {func : FunctionProto} {d : Nat} {vm : VM Heap} {t : Token}
    (h : Entered func d vm) (hfunc : func.rettype = some (Int64.ofInt t.code)) :
    ∃ rest, d = rest.length + 1 ∧ Over (Typed t) rest 0 vm := by
  obtain ⟨-, ci, rest, p, c, hstack, hd, -, hgenerator, hclosure, hp, rfl⟩ := h
  exact ⟨rest, hd, [], ci, hstack, Nat.zero_le _, hgenerator, .inr ⟨p, c, hclosure, hp, hfunc⟩⟩

/-- The run keeps the frame, or leaves it. -/
theorem over_run (rt : Runtime) {a : Annotation} {rest : List CallInfo} {vm₀ vm : VM rt.Heap}
    (h : Over (Typed a.type) rest 0 vm₀)
    (hrun : Guarded (InCall (Regular a) (rest.length + 1))
      (fun vm vm' => step rt vm = .next vm') vm₀ vm) :
    OverOrLeft (Typed a.type) rest vm := by
  have hkeeps : ∀ vm vm', OverOrLeft (Typed a.type) rest vm →
      InCall (Regular a) (rest.length + 1) vm → step rt vm = .next vm' →
      OverOrLeft (Typed a.type) rest vm' := by
    intro vm vm' hinv hguard hstep
    obtain hover | hleft := hinv
    · refine hover.step (stable_typed a.type) rt hstep fun i vm₁ hf hop hlen p c hp _ _ hw =>
        Typed.start hw ?_ _
      rw [fetch_length hf] at hlen
      exact (hguard.2 hlen i vm₁ hf).imp_right fun hregular => hregular.2 hop p c hp
    · have hd := hguard.1
      omega
  exact hrun.keeps hkeeps (.inl h)

/-- The frame of the call, when it is the current one. -/
theorem Over.head {good : List Closure → CallInfo → Prop} {rest : List CallInfo} {vm : VM Heap}
    (h : Over good rest 0 vm) (hlen : vm.callstack.length = rest.length + 1) :
    ∃ ci, vm.callstack = ci :: rest ∧ good vm.closures ci := by
  obtain ⟨upper, ci, hstack, -, hgood⟩ := h
  rw [hstack, List.length_append, List.length_cons] at hlen
  have hupper : upper = [] := List.length_eq_zero_iff.mp (by omega)
  rw [hupper] at hstack
  exact ⟨ci, hstack, hgood⟩

theorem finish_nonneg {vm vm' : VM Heap} {i : Instruction} {control : Control}
    (h : finish i vm = .ok control vm') : 0 ≤ i.arg1.toInt := by
  obtain ⟨n, vm₁, hn, -⟩ := bind_eq_ok.mp h
  unfold index1 at hn
  split at hn
  · assumption
  · cases hn

theorem killGenerator_apply {vm : VM Heap} {ci : CallInfo} {callstack : List CallInfo}
    (hstack : vm.callstack = ci :: callstack) (hgenerator : ci.generator = none) :
    killGenerator vm = .ok () vm := by
  unfold killGenerator
  rw [bind_apply, getCi_apply hstack]
  dsimp only
  rw [hgenerator]
  rfl

theorem returned_explicit {i : Instruction} (h : i.arg0 ≠ 0xFF) (vm : VM Heap) :
    returned vm i = vm.stack (vm.stackbase + i.arg1.toInt.toNat) := by
  unfold returned returnValue
  have hne : i.arg0.toNat ≠ 0xFF := fun heq => h (UInt8.toNat_inj.mp heq)
  exact if_pos hne

theorem returned_bare {i : Instruction} (h : i.arg0 = 0xFF) (vm : VM Heap) :
    returned vm i = .null := by
  unfold returned returnValue
  rw [h]
  rfl

/-- **What RETURN hands out conforms to the declared type.** -/
theorem returnOp_conforms {vm vm' : VM Heap} {t : Token} {ci : CallInfo}
    {callstack : List CallInfo} {i : Instruction} {control : Control} (ht : t.isType = true)
    (hstack : vm.callstack = ci :: callstack) (htyped : Typed t vm.closures ci)
    (hbare : i.arg0 = 0xFF → t = .TK_VOID ∨ t = .TK_IDENTIFIER)
    (h : returnOp i vm = .ok control vm') : t.Accepts (returned vm i) := by
  obtain ⟨hgenerator, rfl | ⟨p, c, hclosure, hp, hrettype⟩⟩ := htyped
  · trivial
  have hruns : Runs vm c := ⟨ci, callstack, p, hstack, hclosure, hp⟩
  by_cases harg0 : i.arg0 = 0xFF
  · rw [returned_bare harg0]
    obtain rfl | rfl := hbare harg0
    · rfl
    · trivial
  obtain ⟨_, vm₁, hkill, h₁⟩ := bind_eq_ok.mp h
  rw [killGenerator_apply hstack hgenerator] at hkill
  cases hkill
  obtain ⟨_, vm₂, hcheck, hfinish⟩ := bind_eq_ok.mp h₁
  rw [checkReturnType_apply hruns hrettype ht harg0 (finish_nonneg hfinish)] at hcheck
  rw [returned_explicit harg0]
  refine (rettypeOk_iff ht _).mp ?_
  split at hcheck
  · assumption
  · cases hcheck

/-- A frame that is no generator's does not yield. -/
theorem yieldOp_ne_ok (rt : Runtime) {vm vm' : VM rt.Heap} {ci : CallInfo}
    {callstack : List CallInfo} {i : Instruction} {control : Control}
    (hstack : vm.callstack = ci :: callstack) (hgenerator : ci.generator = none) :
    yieldOp rt i vm ≠ .ok control vm' := by
  unfold yieldOp
  rw [bind_apply, getCi_apply hstack]
  dsimp only
  rw [hgenerator]
  intro h
  cases h

theorem Runs.fetch {vm vm' : VM Heap} {c : Closure} {i : Instruction} (h : Runs vm c)
    (hf : VM.fetch vm = .ok i vm') : Runs vm' c := by
  obtain ⟨ci, callstack, p, c', hstack, hclosure, hp, -, rfl⟩ := fetch_ok hf
  obtain ⟨ci', callstack', p', hstack', hclosure', hp'⟩ := h
  rw [hstack] at hstack'
  cases hstack'
  exact ⟨_, callstack, p', rfl, hclosure', hp'⟩

/-! ### What raises nothing -/

/-- No error of the script comes from `m`. -/
def Silent {α : Type} (m : VMM Heap α) : Prop := ∀ vm e vm', m vm ≠ .error (.raise e) vm'

section

variable {α β : Type}

theorem silent_pure (a : α) : Silent (pure a : VMM Heap α) := by
  intro vm e vm' h
  cases h

theorem silent_undefined : Silent (undefined : VMM Heap α) := by
  intro vm e vm' h
  cases h

theorem silent_get : Silent (get : VMM Heap (VM Heap)) := by
  intro vm e vm' h
  cases h

theorem silent_modify (f : VM Heap → VM Heap) : Silent (modify f : VMM Heap Unit) := by
  intro vm e vm' h
  cases h

theorem Silent.bind {m : VMM Heap α} {f : α → VMM Heap β} (hm : Silent m)
    (hf : ∀ a, Silent (f a)) : Silent (m >>= f) := by
  intro vm e vm' h
  obtain herr | ⟨a, vm₁, -, herr⟩ := bind_eq_error.mp h
  · exact hm vm e vm' herr
  · exact hf a vm₁ e vm' herr

theorem silent_when {c : Prop} [Decidable c] {m : VMM Heap Unit} (h : Silent m) :
    Silent (when c m) := by
  unfold when
  split
  · exact h
  · exact silent_pure _

end

theorem silent_getCi : Silent (getCi : VMM Heap CallInfo) := by
  refine silent_get.bind fun vm => ?_
  cases vm.callstack with
  | nil => exact silent_undefined
  | cons ci callstack => exact silent_pure ci

theorem silent_resultSlot (callerbase : Nat) (target : Int) :
    Silent (resultSlot callerbase target : VMM Heap Nat) := by
  unfold resultSlot
  dsimp only
  split
  · exact silent_pure _
  · exact silent_undefined

theorem silent_killGenerator : Silent (killGenerator : VMM Heap Unit) := by
  refine silent_getCi.bind fun ci => ?_
  cases ci.generator with
  | none => exact silent_pure _
  | some p => exact silent_modify _

theorem silent_Return (arg0 arg1 : Nat) : Silent (Return arg0 arg1 : VMM Heap (Option Object)) := by
  refine silent_get.bind fun vm => silent_getCi.bind fun ci => ?_
  refine (silent_when ((silent_resultSlot _ _).bind fun slot => silent_modify _)).bind fun _ => ?_
  exact (silent_modify _).bind fun _ => silent_pure _

/-- The end of a frame raises nothing. -/
theorem silent_finish (i : Instruction) : Silent (finish i : VMM Heap Control) := by
  have hindex : Silent (index1 i : VMM Heap Nat) := by
    unfold index1
    split
    · exact silent_pure _
    · exact silent_undefined
  refine hindex.bind fun n => (silent_Return _ _).bind fun v => ?_
  cases v with
  | none => exact silent_pure _
  | some v => exact silent_pure _

/-- A generator may die before the check; nothing the check looks at changes. -/
theorem killGenerator_ok {vm vm' : VM Heap} (h : killGenerator vm = .ok () vm') :
    ∃ generators, vm' = { vm with generators := generators } := by
  obtain ⟨ci, vm₁, hci, hkill⟩ := bind_eq_ok.mp h
  obtain ⟨rfl, -⟩ := getCi_ok hci
  cases hgenerator : ci.generator with
  | none =>
    rw [hgenerator] at hkill
    cases hkill
    exact ⟨_, rfl⟩
  | some p =>
    rw [hgenerator] at hkill
    cases hkill
    exact ⟨_, rfl⟩

/-- A value of the declared type passes the check. -/
theorem checkReturnType_ne_raise {vm : VM Heap} {c : Closure} {i : Instruction} {t : Token}
    (hc : Runs vm c) (hrettype : c.function.rettype = some (Int64.ofInt t.code))
    (ht : t.isType = true) (hvalue : i.arg0 ≠ 0xFF) (hok : t.Accepts (returned vm i))
    (e : Object) (vm' : VM Heap) : checkReturnType i vm ≠ .error (.raise e) vm' := by
  intro h
  by_cases harg1 : 0 ≤ i.arg1.toInt
  · rw [returned_explicit hvalue] at hok
    rw [checkReturnType_apply hc hrettype ht hvalue harg1,
      if_pos ((rettypeOk_iff ht _).mpr hok)] at h
    cases h
  · unfold checkReturnType when at h
    rw [if_pos hvalue, bind_apply, hc.currentClosure] at h
    dsimp only at h
    rw [hrettype] at h
    dsimp only at h
    rw [if_pos (rettype_ne_zero ht), bind_apply, STK1_undefined harg1] at h
    cases h

/-- RETURN of a value of the declared type raises nothing. -/
theorem returnOp_ne_raise {vm : VM Heap} {c : Closure} {i : Instruction} {t : Token}
    (hc : Runs vm c) (hrettype : c.function.rettype = some (Int64.ofInt t.code))
    (ht : t.isType = true) (hvalue : i.arg0 ≠ 0xFF) (hok : t.Accepts (returned vm i))
    (e : Object) (vm' : VM Heap) : returnOp i vm ≠ .error (.raise e) vm' := by
  intro h
  obtain herr | ⟨_, vm₁, hkill, h₁⟩ := bind_eq_error.mp h
  · exact silent_killGenerator vm e vm' herr
  obtain ⟨generators, rfl⟩ := killGenerator_ok hkill
  have hc' : Runs { vm with generators := generators } c := hc
  obtain herr | ⟨_, vm₂, -, herr⟩ := bind_eq_error.mp h₁
  · exact checkReturnType_ne_raise hc' hrettype ht hvalue hok e vm' herr
  · exact silent_finish i _ _ _ herr

/-! ### Compiled functions -/

/-- A function that is compiled with the scalar return type `a` returns values of that
type as long as its frame is `Regular`, and a value of that type passes its check. -/
theorem returns_conform (rt : Runtime) (elements : Ref → List Object) {n : Nat}
    {call : Proc → CompilerM Unit} {name : Object} {boundtarget : Int} {lambda : Bool}
    {c c' : Compiler} {a : Annotation} {func : FunctionProto}
    (hcompile : Compiler.createFunction n call name boundtarget lambda c = .ok () c')
    (hdeclares : Compiler.Declares n call name c a)
    (hfunc : c'.fs.functions.back? = some func) (hscalar : a.isArray = false) :
    ReturnsConform rt elements a func (Regular a) ∧ ReturnsAccepted rt elements a func := by
  obtain ⟨ht, func', hback, hrettype⟩ := Compiler.createFunction_rettype hcompile hdeclares
  obtain rfl : func' = func := by simpa [hback] using hfunc
  have hconforms (o : Object) : a.Conforms elements o ↔ a.type.Accepts o := by
    unfold Annotation.Conforms
    rw [hscalar]
    rfl
  constructor
  · intro d vm₀ vm i vm₁ control vm₂ hentered hrun hguard hlen hf hexec hended
    obtain ⟨rest, rfl, hover₀⟩ := hentered.over hrettype
    obtain hover | hleft := over_run rt hover₀ hrun
    · have hover₁ := (over_fetch (stable_typed a.type)).ok hf hover
      obtain ⟨ci, hstack, htyped⟩ := hover₁.head ((fetch_length hf).trans hlen)
      have hop : i.op = .RETURN := by
        by_cases hreturn : i.op = .RETURN
        · exact hreturn
        by_cases hyield : i.op = .YIELD
        · rw [exec_yield rt hyield] at hexec
          exact absurd hexec (yieldOp_ne_ok rt hstack htyped.1)
        have hover₂ := over_exec (stable_typed a.type) rt hreturn hyield
          (fun htail p c hp _ _ _ hw => Typed.start hw
            ((hguard.2 hlen i vm₁ hf).imp_right fun hregular => hregular.2 htail p c hp) _)
          hover₁
        rw [leaves_ok hexec] at hover₂
        have hdepth := hover₂.length
        omega
      refine ⟨hop, (hconforms _).mpr ?_⟩
      rw [exec_return rt hop] at hexec
      refine returnOp_conforms ht hstack htyped (fun hbare => ?_) hexec
      exact (hguard.2 hlen i vm₁ hf).symm.imp_left fun hregular => hregular.1 hop hbare
    · omega
  · intro vm c i vm₁ hruns hc hf hop harg0 hconf e vm₂ hexec
    rw [exec_return rt hop] at hexec
    rw [← hc] at hrettype
    exact returnOp_ne_raise (hruns.fetch hf) hrettype ht harg0 ((hconforms _).mp hconf) e vm₂ hexec

theorem not_accepts_array {t : Token} (ht : t.isType = true) (hident : t ≠ .TK_IDENTIFIER)
    (p : Ref) : ¬ t.Accepts (.array p) := by
  cases t with
  | TK_INT | TK_FLOAT | TK_STRING | TK_BOOL | TK_VOID => simp [Token.Accepts]
  | TK_IDENTIFIER => exact absurd rfl hident
  | _ => cases ht

/-- **The check of `T[]` is that of `T`.** A function that is compiled with an array type raises at
every `RETURN` of an array of that type, and at no `RETURN` of a single `T`. -/
theorem array_returns (rt : Runtime) (elements : Ref → List Object) {n : Nat}
    {call : Proc → CompilerM Unit} {name : Object} {boundtarget : Int} {lambda : Bool}
    {c c' : Compiler} {a : Annotation} {func : FunctionProto}
    (hcompile : Compiler.createFunction n call name boundtarget lambda c = .ok () c')
    (hdeclares : Compiler.Declares n call name c a)
    (hfunc : c'.fs.functions.back? = some func) (harray : a.isArray = true)
    (hident : a.type ≠ .TK_IDENTIFIER) :
    (∀ (vm : VM rt.Heap) (closure : Closure) (i : Instruction) (ci : CallInfo)
        (callstack : List CallInfo), Runs vm closure → closure.function = func →
        vm.callstack = ci :: callstack → ci.generator = none → i.op = .RETURN → i.arg0 ≠ 0xFF →
        0 ≤ i.arg1.toInt → a.Conforms elements (returned vm i) →
        exec rt i vm = .error (.raise (.string (sc (rettypeError a.type.code)))) vm) ∧
      ∀ (vm : VM rt.Heap) (closure : Closure) (i : Instruction), Runs vm closure →
        closure.function = func → i.op = .RETURN → i.arg0 ≠ 0xFF →
        a.type.Accepts (returned vm i) → ∀ e vm', exec rt i vm ≠ .error (.raise e) vm' := by
  obtain ⟨ht, func', hback, hrettype⟩ := Compiler.createFunction_rettype hcompile hdeclares
  obtain rfl : func' = func := by simpa [hback] using hfunc
  constructor
  · intro vm closure i ci callstack hruns hclosure hstack hgenerator hop hvalue harg1 hconf
    rw [← hclosure] at hrettype
    have hbad : ¬ a.type.Accepts (returned vm i) := by
      unfold Annotation.Conforms at hconf
      rw [if_pos harray] at hconf
      obtain ⟨p, hp, -⟩ := hconf
      rw [hp]
      exact not_accepts_array ht hident p
    rw [exec_return rt hop]
    unfold returnOp
    rw [bind_apply, killGenerator_apply hstack hgenerator]
    dsimp only
    rw [bind_apply, checkReturnType_apply hruns hrettype ht hvalue harg1,
      ← returned_explicit hvalue, if_neg fun hok => hbad ((rettypeOk_iff ht _).mp hok)]
  · intro vm closure i hruns hclosure hop hvalue hok e vm' hexec
    rw [← hclosure] at hrettype
    rw [exec_return rt hop] at hexec
    exact returnOp_ne_raise hruns hrettype ht hvalue hok e vm' hexec

/-! ### Two functions -/

/-- The compiler at the parameters of a function that is written with `lexemes`. -/
def atParameters (lexemes : List Lexeme) : Compiler :=
  { Compiler.start .null false [] (lexemes.map .ok) with token := .chr '(' }

def intType : Annotation := { type := .TK_INT, isArray := false }

/-- `() -> int { }`. -/
def bareInt : Compiler :=
  atParameters [{ token := .chr ')' }, { token := .TK_ARROW }, { token := .TK_INT },
    { token := .chr '{' }, { token := .chr '}' }, { token := .eob }]

/-- `() -> int { return 1 }`. -/
def returnsOne : Compiler :=
  atParameters [{ token := .chr ')' }, { token := .TK_ARROW }, { token := .TK_INT },
    { token := .chr '{' }, { token := .TK_RETURN }, { token := .TK_INTEGER, nvalue := 1 },
    { token := .chr '}' }, { token := .eob }]

theorem declares_of_result {n : Nat} {c : Compiler} {a : Annotation}
    (h : result (do
      let _ ← Compiler.functionParameters n (Compiler.run n) .null
      Compiler.annotation) c = some (some a)) :
    Compiler.Declares n (Compiler.run n) .null c a := by
  obtain ⟨c₂, hc⟩ := result_eq_some.mp h
  obtain ⟨p, c₁, hp, hann⟩ := bind_eq_ok.mp hc
  exact ⟨p, c₁, c₂, hp, hann⟩

/-- What is read of the function that is compiled. -/
theorem compiles_of_result {α : Type} (read : FunctionProto → α) (n : Nat) (c : Compiler) {a : α}
    (h : result (do
      Compiler.createFunction n (Compiler.run n) .null 0xFF false
      return (← Compiler.getFs).functions.back?.map read) c = some (some a)) :
    ∃ c' func, Compiler.createFunction n (Compiler.run n) .null 0xFF false c = .ok () c' ∧
      c'.fs.functions.back? = some func ∧ read func = a := by
  obtain ⟨c₂, hc⟩ := result_eq_some.mp h
  obtain ⟨_, c', hcreate, hfs⟩ := bind_eq_ok.mp hc
  have hlast : c'.fs.functions.back?.map read = some a := (EStateM.Result.ok.inj hfs).1
  obtain ⟨func, hback, hfunc⟩ := Option.map_eq_some_iff.mp hlast
  exact ⟨c', func, hcreate, hback, hfunc⟩

/-- A runtime that answers nothing. -/
def emptyRuntime : Runtime where
  Heap := Unit
  fl := FloatOps.unused
  strcmp _ _ := 0
  serve _ _ _ generators _ := { result := .ok (.values []), heap := (), generators := generators }

/-- The first call on an empty stack. -/
def calling (func : FunctionProto) : VM emptyRuntime.Heap where
  stack _ := .null
  stacksize := 64
  stackbase := 0
  top := 1
  callstack := [{ closure := some 0, prevstkbase := 0, prevtop := 0, root := true }]
  etraps := []
  traps := 0
  openouters := []
  outers := []
  closures := [{ function := func, outervalues := [], defaultparams := [], env := none }]
  generators := []
  nmetamethodscall := 0
  heap := ()

/-- `() -> int { return 1 }` is such a function. -/
theorem returns_conform_returnsOne :
    ∃ c' func, Compiler.createFunction 30 (Compiler.run 30) .null 0xFF false
      returnsOne = .ok () c' ∧
      c'.fs.functions.back? = some func ∧
      ReturnsConform emptyRuntime (fun _ => []) intType func (Regular intType) ∧
      ReturnsAccepted emptyRuntime (fun _ => []) intType func := by
  obtain ⟨c', func, hcreate, hback, -⟩ := compiles_of_result (fun f => f.instructions[0]?) 30
    returnsOne (a := some { op := .LOADINT, arg0 := 1, arg1 := 1 }) (by decide +kernel)
  exact ⟨c', func, hcreate, hback, returns_conform emptyRuntime _ hcreate
    (declares_of_result (by decide +kernel)) hback rfl⟩

/-- `() -> int[] { }`. -/
def bareInts : Compiler :=
  atParameters [{ token := .chr ')' }, { token := .TK_ARROW }, { token := .TK_INT },
    { token := .chr '[' }, { token := .chr ']' }, { token := .chr '{' }, { token := .chr '}' },
    { token := .eob }]

theorem array_returns_ints :
    ∃ c' func, Compiler.createFunction 30 (Compiler.run 30) .null 0xFF false
      bareInts = .ok () c' ∧
      c'.fs.functions.back? = some func ∧
      (∀ (vm : VM emptyRuntime.Heap) (closure : Closure) (i : Instruction) (ci : CallInfo)
          (callstack : List CallInfo), Runs vm closure → closure.function = func →
          vm.callstack = ci :: callstack → ci.generator = none → i.op = .RETURN →
          i.arg0 ≠ 0xFF → 0 ≤ i.arg1.toInt →
          { intType with isArray := true }.Conforms (fun _ => []) (returned vm i) →
          exec emptyRuntime i vm =
            .error (.raise (.string (sc (rettypeError intType.type.code)))) vm) ∧
        ∀ (vm : VM emptyRuntime.Heap) (closure : Closure) (i : Instruction), Runs vm closure →
          closure.function = func → i.op = .RETURN → i.arg0 ≠ 0xFF →
          intType.type.Accepts (returned vm i) →
          ∀ e vm', exec emptyRuntime i vm ≠ .error (.raise e) vm' := by
  obtain ⟨c', func, hcreate, hback, -⟩ := compiles_of_result (fun f => f.bgenerator) 30
    bareInts (a := false) (by decide +kernel)
  have hdeclares : Compiler.Declares 30 (Compiler.run 30) .null bareInts
      { intType with isArray := true } := declares_of_result (by decide +kernel)
  exact ⟨c', func, hcreate, hback, array_returns emptyRuntime _ hcreate hdeclares hback rfl
    (by decide)⟩

/-- A function that starts with a bare return, and has another type than `void`, returns
null all the same. -/
theorem not_conform_of_bare {func : FunctionProto} {a : Annotation}
    (elements : Ref → List Object) {i : Instruction} (hi : func.instructions[0]? = some i)
    (hop : i.op = .RETURN) (hbare : i.arg0 = 0xFF) (harg1 : i.arg1 = 0)
    (hgen : func.bgenerator = false) (hnull : ¬ a.Conforms elements .null) :
    ¬ ReturnsConform emptyRuntime elements a func fun _ _ => True := by
  intro h
  have hentered : Entered func 1 (calling func) :=
    ⟨hgen, _, [], 0, _, rfl, rfl, rfl, rfl, rfl, rfl, rfl⟩
  have hguard : InCall (fun _ _ => True) 1 (calling func) := ⟨Nat.le_refl 1, fun _ _ _ _ => trivial⟩
  have hf : fetch (calling func) = .ok i _ := fetch_apply rfl rfl rfl hi
  have hexec : ∃ v vm₂, returnOp i { calling func with
      callstack := [{ ip := 1, closure := some 0, prevstkbase := 0, prevtop := 0, root := true }] }
        = .ok (.returned v) vm₂ ∧ vm₂.callstack.length < 1 := by
    unfold returnOp checkReturnType finish index1 when
    rw [hbare, harg1]
    exact ⟨_, _, rfl, Nat.one_pos⟩
  obtain ⟨v, vm₂, hreturn, hended⟩ := hexec
  have hconf := (h 1 _ _ i _ (.returned v) vm₂ hentered (.refl _) hguard rfl hf ?_ hended).2
  · rw [returned_bare hbare] at hconf
    exact hnull hconf
  · rw [exec_return _ hop]
    exact hreturn

/-- `func f() -> int { }` yields null. -/
theorem not_returns_conform :
    ∃ c' func, Compiler.createFunction 9 (Compiler.run 9) .null 0xFF false bareInt = .ok () c' ∧
      Compiler.Declares 9 (Compiler.run 9) .null bareInt intType ∧
      c'.fs.functions.back? = some func ∧
      ¬ ReturnsConform emptyRuntime (fun _ => []) intType func fun _ _ => True := by
  obtain ⟨c', func, hcreate, hback, hread⟩ :=
    compiles_of_result (fun f => (f.bgenerator, f.instructions[0]?)) 9 bareInt
      (a := (false, some { op := .RETURN, arg0 := 0xFF })) (by decide +kernel)
  have hgen : func.bgenerator = false := congrArg Prod.fst hread
  have hcode : func.instructions[0]? = some { op := .RETURN, arg0 := 0xFF } :=
    congrArg Prod.snd hread
  refine ⟨c', func, hcreate, declares_of_result (by decide +kernel), hback, ?_⟩
  refine not_conform_of_bare _ hcode rfl rfl rfl hgen ?_
  rintro ⟨n, h⟩
  cases h

end VM

end GameScript
