import GameScript.Scope.ImportOnce

/-!
When an import loads its module or raises. The instruction takes a path for loaded that
`Get` finds in the table of the modules, also where it finds the native function of a table
method; and it goes on after a call whose result it does not look at.
-/

namespace GameScript.Scope

variable {ρ S : Type} (host : Host ρ) (code : Code ρ S)

/-- `c` comes to `c'` without going back to the script that waits in front of `waiting`. -/
def Config.Within (waiting : List S) : Config ρ S → Config ρ S → Prop :=
  Relation.ReflTransGen fun c c' =>
    c.step host code = some c' ∧ ∃ inner, c'.waiting = inner ++ waiting

/-- A body that runs on top of `waiting` does not end in an uncaught error. -/
def Config.Completes (waiting : List S) (c : Config ρ S) : Prop :=
  ∀ c', c.Within host code waiting c' → c'.waiting = waiting →
    code.step c'.active c'.world ≠ .fail

/-- The import of `path` from `c`, with `k` what comes after it, raises; or it starts the body
of the module, which is completed before the next statement. -/
inductive LoadsOrRaises (c : Config ρ S) (site : CallSite) (path : List UInt8)
    (k : Except (List UInt8) Unit → S) : Prop where
  | raises {err : List UInt8} {w : World ρ}
      (himport : opImport host code c.world site path = .raised err w) :
      LoadsOrRaises c site path k
  | loads {body : S} {w : World ρ}
      (himport : opImport host code c.world site path = .started body w)
      (hbody : Config.Completes host code (k (.ok ()) :: c.waiting)
        { active := body, waiting := k (.ok ()) :: c.waiting, world := w,
          started := path :: c.started }) :
      LoadsOrRaises c site path k

/-- A module is there to be called: `Execute` does not refuse it, its function is not a
generator, and its body, run from the world the import has made, completes. -/
structure Callable (c : Config ρ S) (site : CallSite) (path : List UInt8)
    (k : Except (List UInt8) Unit → S) (bgenerator : Bool) (stacksize : Nat)
    (start : Ref → S) : Prop where
  shallow : ¬ site.tooDeep
  room : ¬ site.noRoom stacksize
  function : bgenerator = false
  completes : ∀ w, (Get host (modulesTable host c.world).2 (modulesTable host c.world).1
      (.string path)).2 = w →
    Config.Completes host code (k (.ok ()) :: c.waiting)
      { active := start w.heap.size, waiting := k (.ok ()) :: c.waiting,
        world := enterModule host code w (modulesTable host c.world).1 path,
        started := path :: c.started }

/-- The cases of an import, by what the cache and the source hold. -/
theorem opImport_eq (w : World ρ) (site : CallSite) (path : List UInt8) :
    opImport host code w site path =
      match cachedModule host w path with
      | (some _, w) => .next w
      | (none, w') =>
          match code.source (filepath path) with
          | .missing => .raised (loadError path) w'
          | .broken => .raised (compileError path) w'
          | .compiled bgenerator stacksize start =>
              if site.tooDeep then
                .next (enterModule host code w' (modulesTable host w).1 path)
              else if site.noRoom stacksize then .stray
              else if bgenerator then
                .next (enterModule host code w' (modulesTable host w).1 path)
              else
                .started (start w'.heap.size)
                  (enterModule host code w' (modulesTable host w).1 path) := rfl

/-- An import loads its module or raises exactly when the path is not found in the table of the
modules and what is found under its file name, if it compiles, can be called. -/
theorem import_loads_or_raises_iff (c : Config ρ S) (site : CallSite) (path : List UInt8)
    (k : Except (List UInt8) Unit → S) :
    LoadsOrRaises host code c site path k ↔
      (cachedModule host c.world path).1 = none ∧
        ∀ bgenerator stacksize start,
          code.source (filepath path) = .compiled bgenerator stacksize start →
            Callable host code c site path k bgenerator stacksize start := by
  have hop := opImport_eq host code c.world site path
  have hget : Get host (modulesTable host c.world).2 (modulesTable host c.world).1
      (.string path) = cachedModule host c.world path := rfl
  constructor
  · intro h
    rcases hcached : cachedModule host c.world path with ⟨_ | v, w⟩
    · refine ⟨rfl, fun bgenerator stacksize start hsource => ?_⟩
      rw [hcached] at hop
      simp only [hsource] at hop
      cases h with
      | raises himport =>
          rw [himport] at hop
          split at hop
          · cases hop
          · split at hop
            · cases hop
            · split at hop <;> cases hop
      | loads himport hbody =>
          rw [himport] at hop
          split at hop
          · cases hop
          · next hdeep =>
              split at hop
              · cases hop
              · next hroom =>
                  split at hop
                  · cases hop
                  · next hgen =>
                      obtain ⟨rfl, rfl⟩ := Imported.started.inj hop
                      refine ⟨hdeep, hroom, by simpa using hgen, ?_⟩
                      intro w' hw'
                      rw [hget, hcached] at hw'
                      subst hw'
                      exact hbody
    · rw [hcached] at hop
      cases h with
      | raises himport =>
          rw [himport] at hop
          cases hop
      | loads himport _ =>
          rw [himport] at hop
          cases hop
  · rintro ⟨hnone, hcallable⟩
    rcases hcached : cachedModule host c.world path with ⟨_ | v, w⟩
    · rw [hcached] at hop
      cases hsource : code.source (filepath path) with
      | missing =>
          simp only [hsource] at hop
          exact .raises hop
      | broken =>
          simp only [hsource] at hop
          exact .raises hop
      | compiled bgenerator stacksize start =>
          have h := hcallable bgenerator stacksize start hsource
          simp only [hsource, if_neg h.shallow, if_neg h.room, h.function, Bool.false_eq_true,
            if_false] at hop
          exact .loads hop (h.completes w (by rw [hget, hcached]))
    · rw [hcached] at hnone
      cases hnone

/-- A main script that imports `len`, for which there is a file. -/
def importLen : Code Unit Nat where
  step s _ := if s = 0 then .import ⟨1, 0, 0, 1024⟩ (sc "len") fun _ => 1 else .done
  source file := if file = sc "len.gs" then .compiled false 4 fun _ => 1 else .missing
  newClosure _ := (0, ())

theorem not_loadsOrRaises_len :
    (Config.main 0 (World.initial ())).started = [] ∧
    ¬ LoadsOrRaises (Host.inert Unit) importLen (Config.main 0 (World.initial ()))
      ⟨1, 0, 0, 1024⟩ (sc "len") fun _ => 1 := by
  refine ⟨rfl, fun h => ?_⟩
  have hnext : ∃ w, opImport (Host.inert Unit) importLen (World.initial ()) ⟨1, 0, 0, 1024⟩
      (sc "len") = .next w := ⟨_, rfl⟩
  obtain ⟨w, hw⟩ := hnext
  cases h with
  | raises himport =>
      have hboth := hw.symm.trans himport
      cases hboth
  | loads himport _ =>
      have hboth := hw.symm.trans himport
      cases hboth

end GameScript.Scope
