import SealedScript.Proofs.Executable.Origin

/-!
Stored executables in use.

An executable is used by calling it and by binding it anew, in any order and any number of times. Beside every
compiled executable stands its twin: the executable itself once its program is loaded, and before that the
same executable with the image in the program's place. One use takes a twin to a twin and shows the same
(`use_twin`), so a whole history does (`useAll_twin`), and nothing but `hasProgram` tells the two apart
(`use_stored`).
-/

namespace SealedScript
set_option autoImplicit false

namespace Executable

/-! ## Histories -/

inductive Use
  | call (scope : Scope) (args : List Value)
  | rebind (scope : Scope)

/-- What a use shows: what a call answers with the scope it leaves, and the record of what is bound anew. -/
inductive Sight
  | answer (result : Outcome Value) (scope : Scope)
  | bound (record : Outcome Record)
  | refused (error : Failure)

def Use.isCall : Use → Bool
  | .call _ _ => true
  | .rebind _ => false

/-- Is it a call that gets past the check of its arguments? -/
def Use.admittedBy (s : Shape) : Use → Bool
  | .call _ args => (s.admitArgs args).isOk
  | .rebind _ => false

/-- What a use shows and the executable that the next one finds. A call without a scope is one in the empty
scope, and a binding that is refused leaves the executable as it was. -/
def use (e : Executable) : Use → Sight × Executable
  | .call scope args =>
    let call := e.callIn scope args
    (.answer call.result call.scope, call.executable)
  | .rebind scope =>
    match e.rebind scope with
    | .ok e' => (.bound e'.toRecord, e')
    | .error err => (.refused err, e)

def useAll (e : Executable) : List Use → List Sight × Executable
  | [] => ([], e)
  | u :: rest =>
    let (sight, next) := e.use u
    let (sights, last) := next.useAll rest
    (sight :: sights, last)

/-! ## Twins -/

/-- The executable with its program loaded or not. -/
def twin (e : Executable) : Bool → Executable
  | true => e
  | false => e.stored e.engine

theorem hasProgram_twin {e : Executable} {program : Program} (h : e.Compiled program) (loaded : Bool) :
    (e.twin loaded).hasProgram = loaded := by
  cases loaded with
  | true =>
    show e.hasProgram = true
    rw [hasProgram, h.attached]
  | false => rfl

theorem toRecord_twin {e : Executable} (h : e.engine.isSerializable = true) (loaded : Bool) :
    (e.twin loaded).toRecord = .ok e.form := by
  cases loaded with
  | true => exact toRecord_eq h
  | false =>
    have hstored : (e.stored e.engine).engine.isSerializable = true := h
    exact toRecord_eq hstored

/-! ## One use -/

section Use
variable {e : Executable} {program : Program}

/-- A program that is attached stays attached, so a call leaves the executable as it was. -/
theorem callIn_compiled (h : e.Compiled program) (scope : Scope) (args : List Value) :
    (e.callIn scope args).executable = e := by
  have hprogram : e.program = .ok program := by rw [Executable.program, h.attached]
  have hsame : { e with body := .attached program } = e := by rw [← h.attached]
  rw [callIn, hprogram]
  cases e.shape.admitArgs args with
  | error err => rfl
  | ok adjusted => exact hsame

/-- A stored executable has its program from the first call on that gets past the check of its arguments. -/
theorem callIn_stored_executable (h : e.Compiled program) (hengine : e.engine = .compiling)
    (hsize : e.image.length < Nat.pow 2 64) (scope : Scope) (args : List Value) :
    ((e.stored .compiling).callIn scope args).executable = e.twin (e.shape.admitArgs args).isOk := by
  have hprogram : (e.stored .compiling).program = .ok program := by
    rw [program_stored h hsize, Executable.program, h.attached]
  have hshape : (e.stored .compiling).shape = e.shape := rfl
  have hloaded : { e.stored .compiling with body := .attached program } = e := by
    rw [← h.attached, ← hengine]
    rfl
  rw [callIn, hshape, hprogram]
  cases e.shape.admitArgs args with
  | error err =>
    show e.stored .compiling = e.stored e.engine
    rw [hengine]
  | ok adjusted => exact hloaded

theorem rebind_stored (e : Executable) (g : Engine) (scope : Scope) :
    (e.stored g).rebind scope = (e.rebind scope).map fun e' => e'.stored g := by
  have hfrozen : (e.stored g).frozen = e.frozen := rfl
  rw [rebind, rebind, hfrozen]
  cases e.frozen.checkRebind scope with
  | error err => rfl
  | ok _ => rfl

/-- What the uses of a compiled executable keep. -/
theorem use_compiled (h : e.Compiled program) (u : Use) :
    (e.use u).2.Compiled program ∧ (e.use u).2.engine = e.engine ∧ (e.use u).2.shape = e.shape ∧
      (e.use u).2.image = e.image ∧ (u.isCall = true → (e.use u).2 = e) := by
  cases u with
  | call scope args =>
    have hsame : (e.use (.call scope args)).2 = e := callIn_compiled h scope args
    rw [hsame]
    exact ⟨h, rfl, rfl, rfl, fun _ => rfl⟩
  | rebind scope =>
    rw [use]
    cases hrebind : e.rebind scope with
    | error err => exact ⟨h, rfl, rfl, rfl, nofun⟩
    | ok e' =>
      obtain ⟨-, rfl⟩ := rebind_eq_ok.mp hrebind
      exact ⟨⟨h.attached, h.sound⟩, rfl, rfl, rfl, nofun⟩

/-- **One use of a twin** shows what the executable shows and leaves a twin. -/
theorem use_twin (h : e.Compiled program) (hengine : e.engine = .compiling)
    (hsize : e.image.length < Nat.pow 2 64) (loaded : Bool) (u : Use) :
    (e.twin loaded).use u = ((e.use u).1, (e.use u).2.twin (loaded || u.admittedBy e.shape)) := by
  have htwin : ∀ e' : Executable, e'.engine = .compiling → e'.twin false = e'.stored .compiling := by
    intro e' hengine'
    rw [twin, hengine']
  cases loaded with
  | true => rfl
  | false =>
    rw [htwin e hengine, Bool.false_or]
    cases u with
    | call scope args =>
      obtain ⟨hresult, hscope⟩ := callIn_stored h hengine hsize scope args
      have hexecutable := callIn_stored_executable h hengine hsize scope args
      simp only [use, hresult, hscope, hexecutable, callIn_compiled h, Use.admittedBy]
    | rebind scope =>
      rw [use, use, rebind_stored]
      cases hrebind : e.rebind scope with
      | error err =>
        show (Sight.refused err, e.stored .compiling) = (Sight.refused err, e.twin false)
        rw [htwin e hengine]
      | ok e' =>
        have hengine' : e'.engine = .compiling := by
          obtain ⟨-, rfl⟩ := rebind_eq_ok.mp hrebind
          exact hengine
        have hserializable : e'.engine.isSerializable = true := by rw [hengine']; rfl
        show (Sight.bound (e'.stored .compiling).toRecord, e'.stored .compiling) =
          (Sight.bound e'.toRecord, e'.twin false)
        rw [← htwin e' hengine', toRecord_twin hserializable, toRecord_eq hserializable]

/-! ## Any number of uses -/

/-- **A history of a twin** shows what the same history of the executable shows, and its program is loaded from
the first call on that gets past the check of its arguments. -/
theorem useAll_twin (h : e.Compiled program) (hengine : e.engine = .compiling)
    (hsize : e.image.length < Nat.pow 2 64) (loaded : Bool) (uses : List Use) :
    (e.twin loaded).useAll uses =
      ((e.useAll uses).1, (e.useAll uses).2.twin (loaded || uses.any (Use.admittedBy e.shape))) := by
  induction uses generalizing e loaded with
  | nil => rw [List.any_nil, Bool.or_false, useAll, useAll]
  | cons u rest ih =>
    obtain ⟨hcompiled, hengine', hshape, himage, -⟩ := use_compiled h u
    have hrest := ih hcompiled (hengine'.trans hengine) (himage ▸ hsize) (loaded || u.admittedBy e.shape)
    rw [hshape] at hrest
    rw [useAll, use_twin h hengine hsize, useAll, List.any_cons, ← Bool.or_assoc]
    simp only [hrest]

/-- What the histories of a compiled executable keep. -/
theorem useAll_compiled (h : e.Compiled program) (uses : List Use) :
    (e.useAll uses).2.Compiled program ∧ (e.useAll uses).2.engine = e.engine ∧
      ((∀ u ∈ uses, u.isCall = true) → (e.useAll uses).2 = e) := by
  induction uses generalizing e with
  | nil => exact ⟨h, rfl, fun _ => rfl⟩
  | cons u rest ih =>
    obtain ⟨hcompiled, hengine, -, -, hsame⟩ := use_compiled h u
    obtain ⟨hlast, hlastEngine, hlastSame⟩ := ih hcompiled
    refine ⟨hlast, hlastEngine.trans hengine, fun hcalls => ?_⟩
    have hrest := hlastSame fun v hv => hcalls v (List.mem_cons_of_mem u hv)
    exact hrest.trans (hsame (hcalls u (List.mem_cons_self ..)))

end Use

/-- **Stored executables cannot be told from compiled ones.** Whatever is done with both, calls and bindings show
the same, with the same scopes, errors and records, and as long as there are only calls the record stays as it
was. Only the program of the stored one is not there until a call gets past the check of its arguments. An image
has no more bytes than its own length fields can count. -/
theorem use_stored {e : Executable} (h : e.FromSource) (hsize : e.image.length < Nat.pow 2 64) :
    ∃ record b, e.toRecord = .ok record ∧ ofRecord record e.engine = .ok b ∧ ∀ uses : List Use,
      (b.useAll uses).1 = (e.useAll uses).1 ∧
      (b.useAll uses).2.toRecord = (e.useAll uses).2.toRecord ∧
      ((∀ u ∈ uses, u.isCall = true) → (b.useAll uses).2.toRecord = .ok record) ∧
      (b.useAll uses).2.hasProgram = uses.any (Use.admittedBy e.shape) := by
  obtain ⟨hengine, program, hcompiled⟩ := h.compiled_program
  have hserializable : e.engine.isSerializable = true := by rw [hengine]; rfl
  refine ⟨e.form, e.twin false, toRecord_eq hserializable, ofRecord_form hcompiled.sound e.engine, fun uses => ?_⟩
  obtain ⟨hlast, hlastEngine, hsame⟩ := useAll_compiled hcompiled uses
  have hlastSerializable : (e.useAll uses).2.engine.isSerializable = true := by rw [hlastEngine, hserializable]
  rw [useAll_twin hcompiled hengine hsize, Bool.false_or]
  refine ⟨rfl, ?_, fun hcalls => ?_, hasProgram_twin hlast _⟩
  · rw [toRecord_twin hlastSerializable, toRecord_eq hlastSerializable]
  · rw [toRecord_twin hlastSerializable, hsame hcalls]

/-- A script that keeps what it captured in a variable and then fails. -/
def keeping (x : Int32) : Executable where
  engine := .compiling
  code := "// \x7b script \x7d\nx =y\nx 0 /\n"
  frozen := ⟨[("x", .integer)]⟩
  captured := [("x", .int x)]
  shape := .script
  body := .attached ⟨[.load "x", .store "y", .load "x", .push (.int 0), .arith .div], false⟩

theorem use_stored_keeping :
    ∃ record b, (keeping 7).toRecord = .ok record ∧ ofRecord record (keeping 7).engine = .ok b ∧
      ∀ uses : List Use,
        (b.useAll uses).1 = ((keeping 7).useAll uses).1 ∧
        (b.useAll uses).2.toRecord = ((keeping 7).useAll uses).2.toRecord ∧
        ((∀ u ∈ uses, u.isCall = true) → (b.useAll uses).2.toRecord = .ok record) ∧
        (b.useAll uses).2.hasProgram = uses.any (Use.admittedBy (keeping 7).shape) := by
  have hcompile : Engine.compiling.compile none (keeping 5).code (some ⟨[⟨"x", .integer, .int 5, false⟩]⟩) =
      .ok (keeping 5) := rfl
  have hrebind : (keeping 5).rebind ⟨[⟨"x", .integer, .int 7, true⟩]⟩ = .ok (keeping 7) := rfl
  exact use_stored (.rebound (.compiled hcompile) hrebind) (by decide +kernel)

end Executable
end SealedScript
