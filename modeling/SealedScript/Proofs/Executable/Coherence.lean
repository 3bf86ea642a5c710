import SealedScript.Proofs.Artifact.Recompile
import SealedScript.Proofs.Executable.Compile
import SealedScript.Proofs.Executable.Origin
import SealedScript.Proofs.Header.Signature

/-!
What every executable keeps.

An executable is compiled, and then bound anew, called, stored as a record and sealed in an artifact, in any order and
number. Its names and types fit together from the start (`Coherent.compiled`), and each of these steps keeps that, so
they do in every executable that can be reached (`Reachable.coherent`). Types are where the history matters: every
scope it is bound to may declare narrower types than the last, and still the values are of the types frozen first.
-/

namespace SealedScript
set_option autoImplicit false

namespace Executable

/-! ## The program of an executable -/

/-- The program, whether it is attached or only its image is there. -/
def Holds (e : Executable) (program : Program) : Prop :=
  e.body = .attached program ∨ e.body = .stored program.image

section Holds
variable {e : Executable} {program loaded : Program}

theorem image_of_holds (h : e.Holds program) : e.image = program.image := by
  rcases h with h | h <;> rw [image, h]

/-- What is loaded is what was compiled. -/
theorem program_of_holds (h : e.Holds program) (hsize : e.image.length < Nat.pow 2 64)
    (hloaded : e.program = .ok loaded) : loaded = program := by
  rw [image_of_holds h] at hsize
  rcases h with h | h
  · rw [Executable.program, h] at hloaded
    exact (Except.ok.inj hloaded).symm
  · rw [Executable.program, h] at hloaded
    cases hengine : e.engine with
    | interpreting =>
      rw [hengine] at hloaded
      cases hloaded
    | compiling =>
      rw [hengine] at hloaded
      have hread := mapError_eq_ok.mp hloaded
      rw [Program.ofImage_image program hsize] at hread
      exact (Except.ok.inj hread).symm

theorem holds_stored (h : e.Holds program) (g : Engine) : (e.stored g).Holds program :=
  Or.inr (congrArg Body.stored (image_of_holds h))

/-- A call leaves the executable as it is, or attaches its program. -/
theorem callIn_executable (e : Executable) (scope : Scope) (args : List Value) :
    (e.callIn scope args).executable = e ∨
      ∃ program, e.program = .ok program ∧
        (e.callIn scope args).executable = { e with body := .attached program } := by
  rw [callIn]
  cases e.shape.admitArgs args with
  | error err => exact Or.inl rfl
  | ok adjusted =>
    cases hprogram : e.program with
    | error err => exact Or.inl rfl
    | ok program => exact Or.inr ⟨program, rfl, rfl⟩

end Holds

/-! ## Captured names -/

/-- What is captured has the names that are frozen, and the program stores none of them. -/
structure Apart (e : Executable) : Prop where
  sound : e.shape.Sound
  names : e.captured.map Prod.fst = e.frozen.names
  unstored : ∃ program, e.Holds program ∧ ∀ n ∈ e.frozen.names, Op.store n ∉ program.ops

section Apart
variable {g : Engine} {fileName : Option Text} {code : Text} {scope : Option Scope} {e e' : Executable}
  {s : Scope} {program : Program}

theorem Apart.compiled (h : g.compile fileName code scope = .ok e) : e.Apart := by
  obtain ⟨info, program, shape, hreads, rfl⟩ := Engine.compile_eq_ok.mp h
  refine ⟨Engine.shapeOf_sound hreads.shaped, ?_, program, Or.inl rfl, fun n hn => ?_⟩
  · cases scope with
    | none => rfl
    | some s => exact Frozen.names_valuesIn _ s
  · exact (Engine.mem_freeNames.mp (Engine.mem_frozen_names hn).1).2.2

theorem Apart.rebound (h : e.Apart) (hrebind : e.rebind s = .ok e') : e'.Apart := by
  obtain ⟨-, rfl⟩ := rebind_eq_ok.mp hrebind
  exact { h with names := Frozen.names_valuesIn e.frozen s }

theorem Apart.called (h : e.Apart) (hsize : e.image.length < Nat.pow 2 64) (scope : Scope) (args : List Value) :
    (e.callIn scope args).executable.Apart := by
  obtain ⟨program, hholds, hunstored⟩ := h.unstored
  rcases callIn_executable e scope args with hsame | ⟨loaded, hloaded, hattached⟩
  · rw [hsame]
    exact h
  · rw [hattached, program_of_holds hholds hsize hloaded]
    exact { h with unstored := ⟨program, Or.inl rfl, hunstored⟩ }

theorem Apart.stored (h : e.Apart) (g : Engine) : (e.stored g).Apart := by
  obtain ⟨program, hholds, hunstored⟩ := h.unstored
  exact { h with unstored := ⟨program, holds_stored hholds g, hunstored⟩ }

theorem Apart.not_stored (h : e.Apart) (hsize : e.image.length < Nat.pow 2 64) (hprogram : e.program = .ok program) :
    ∀ n ∈ e.frozen.names, Op.store n ∉ program.ops := by
  obtain ⟨compiled, hholds, hunstored⟩ := h.unstored
  rw [program_of_holds hholds hsize hprogram]
  exact hunstored

end Apart

/-! ## Coherence -/

/-- Names, types and values that fit together. -/
structure Coherent (e : Executable) : Prop where
  sound : e.shape.Sound
  names : e.captured.map Prod.fst = e.frozen.names
  distinct : e.frozen.names.Nodup
  unbound : ∀ n ∈ e.frozen.names, n ∉ e.paramNames
  unstored : ∃ program, e.Holds program ∧ ∀ n ∈ e.frozen.names, Op.store n ∉ program.ops
  typed : ∀ n v, (n, v) ∈ e.captured → ∃ ty, e.frozen.ty? n = some ty ∧ ty.accepts v = true

/-- The executables that can be reached, with scopes that are built by their own operations. -/
inductive Reachable : Executable → Prop
  | compiled {g : Engine} {fileName : Option Text} {code : Text} {scope : Option Scope} {e : Executable} :
      (∀ s, scope = some s → s.Built) → g.compile fileName code scope = .ok e → Reachable e
  | rebound {e e' : Executable} {s : Scope} : Reachable e → s.Built → e.rebind s = .ok e' → Reachable e'
  | called {e : Executable} (scope : Scope) (args : List Value) :
      Reachable e → e.image.length < Nat.pow 2 64 → Reachable (e.callIn scope args).executable
  | read {e e' : Executable} {record : Record} {g : Engine} :
      Reachable e → e.toRecord = .ok record → ofRecord record g = .ok e' → Reachable e'
  | extracted {e e' : Executable} {code artifact : Text} :
      Reachable e → Artifact.merge code e = .ok artifact →
      Text.unitLength (Artifact.pad code) < Nat.pow 2 32 - 1 →
      (∀ block, Artifact.blockOf e (Artifact.pad code) = .ok block → Text.unitLength block < Nat.pow 2 32 - 1) →
      (Artifact.extract .builtins artifact).executable = some e' → Reachable e'

/-! ## Single steps -/

section Steps
variable {g : Engine} {fileName : Option Text} {code artifact : Text} {scope : Option Scope} {e e' : Executable}
  {s : Scope} {record : Record}

theorem Coherent.apart (h : e.Coherent) : e.Apart := { h with }

theorem Coherent.compiled (hscope : ∀ s, scope = some s → s.Built) (h : g.compile fileName code scope = .ok e) :
    e.Coherent := by
  refine { Apart.compiled h with distinct := ?_, unbound := ?_, typed := ?_ }
  all_goals obtain ⟨info, program, shape, hreads, rfl⟩ := Engine.compile_eq_ok.mp h
  · exact Frozen.nodup_names_capture _ scope
  · intro n hn
    rw [show (g.executableOf info code program shape scope).paramNames = shape.paramNames from rfl,
      Engine.paramNames_of_shapeOf hreads.shaped]
    exact (Engine.mem_freeNames.mp (Engine.mem_frozen_names hn).1).2.1
  · intro n v hcaptured
    cases scope with
    | none => cases hcaptured
    | some s => exact Frozen.accepts_valuesIn (hscope s rfl) (Frozen.checkRebind_capture _ s) hcaptured

theorem Coherent.rebound (h : e.Coherent) (hbuilt : s.Built) (hrebind : e.rebind s = .ok e') : e'.Coherent := by
  have hapart := h.apart.rebound hrebind
  obtain ⟨hcheck, rfl⟩ := rebind_eq_ok.mp hrebind
  -- The scope may declare narrower types than were frozen, but the frozen ones stay.
  exact { h with
    names := hapart.names
    typed := fun n v hcaptured => Frozen.accepts_valuesIn hbuilt hcheck hcaptured }

theorem Coherent.called (h : e.Coherent) (hsize : e.image.length < Nat.pow 2 64) (scope : Scope) (args : List Value) :
    (e.callIn scope args).executable.Coherent := by
  have hapart := h.apart.called hsize scope args
  rcases callIn_executable e scope args with hsame | ⟨program, -, hattached⟩
  · rw [hsame]
    exact h
  · rw [hattached] at hapart ⊢
    exact { h with unstored := hapart.unstored }

theorem Coherent.stored (h : e.Coherent) (g : Engine) : (e.stored g).Coherent :=
  { h with unstored := (h.apart.stored g).unstored }

theorem eq_stored_of_record (hsound : e.shape.Sound) (hrecord : e.toRecord = .ok record)
    (hread : ofRecord record g = .ok e') : e' = e.stored g := by
  rw [toRecord] at hrecord
  split at hrecord
  · have hform : record = e.form := (Except.ok.inj hrecord).symm
    rw [hform, ofRecord_form hsound g] at hread
    exact (Except.ok.inj hread).symm
  · cases hrecord

theorem eq_stored_of_artifact (hsound : e.shape.Sound) (hmerge : Artifact.merge code e = .ok artifact)
    (hsource : Text.unitLength (Artifact.pad code) < Nat.pow 2 32 - 1)
    (hblock : ∀ block, Artifact.blockOf e (Artifact.pad code) = .ok block → Text.unitLength block < Nat.pow 2 32 - 1)
    (hextract : (Artifact.extract .builtins artifact).executable = some e') : e' = e.stored .compiling := by
  cases hengine : e.engine with
  | interpreting =>
    -- An engine that stores nothing leaves the padded source, and that is no artifact.
    have hpad : Artifact.merge code e = .ok (Artifact.pad code) := by
      rw [Artifact.merge, hengine]
      rfl
    rw [hpad, Except.ok.injEq] at hmerge
    rw [← hmerge, Artifact.executable_extract_pad] at hextract
    cases hextract
  | compiling =>
    have hserializable : e.engine.isSerializable = true := by rw [hengine]; rfl
    have hresolve : Registry.builtins.resolve e.engine.name e.engine.parameter = .ok .compiling := by
      rw [hengine]
      rfl
    rw [Artifact.merge_eq hserializable, Except.ok.injEq] at hmerge
    have hfits := Artifact.fits_of_lengths hserializable hsource hblock
    rw [← hmerge, Artifact.extract_sealed_of_sound hsound hresolve Artifact.commentStart hfits] at hextract
    exact (Option.some.inj hextract).symm

end Steps

/-! ## Any number of steps -/

theorem Reachable.coherent {e : Executable} (h : e.Reachable) : e.Coherent := by
  induction h with
  | compiled hscope hcompile => exact Coherent.compiled hscope hcompile
  | rebound _ hbuilt hrebind ih => exact ih.rebound hbuilt hrebind
  | called scope args _ hsize ih => exact ih.called hsize scope args
  | read _ hrecord hread ih =>
    rw [eq_stored_of_record ih.sound hrecord hread]
    exact ih.stored _
  | extracted _ hmerge hsource hblock hextract ih =>
    rw [eq_stored_of_artifact ih.sound hmerge hsource hblock hextract]
    exact ih.stored _

theorem exists_shapeOf {g : Engine} {fileName : Option Text} {code : Text} {declared : Option Header.Info}
    (h : Header.Info.ofCode? fileName code = .ok declared) :
    ∃ shape, Engine.shapeOf (declared.getD (g.defaultInfo fileName)) = .ok shape := by
  have hsound := Header.Info.sound_call (g := g) h
  rw [Engine.shapeOf]
  cases (declared.getD (g.defaultInfo fileName)).kind.toKind with
  | script => exact ⟨.script, rfl⟩
  | function => exact ⟨_, Shape.ofCall_eq_ok.mpr ⟨rfl, hsound⟩⟩
  | macroRoutine => exact ⟨_, Shape.ofCall_eq_ok.mpr ⟨rfl, hsound⟩⟩

/-- **What every executable keeps.** The checks of a routine never fail for what a text declares, nor for the record of
an executable that can be reached. Such an executable is coherent, and the program that its calls run stores none of the
names that it captured. An image has no more bytes than its own length fields can count. -/
theorem reachable_coherent :
    (∀ (g : Engine) (fileName : Option Text) (code : Text) (declared : Option Header.Info),
      Header.Info.ofCode? fileName code = .ok declared →
        ∃ shape, Engine.shapeOf (declared.getD (g.defaultInfo fileName)) = .ok shape) ∧
    ∀ e : Executable, e.Reachable → e.Coherent ∧ (∀ g, ofRecord e.form g = .ok (e.stored g)) ∧
      (e.image.length < Nat.pow 2 64 →
        ∀ program, e.program = .ok program → ∀ n ∈ e.frozen.names, Op.store n ∉ program.ops) := by
  refine ⟨fun g fileName code declared hdeclared => exists_shapeOf hdeclared, fun e hreachable => ?_⟩
  have hcoherent := hreachable.coherent
  refine ⟨hcoherent, fun g => ofRecord_form hcoherent.sound g, fun hsize loaded hloaded => ?_⟩
  obtain ⟨program, hholds, hunstored⟩ := hcoherent.unstored
  rw [program_of_holds hholds hsize hloaded]
  exact hunstored

/-- A macro that captured a number and stores under another name. -/
def summing (v : Value) : Executable where
  engine := .compiling
  code := "// @RPN:\n// \x7b macro \x7d\nx Param0 len + =y\n"
  frozen := ⟨[("x", .number)]⟩
  captured := [("x", v)]
  shape := .macroRoutine .free
  body := .attached ⟨[.load "x", .load "Param0", .len, .arith .add, .store "y"], false⟩

theorem built_singleton {ty : Ty} {v : Value} (h : ty.accepts v = true) : Scope.Built ⟨[⟨"x", ty, v, false⟩]⟩ :=
  .declared .empty (Scope.declare_eq_ok.mpr ⟨by decide, rfl, h, rfl⟩)

/-- Compiled against a number, bound to a narrower type, stored, read, sealed and extracted. -/
theorem reachable_summing : ((summing (.long 7)).stored .compiling).Reachable := by
  have hcompile : Engine.compiling.compile none (summing (.int 5)).code (some ⟨[⟨"x", .number, .int 5, false⟩]⟩) =
      .ok (summing (.int 5)) := rfl
  have hcompiled : (summing (.int 5)).Reachable := by
    refine .compiled (fun s hs => ?_) hcompile
    cases hs
    exact built_singleton rfl
  have hrebind : (summing (.int 5)).rebind ⟨[⟨"x", .long, .long 7, false⟩]⟩ = .ok (summing (.long 7)) := rfl
  have hrebound : (summing (.long 7)).Reachable := hcompiled.rebound (built_singleton rfl) hrebind
  have hread : ((summing (.long 7)).stored .compiling).Reachable :=
    hrebound.read (g := .compiling) (toRecord_eq rfl) (ofRecord_form hrebound.coherent.sound _)
  have hserializable : ((summing (.long 7)).stored .compiling).engine.isSerializable = true := rfl
  have hsource : Text.unitLength (Artifact.pad (summing (.long 7)).code) < Nat.pow 2 32 - 1 := by decide +kernel
  have hblock : ∀ block, Artifact.blockOf ((summing (.long 7)).stored .compiling)
      (Artifact.pad (summing (.long 7)).code) = .ok block → Text.unitLength block < Nat.pow 2 32 - 1 := by
    intro block hblock
    rw [Artifact.blockOf_eq hserializable, Except.ok.injEq] at hblock
    rw [← hblock]
    decide +kernel
  refine hread.extracted (Artifact.merge_eq hserializable _) hsource hblock ?_
  rw [Artifact.extract_sealed_of_sound hread.coherent.sound (g := .compiling) rfl Artifact.commentStart
    (Artifact.fits_of_lengths hserializable hsource hblock)]
  rfl

theorem reachable_coherent_summing :
    (∃ shape, Engine.shapeOf (.bare none .macroRoutine) = .ok shape) ∧
      ((summing (.long 7)).stored .compiling).Reachable ∧ ((summing (.long 7)).stored .compiling).Coherent ∧
      ∃ program, ((summing (.long 7)).stored .compiling).program = .ok program ∧
        Op.store "x" ∉ program.ops ∧ Op.store "y" ∈ program.ops := by
  have hdeclared : Header.Info.ofCode? none (summing (.int 5)).code = .ok (some (.bare none .macroRoutine)) := rfl
  obtain ⟨hcoherent, -, hunstored⟩ := reachable_coherent.2 _ reachable_summing
  have hsize : ((summing (.long 7)).stored .compiling).image.length < Nat.pow 2 64 := by decide +kernel
  have hprogram : ((summing (.long 7)).stored .compiling).program =
      .ok ⟨[.load "x", .load "Param0", .len, .arith .add, .store "y"], false⟩ := rfl
  exact ⟨reachable_coherent.1 .compiling none _ _ hdeclared, reachable_summing, hcoherent, _, hprogram,
    hunstored hsize _ hprogram "x" (List.mem_singleton.mpr rfl), by simp⟩

end Executable
end SealedScript
