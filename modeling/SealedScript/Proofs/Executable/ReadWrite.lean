import SealedScript.Proofs.Executable.Coherence
import SealedScript.Proofs.Executable.Trace
import SealedScript.Proofs.Scope.Growth

/-!
Reading what was written.

A name is looked up among the parameters and the captured values before the scope, and a store writes to the scope. A
compiler never captures a name that the program stores, and neither binding anew nor storage changes what is captured,
so a value that was stored under a name that is no parameter is what every later read yields (`reads_own_writes`).
-/

namespace SealedScript
set_option autoImplicit false

namespace Machine

variable {engine : Text} {f : Frame} {m : Machine} {ops : List Op} {n : Text} {v : Value} {t : Transition}
  {between behind : List Transition}

/-! ## Runs -/

theorem keeps_singleton {scope : Option Scope} :
    Keeps scope [(n, v)] ↔ ∃ s, scope = some s ∧ s.value? n = some v := by
  refine ⟨fun h => h n v List.lookup_cons_self, fun h name w hlookup => ?_⟩
  obtain ⟨rfl, rfl⟩ : name = n ∧ w = v := by simpa using mem_of_lookup hlookup
  exact h

theorem step_load_of_keeps (hparam : n ∉ f.paramNames) (hcaptured : f.captured.lookup n = none)
    (hkeeps : Keeps m.scope [(n, v)]) : step engine f m (.load n) = .ok (m.push v) := by
  obtain ⟨s, hscope, hvalue⟩ := keeps_singleton.mp hkeeps
  have hlookup : f.lookup m.scope n = some v := by
    rw [Frame.lookup, List.idxOf?_eq_none_iff.mpr hparam, hcaptured, hscope]
    exact hvalue
  rw [step_of_ne_store (fun _ hstore => by cases hstore), stackStep, hlookup]
  rfl

/-- A value stays under its name until something else is stored under it. -/
theorem keeps_of_trace (h : trace engine f m ops = between ++ t :: behind) (hbetween : ∀ u ∈ between, u.op ≠ .store n)
    (hkeeps : Keeps m.scope [(n, v)]) : Keeps t.before.scope [(n, v)] := by
  induction between generalizing m ops with
  | nil =>
    obtain ⟨-, -, rfl, -⟩ := trace_head h
    exact hkeeps
  | cons first between ih =>
    obtain ⟨m', later, -, hstep, hrest⟩ := trace_next h (by simp)
    have hother : ∀ name, first.op = .store name → List.lookup name [(n, v)] = none := by
      intro name hop
      have hname : ¬ name = n := by
        rintro rfl
        exact hbetween first (List.mem_cons_self ..) hop
      exact List.lookup_eq_none_iff.mpr (by simp [hname])
    exact ih hrest (fun u hu => hbetween u (List.mem_cons_of_mem _ hu)) (hkeeps.step hother hstep)

theorem load_of_trace {front : List Transition} {write read : Transition} (hparam : n ∉ f.paramNames)
    (hcaptured : f.captured.lookup n = none)
    (h : trace engine f m ops = front ++ write :: (between ++ read :: behind)) (hwrite : write.op = .store n)
    (hbetween : ∀ t ∈ between, t.op ≠ .store n) (hread : read.op = .load n) :
    ∃ v stack, write.before.stack = v :: stack ∧ read.after = .ok (read.before.push v) := by
  obtain ⟨last, -, -, hfrom⟩ := trace_split h
  obtain ⟨m', later, -, hstep, hrest⟩ := trace_next hfrom (by simp)
  rw [hwrite] at hstep
  obtain ⟨v, s, s', hstack, -, hstore, hafter⟩ := step_store_spec hstep
  have hkeeps : Keeps m'.scope [(n, v)] := keeps_singleton.mpr ⟨s', hafter, Scope.value?_store hstore⟩
  obtain ⟨-, -, hload, -⟩ := trace_split hrest
  rw [hread, step_load_of_keeps hparam hcaptured (keeps_of_trace hrest hbetween hkeeps)] at hload
  exact ⟨v, _, hstack, hload⟩

end Machine

namespace Executable

/-! ## Executables from the compiler -/

/-- The executables that descend from a compiled one by binding it anew, by calling it, and by storing and reading it. -/
inductive Descended : Executable → Prop
  | compiled {g : Engine} {fileName : Option Text} {code : Text} {scope : Option Scope} {e : Executable} :
      g.compile fileName code scope = .ok e → Descended e
  | rebound {e e' : Executable} {s : Scope} : Descended e → e.rebind s = .ok e' → Descended e'
  | called {e : Executable} (scope : Scope) (args : List Value) :
      Descended e → e.image.length < Nat.pow 2 64 → Descended (e.callIn scope args).executable
  | read {e e' : Executable} {record : Record} {g : Engine} :
      Descended e → e.toRecord = .ok record → ofRecord record g = .ok e' → Descended e'

theorem Descended.apart {e : Executable} (h : e.Descended) : e.Apart := by
  induction h with
  | compiled hcompile => exact Apart.compiled hcompile
  | rebound _ hrebind ih => exact ih.rebound hrebind
  | called scope args _ hsize ih => exact ih.called hsize scope args
  | read _ hrecord hread ih =>
    rw [eq_stored_of_record ih.sound hrecord hread]
    exact ih.stored _

variable {e : Executable} {program : Program} {n : Text}

theorem lookup_captured_of_stored (h : e.Apart) (hsize : e.image.length < Nat.pow 2 64)
    (hprogram : e.program = .ok program) (hstore : Op.store n ∈ program.ops) : e.captured.lookup n = none := by
  cases hlookup : e.captured.lookup n with
  | none => rfl
  | some v =>
    have hfrozen : n ∈ e.frozen.names := by
      rw [← h.names]
      exact List.mem_map_of_mem (mem_of_lookup hlookup)
    exact absurd hstore (h.not_stored hsize hprogram n hfrozen)

/-- **A program reads its own writes.** Once a store under a name that is no parameter has succeeded, every load of the
name up to the next store under it succeeds and puts the stored value on the stack. An image has no more bytes than
its own length fields can count. -/
theorem reads_own_writes (h : e.Descended) (hsize : e.image.length < Nat.pow 2 64) (scope : Scope) (args : List Value)
    {front between behind : List Machine.Transition} {write read : Machine.Transition}
    (htrace : e.trace scope args = front ++ write :: (between ++ read :: behind)) (hparam : n ∉ e.paramNames)
    (hwrite : write.op = .store n) (hbetween : ∀ t ∈ between, t.op ≠ .store n) (hread : read.op = .load n) :
    ∃ v stack, write.before.stack = v :: stack ∧ read.after = .ok (read.before.push v) := by
  rw [trace] at htrace
  split at htrace
  case h_1 adjusted program _ hprogram =>
    obtain ⟨-, hmem, -⟩ := Machine.trace_split htrace
    rw [hwrite] at hmem
    have hcaptured := lookup_captured_of_stored h.apart hsize hprogram hmem
    exact Machine.load_of_trace hparam hcaptured htrace hwrite hbetween hread
  case h_2 => simp at htrace

/-- A macro that stores under a name that the scope it was compiled against declares, and captured another. -/
def resetting (v : Value) : Executable where
  engine := .compiling
  code := "// @RPN:\n// \x7b macro \x7d\nParam0 len =x y x\n"
  frozen := ⟨[("y", .text)]⟩
  captured := [("y", v)]
  shape := .macroRoutine .free
  body := .attached ⟨[.load "Param0", .len, .store "x", .load "y", .load "x"], false⟩

theorem descended_resetting : ((resetting (.text "b")).stored .compiling).Descended := by
  have hcompile : Engine.compiling.compile none (resetting (.text "a")).code
      (some ⟨[⟨"x", .number, .int 1, true⟩, ⟨"y", .text, .text "a", false⟩]⟩) = .ok (resetting (.text "a")) := rfl
  have hrebind : (resetting (.text "a")).rebind ⟨[⟨"y", .text, .text "b", true⟩, ⟨"x", .text, .text "c", false⟩]⟩ =
      .ok (resetting (.text "b")) := rfl
  have hrebound := (Descended.compiled hcompile).rebound hrebind
  exact hrebound.read (g := .compiling) (toRecord_eq rfl) (ofRecord_form hrebound.apart.sound _)

/-- A scope whose variable the macro overwrites. -/
def counted : Scope := ⟨[⟨"x", .number, .long 41, false⟩]⟩

theorem reads_own_writes_resetting : ∃ write read,
    (((resetting (.text "b")).stored .compiling).trace counted [.bool true, .null])[2]? = some write ∧
    (((resetting (.text "b")).stored .compiling).trace counted [.bool true, .null])[4]? = some read ∧
    write.op = .store "x" ∧ read.op = .load "x" ∧
    write.before.stack = [.int 2] ∧ read.after = .ok (read.before.push (.int 2)) := by
  have hsize : ((resetting (.text "b")).stored .compiling).image.length < Nat.pow 2 64 := by decide +kernel
  have htrace : ((resetting (.text "b")).stored .compiling).trace counted [.bool true, .null] =
      [_, _] ++ _ :: ([_] ++ _ :: []) := rfl
  obtain ⟨v, stack, hstack, hafter⟩ :=
    reads_own_writes descended_resetting hsize _ _ htrace (by decide) rfl (by simp) rfl
  obtain ⟨rfl, -⟩ := List.cons.inj hstack
  exact ⟨_, _, rfl, rfl, rfl, rfl, rfl, hafter⟩

end Executable
end SealedScript
