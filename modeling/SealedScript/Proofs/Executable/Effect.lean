import SealedScript.Proofs.Executable.Trace
import SealedScript.Proofs.Scope.Growth

/-!
What a call does to the scope of its caller.

A program writes by storing, and a store assigns or declares a variable. So however far a run gets, the scope that it
leaves has grown by the names that were stored under, and nothing else in it has changed (`callIn_grown`).
-/

namespace SealedScript
set_option autoImplicit false

namespace Executable

/-- **What a call may do to the scope of its caller**, whether it succeeds or fails midway. The names that are stored
under are those of store operations, the scope grows by them, and its variables hold values of their types. -/
theorem callIn_grown (e : Executable) {scope : Scope} (hbuilt : scope.Built) (args : List Value) :
    (∀ n ∈ e.storedNames scope args, ∃ program, e.program = .ok program ∧ Op.store n ∈ program.ops) ∧
    scope.Grown (e.storedNames scope args) (e.callIn scope args).scope ∧
    ∀ slot ∈ (e.callIn scope args).scope.slots, slot.ty.accepts slot.value = true := by
  have hafter : scope.Grown (e.storedNames scope args) (e.callIn scope args).scope ∧
      (e.callIn scope args).scope.Built :=
    callIn_preserves (P := fun names s => scope.Grown names s ∧ s.Built)
      (fun _ _ _ _ _ h hstore => ⟨h.1.store hstore, h.2.stored hstore⟩) ⟨.refl scope, hbuilt⟩
  exact ⟨fun n hn => store_mem_of_storedNames hn, hafter.1, hafter.2.accepts⟩

/-- A script that assigns a variable, adds two, and fails at a constant. -/
def storing : Executable where
  engine := .compiling
  code := "1 =x 2 =z 3 =y 4 =z 5 =k 6 =w"
  frozen := ⟨[]⟩
  captured := []
  shape := .script
  body := .attached
    ⟨[.push (.int 1), .store "x", .push (.int 2), .store "z", .push (.int 3), .store "y", .push (.int 4), .store "z",
      .push (.int 5), .store "k", .push (.int 6), .store "w"], false⟩

/-- A scope with a constant and two variables. -/
def offered : Scope :=
  ⟨[⟨"k", .long, .long 0, true⟩, ⟨"x", .number, .null, false⟩, ⟨"u", .text, .text "", false⟩]⟩

theorem built_offered : offered.Built := by
  have hfirst : Scope.empty.declare "k" .long (.long 0) true = .ok ⟨[⟨"k", .long, .long 0, true⟩]⟩ := rfl
  have hsecond : Scope.declare ⟨[⟨"k", .long, .long 0, true⟩]⟩ "x" .number .null false =
    .ok ⟨[⟨"k", .long, .long 0, true⟩, ⟨"x", .number, .null, false⟩]⟩ := rfl
  have hthird : Scope.declare ⟨[⟨"k", .long, .long 0, true⟩, ⟨"x", .number, .null, false⟩]⟩ "u" .text (.text "") false =
    .ok offered := rfl
  exact ((Scope.Built.empty.declared hfirst).declared hsecond).declared hthird

theorem callIn_grown_storing :
    (storing.callIn offered []).result = .error (.scope (.constant "k")) ∧
    (storing.callIn offered []).scope =
      ⟨[⟨"k", .long, .long 0, true⟩, ⟨"x", .number, .int 1, false⟩, ⟨"u", .text, .text "", false⟩,
        ⟨"z", .object, .int 4, false⟩, ⟨"y", .object, .int 3, false⟩]⟩ ∧
    storing.storedNames offered [] = ["x", "z", "y", "z"] ∧
    offered.Grown (storing.storedNames offered []) (storing.callIn offered []).scope :=
  ⟨rfl, rfl, rfl, (callIn_grown storing built_offered []).2.1⟩

end Executable
end SealedScript
