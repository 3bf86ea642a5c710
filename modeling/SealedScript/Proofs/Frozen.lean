import SealedScript.Frozen
import SealedScript.Proofs.Scope
import SealedScript.Proofs.Ty

/-!
What is frozen, and the values it is bound to.
-/

namespace SealedScript
set_option autoImplicit false

theorem nodup_eraseDups (names : List Text) : names.eraseDups.Nodup := by
  match names with
  | [] => exact List.nodup_nil
  | name :: names =>
    rw [List.eraseDups_cons, List.nodup_cons]
    refine ⟨fun hmem => ?_, nodup_eraseDups _⟩
    have hfilter := (List.mem_filter.mp (List.mem_eraseDups.mp hmem)).2
    simp at hfilter
termination_by names.length
decreasing_by exact Nat.lt_succ_of_le (List.length_filter_le _ _)

theorem mem_of_lookup {β : Type} {entries : List (Text × β)} {n : Text} {b : β} (h : entries.lookup n = some b) :
    (n, b) ∈ entries := by
  obtain ⟨before, behind, hsplit, -⟩ := List.lookup_eq_some_iff.mp h
  rw [hsplit]
  exact List.mem_append_right _ (List.mem_cons_self ..)

namespace Frozen

variable {names : List Text} {s : Scope} {f : Frozen} {n : Text} {v : Value}

theorem names_capture (names : List Text) (s : Scope) :
    (capture names (some s)).names = (names.filter fun n => !n.isEmpty).eraseDups := by
  simp [Frozen.names, capture, Function.comp_def]

theorem mem_names_capture (h : n ∈ (capture names (some s)).names) : n ∈ names := by
  rw [names_capture, List.mem_eraseDups] at h
  exact (List.mem_filter.mp h).1

theorem nodup_names_capture (names : List Text) (scope : Option Scope) : (capture names scope).names.Nodup := by
  cases scope with
  | none => exact List.nodup_nil
  | some s =>
    rw [names_capture]
    exact nodup_eraseDups _

/-- Captures of the same names differ at most in the types that the scopes declare. -/
theorem capture_congr {s' : Scope} (h : ∀ n ∈ names, s.ty? n = s'.ty? n) :
    capture names (some s) = capture names (some s') := by
  have hentries : ∀ n ∈ (names.filter fun n => !n.isEmpty).eraseDups,
      (n, (s.ty? n).getD .object) = (n, (s'.ty? n).getD .object) := by
    intro n hn
    have hmem := (List.mem_filter.mp (List.mem_eraseDups.mp hn)).1
    rw [h n hmem]
  exact congrArg Frozen.mk (List.map_congr_left hentries)

theorem valuesIn_congr {f' : Frozen} (h : f.names = f'.names) (s : Scope) : f.valuesIn s = f'.valuesIn s := by
  rw [valuesIn, valuesIn, h]

theorem names_valuesIn (f : Frozen) (s : Scope) : (f.valuesIn s).map Prod.fst = f.names := by
  simp [valuesIn, Function.comp_def]

theorem mem_valuesIn : (n, v) ∈ f.valuesIn s ↔ n ∈ f.names ∧ v = (s.value? n).getD .null := by
  rw [valuesIn, List.mem_map]
  constructor
  · rintro ⟨name, hname, hpair⟩
    cases hpair
    exact ⟨hname, rfl⟩
  · rintro ⟨hname, rfl⟩
    exact ⟨n, hname, rfl⟩

theorem lookup_valuesIn (h : (f.valuesIn s).lookup n = some v) : n ∈ f.names ∧ v = (s.value? n).getD .null :=
  mem_valuesIn.mp (mem_of_lookup h)

/-! ## Types -/

theorem exists_ty?_of_mem (h : n ∈ f.names) : ∃ ty, (n, ty) ∈ f.entries ∧ f.ty? n = some ty := by
  cases hty : f.ty? n with
  | none =>
    obtain ⟨⟨name, ty⟩, hentry, rfl⟩ := List.mem_map.mp h
    have hother := List.lookup_eq_none_iff.mp hty _ hentry
    simp at hother
  | some ty => exact ⟨ty, mem_of_lookup hty, rfl⟩

theorem checkRebind_eq_ok : f.checkRebind s = .ok () ↔
    ∀ n required found, (n, required) ∈ f.entries → s.ty? n = some found → required.covers found = true := by
  have hconflict : f.checkRebind s = .ok () ↔ f.conflict? s = none := by
    rw [checkRebind]
    cases f.conflict? s <;> simp
  rw [hconflict, conflict?, List.findSome?_eq_none_iff]
  constructor
  · intro h n required found hentry hfound
    have hnone := h _ hentry
    simp only [hfound] at hnone
    split at hnone
    · assumption
    · cases hnone
  · rintro h ⟨n, required⟩ hentry
    simp only
    split
    case h_1 found hfound => rw [if_pos (h n required found hentry hfound)]
    case h_2 => rfl

/-- What is captured from a scope may be bound to it anew. -/
theorem checkRebind_capture (names : List Text) (s : Scope) : (capture names (some s)).checkRebind s = .ok () := by
  refine checkRebind_eq_ok.mpr fun n required found hentry hfound => ?_
  obtain ⟨name, -, hpair⟩ := List.mem_map.mp hentry
  cases hpair
  rw [hfound]
  exact Ty.covers_refl found

/-- The values of a scope that fits are values of the frozen types. -/
theorem accepts_valuesIn (hbuilt : s.Built) (hcheck : f.checkRebind s = .ok ()) (h : (n, v) ∈ f.valuesIn s) :
    ∃ ty, f.ty? n = some ty ∧ ty.accepts v = true := by
  obtain ⟨hname, rfl⟩ := mem_valuesIn.mp h
  obtain ⟨required, hentry, hty⟩ := exists_ty?_of_mem hname
  refine ⟨required, hty, ?_⟩
  cases hslot : s.find? n with
  | none =>
    rw [Scope.value?, hslot]
    rfl
  | some slot =>
    have hfound : s.ty? n = some slot.ty := by rw [Scope.ty?, hslot]; rfl
    have hvalue : s.value? n = some slot.value := by rw [Scope.value?, hslot]; rfl
    rw [hvalue]
    exact Ty.accepts_of_covers (checkRebind_eq_ok.mp hcheck n required slot.ty hentry hfound)
      (hbuilt.accepts_value hfound hvalue)

end Frozen
end SealedScript
