import Mathlib.Data.List.Forall2
import SealedScript.Proofs.Scope

/-!
What storing makes of a scope.

`Grown` compares a scope with what it was before a number of stores: the variables of old stay where they are, a
variable whose value changes is no constant, and what is added comes behind in the order in which it was stored
first. One more store under the next name keeps this (`Grown.store`).
-/

namespace SealedScript
set_option autoImplicit false

/-- What storing under the names may make of a slot: only the value of a variable with one of them changes. -/
structure Slot.Kept (names : List Text) (old new : Slot) : Prop where
  name : new.name = old.name
  ty : new.ty = old.ty
  constant : new.constant = old.constant
  value : old.constant = true ∨ old.name ∉ names → new.value = old.value

theorem Slot.Kept.refl (names : List Text) (slot : Slot) : slot.Kept names slot :=
  ⟨rfl, rfl, rfl, fun _ => rfl⟩

theorem Slot.Kept.mono {names names' : List Text} {old new : Slot} (h : old.Kept names new) (hsub : names ⊆ names') :
    old.Kept names' new :=
  { h with value := fun hout => h.value (hout.imp_right fun hnot hin => hnot (hsub hin)) }

namespace Scope

/-- What storing under the names, in their order, may make of a scope. -/
def Grown (names : List Text) (before after : Scope) : Prop :=
  ∃ kept fresh, after.slots = kept ++ fresh ∧ List.Forall₂ (Slot.Kept names) before.slots kept ∧
    fresh.map Slot.name = (names.filter fun n => !before.declares n).eraseDups ∧
    ∀ slot ∈ fresh, slot.ty = .object ∧ slot.constant = false

variable {before s s' : Scope} {name n : Text} {names : List Text} {v : Value} {olds slots kept fresh : List Slot}

/-! ## Replacing a value -/

theorem find?_replace_self {slot : Slot} (h : slots.find? (fun slot => slot.name == name) = some slot) :
    (replace name v slots).find? (fun slot => slot.name == name) = some { slot with value := v } := by
  induction slots with
  | nil => cases h
  | cons first slots ih =>
    rw [replace]
    by_cases hname : first.name = name
    · simp_all
    · simp_all

theorem map_name_replace (name : Text) (v : Value) (slots : List Slot) :
    (replace name v slots).map Slot.name = slots.map Slot.name := by
  induction slots with
  | nil => rfl
  | cons slot slots ih =>
    rw [replace]
    split
    · rfl
    · rw [List.map_cons, List.map_cons, ih]

/-- Only the first slot with the name is replaced. -/
theorem replace_append (name : Text) (v : Value) (kept fresh : List Slot) : replace name v (kept ++ fresh) =
    if name ∈ kept.map Slot.name then replace name v kept ++ fresh else kept ++ replace name v fresh := by
  induction kept with
  | nil => rfl
  | cons slot kept ih =>
    rw [List.cons_append, replace, replace]
    by_cases hname : slot.name = name
    · simp [hname]
    · have hne : ¬ name = slot.name := fun h => hname h.symm
      simp only [beq_iff_eq, hname, if_false, ih, List.map_cons, List.mem_cons, hne, false_or]
      split <;> rfl

theorem forall₂_replace (h : List.Forall₂ (Slot.Kept names) olds kept)
    (hvariable : ∀ slot, kept.find? (fun slot => slot.name == n) = some slot → slot.constant = false) :
    List.Forall₂ (Slot.Kept (names ++ [n])) olds (replace n v kept) := by
  have hsub : names ⊆ names ++ [n] := List.subset_append_left names [n]
  induction h with
  | nil => exact .nil
  | @cons old new olds kept hslot hrest ih =>
    rw [replace]
    by_cases hname : new.name = n
    · have hconstant : old.constant = false := hslot.constant ▸ hvariable new (by simp [hname])
      have hold : old.name = n := hslot.name.symm.trans hname
      rw [if_pos (by simpa using hname)]
      refine .cons { hslot with value := fun hout => ?_ } (hrest.imp fun _ _ hkept => hkept.mono hsub)
      rcases hout with hout | hout
      · rw [hconstant] at hout
        cases hout
      · exact absurd (by simp [hold]) hout
    · rw [if_neg (by simpa using hname)]
      refine .cons (hslot.mono hsub) (ih fun slot hfind => hvariable slot ?_)
      simpa [List.find?_cons, hname] using hfind

theorem map_name_of_kept (h : List.Forall₂ (Slot.Kept names) olds kept) : olds.map Slot.name = kept.map Slot.name := by
  induction h with
  | nil => rfl
  | cons hslot _ ih => rw [List.map_cons, List.map_cons, hslot.name, ih]

/-! ## Stores -/

theorem declares_iff : s.declares n = true ↔ n ∈ s.slots.map Slot.name := by
  simp [declares, find?]

theorem value?_store (h : s.store name v = .ok s') : s'.value? name = some v := by
  rw [store] at h
  split at h
  case isTrue =>
    obtain ⟨slot, hslot, -, -, rfl⟩ := set_eq_ok.mp h
    rw [value?, find?, find?_replace_self hslot]
    rfl
  case isFalse hnew =>
    obtain ⟨-, -, -, rfl⟩ := declare_eq_ok.mp h
    have hnone : s.slots.find? (fun slot => slot.name == name) = none := by simpa [declares, find?] using hnew
    simp [value?, find?, List.find?_append, hnone]

theorem Built.stored (hbuilt : s.Built) (h : s.store name v = .ok s') : s'.Built := by
  rw [store] at h
  split at h
  · exact hbuilt.assigned h
  · exact hbuilt.declared h

theorem eraseDups_concat (ns : List Text) (n : Text) :
    (ns ++ [n]).eraseDups = if n ∈ ns.eraseDups then ns.eraseDups else ns.eraseDups ++ [n] := by
  rw [List.eraseDups_append]
  by_cases hin : n ∈ ns
  · simp [List.removeAll, hin]
  · simp [List.removeAll, hin, List.eraseDups_cons]

theorem Grown.refl (s : Scope) : s.Grown [] s :=
  ⟨s.slots, [], (List.append_nil _).symm, List.forall₂_same.mpr fun slot _ => .refl [] slot, rfl, nofun⟩

/-- **One more store.** It replaces a value among the variables of old or among the added ones, or adds one more. -/
theorem Grown.store (h : before.Grown names s) (hstore : s.store n v = .ok s') : before.Grown (names ++ [n]) s' := by
  obtain ⟨kept, fresh, hslots, hkept, hfresh, hobjects⟩ := h
  have hmono : List.Forall₂ (Slot.Kept (names ++ [n])) before.slots kept :=
    hkept.imp fun _ _ hslot => hslot.mono (List.subset_append_left names [n])
  have hdeclares : s.declares n = true ↔ before.declares n = true ∨ n ∈ fresh.map Slot.name := by
    rw [declares_iff, declares_iff, hslots, List.map_append, List.mem_append, map_name_of_kept hkept]
  have hadded : ((names ++ [n]).filter fun n => !before.declares n).eraseDups =
      if s.declares n then fresh.map Slot.name else fresh.map Slot.name ++ [n] := by
    rw [List.filter_append, hfresh]
    by_cases hbefore : before.declares n = true
    · simp [hbefore, hdeclares.mpr (Or.inl hbefore)]
    · have hin : s.declares n = true ↔ n ∈ (names.filter fun n => !before.declares n).eraseDups := by
        rw [hdeclares, hfresh, or_iff_right hbefore]
      simp [hbefore, eraseDups_concat, hin]
  rw [Scope.store] at hstore
  split at hstore
  case isTrue hdeclared =>
    rw [if_pos hdeclared] at hadded
    obtain ⟨slot, hslot, hconstant, -, rfl⟩ := set_eq_ok.mp hstore
    rw [find?, hslots, List.find?_append] at hslot
    rw [Grown, hslots, replace_append, hadded]
    split
    case isTrue hin =>
      refine ⟨_, fresh, rfl, forall₂_replace hkept fun found hfound => ?_, rfl, hobjects⟩
      rw [hfound, Option.some_or, Option.some.injEq] at hslot
      rw [hslot, hconstant]
    case isFalse hout =>
      refine ⟨kept, _, rfl, hmono, map_name_replace n v fresh, fun slot hslot => ?_⟩
      rcases mem_replace hslot with hslot | ⟨old, hold, rfl⟩
      · exact hobjects slot hslot
      · exact hobjects old (List.mem_of_find?_eq_some hold)
  case isFalse hnew =>
    rw [if_neg hnew] at hadded
    obtain ⟨-, -, -, rfl⟩ := declare_eq_ok.mp hstore
    refine ⟨kept, fresh ++ [⟨n, .object, v, false⟩], ?_, hmono, ?_, fun slot hslot => ?_⟩
    · rw [hslots, List.append_assoc]
    · rw [hadded, List.map_append]
      rfl
    · rcases List.mem_append.mp hslot with hslot | hslot
      · exact hobjects slot hslot
      · rw [List.mem_singleton.mp hslot]
        exact ⟨rfl, rfl⟩

end Scope
end SealedScript
