import SealedScript.Proofs.Outcome
import SealedScript.Scope

/-!
Scopes, one operation at a time.

`declare_eq_ok` and `set_eq_ok` say what an operation leaves and when it does. A store leaves every other name alone
(`find?_store_of_ne`), and in a scope that was built by its own operations every variable holds null or an
instance of its type (`Built.accepts`).
-/

namespace SealedScript.Scope
set_option autoImplicit false

variable {s s' : Scope} {name n : Text} {ty : Ty} {v : Value} {constant : Bool}

/-! ## Operations -/

theorem requireFit_eq_ok (name : Text) : requireFit name ty v = .ok () ↔ ty.accepts v = true := by
  rw [requireFit]
  cases ty.accepts v <;> simp

theorem declare_eq_ok : s.declare name ty v constant = .ok s' ↔ name ≠ [] ∧ s.declares name = false ∧
    ty.accepts v = true ∧ s' = ⟨s.slots ++ [⟨name, ty, v, constant⟩]⟩ := by
  rw [declare, ← requireFit_eq_ok name]
  cases hempty : name.isEmpty with
  | true => simp_all
  | false =>
    have hname : name ≠ [] := by simpa using hempty
    cases s.declares name with
    | true => simp
    | false =>
      simp only [Bool.false_eq_true, if_false, bind_eq_ok, hname, ne_eq, not_false_eq_true, true_and]
      constructor
      · rintro ⟨⟨⟩, hfit, h⟩
        cases h
        exact ⟨hfit, rfl⟩
      · rintro ⟨hfit, rfl⟩
        exact ⟨(), hfit, rfl⟩

theorem set_eq_ok : s.set name v = .ok s' ↔ ∃ slot, s.find? name = some slot ∧ slot.constant = false ∧
    slot.ty.accepts v = true ∧ s' = ⟨replace name v s.slots⟩ := by
  rw [set]
  cases s.find? name with
  | none => simp
  | some slot =>
    simp only [Option.some.injEq, exists_eq_left']
    rw [← requireFit_eq_ok name]
    cases slot.constant with
    | true => simp
    | false =>
      simp only [Bool.false_eq_true, if_false, bind_eq_ok, true_and]
      constructor
      · rintro ⟨⟨⟩, hfit, h⟩
        cases h
        exact ⟨hfit, rfl⟩
      · rintro ⟨hfit, rfl⟩
        exact ⟨(), hfit, rfl⟩

/-! ## Other names -/

theorem find?_replace_of_ne (h : n ≠ name) (v : Value) (slots : List Slot) :
    (replace name v slots).find? (fun slot => slot.name == n) = slots.find? fun slot => slot.name == n := by
  induction slots with
  | nil => rfl
  | cons slot slots ih =>
    rw [replace]
    by_cases hname : slot.name = name
    · simp [hname, h.symm]
    · simp [hname, List.find?_cons, ih]

theorem find?_declare_of_ne (h : s.declare name ty v constant = .ok s') (hne : n ≠ name) :
    s'.find? n = s.find? n := by
  obtain ⟨-, -, -, rfl⟩ := declare_eq_ok.mp h
  simp [find?, List.find?_append, hne.symm]

theorem find?_set_of_ne (h : s.set name v = .ok s') (hne : n ≠ name) : s'.find? n = s.find? n := by
  obtain ⟨slot, -, -, -, rfl⟩ := set_eq_ok.mp h
  exact find?_replace_of_ne hne v s.slots

/-- A store is seen under its own name only. -/
theorem find?_store_of_ne (h : s.store name v = .ok s') (hne : n ≠ name) : s'.find? n = s.find? n := by
  rw [store] at h
  split at h
  · exact find?_set_of_ne h hne
  · exact find?_declare_of_ne h hne

theorem value?_store_of_ne (h : s.store name v = .ok s') (hne : n ≠ name) : s'.value? n = s.value? n := by
  rw [value?, value?, find?_store_of_ne h hne]

theorem value?_of_declares (h : s.declares n = true) : ∃ v, s.value? n = some v := by
  obtain ⟨slot, hslot⟩ := Option.isSome_iff_exists.mp h
  exact ⟨slot.value, by rw [value?, hslot]; rfl⟩

/-! ## Types -/

/-- The scopes that are built by declaring and assigning variables. -/
inductive Built : Scope → Prop
  | empty : Built empty
  | declared {s s' : Scope} {name : Text} {ty : Ty} {v : Value} {constant : Bool} :
      Built s → s.declare name ty v constant = .ok s' → Built s'
  | assigned {s s' : Scope} {name : Text} {v : Value} : Built s → s.set name v = .ok s' → Built s'

theorem mem_replace {slot : Slot} {slots : List Slot} (h : slot ∈ replace name v slots) :
    slot ∈ slots ∨ ∃ old, slots.find? (fun slot => slot.name == name) = some old ∧
      slot = { old with value := v } := by
  induction slots with
  | nil => cases h
  | cons first slots ih =>
    rw [replace] at h
    cases hname : first.name == name with
    | true =>
      rw [if_pos hname] at h
      rcases List.mem_cons.mp h with rfl | h
      · exact Or.inr ⟨first, List.find?_cons_of_pos hname, rfl⟩
      · exact Or.inl (List.mem_cons_of_mem first h)
    | false =>
      rw [if_neg (by rw [hname]; decide)] at h
      rw [List.find?_cons_of_neg (by rw [hname]; decide)]
      rcases List.mem_cons.mp h with rfl | h
      · exact Or.inl (List.mem_cons_self ..)
      · rcases ih h with h | h
        · exact Or.inl (List.mem_cons_of_mem first h)
        · exact Or.inr h

/-- **Variables hold values of their types.** -/
theorem Built.accepts (h : s.Built) : ∀ slot ∈ s.slots, slot.ty.accepts slot.value = true := by
  induction h with
  | empty => nofun
  | declared _ hdeclare ih =>
    obtain ⟨-, -, hfit, rfl⟩ := declare_eq_ok.mp hdeclare
    intro slot hslot
    rcases List.mem_append.mp hslot with hslot | hslot
    · exact ih slot hslot
    · rw [List.mem_singleton.mp hslot]
      exact hfit
  | assigned _ hset ih =>
    obtain ⟨old, hold, -, hfit, rfl⟩ := set_eq_ok.mp hset
    intro slot hslot
    rcases mem_replace hslot with hslot | ⟨first, hfirst, rfl⟩
    · exact ih slot hslot
    · rw [Option.some.inj (hfirst.symm.trans hold)]
      exact hfit

theorem Built.accepts_value (h : s.Built) (hty : s.ty? n = some ty) (hvalue : s.value? n = some v) :
    ty.accepts v = true := by
  obtain ⟨slot, hslot, rfl⟩ := Option.map_eq_some_iff.mp hty
  obtain ⟨slot', hslot', rfl⟩ := Option.map_eq_some_iff.mp hvalue
  rw [hslot, Option.some.injEq] at hslot'
  subst hslot'
  exact h.accepts slot (List.mem_of_find?_eq_some hslot)

end SealedScript.Scope
