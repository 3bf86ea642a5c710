import SealedScript.Proofs.Artifact.Recompile

/-!
Artifacts that are put to use with leave to compile them, and those that this leaves as they are.

An artifact is settled when it is fresh and using it, even by force, gives the executable that is stored in it
and the very same text. A fresh artifact is settled as long as nobody forces its compilation
(`settled_of_fresh`), and one that was compiled is settled altogether (`settled_of_recompile`).
-/

namespace SealedScript.Artifact
set_option autoImplicit false

variable {r : Registry} {g : Engine} {name text m : Text} {e : Executable} {record : Record}

/-! ## What using an artifact gives -/

/-- An executable was either taken out of the artifact or compiled from its source. -/
theorem resolve_spec {options : Permission} {x : Resolved} (h : resolve r name text options = .ok x)
    (he : x.executable = some e) :
    (x.rebuilt = false ∧ options.force = false ∧ extract r text = ⟨.fresh, x.code, some e⟩) ∨
      (x.rebuilt = true ∧ x.code = pad (extract r text).code ∧ r.compile name x.code = .ok e) := by
  unfold resolve at h
  simp only at h
  split at h
  case isTrue htaken =>
    cases h
    rw [Bool.and_eq_true] at htaken
    exact Or.inl ⟨rfl, by simpa using htaken.2, extract_fresh he⟩
  case isFalse =>
    split at h
    case isTrue =>
      obtain ⟨e', hcompile, h⟩ := bind_eq_ok.mp h
      cases h
      cases he
      exact Or.inr ⟨rfl, rfl, hcompile⟩
    case isFalse =>
      split at h
      case h_1 => cases h
      case h_2 =>
        cases h
        cases he

/-- Without leave to compile, a fresh artifact gives what is stored in it, and any other one gives nothing. -/
theorem resolve_unpermitted (r : Registry) (name text : Text) :
    (∀ e, (extract r text).executable = some e →
      resolve r name text ⟨false, false⟩ = .ok ⟨some e, (extract r text).code, .fresh, false⟩) ∧
    ((extract r text).executable = none →
      (∃ fault, resolve r name text ⟨false, false⟩ = .error (.malformedTrailer name fault)) ∨
        resolve r name text ⟨false, false⟩ =
          .ok ⟨none, (extract r text).code, (extract r text).validation, false⟩) := by
  constructor
  · intro e he
    rw [resolve, extract_fresh he]
    rfl
  · intro hnone
    unfold resolve
    simp only [hnone, Option.isSome_none, Bool.false_and, Bool.false_eq_true, if_false, Bool.or_self]
    split
    · exact .inl ⟨_, rfl⟩
    · exact .inr rfl

/-! ## Settled artifacts -/

/-- Using the artifact gives an executable with this record and, where it is compiled for that, the artifact
itself again. -/
structure Settled (r : Registry) (name text : Text) (force : Bool) (record : Record) : Prop where
  fresh : (extract r text).validation = .fresh
  used : ∃ x e, resolve r name text ⟨true, force⟩ = .ok x ∧ x.executable = some e ∧
    e.toRecord = .ok record ∧ (x.rebuilt = true → merge x.code e = .ok text)

/-- The stored executable is used again. -/
theorem settled_of_fresh {code : Text} (h : extract r text = ⟨.fresh, code, some e⟩)
    (hrecord : e.toRecord = .ok record) : Settled r name text false record := by
  have hresolve : resolve r name text ⟨true, false⟩ = .ok ⟨some e, code, .fresh, false⟩ := by
    rw [resolve, h]
    rfl
  exact ⟨by rw [h], _, e, hresolve, rfl, hrecord, nofun⟩

/-- What was compiled is settled, whether it is used as it is or compiled once more. -/
theorem settled_of_recompile (hr : r.engines = [g]) (hg : g.isSerializable = true)
    (h : recompile r name text = .ok (e, m)) (hserializable : e.engine.isSerializable = true)
    (hfits : Fits e.code (storedBlock e e.code)) (force : Bool) : Settled r name m force e.form := by
  have hextract := extract_recompile hr h hserializable hfits
  cases force with
  | false =>
    refine settled_of_fresh hextract ?_
    rw [Executable.toRecord_eq (by rw [Executable.stored_engine, hg]), Executable.stored_form]
  | true =>
    obtain ⟨-, hpad, hcompile, hmerge⟩ := recompile_spec h
    have hresolve : resolve r name m ⟨true, true⟩ = .ok ⟨some e, e.code, .fresh, true⟩ := by
      rw [resolve, hextract]
      simp only [hpad, hcompile, Bool.not_true, Bool.and_false, Bool.false_eq_true, if_false, Bool.true_or, if_true,
        bind, Except.bind, pure, Except.pure]
    exact ⟨by rw [hextract], _, e, hresolve, rfl, Executable.toRecord_eq hserializable, fun _ => hmerge⟩

end SealedScript.Artifact
