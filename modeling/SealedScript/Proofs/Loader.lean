import SealedScript.Loader
import SealedScript.Proofs.Artifact.Settled
import SealedScript.Proofs.Store

/-!
What a loader remembers and what a load does.

Operations on a loader change what it remembers about one artifact at most (`memo?_withEntry`, `memo?_forget`,
`memo?_invalidate`). A load that reads the store answers with what it read (`readStore_eq_ok`) and leaves what it
wrote back (`loadStore_eq`, `loadStore_spec`).
-/

namespace SealedScript
set_option autoImplicit false

theorem LoadEntry.lookup_put (name key : Text) (entry : LoadEntry) (entries : List (Text × LoadEntry)) :
    (LoadEntry.put name entry entries).lookup key = if key = name then some entry else entries.lookup key := by
  induction entries with
  | nil => rw [put, Text.lookup_cons]
  | cons first rest ih =>
    obtain ⟨other, old⟩ := first
    by_cases hsame : other = name
    · subst hsame
      by_cases h : key = other <;> simp [put, Text.lookup_cons, h]
    · by_cases h : key = other
      · simp [put, hsame, h]
      · simp [put, Text.lookup_cons, hsame, h, ih]

theorem LoadEntry.lookup_filter (name key : Text) (entries : List (Text × LoadEntry)) :
    (entries.filter fun entry => entry.1 != name).lookup key =
      if key = name then none else entries.lookup key := by
  induction entries with
  | nil => simp
  | cons first rest ih =>
    obtain ⟨other, entry⟩ := first
    by_cases hsame : other = name
    · subst hsame
      have hdrop : ((other, entry) :: rest).filter (fun entry => entry.1 != other) =
          rest.filter fun entry => entry.1 != other := by simp
      rw [hdrop, ih, Text.lookup_cons]
      by_cases h : key = other <;> simp [h]
    · have hkeep : ((other, entry) :: rest).filter (fun entry => entry.1 != name) =
          (other, entry) :: rest.filter fun entry => entry.1 != name := by simp [hsame]
      rw [hkeep, Text.lookup_cons, Text.lookup_cons, ih]
      by_cases h : key = other
      · have hdiffer : ¬ key = name := fun heq => hsame (h.symm.trans heq)
        rw [if_pos h, if_neg hdiffer, if_pos h]
      · rw [if_neg h, if_neg h]

namespace Loader

variable {l : Loader} {store : Store} {disk : FileTree} {text : Text}

/-! ## What is remembered -/

theorem memo?_withEntry (l : Loader) (name other : Text) (entry : LoadEntry) :
    (l.withEntry name entry).memo? other = if other = name then entry.executable? else l.memo? other := by
  rw [memo?, entry?, withEntry, LoadEntry.lookup_put]
  by_cases h : other = name
  · rw [if_pos h, if_pos h, Option.bind_some]
  · rw [if_neg h, if_neg h]
    rfl

theorem memo?_forget (l : Loader) (name other : Text) :
    (l.forget name).2.memo? other = if other = name then none else l.memo? other := by
  rw [memo?, entry?, forget, LoadEntry.lookup_filter]
  by_cases h : other = name
  · rw [if_pos h, if_pos h, Option.bind_none]
  · rw [if_neg h, if_neg h]
    rfl

theorem memo?_invalidate (l : Loader) (name other : Text) :
    (l.invalidate name).2.memo? other = if other = name then none else l.memo? other := by
  unfold invalidate
  by_cases htracks : l.tracks name = true
  · simp only [htracks, if_true, memo?_withEntry]
    rfl
  · simp only [htracks, if_false, Bool.false_eq_true]
    by_cases h : other = name
    · rw [if_pos h, h, memo?]
      rw [tracks, Bool.not_eq_true, Option.isSome_eq_false_iff, Option.isNone_iff_eq_none] at htracks
      rw [htracks, Option.bind_none]
    · rw [if_neg h]

theorem invalidate_kept (l : Loader) (name : Text) :
    (l.invalidate name).2.registry = l.registry ∧ (l.invalidate name).2.policy = l.policy := by
  unfold invalidate
  split
  · exact ⟨rfl, rfl⟩
  · exact ⟨rfl, rfl⟩

/-- A new loader remembers nothing and knows the engines of its registry. -/
theorem make_spec {r : Registry} {policy : Policy} (h : make r policy = .ok l) :
    l.registry.engines = r.engines ∧ l.policy = policy ∧ ∀ name, l.memo? name = none := by
  unfold make at h
  split at h
  case isTrue => cases h
  case isFalse =>
    dsimp only at h
    split at h
    case h_1 name =>
      obtain ⟨r', hregistry, h⟩ := bind_eq_ok.mp h
      cases h
      exact ⟨Registry.setDefault_engines hregistry, rfl, fun name => rfl⟩
    case h_2 =>
      cases h
      exact ⟨rfl, rfl, fun name => rfl⟩

/-! ## Writing back -/

theorem writeBack_same {current code : Text} {e : Executable} (h : Artifact.merge code e = .ok current) :
    writeBack store disk current code e = (.unneeded, store, disk) := by
  rw [writeBack, h]
  simp only [if_true]

theorem writeBack_saved {current code merged : Text} {e : Executable} (h : Artifact.merge code e = .ok merged)
    (hdiffer : merged ≠ current) (hsave : (store.save disk merged).result = .ok ()) :
    writeBack store disk current code e =
      (.written merged, (store.save disk merged).store, (store.save disk merged).disk) := by
  rw [writeBack, h]
  simp only [if_neg hdiffer, hsave]

/-! ## Loads -/

theorem readStore_eq_ok {x : Artifact.Resolved} {e : Executable} :
    l.readStore store disk = .ok (text, x, e) ↔
      store.load disk = .ok text ∧ Artifact.resolve l.registry store.name text l.options = .ok x ∧
        x.executable = some e := by
  unfold readStore
  constructor
  · intro h
    obtain ⟨text', htext, h⟩ := bind_eq_ok.mp h
    obtain ⟨x', hx, h⟩ := bind_eq_ok.mp h
    split at h
    case h_1 e' he =>
      cases h
      exact ⟨htext, hx, he⟩
    case h_2 => cases h
  · rintro ⟨htext, hx, he⟩
    refine bind_eq_ok.mpr ⟨text, htext, bind_eq_ok.mpr ⟨x, hx, ?_⟩⟩
    simp only [he]
    rfl

/-- What is written back of an artifact that was put to use. -/
def backOf (l : Loader) (store : Store) (disk : FileTree) (text : Text) (x : Artifact.Resolved) (e : Executable) :
    WriteBack × Store × FileTree :=
  if x.rebuilt && l.policy.writeBack then writeBack store disk text x.code e else (.unneeded, store, disk)

/-- Nothing is written if nothing was compiled or what was compiled is the text that was read. -/
theorem backOf_same {x : Artifact.Resolved} {e : Executable} (l : Loader)
    (h : x.rebuilt = true → Artifact.merge x.code e = .ok text) :
    l.backOf store disk text x e = (.unneeded, store, disk) := by
  unfold backOf
  split
  case isTrue hrebuilt => exact writeBack_same (h (Bool.and_eq_true_iff.mp hrebuilt).1)
  case isFalse => rfl

theorem loadStore_eq {x : Artifact.Resolved} {e : Executable} (h : l.readStore store disk = .ok (text, x, e)) :
    l.loadStore store disk = ⟨.ok (report store.name text x e (l.backOf store disk text x e).1),
      l.withEntry store.name (.resolved e), (l.backOf store disk text x e).2.1, (l.backOf store disk text x e).2.2⟩ := by
  rw [loadStore, h]
  rfl

theorem loadStore_spec {loaded : Loaded} (h : (l.loadStore store disk).result = .ok loaded) :
    ∃ text x e, l.readStore store disk = .ok (text, x, e) ∧
      loaded = report store.name text x e (l.backOf store disk text x e).1 := by
  cases hread : l.readStore store disk with
  | error err =>
    rw [loadStore, hread] at h
    cases h
  | ok parts =>
    obtain ⟨text, x, e⟩ := parts
    rw [loadStore_eq hread, Except.ok.injEq] at h
    exact ⟨text, x, e, rfl, h.symm⟩

end Loader
end SealedScript
