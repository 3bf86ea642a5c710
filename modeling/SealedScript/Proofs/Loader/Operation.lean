import SealedScript.Proofs.Loader

/-!
The operations on a loader, one by one: which artifacts it has entries for (`tracks_load`, `tracks_forget`), what it
remembers after a load (`memo?_load`), and which files a load may change (`load_disk`).

What an artifact yields depends on its own entry, on the registry and on the policy, and on nothing else
(`Alike.intro`).
-/

namespace SealedScript
set_option autoImplicit false

namespace LoadEntry

def names (entries : List (Text × LoadEntry)) : List Text := entries.map Prod.fst

theorem names_cons (first : Text × LoadEntry) (rest : List (Text × LoadEntry)) :
    names (first :: rest) = first.1 :: names rest := rfl

theorem lookup_isSome_iff {entries : List (Text × LoadEntry)} {name : Text} :
    (entries.lookup name).isSome = true ↔ name ∈ names entries := by
  rw [List.lookup_isSome_iff, names, List.mem_map]
  constructor
  · rintro ⟨entry, hmem, hname⟩
    exact ⟨entry, hmem, (eq_of_beq hname).symm⟩
  · rintro ⟨entry, hmem, rfl⟩
    exact ⟨entry, hmem, beq_self_eq_true _⟩

theorem names_put (name : Text) (entry : LoadEntry) (entries : List (Text × LoadEntry)) :
    names (put name entry entries) =
      if name ∈ names entries then names entries else names entries ++ [name] := by
  induction entries with
  | nil => rfl
  | cons first rest ih =>
    by_cases hsame : first.1 = name
    · simp [put, names_cons, hsame]
    · have hdiffer : ¬ name = first.1 := fun h => hsame h.symm
      simp only [put, beq_iff_eq, hsame, if_false, names_cons, ih, List.mem_cons, hdiffer, false_or]
      split
      · rfl
      · rw [List.cons_append]

theorem nodup_put {name : Text} {entry : LoadEntry} {entries : List (Text × LoadEntry)}
    (h : (names entries).Nodup) : (names (put name entry entries)).Nodup := by
  rw [names_put]
  split
  case isTrue => exact h
  case isFalse hnew =>
    refine List.nodup_append.mpr ⟨h, by simp, fun other hother added hadded heq => hnew ?_⟩
    rw [List.mem_singleton] at hadded
    rwa [← hadded, ← heq]

theorem nodup_filter {keeps : Text × LoadEntry → Bool} {entries : List (Text × LoadEntry)}
    (h : (names entries).Nodup) : (names (entries.filter keeps)).Nodup :=
  h.sublist (List.filter_sublist.map Prod.fst)

end LoadEntry

namespace Loader

variable {l l' : Loader} {store : Store} {disk : FileTree}

/-! ## One operation -/

theorem tracks_iff {name : Text} : l.tracks name = true ↔ name ∈ LoadEntry.names l.entries :=
  LoadEntry.lookup_isSome_iff

theorem tracks_of_memo {name : Text} {e : Executable} (h : l.memo? name = some e) : l.tracks name = true := by
  obtain ⟨entry, hentry, -⟩ := Option.bind_eq_some_iff.mp h
  rw [tracks, hentry]
  rfl

theorem tracks_withEntry (l : Loader) (name other : Text) (entry : LoadEntry) :
    (l.withEntry name entry).tracks other = true ↔ other = name ∨ l.tracks other = true := by
  rw [tracks, entry?, withEntry, LoadEntry.lookup_put]
  by_cases h : other = name
  · simp [h]
  · simp [h, tracks, entry?]

theorem tracks_forget (l : Loader) (name other : Text) :
    (l.forget name).2.tracks other = true ↔ other ≠ name ∧ l.tracks other = true := by
  rw [tracks, entry?, forget, LoadEntry.lookup_filter]
  by_cases h : other = name
  · simp [h]
  · simp [h, tracks, entry?]

theorem tracks_invalidate (l : Loader) (name other : Text) :
    (l.invalidate name).2.tracks other = true ↔ l.tracks other = true := by
  unfold invalidate
  by_cases htracks : l.tracks name = true
  · rw [if_pos htracks, tracks_withEntry]
    constructor
    · rintro (rfl | h)
      · exact htracks
      · exact h
    · exact Or.inr
  · rw [if_neg htracks]

theorem load_memoized {e : Executable} (h : l.memo? store.name = some e) :
    l.load store disk = ⟨.ok ⟨store.name, .memoized, e, .unneeded, none⟩, l, store, disk⟩ := by rw [load, h]

theorem load_unremembered (h : l.memo? store.name = none) : l.load store disk = l.loadStore store disk := by
  rw [load, h]

theorem executable_of_memo {e : Executable} {loaded : Loaded} (h : l.memo? store.name = some e)
    (hresult : (l.load store disk).result = .ok loaded) : loaded.executable = e := by
  rw [load_memoized h, Except.ok.injEq] at hresult
  rw [← hresult]

theorem memo?_of_error {err : Failure} (h : (l.load store disk).result = .error err) : l.memo? store.name = none := by
  cases hmemo : l.memo? store.name with
  | none => rfl
  | some e =>
    rw [load_memoized hmemo] at h
    cases h

/-- Reading a store does not depend on what is remembered. -/
theorem loadStore_alike (hregistry : l'.registry = l.registry) (hpolicy : l'.policy = l.policy) (store : Store)
    (disk : FileTree) :
    (l'.loadStore store disk).result = (l.loadStore store disk).result ∧
      (l'.loadStore store disk).store = (l.loadStore store disk).store ∧
      (l'.loadStore store disk).disk = (l.loadStore store disk).disk := by
  have hread : l'.readStore store disk = l.readStore store disk := by
    simp only [readStore, options, hregistry, hpolicy]
  cases hstore : l.readStore store disk with
  | error err =>
    rw [loadStore, loadStore, hread, hstore]
    exact ⟨rfl, rfl, rfl⟩
  | ok parts =>
    obtain ⟨text, x, e⟩ := parts
    rw [loadStore_eq hstore, loadStore_eq (hread.trans hstore), backOf, backOf, hpolicy]
    exact ⟨rfl, rfl, rfl⟩

/-- What a load gives is remembered; a load that fails leaves nothing. -/
theorem memo?_load (l : Loader) (store : Store) (disk : FileTree) (name : Text) :
    (l.load store disk).loader.memo? name =
      if name = store.name then (l.load store disk).result.toOption.map Loaded.executable else l.memo? name := by
  cases hmemo : l.memo? store.name with
  | some e =>
    rw [load_memoized hmemo]
    by_cases h : name = store.name
    · rw [if_pos h, h, hmemo]
      rfl
    · rw [if_neg h]
  | none =>
    rw [load_unremembered hmemo]
    cases hread : l.readStore store disk with
    | error err =>
      have hold : ((l.entry? store.name).getD .unresolved).executable? = none := by
        cases hentry : l.entry? store.name with
        | none => rfl
        | some entry => rwa [memo?, hentry, Option.bind_some] at hmemo
      rw [loadStore, hread]
      simp only [memo?_withEntry, hold]
      rfl
    | ok parts =>
      rw [loadStore_eq hread, memo?_withEntry]
      rfl

theorem load_kept (l : Loader) (store : Store) (disk : FileTree) :
    (l.load store disk).loader.registry = l.registry ∧ (l.load store disk).loader.policy = l.policy := by
  cases hmemo : l.memo? store.name with
  | some e =>
    rw [load_memoized hmemo]
    exact ⟨rfl, rfl⟩
  | none =>
    rw [load_unremembered hmemo, loadStore]
    split
    · exact ⟨rfl, rfl⟩
    · exact ⟨rfl, rfl⟩

/-- A load leaves the loader as it is or puts one entry in. -/
theorem load_entries (l : Loader) (store : Store) (disk : FileTree) :
    (l.tracks store.name = true ∧ (l.load store disk).loader = l) ∨
      ∃ entry, (l.load store disk).loader = l.withEntry store.name entry := by
  cases hmemo : l.memo? store.name with
  | some e => exact .inl ⟨tracks_of_memo hmemo, by rw [load_memoized hmemo]⟩
  | none =>
    rw [load_unremembered hmemo, loadStore]
    split
    · exact .inr ⟨_, rfl⟩
    · exact .inr ⟨_, rfl⟩

theorem tracks_load (l : Loader) (store : Store) (disk : FileTree) (name : Text) :
    (l.load store disk).loader.tracks name = true ↔ name = store.name ∨ l.tracks name = true := by
  rcases l.load_entries store disk with ⟨htracks, hsame⟩ | ⟨entry, hentry⟩
  · rw [hsame]
    constructor
    · exact Or.inr
    · rintro (rfl | h)
      · exact htracks
      · exact h
  · rw [hentry, tracks_withEntry]

/-- What comes of writing back depends on what saving comes to. -/
theorem writeBack_congr {disk' : FileTree}
    (hsave : ∀ merged, (store.save disk' merged).result = (store.save disk merged).result)
    (current code : Text) (e : Executable) :
    (writeBack store disk' current code e).1 = (writeBack store disk current code e).1 := by
  unfold writeBack
  split
  case h_1 => rfl
  case h_2 merged _ =>
    split
    case isTrue => rfl
    case isFalse =>
      simp only [hsave merged]
      split <;> rfl

/-- **What a load gives** depends on the text of the store and on what saving in it comes to. -/
theorem load_result_congr (l : Loader) {disk' : FileTree} (hload : store.load disk' = store.load disk)
    (hsave : ∀ current, store.load disk = .ok current → ∀ merged,
      (store.save disk' merged).result = (store.save disk merged).result) :
    (l.load store disk').result = (l.load store disk).result := by
  cases hmemo : l.memo? store.name with
  | some e => rw [load_memoized hmemo, load_memoized hmemo]
  | none =>
    rw [load_unremembered hmemo, load_unremembered hmemo]
    have hsame : l.readStore store disk' = l.readStore store disk := by rw [readStore, readStore, hload]
    cases hread : l.readStore store disk with
    | error err => rw [loadStore, loadStore, hsame, hread]
    | ok parts =>
      obtain ⟨text, x, e⟩ := parts
      have hback : (l.backOf store disk' text x e).1 = (l.backOf store disk text x e).1 := by
        unfold backOf
        split
        case isTrue => exact writeBack_congr (hsave text (readStore_eq_ok.mp hread).1) text x.code e
        case isFalse => rfl
      rw [loadStore_eq hread, loadStore_eq (hsame.trans hread), hback]

/-! ## What an artifact yields -/

/-- Whatever is asked about the artifact, the two loaders answer the same, and a load leaves the same text. -/
structure Alike (name : Text) (l l' : Loader) : Prop where
  load : ∀ store disk, store.name = name → (l'.load store disk).result = (l.load store disk).result ∧
    (l'.load store disk).store = (l.load store disk).store ∧ (l'.load store disk).disk = (l.load store disk).disk
  resolved : l'.isResolved name = l.isResolved name
  invalidate : (l'.invalidate name).1 = (l.invalidate name).1
  forget : (l'.forget name).1 = (l.forget name).1

theorem Alike.intro {name : Text} (hregistry : l'.registry = l.registry) (hpolicy : l'.policy = l.policy)
    (hmemo : l'.memo? name = l.memo? name) (htracks : l'.tracks name = l.tracks name) : Alike name l l' where
  load := by
    rintro store disk rfl
    cases hold : l.memo? store.name with
    | some e =>
      rw [load_memoized hold, load_memoized (hmemo.trans hold)]
      exact ⟨rfl, rfl, rfl⟩
    | none =>
      rw [load_unremembered hold, load_unremembered (hmemo.trans hold)]
      exact loadStore_alike hregistry hpolicy store disk
  resolved := congrArg Option.isSome hmemo
  invalidate := congrArg Option.isSome hmemo
  forget := htracks

end Loader

end SealedScript
