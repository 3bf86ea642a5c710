import SealedScript.FileTree.Node

/-!
What stands at a place of a tree.

Of a directory no more is seen than that it is one, and of a file its text. A file or an empty directory that is put
into a directory changes what is seen at its own place and nowhere else (`at?_insert_leaf`), and so does a file that is
taken away (`at?_erase`).
-/

namespace SealedScript.Node
set_option autoImplicit false

inductive Standing
  | file (text : Text)
  | directory

def standing : Node → Standing
  | .file text => .file text
  | .directory _ => .directory

def at? (root : Node) (place : List Text) : Option Standing := (root.get? place).map standing

theorem at?_nil (root : Node) : root.at? [] = some root.standing := by
  rw [at?, get?_nil, Option.map_some]

theorem at?_file (text name : Text) (rest : List Text) : (file text).at? (name :: rest) = none := by
  rw [at?, get?, Option.map_none]

theorem at?_directory (entries : List (Text × Node)) (name : Text) (rest : List Text) :
    (directory entries).at? (name :: rest) = (entries.lookup name).bind fun below => below.at? rest := by
  rw [at?, get?]
  cases entries.lookup name with
  | none => rfl
  | some below => rfl

theorem eq_directory {root : Node} (h : root.standing = .directory) : ∃ entries, root = .directory entries := by
  cases root with
  | file text => cases h
  | directory entries => exact ⟨entries, rfl⟩

theorem eq_file {root : Node} {text : Text} (h : root.standing = .file text) : root = .file text := by
  cases root with
  | file other =>
    cases h
    rfl
  | directory entries => cases h

/-- Whatever stands below the first name of a place stands in a directory. -/
theorem at?_cons {root : Node} {name : Text} {rest : List Text} {s : Standing}
    (h : root.at? (name :: rest) = some s) :
    ∃ entries below, root = .directory entries ∧ entries.lookup name = some below ∧ below.at? rest = some s := by
  cases root with
  | file text =>
    rw [at?_file] at h
    cases h
  | directory entries =>
    rw [at?_directory, Option.bind_eq_some_iff] at h
    obtain ⟨below, hbelow, hrest⟩ := h
    exact ⟨entries, below, rfl, hbelow, hrest⟩

/-! ## Changes -/

/-- **Putting a node below which nothing stands** where no directory stands changes what stands there alone. -/
theorem at?_insert_leaf {root child : Node} {parent : List Text} {name : Text}
    (hleaf : ∀ key rest, child.at? (key :: rest) = none) (hparent : root.at? parent = some .directory)
    (hfree : root.at? (parent ++ [name]) ≠ some .directory) (place : List Text) :
    (insert child (parent ++ [name]) root).at? place =
      if place = parent ++ [name] then some child.standing else root.at? place := by
  induction parent generalizing root place with
  | nil =>
    rw [at?_nil, Option.some.injEq] at hparent
    obtain ⟨entries, rfl⟩ := eq_directory hparent
    have hinsert : insert child [name] (.directory entries) = .directory (put name child entries) := by
      rw [insert]
      cases entries.lookup name with
      | none => rfl
      | some below => rfl
    rw [List.nil_append, hinsert]
    cases place with
    | nil => simp [at?_nil, standing]
    | cons key rest =>
      rw [at?_directory, at?_directory, lookup_put]
      by_cases hkey : key = name
      · subst hkey
        cases rest with
        | nil => simp [at?_nil]
        | cons below rest =>
          -- Nothing stands below that place, neither before nor after.
          have hnone : ((entries.lookup key).bind fun child => child.at? (below :: rest)) = none := by
            rw [List.nil_append, at?_directory] at hfree
            cases hlookup : entries.lookup key with
            | none => rfl
            | some child =>
              cases child with
              | file other => exact at?_file other below rest
              | directory others =>
                rw [hlookup] at hfree
                exact absurd (at?_nil (.directory others)) hfree
          simp [hleaf, hnone]
      · simp [hkey]
  | cons first parent ih =>
    obtain ⟨entries, below, rfl, hlookup, hbelow⟩ := at?_cons hparent
    have hrest : below.at? (parent ++ [name]) ≠ some .directory := by
      rwa [List.cons_append, at?_directory, hlookup, Option.bind_some] at hfree
    have hinsert : insert child (first :: parent ++ [name]) (.directory entries) =
        .directory (put first (insert child (parent ++ [name]) below) entries) := by
      rw [List.cons_append, insert, hlookup]
    rw [hinsert]
    cases place with
    | nil => simp [at?_nil, standing]
    | cons key rest =>
      rw [at?_directory, at?_directory, lookup_put]
      by_cases hkey : key = first
      · subst hkey
        simp [ih hbelow hrest, hlookup]
      · simp [hkey]

theorem at?_insert {root : Node} {parent : List Text} {name : Text} (text : Text)
    (hparent : root.at? parent = some .directory) (hfree : root.at? (parent ++ [name]) ≠ some .directory)
    (place : List Text) :
    (insert (.file text) (parent ++ [name]) root).at? place =
      if place = parent ++ [name] then some (.file text) else root.at? place :=
  at?_insert_leaf (at?_file text) hparent hfree place

/-- A new directory is seen as one, and nothing in it. -/
theorem at?_insert_directory {root : Node} {parent : List Text} {name : Text}
    (hparent : root.at? parent = some .directory) (hfree : root.at? (parent ++ [name]) = none) (place : List Text) :
    (insert (.directory []) (parent ++ [name]) root).at? place =
      if place = parent ++ [name] then some .directory else root.at? place :=
  at?_insert_leaf (fun _ _ => rfl) hparent (by rw [hfree]; nofun) place

/-- **Taking a file away** changes what stands at its place alone. -/
theorem at?_erase {root : Node} {target : List Text} {text : Text}
    (htarget : root.at? target = some (.file text)) (hne : target ≠ []) (place : List Text) :
    (erase target root).at? place = if place = target then none else root.at? place := by
  induction target generalizing root place with
  | nil => exact absurd rfl hne
  | cons name target ih =>
    obtain ⟨entries, below, rfl, hlookup, hbelow⟩ := at?_cons htarget
    have herase : erase (name :: target) (.directory entries) =
        .directory (if target.isEmpty then take name entries else put name (erase target below) entries) := by
      rw [erase, hlookup]
    rw [herase]
    cases place with
    | nil => simp [at?_nil, standing]
    | cons key rest =>
      rw [at?_directory, at?_directory]
      cases target with
      | nil =>
        rw [at?_nil, Option.some.injEq] at hbelow
        rw [List.isEmpty_nil, if_pos rfl, lookup_take]
        by_cases hkey : key = name
        · subst hkey
          rw [hlookup, eq_file hbelow]
          cases rest with
          | nil => simp
          | cons other rest => simp [at?_file]
        · simp [hkey]
      | cons next target =>
        rw [List.isEmpty_cons, if_neg Bool.false_ne_true, lookup_put]
        by_cases hkey : key = name
        · subst hkey
          simp [ih hbelow (List.cons_ne_nil next target), hlookup]
        · simp [hkey]

end SealedScript.Node
