import SealedScript.Proofs.FileTree.Rewriting
import SealedScript.Store

/-!
Stores keep what is saved in them: a memory store holds its text itself, and a file store finds it in the
file that it replaced (`load_save`). A store is read and saved alike in trees that differ in files alone, but for what
is read where its own path comes to an end (`load_apart`, `save_result_congr`).
-/

namespace SealedScript.Store
set_option autoImplicit false

variable {s : Store} {disk : FileTree} {text : Text}

theorem save_name (s : Store) (disk : FileTree) (text : Text) : (s.save disk text).store.name = s.name := by
  unfold save
  split
  · cases s with
    | memory name writable old saves => rfl
    | file path writable => rfl
  · rfl

/-- **What was saved is loaded.** -/
theorem load_save (h : (s.save disk text).result = .ok ()) :
    (s.save disk text).store.load (s.save disk text).disk = .ok text := by
  unfold save at h ⊢
  by_cases hwritable : s.isWritable = true
  · rw [if_pos hwritable] at h ⊢
    cases s with
    | memory name writable old saves => rfl
    | file path writable =>
      have hreplace : disk.replace path text = (.ok (), (disk.replace path text).2) := Prod.ext h rfl
      show (FileTree.read (disk.replace path text).2 path).mapError (Failure.file path) = .ok text
      rw [FileTree.read_replace hreplace]
      rfl
  · rw [if_neg hwritable] at h
    cases h

/-! ## Stores of other files -/

/-- The place that decides what a store yields, if it is one of a tree. -/
def deciding? (s : Store) (disk : FileTree) : Option (List Text) :=
  match s with
  | .memory .. => none
  | .file path _ => disk.deciding? path

variable {disk' : FileTree}

theorem load_apart {but : List (List Text)} (h : disk.SameDirectories disk') (hfiles : disk.SameFiles but disk')
    (hplace : ∀ place, s.deciding? disk = some place → place ∉ but) : s.load disk' = s.load disk := by
  cases s with
  | memory name writable text saves => rfl
  | file path writable => rw [load, load, FileTree.read_apart h hfiles hplace]

theorem save_result_congr {old : Text} (h : disk.SameDirectories disk') (hload : s.load disk = .ok old)
    (hsame : s.load disk' = s.load disk) (text : Text) : (s.save disk' text).result = (s.save disk text).result := by
  rw [hload] at hsame
  unfold save
  split
  case isTrue =>
    cases s with
    | memory name writable held saves => rfl
    | file path writable =>
      exact FileTree.replace_result_congr h (mapError_eq_ok.mp hload) (mapError_eq_ok.mp hsame) text
  case isFalse => rfl

end SealedScript.Store
