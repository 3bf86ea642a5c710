import SealedScript.Proofs.FileTree.Path
import SealedScript.Proofs.FileTree.Replace

/-!
What replacing a file leaves alone.

Only files count here, each at the place where it is: the names that lead to it from the root. Directories that are
created change none of them. What is written and renamed changes the file at the path and the one at the temporary path
beside it, which is taken whatever file is there, and where a failure may leave any text (`replace_frame`,
`temporary_taken`). Whatever device the tree is on, this holds of what it lets through and of what it breaks.
-/

namespace SealedScript
set_option autoImplicit false

namespace FileTree

variable {t t' u : FileTree} {path text : Text} {but : List (List Text)} {place : List Text}

/-! ## Files -/

/-- The text of the file at a place, if there is one. -/
def fileAt? (t : FileTree) (place : List Text) : Option Text :=
  match t.root.at? place with
  | some (.file text) => some text
  | _ => none

/-- The place to which a path leads, whether or not anything is there. -/
def placeOf (t : FileTree) (path : Text) : Except FileFault (List Text) := do
  let e ← t.endOf (← Path.ofText path)
  match e.name? with
  | some name => return (name :: e.directory).reverse
  | none => throw .isDirectory

/-- The files of the trees are the same but at some places. -/
def SameFiles (but : List (List Text)) (t t' : FileTree) : Prop :=
  ∀ place, place ∉ but → t'.fileAt? place = t.fileAt? place

theorem SameFiles.refl (but : List (List Text)) (t : FileTree) : SameFiles but t t := fun _ _ => rfl

theorem SameFiles.mono {but' : List (List Text)} (h : SameFiles but t t') (hsub : but ⊆ but') : SameFiles but' t t' :=
  fun place hplace => h place fun hmem => hplace (hsub hmem)

theorem SameFiles.trans (h : SameFiles but t t') (h' : SameFiles but t' u) : SameFiles but t u :=
  fun place hplace => (h' place hplace).trans (h place hplace)

theorem fileAt?_congr (h : t'.root.at? place = t.root.at? place) : t'.fileAt? place = t.fileAt? place := by
  rw [fileAt?, fileAt?, h]

theorem placeOf_eq_ok {p : Path} {e : End} {name : Text} (hp : Path.ofText path = .ok p) (he : t.endOf p = .ok e)
    (hname : e.name? = some name) : t.placeOf path = .ok (name :: e.directory).reverse := by
  rw [placeOf, hp]
  show (t.endOf p >>= _) = _
  rw [he]
  show (match e.name? with | some name => _ | none => _) = _
  rw [hname]
  rfl

/-- Paths lead to the same places in trees with the same directories. -/
theorem SameDirectories.placeOf (h : SameDirectories t t') (hplace : t.placeOf path = .ok place) :
    t'.placeOf path = .ok place := by
  obtain ⟨p, hp, hplace⟩ := bind_eq_ok.mp hplace
  obtain ⟨e, he, hplace⟩ := bind_eq_ok.mp hplace
  obtain ⟨e', he', hdirectory, hname⟩ := endOf_directory h he
  split at hplace
  case h_1 name hsome =>
    cases hplace
    rw [placeOf_eq_ok hp he' (hname.trans hsome), hdirectory]
  case h_2 => cases hplace

/-! ## Creating directories -/

theorem makeDirectory_files (h : t.makeDirectory path = .ok t') : SameFiles [] t t' := by
  obtain ⟨p, -, h⟩ := bind_eq_ok.mp h
  obtain ⟨e, he, h⟩ := bind_eq_ok.mp h
  split at h
  case h_1 => cases h
  case h_2 name hname =>
    split at h
    case isTrue => cases h
    case isFalse =>
      split at h
      case isTrue => cases h
      case isFalse hfree =>
        split at h
        case h_1 => cases h
        case h_2 =>
          cases h
          obtain ⟨hdirectory, hlookup⟩ := at?_endOf he name
          rw [Option.not_isSome_iff_eq_none.mp hfree, Option.map_none, List.reverse_cons] at hlookup
          intro place _
          have hview := Node.at?_insert_directory hdirectory hlookup place
          rw [fileAt?, fileAt?, put, List.reverse_cons, hview]
          by_cases hplace : place = e.directory.reverse ++ [name]
          · rw [if_pos hplace, hplace, hlookup]
          · rw [if_neg hplace]

theorem settle_files {made : Except FileFault FileTree} (h : ∀ t', made = .ok t' → SameFiles [] t t') :
    SameFiles [] t (t.settle path made).2 := by
  cases made with
  | ok t' => exact h t' rfl
  | error fault => exact SameFiles.refl [] t

/-- **Directories that are created change no file**, also when not all of them can be created. -/
theorem makeDirectories_files (t : FileTree) (paths : List Text) : SameFiles [] t (t.makeDirectories paths).2 := by
  induction paths with
  | nil => exact SameFiles.refl [] t
  | cons path inFront ih =>
    rw [makeDirectories]
    split
    case h_1 =>
      split
      case h_1 prepared hprepared =>
        rw [hprepared] at ih
        exact ih.trans (settle_files fun _ => makeDirectory_files)
      case h_2 => exact ih
    case h_2 => exact settle_files fun _ => makeDirectory_files

/-! ## Replacing a file -/

/-- Two paths that are read alike up to their last step end in the same directory. -/
theorem endOf_beside {p q : Path} {e f : End} (hp : t.endOf p = .ok e) (hq : t.endOf q = .ok f)
    (habsolute : p.absolute = q.absolute) (hfront : p.front = q.front) : e.directory = f.directory := by
  obtain ⟨spot, hspot, -, hdirectory, -⟩ := endOf_eq_ok.mp hp
  obtain ⟨spot', hspot', -, hdirectory', -⟩ := endOf_eq_ok.mp hq
  rw [follow, habsolute, hfront] at hspot
  have hsame : spot = spot' := Except.ok.inj (hspot.symm.trans hspot')
  rw [hdirectory, hdirectory', hsame]

theorem put_files {directory : List Text} {name : Text} (h : t.target path = .ok (directory, name)) (text : Text) :
    t.placeOf path = .ok (name :: directory).reverse ∧
      SameFiles [(name :: directory).reverse] t (t.put directory name (.file text)) := by
  obtain ⟨-, hview⟩ := put_target h text
  obtain ⟨p, e, hp, he, rfl, hname, -⟩ := target_eq_ok h
  refine ⟨placeOf_eq_ok hp he hname, fun place hplace => fileAt?_congr ?_⟩
  rw [hview, if_neg fun heq => hplace (List.mem_singleton.mpr heq)]

/-- A write touches no file but the one that it is about, whether it succeeds or fails. -/
theorem write_files {result : Except FileFault Unit} (h : t.write path text = (result, t')) :
    SameDirectories t t' ∧ (SameFiles [] t t' ∨ ∃ place, t.placeOf path = .ok place ∧ SameFiles [place] t t') := by
  cases result with
  | ok _ =>
    obtain ⟨directory, name, htarget, rfl⟩ := write_eq_ok h
    exact ⟨(put_target htarget text).1, Or.inr ⟨_, put_files htarget text⟩⟩
  | error fault =>
    rcases write_eq_error h with rfl | ⟨directory, name, kept, htarget, rfl⟩
    · exact ⟨SameDirectories.refl _, Or.inl (SameFiles.refl [] _)⟩
    · exact ⟨(put_target htarget kept).1, Or.inr ⟨_, put_files htarget kept⟩⟩

/-- A file that was replaced stands at its place with the new text, and nothing stands at the place of the temporary
path, which is another one. -/
theorem replace_files {after : FileTree} (h : t.replace path text = (.ok (), after)) :
    ∃ place beside, after.placeOf path = .ok place ∧ after.placeOf (temporary path) = .ok beside ∧ beside ≠ place ∧
      after.fileAt? place = some text ∧ after.fileAt? beside = none ∧ SameFiles [place, beside] t after := by
  obtain ⟨prepared, p, q, e, f, old, new, hprepared, hp, hq, he, hf, hold, hnew, hlong, hslashed, hview⟩ :=
    replace_spec h
  have hsameFiles := makeDirectories_files t (Path.ancestors path)
  rw [hprepared] at hsameFiles
  have hqname : q.name? = some new := by
    obtain ⟨-, -, -, -, hname⟩ := endOf_eq_ok.mp hf
    exact hname.symm.trans hnew
  have hpname : p.name? = some old := by
    obtain ⟨-, -, -, -, hname⟩ := endOf_eq_ok.mp he
    exact hname.symm.trans hold
  obtain ⟨habsolute, hfront, hlonger⟩ := Path.ofText_temporary hq hp hslashed hqname
  obtain rfl : old = new ++ ".tmp" := Option.some.inj (hpname.symm.trans hlonger)
  have hdiffer : (((new ++ ".tmp") :: e.directory).reverse) ≠ (new :: f.directory).reverse := by
    rw [endOf_beside he hf habsolute hfront, ne_eq, List.reverse_inj, List.cons.injEq]
    exact fun heq => absurd (List.append_right_eq_self.mp heq.1) (by decide)
  refine ⟨_, _, placeOf_eq_ok hq hf hnew, placeOf_eq_ok hp he hold, hdiffer, ?_, ?_, ?_⟩
  · rw [fileAt?, hview, if_pos rfl]
  · rw [fileAt?, hview, if_neg hdiffer, if_pos rfl]
  · refine (hsameFiles.mono (List.nil_subset _)).trans fun place hplace => fileAt?_congr ?_
    rw [List.mem_cons, List.mem_singleton, not_or] at hplace
    rw [hview, if_neg hplace.1, if_neg hplace.2]

/-- A failure changes no file, but for the temporary one when that cannot be written or when only the renaming
fails. -/
theorem replace_failed {failure : Failure} {after : FileTree} (h : t.replace path text = (.error failure, after)) :
    SameFiles [] t after ∨ ∃ fault beside,
      (failure = .file (temporary path) fault ∨ failure = .file path fault) ∧
      after.placeOf (temporary path) = .ok beside ∧ SameFiles [beside] t after := by
  have hsameFiles := makeDirectories_files t (Path.ancestors path)
  unfold replace at h
  simp only at h
  split at h
  case h_1 fault prepared hprepared =>
    cases h
    rw [hprepared] at hsameFiles
    exact Or.inl hsameFiles
  case h_2 prepared hprepared =>
    rw [hprepared] at hsameFiles
    split at h
    case h_1 fault left hwrite =>
      cases h
      obtain ⟨hsame, hleft | ⟨beside, hbeside, hleft⟩⟩ := write_files hwrite
      · exact Or.inl (hsameFiles.trans hleft)
      · exact Or.inr ⟨fault, beside, Or.inl rfl, hsame.placeOf hbeside,
          (hsameFiles.mono (List.nil_subset _)).trans hleft⟩
    case h_2 written hwrite =>
      split at h
      case h_1 fault hrename =>
        cases h
        obtain ⟨hsame, hwritten | ⟨beside, hbeside, hwritten⟩⟩ := write_files hwrite
        · exact Or.inl (hsameFiles.trans hwritten)
        · exact Or.inr ⟨fault, beside, Or.inr rfl, hsame.placeOf hbeside,
            (hsameFiles.mono (List.nil_subset _)).trans hwritten⟩
      case h_2 => cases h

/-- **Replacing a file touches two places.** When it succeeds, the path reads as the text, no file is at the temporary
path, which leads to another place, and every other file is as it was, none of them new. When it fails, no file has
changed, unless the temporary file could not be written or only the renaming failed: then the one at the temporary path
may be new or another one. -/
theorem replace_frame (t : FileTree) (path text : Text) :
    match t.replace path text with
    | (.ok (), after) => after.read path = .ok text ∧
        ∃ place beside, after.placeOf path = .ok place ∧ after.placeOf (temporary path) = .ok beside ∧
          beside ≠ place ∧ after.fileAt? place = some text ∧ after.fileAt? beside = none ∧
          SameFiles [place, beside] t after
    | (.error failure, after) => SameFiles [] t after ∨
        ∃ fault beside, (failure = .file (temporary path) fault ∨ failure = .file path fault) ∧
          after.placeOf (temporary path) = .ok beside ∧ SameFiles [beside] t after := by
  split
  case h_1 after h => exact ⟨read_replace h, replace_files h⟩
  case h_2 failure after h => exact replace_failed h

/-- A file stands where the text of another one is written first. -/
def taken : FileTree := ⟨.directory [("a.rpn.tmp", .file "keep")], [], .sound⟩

/-- A directory stands where a file is to be. -/
def blocked : FileTree := ⟨.directory [("a.rpn", .directory [])], [], .sound⟩

/-- A file can be opened, but not a byte be written to it. -/
def full : FileTree :=
  ⟨.directory [], [], { Device.sound with write := fun _ _ => .broken [] "No space left on device (os error 28)" }⟩

/-- The temporary path is no exception that could be left out: a file there is gone after a success, and one is left
there by a failure, of the renaming and of the writing. -/
theorem temporary_taken :
    (¬ ∀ (t : FileTree) (path text : Text) (after : FileTree), t.replace path text = (.ok (), after) →
      ∃ place, after.placeOf path = .ok place ∧ SameFiles [place] t after) ∧
    (¬ ∀ (t : FileTree) (path text : Text) (failure : Failure) (after : FileTree),
      t.replace path text = (.error failure, after) → SameFiles [] t after) ∧
    ¬ ∀ (t : FileTree) (path text : Text) (failure : Failure) (after : FileTree),
      t.replace path text = (.error failure, after) →
        SameFiles [] t after ∨ ∃ fault, failure = .file path fault := by
  refine ⟨fun h => ?_, fun h => ?_, fun h => ?_⟩
  · obtain ⟨place, hplace, hsame⟩ := h taken "a.rpn" "1" _ rfl
    cases hplace
    exact nomatch hsame ["a.rpn.tmp"] (by decide)
  · have hsame := h blocked "a.rpn" "1" _ _ rfl
    exact nomatch hsame ["a.rpn.tmp"] List.not_mem_nil
  · rcases h full "a.rpn" "1" _ _ rfl with hsame | ⟨fault, hfault⟩
    · exact nomatch hsame ["a.rpn.tmp"] List.not_mem_nil
    · rw [Failure.file.injEq] at hfault
      exact absurd hfault.1 (by decide)

end FileTree
end SealedScript
