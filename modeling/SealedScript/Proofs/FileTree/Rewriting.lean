import SealedScript.Proofs.FileTree.Reading

/-!
What replacing a file that can be read changes.

The directories that lead to such a file are there, so none is created (`makeDirectories_of_find`). The tree changes in
files alone, and no other than the two at the path and at the temporary path (`replace_touched`). Whether it succeeds is
a matter of the device and of directories, and not of any file (`replace_result_congr`).
-/

namespace SealedScript.FileTree
set_option autoImplicit false

variable {t t' : FileTree} {path text old : Text}

/-! ## A file that can be read -/

/-- Above a directory there is one. -/
theorem directory_above {s next : Spot} (hs : t.Shows s) {entries : List (Text × Node)}
    (h : s.node = .directory entries) (hnext : t.spotAt (s.names.drop 1) = .ok next) :
    ∃ above, next.node = .directory above := by
  obtain ⟨hnames, hshows⟩ := spotAt_eq_ok.mp hnext
  rw [Shows, hnames] at hshows
  cases hat : s.names with
  | nil =>
    rw [Shows, hat] at hs
    rw [hat] at hshows
    exact ⟨entries, (Option.some.inj (hshows.symm.trans hs)).trans h⟩
  | cons name rest =>
    rw [hat, List.drop_one, List.tail_cons] at hshows
    rw [Shows, hat, List.reverse_cons, Node.get?_append, hshows, Option.bind_some] at hs
    cases hnode : next.node with
    | file text =>
      rw [hnode] at hs
      cases hs
    | directory above => exact ⟨above, rfl⟩

/-- The last step of a path under which something is found is taken in a directory. -/
theorem last_taken {p : Path} {front : List Step} {step : Step} {spot : Spot} (hspot : t.follow p p.steps = .ok spot)
    (hsteps : p.steps = front ++ [step]) :
    ∃ before entries, t.follow p p.front = .ok before ∧ t.Shows before ∧ before.node = .directory entries ∧
      t.take before step = .ok spot := by
  obtain ⟨start, hstart, hfold⟩ := bind_eq_ok.mp hspot
  rw [hsteps, List.foldlM_append] at hfold
  obtain ⟨before, hbefore, hlast⟩ := bind_eq_ok.mp hfold
  rw [List.foldlM_cons] at hlast
  obtain ⟨next, htake, hnext⟩ := bind_eq_ok.mp hlast
  cases hnext
  obtain ⟨entries, hentries, -⟩ := take_eq_ok htake
  have hfront : t.follow p p.front = .ok before := by
    rw [Path.front, hsteps, List.dropLast_concat]
    exact bind_eq_ok.mpr ⟨start, hstart, hbefore⟩
  obtain ⟨-, -, -, hshows, -⟩ := (SameDirectories.refl t).follow hfront hentries
  exact ⟨before, entries, hfront, hshows, hentries, htake⟩

/-- A file that is read stands in the directory in which its path ends. -/
theorem endOf_of_read (h : t.read path = .ok text) :
    ∃ p e name, Path.ofText path = .ok p ∧ t.endOf p = .ok e ∧ e.name? = some name ∧ p.slashed = false ∧
      Path.isLongName name = false ∧ e.entries.lookup name = some (.file text) := by
  obtain ⟨p, hp⟩ : ∃ p, Path.ofText path = .ok p := by
    obtain ⟨node, hfind, -⟩ := bind_eq_ok.mp h
    obtain ⟨p, hp, -⟩ := bind_eq_ok.mp hfind
    exact ⟨p, hp⟩
  rw [read_eq hp] at h
  obtain ⟨standing, hseen, htext⟩ := bind_eq_ok.mp h
  obtain ⟨rfl, hslashed⟩ := textSeen_eq_ok htext
  obtain ⟨spot, hspot, hstanding⟩ := map_eq_ok.mp hseen
  have hnode := Node.eq_file hstanding
  obtain ⟨front, last, step, -, -, hsteps, -⟩ := Path.steps_eq_concat hp hslashed (List.not_mem_nil (a := '/'))
  obtain ⟨before, entries, hfront, hshows, hentries, htake⟩ := last_taken hspot hsteps
  have hend := endOf_of_follow hfront hentries
  obtain ⟨others, hothers, hstep⟩ := take_eq_ok htake
  obtain rfl : entries = others := Node.directory.inj (hentries.symm.trans hothers)
  cases step with
  | stay =>
    rw [hstep, hentries] at hnode
    cases hnode
  | up =>
    obtain ⟨above, habove⟩ := directory_above hshows hentries hstep
    rw [habove] at hnode
    cases hnode
  | into name =>
    obtain ⟨hlong, node, hlookup, rfl⟩ := hstep
    have hname : p.name? = some name := by rw [Path.name?, hsteps, List.getLast?_concat]
    exact ⟨p, ⟨before.names, entries, p.name?⟩, name, hp, hend, hname, hslashed, hlong, hnode ▸ hlookup⟩

/-! ## Directories in front -/

theorem find_eq_ok {node : Node} (h : t.find path = .ok node) :
    ∃ p spot, Path.ofText path = .ok p ∧ t.follow p p.steps = .ok spot ∧ spot.node = node := by
  obtain ⟨p, hp, h⟩ := bind_eq_ok.mp h
  obtain ⟨spot, hspot, h⟩ := bind_eq_ok.mp h
  refine ⟨p, spot, hp, hspot, ?_⟩
  split at h
  case h_1 text hnode =>
    split at h
    case isTrue => cases h
    case isFalse =>
      cases h
      exact hnode
  case h_2 =>
    cases h
    rfl

/-- A path to a directory ends in one, and if it ends with a name, something has that name. -/
theorem endOf_of_find {entries : List (Text × Node)} (h : t.find path = .ok (.directory entries)) :
    ∃ p e, Path.ofText path = .ok p ∧ t.endOf p = .ok e ∧ ∀ name, e.name? = some name →
      Path.isLongName name = false ∧ ∃ node, e.entries.lookup name = some node := by
  obtain ⟨p, spot, hp, hspot, hnode⟩ := find_eq_ok h
  rcases List.eq_nil_or_concat p.steps with hsteps | ⟨front, step, hsteps⟩
  · have hfront : t.follow p p.front = .ok spot := by rwa [Path.front, hsteps, List.dropLast_nil, ← hsteps]
    refine ⟨p, _, hp, endOf_of_follow hfront hnode, fun name hname => ?_⟩
    rw [Path.name?, hsteps] at hname
    cases hname
  · rw [List.concat_eq_append] at hsteps
    obtain ⟨before, others, hfront, -, hothers, htake⟩ := last_taken hspot hsteps
    refine ⟨p, _, hp, endOf_of_follow hfront hothers, fun name hname => ?_⟩
    obtain ⟨others', hothers', hstep⟩ := take_eq_ok htake
    obtain rfl : others = others' := Node.directory.inj (hothers.symm.trans hothers')
    rw [Path.name?, hsteps, List.getLast?_concat] at hname
    cases step with
    | stay => cases hname
    | up => cases hname
    | into name' =>
      cases hname
      obtain ⟨hlong, node, hlookup, -⟩ := hstep
      exact ⟨hlong, node, hlookup⟩

/-- No directory is created where there is one. -/
theorem makeDirectory_of_find {entries : List (Text × Node)} (h : t.find path = .ok (.directory entries)) :
    t.makeDirectory path = .error .exists := by
  obtain ⟨p, e, hp, he, hthere⟩ := endOf_of_find h
  simp only [makeDirectory, hp, he, bind, Except.bind]
  cases hname : e.name? with
  | none => rfl
  | some name =>
    obtain ⟨hlong, node, hlookup⟩ := hthere name hname
    simp only [hlong, hlookup]
    rfl

/-- The directory in front of a path under which something is found. -/
theorem find_ancestor {node : Node} {first : Text} {rest : List Text} (h : t.find path = .ok node)
    (hancestors : Path.ancestors path = first :: rest) : ∃ entries, t.find first = .ok (.directory entries) := by
  obtain ⟨p, spot, hp, hspot, -⟩ := find_eq_ok h
  obtain ⟨steps, more, hfirst, hsteps, hmore⟩ := Path.ofText_ancestor hp hancestors
  obtain ⟨start, hstart, hfold⟩ := bind_eq_ok.mp hspot
  rw [hsteps, List.foldlM_append] at hfold
  obtain ⟨between, hbetween, hfold⟩ := bind_eq_ok.mp hfold
  obtain ⟨step, more, rfl⟩ := List.exists_cons_of_ne_nil hmore
  rw [List.foldlM_cons] at hfold
  obtain ⟨next, htake, -⟩ := bind_eq_ok.mp hfold
  obtain ⟨entries, hentries, -⟩ := take_eq_ok htake
  refine ⟨entries, bind_eq_ok.mpr ⟨_, hfirst, bind_eq_ok.mpr ⟨between, ?_, ?_⟩⟩⟩
  · exact bind_eq_ok.mpr ⟨start, hstart, hbetween⟩
  · rw [hentries]
    rfl

/-- **No directory is created** for a path under which something is found. -/
theorem makeDirectories_of_find {node : Node} (h : t.find path = .ok node) :
    t.makeDirectories (Path.ancestors path) = (.ok (), t) := by
  cases hancestors : Path.ancestors path with
  | nil => rfl
  | cons first rest =>
    obtain ⟨entries, hfirst⟩ := find_ancestor h hancestors
    rw [makeDirectories, makeDirectory_of_find hfirst]
    show t.settle first (.error .exists) = _
    rw [settle, holdsDirectory, hfirst]
    rfl

/-! ## The two places -/

/-- Whether a file can be written where a path ends is a matter of directories. -/
theorem target_congr (h : SameDirectories t t') {p : Path} {e : End} (hp : Path.ofText path = .ok p)
    (he : t.endOf p = .ok e) : t'.target path = t.target path := by
  obtain ⟨e', he', hdirectory, hname⟩ := endOf_directory h he
  simp only [target, hp, he, he', hname, bind, Except.bind]
  cases e.name? with
  | none => rfl
  | some name =>
    have hnew := (at?_endOf he' name).2
    have hsame := h.at?_iff (name :: e.directory).reverse
    rw [hdirectory] at hnew
    rw [(at?_endOf he name).2, hnew] at hsame
    simp only [hdirectory]
    generalize e.entries.lookup name = found at hsame
    generalize e'.entries.lookup name = found' at hsame
    split
    case isTrue => rfl
    case isFalse =>
      split
      case isTrue => rfl
      case isFalse =>
        -- Under the name is nothing, a file or a directory, and a directory in both trees or in none.
        rcases found with _ | ⟨_ | _⟩ <;> rcases found' with _ | ⟨_ | _⟩ <;>
          first
          | rfl
          | simp [Node.standing] at hsame

theorem write_result_congr (h : SameDirectories t t') (htarget : t'.target path = t.target path) (text : Text) :
    (t'.write path text).1 = (t.write path text).1 := by
  rw [write, write, htarget, ← h.device]
  split
  case h_1 => rfl
  case h_2 => split <;> rfl

/-- The temporary path of a file that is read ends in the same directory. -/
theorem endOf_temporary (h : t.read path = .ok old) {p : Path} (hp : Path.ofText (temporary path) = .ok p) :
    ∃ e, t.endOf p = .ok e := by
  obtain ⟨q, f, name, hq, hf, hname, hslashed, -, -⟩ := endOf_of_read h
  obtain ⟨spot, hspot, hentries, -, hfname⟩ := endOf_eq_ok.mp hf
  obtain ⟨habsolute, hfront, -⟩ := Path.ofText_temporary hq hp hslashed (hfname.symm.trans hname)
  have hspot' : t.follow p p.front = .ok spot := by rwa [follow, habsolute, hfront]
  exact ⟨_, endOf_of_follow hspot' hentries⟩

theorem exists_renamed {source target new : Text} {p q : Path} {e f : End} (hp : Path.ofText source = .ok p)
    (hq : Path.ofText target = .ok q) (he : t.endOf p = .ok e) (hf : t.endOf q = .ok f) (hold : e.name? = some old)
    (hnew : f.name? = some new) (hfile : e.entries.lookup old = some (.file text)) (hlong : Path.isLongName new = false)
    (hslashed : (p.slashed || q.slashed) = false) (hfree : ∀ entries, f.entries.lookup new ≠ some (.directory entries)) :
    ∃ after, t.renamed source target = .ok after := by
  simp only [renamed, hp, hq, bind, Except.bind, he, hf, hold, hnew, hfile, hlong, hslashed, Bool.false_eq_true, if_false]
  split
  case isTrue => exact ⟨_, rfl⟩
  case isFalse => exact ⟨_, rfl⟩

/-- A file that was just written is renamed to one that was there. -/
theorem renamed_written {written : FileTree} (h : t.read path = .ok old)
    (hwrite : t.write (temporary path) text = (.ok (), written)) :
    ∃ after, written.renamed (temporary path) path = .ok after := by
  obtain ⟨q, f, new, hq, hf, hnew, hslashed, hlong, hlookup⟩ := endOf_of_read h
  obtain ⟨directory, beside, htarget, rfl⟩ := write_eq_ok hwrite
  obtain ⟨p, e, hp, he, rfl, hold, hslashed', -⟩ := target_eq_ok htarget
  obtain ⟨hsame, hview⟩ := put_target htarget text
  obtain ⟨e', he', hedirectory, hename⟩ := endOf_directory hsame he
  obtain ⟨f', hf', hfdirectory, hfname⟩ := endOf_directory hsame hf
  have hfile : e'.entries.lookup beside = some (.file text) := by
    have hplace := (at?_endOf he' beside).2
    rw [hedirectory, hview, if_pos rfl, eq_comm, Option.map_eq_some_iff] at hplace
    obtain ⟨node, hnode, hstanding⟩ := hplace
    rw [hnode, Node.eq_file hstanding]
  have hfree : ∀ entries, f'.entries.lookup new ≠ some (.directory entries) := by
    intro entries hdirectory
    have hplace := (at?_endOf hf' new).2
    rw [hdirectory, hfdirectory] at hplace
    have hbefore := (hsame.at?_iff _).mpr hplace
    rw [(at?_endOf hf new).2, hlookup] at hbefore
    cases hbefore
  exact exists_renamed hp hq he' hf' (hename.trans hold) (hfname.trans hnew) hfile hlong
    (by rw [hslashed, hslashed', Bool.or_false]) hfree

/-- What replacing a file that can be read comes to. -/
theorem replace_result (h : t.read path = .ok old) (text : Text) :
    (t.replace path text).1 =
      match (t.write (temporary path) text).1 with
      | .error fault => .error (.file (temporary path) fault)
      | .ok () =>
        match t.device.rename (temporary path) path with
        | some message => .error (.file path (.device message))
        | none => .ok () := by
  obtain ⟨node, hfind, -⟩ := bind_eq_ok.mp h
  unfold replace
  simp only [makeDirectories_of_find hfind]
  cases hwrite : t.write (temporary path) text with
  | mk result left =>
    cases result with
    | error fault => rfl
    | ok _ =>
      obtain ⟨after, hafter⟩ := renamed_written h hwrite
      obtain ⟨hsame, -⟩ := write_files hwrite
      simp only [rename, hafter, hsame.device, bind, Except.bind]
      cases left.device.rename (temporary path) path <;> rfl

/-- **Whether a file that can be read is replaced** depends on no file. -/
theorem replace_result_congr (h : SameDirectories t t') {old' : Text} (hread : t.read path = .ok old)
    (hread' : t'.read path = .ok old') (text : Text) : (t'.replace path text).1 = (t.replace path text).1 := by
  have htarget : t'.target (temporary path) = t.target (temporary path) := by
    cases hp : Path.ofText (temporary path) with
    | error fault =>
      rw [target, target, hp]
      rfl
    | ok p =>
      obtain ⟨e, he⟩ := endOf_temporary hread hp
      exact target_congr h hp he
  rw [replace_result hread, replace_result hread', write_result_congr h htarget, h.device]

end SealedScript.FileTree
