import SealedScript.FileTree
import SealedScript.Proofs.FileTree.Place
import SealedScript.Proofs.Outcome

/-!
What replacing a file changes (`replace_spec`), and that the file is read back (`read_replace`).

A path is followed through directories, so where its last step is taken depends on the directories of the tree
and not on its files (`endOf_directory`). Writing the temporary file and renaming it change files only, so all
three paths that replacing follows end in the directory in which the file is read afterwards.
-/

namespace SealedScript.FileTree
set_option autoImplicit false

/-! ## Following paths -/

/-- The spot is a spot of the tree. -/
def Shows (tree : FileTree) (spot : Spot) : Prop := tree.root.get? spot.names.reverse = some spot.node

theorem spotAt_eq_ok {tree : FileTree} {names : List Text} {spot : Spot} :
    tree.spotAt names = .ok spot ↔ spot.names = names ∧ tree.Shows spot := by
  rw [spotAt, Shows]
  constructor
  · intro h
    split at h
    · rename_i node hnode
      cases h
      exact ⟨rfl, hnode⟩
    · cases h
  · rintro ⟨rfl, hnode⟩
    rw [hnode]

theorem entries_eq_ok {node : Node} {entries : List (Text × Node)} :
    node.entries = .ok entries ↔ node = .directory entries := by
  cases node with
  | file text => exact ⟨fun h => (nomatch h), fun h => (nomatch h)⟩
  | directory others => rw [Node.entries, Except.ok.injEq, Node.directory.injEq]

/-- A step is taken in a directory. -/
theorem take_eq_ok {tree : FileTree} {spot next : Spot} {step : Step} (h : tree.take spot step = .ok next) :
    ∃ entries, spot.node = .directory entries ∧
      match step with
      | .stay => next = spot
      | .up => tree.spotAt (spot.names.drop 1) = .ok next
      | .into name => Path.isLongName name = false ∧
          ∃ node, entries.lookup name = some node ∧ next = ⟨name :: spot.names, node⟩ := by
  obtain ⟨entries, hentries, h⟩ := bind_eq_ok.mp h
  refine ⟨entries, entries_eq_ok.mp hentries, ?_⟩
  cases step with
  | stay =>
    cases h
    rfl
  | up => exact h
  | into name =>
    simp only at h ⊢
    split at h
    · cases h
    · rename_i hlong
      split at h
      · rename_i node hnode
        cases h
        exact ⟨by simpa using hlong, node, hnode, rfl⟩
      · cases h

theorem Shows.lookup {tree : FileTree} {spot : Spot} {entries : List (Text × Node)} (h : tree.Shows spot)
    (hentries : spot.node = .directory entries) (name : Text) :
    tree.root.get? (spot.names.reverse ++ [name]) = entries.lookup name := by
  rw [Node.get?_append, h, hentries, Option.bind_some, Node.get?]
  cases entries.lookup name with
  | none => rfl
  | some node => exact Node.get?_nil node

theorem Shows.take {tree : FileTree} {spot next : Spot} {step : Step} (hspot : tree.Shows spot)
    (h : tree.take spot step = .ok next) : tree.Shows next := by
  obtain ⟨entries, hentries, hnext⟩ := take_eq_ok h
  cases step with
  | stay => rwa [hnext]
  | up => exact (spotAt_eq_ok.mp hnext).2
  | into name =>
    obtain ⟨-, node, hlookup, rfl⟩ := hnext
    rw [Shows, List.reverse_cons, hspot.lookup hentries, hlookup]

/-- Steps that lead to a directory start in one. -/
theorem steps_start {tree : FileTree} {spot last : Spot} {steps : List Step}
    (h : steps.foldlM tree.take spot = .ok last) {below : List (Text × Node)} (hbelow : last.node = .directory below) :
    ∃ entries, spot.node = .directory entries := by
  cases steps with
  | nil =>
    cases h
    exact ⟨below, hbelow⟩
  | cons step rest =>
    rw [List.foldlM_cons] at h
    obtain ⟨next, hnext, -⟩ := bind_eq_ok.mp h
    obtain ⟨entries, hentries, -⟩ := take_eq_ok hnext
    exact ⟨entries, hentries⟩

/-! ## Trees with the same directories -/

/-- The trees differ in files alone: directories stand at the same places in both. -/
structure SameDirectories (t t' : FileTree) : Prop where
  home : t.home = t'.home
  device : t.device = t'.device
  at?_iff : ∀ place, t.root.at? place = some .directory ↔ t'.root.at? place = some .directory

section Directories
variable {t t' : FileTree} (h : SameDirectories t t')
include h

/-- What is a directory in the one tree is one in the other. -/
theorem SameDirectories.counterpart {s : Spot} (hs : t.Shows s) {entries : List (Text × Node)}
    (hentries : s.node = .directory entries) : ∃ entries', t'.Shows ⟨s.names, .directory entries'⟩ := by
  have hdirectory : t'.root.at? s.names.reverse = some .directory := by
    refine (h.at?_iff _).mp ?_
    rw [Node.at?, hs, hentries]
    rfl
  rw [Node.at?, Option.map_eq_some_iff] at hdirectory
  obtain ⟨node, hnode, hstanding⟩ := hdirectory
  obtain ⟨entries', rfl⟩ := Node.eq_directory hstanding
  exact ⟨entries', hnode⟩

theorem SameDirectories.spot {s s' : Spot} (hs : t.Shows s) (hs' : t'.Shows s') (hnames : s'.names = s.names)
    {entries : List (Text × Node)} (hentries : s.node = .directory entries) :
    ∃ entries', s'.node = .directory entries' := by
  obtain ⟨entries', hshown⟩ := h.counterpart hs hentries
  rw [Shows, hnames] at hs'
  exact ⟨entries', Option.some.inj (hs'.symm.trans hshown)⟩

/-- A step into a directory is possible in both trees and leads to the same place. -/
theorem SameDirectories.take {s s' next : Spot} {step : Step} (hs : t.Shows s) (hs' : t'.Shows s')
    (hnames : s'.names = s.names) (hnext : t.take s step = .ok next) {below : List (Text × Node)}
    (hbelow : next.node = .directory below) : ∃ next', t'.take s' step = .ok next' ∧ next'.names = next.names := by
  obtain ⟨below', hbelow'⟩ := h.counterpart (hs.take hnext) hbelow
  obtain ⟨entries, hentries, hstep⟩ := take_eq_ok hnext
  obtain ⟨entries', hentries'⟩ := h.spot hs hs' hnames hentries
  have hok : s'.node.entries = .ok entries' := entries_eq_ok.mpr hentries'
  cases step with
  | stay =>
    refine ⟨s', ?_, by rw [hnames, hstep]⟩
    rw [FileTree.take, hok]
    rfl
  | up =>
    obtain ⟨hup, -⟩ := spotAt_eq_ok.mp hstep
    refine ⟨⟨next.names, .directory below'⟩, ?_, rfl⟩
    rw [FileTree.take, hok]
    exact spotAt_eq_ok.mpr ⟨by rw [hnames, hup], hbelow'⟩
  | into name =>
    obtain ⟨hlong, node, -, rfl⟩ := hstep
    rw [Shows, List.reverse_cons, ← hnames, hs'.lookup hentries'] at hbelow'
    refine ⟨⟨name :: s'.names, .directory below'⟩, ?_, by rw [hnames]⟩
    rw [FileTree.take, hok]
    show (if Path.isLongName name then _ else _) = _
    rw [if_neg (by rw [hlong]; exact Bool.false_ne_true)]
    simp only [hbelow']
    rfl

/-- The steps of a path that leads to a directory are possible in both trees and lead to the same place. -/
theorem SameDirectories.steps {s s' last : Spot} {steps : List Step} (hs : t.Shows s) (hs' : t'.Shows s')
    (hnames : s'.names = s.names) (hlast : steps.foldlM t.take s = .ok last) {below : List (Text × Node)}
    (hbelow : last.node = .directory below) :
    ∃ last', steps.foldlM t'.take s' = .ok last' ∧ last'.names = last.names ∧ t.Shows last ∧ t'.Shows last' := by
  induction steps generalizing s s' with
  | nil =>
    cases hlast
    exact ⟨s', rfl, hnames, hs, hs'⟩
  | cons step rest ih =>
    rw [List.foldlM_cons] at hlast
    obtain ⟨next, hnext, hrest⟩ := bind_eq_ok.mp hlast
    obtain ⟨entries, hentries⟩ := steps_start hrest hbelow
    obtain ⟨next', hnext', hsame⟩ := h.take hs hs' hnames hnext hentries
    obtain ⟨last', hlast', hfound⟩ := ih (hs.take hnext) (hs'.take hnext') hsame hrest
    refine ⟨last', ?_, hfound⟩
    rw [List.foldlM_cons]
    exact bind_eq_ok.mpr ⟨next', hnext', hlast'⟩

theorem SameDirectories.follow {p : Path} {steps : List Step} {last : Spot} (hlast : t.follow p steps = .ok last)
    {below : List (Text × Node)} (hbelow : last.node = .directory below) :
    ∃ last', t'.follow p steps = .ok last' ∧ last'.names = last.names ∧ t.Shows last ∧ t'.Shows last' := by
  obtain ⟨start, hstart, hsteps⟩ := bind_eq_ok.mp hlast
  obtain ⟨hnames, hshows⟩ := spotAt_eq_ok.mp hstart
  obtain ⟨entries, hentries⟩ := steps_start hsteps hbelow
  obtain ⟨entries', hshows'⟩ := h.counterpart hshows hentries
  have hstart' : t'.spotAt (if p.absolute then [] else t'.home.reverse) = .ok ⟨start.names, .directory entries'⟩ := by
    rw [← h.home]
    exact spotAt_eq_ok.mpr ⟨hnames, hshows'⟩
  obtain ⟨last', hlast', hfound⟩ := h.steps hshows hshows' rfl hsteps hbelow
  exact ⟨last', bind_eq_ok.mpr ⟨_, hstart', hlast'⟩, hfound⟩

end Directories

theorem SameDirectories.refl (t : FileTree) : SameDirectories t t := ⟨rfl, rfl, fun _ => Iff.rfl⟩

theorem SameDirectories.symm {t t' : FileTree} (h : SameDirectories t t') : SameDirectories t' t :=
  ⟨h.home.symm, h.device.symm, fun place => (h.at?_iff place).symm⟩

theorem SameDirectories.trans {t t' u : FileTree} (h : SameDirectories t t') (h' : SameDirectories t' u) :
    SameDirectories t u :=
  ⟨h.home.trans h'.home, h.device.trans h'.device, fun place => (h.at?_iff place).trans (h'.at?_iff place)⟩

/-! ## The end of a path -/

section Ends
variable {t : FileTree} {p : Path} {e : End}

theorem endOf_eq_ok :
    t.endOf p = .ok e ↔ ∃ spot, t.follow p p.front = .ok spot ∧ spot.node = .directory e.entries ∧
      e.directory = spot.names ∧ e.name? = p.name? := by
  rw [endOf]
  constructor
  · intro h
    obtain ⟨spot, hspot, h⟩ := bind_eq_ok.mp h
    obtain ⟨entries, hentries, h⟩ := bind_eq_ok.mp h
    cases h
    exact ⟨spot, hspot, entries_eq_ok.mp hentries, rfl, rfl⟩
  · rintro ⟨spot, hspot, hentries, hdirectory, hname⟩
    refine bind_eq_ok.mpr ⟨spot, hspot, bind_eq_ok.mpr ⟨e.entries, entries_eq_ok.mpr hentries, ?_⟩⟩
    rw [← hdirectory, ← hname]
    rfl

theorem endOf_of_follow {spot : Spot} {entries : List (Text × Node)} (h : t.follow p p.front = .ok spot)
    (hentries : spot.node = .directory entries) : t.endOf p = .ok ⟨spot.names, entries, p.name?⟩ :=
  endOf_eq_ok.mpr ⟨spot, h, hentries, rfl, rfl⟩

/-- What stands in the directory at the end of a path. -/
theorem at?_endOf (h : t.endOf p = .ok e) (name : Text) :
    t.root.at? e.directory.reverse = some .directory ∧
      t.root.at? (name :: e.directory).reverse = (e.entries.lookup name).map Node.standing := by
  obtain ⟨spot, hspot, hentries, hdirectory, -⟩ := endOf_eq_ok.mp h
  obtain ⟨-, -, -, hshows, -⟩ := (SameDirectories.refl t).follow hspot hentries
  constructor
  · rw [Node.at?, hdirectory, hshows, hentries]
    rfl
  · rw [Node.at?, List.reverse_cons, hdirectory, hshows.lookup hentries]

/-- **Where the last step of a path is taken** depends on the directories of the tree alone. -/
theorem endOf_directory {t' : FileTree} (h : SameDirectories t t') (he : t.endOf p = .ok e) :
    ∃ e', t'.endOf p = .ok e' ∧ e'.directory = e.directory ∧ e'.name? = e.name? := by
  obtain ⟨spot, hspot, hentries, hdirectory, hname⟩ := endOf_eq_ok.mp he
  obtain ⟨spot', hspot', hnames, hshows, hshows'⟩ := h.follow hspot hentries
  obtain ⟨entries', hentries'⟩ := h.spot hshows hshows' hnames hentries
  refine ⟨_, endOf_of_follow hspot' hentries', ?_, hname.symm⟩
  rw [hdirectory, hnames]

/-- A file at the end of a path is read. -/
theorem read_endOf {path name text : Text} (hpath : Path.ofText path = .ok p) (he : t.endOf p = .ok e)
    (hname : e.name? = some name) (hslashed : p.slashed = false) (hlong : Path.isLongName name = false)
    (hfile : t.root.at? (name :: e.directory).reverse = some (.file text)) : t.read path = .ok text := by
  obtain ⟨-, hlookup⟩ := at?_endOf he name
  rw [hlookup, Option.map_eq_some_iff] at hfile
  obtain ⟨node, hnode, hstanding⟩ := hfile
  obtain ⟨spot, hspot, hentries, -, hsame⟩ := endOf_eq_ok.mp he
  have hsteps : p.steps = p.front ++ [.into name] := by
    rw [hsame, Path.name?] at hname
    split at hname
    · rename_i last hlast
      cases hname
      obtain ⟨front, hfront⟩ := List.getLast?_eq_some_iff.mp hlast
      rw [Path.front, hfront, List.dropLast_concat]
    · cases hname
  have hfollow : t.follow p p.steps = .ok ⟨name :: spot.names, .file text⟩ := by
    obtain ⟨start, hstart, hfront⟩ := bind_eq_ok.mp hspot
    refine bind_eq_ok.mpr ⟨start, hstart, ?_⟩
    rw [hsteps, List.foldlM_append]
    refine bind_eq_ok.mpr ⟨spot, hfront, ?_⟩
    have hlast : t.take spot (.into name) = .ok ⟨name :: spot.names, .file text⟩ := by
      rw [take, hentries, Node.entries]
      show (if Path.isLongName name then _ else _) = _
      rw [hlong, if_neg Bool.false_ne_true]
      simp only [hnode, Node.eq_file hstanding]
      rfl
    rw [List.foldlM_cons, hlast]
    rfl
  have hfind : t.find path = .ok (.file text) := by
    rw [find, hpath]
    show (t.follow p p.steps >>= _) = _
    rw [hfollow]
    show (if p.slashed then _ else _) = _
    rw [hslashed]
    rfl
  rw [read, hfind]
  rfl

end Ends

/-! ## Changes of files -/

section Changes
variable {t t' : FileTree}

/-- A file is put where no directory stands, and nothing else changes. -/
theorem at?_put {directory : List Text} {name : Text} (text : Text)
    (hdirectory : t.root.at? directory.reverse = some .directory)
    (hfree : t.root.at? (name :: directory).reverse ≠ some .directory) (place : List Text) :
    (t.put directory name (.file text)).root.at? place =
      if place = (name :: directory).reverse then some (.file text) else t.root.at? place := by
  rw [List.reverse_cons] at hfree ⊢
  rw [put, List.reverse_cons]
  exact Node.at?_insert text hdirectory hfree place

/-- Trees in which only files differ have the same directories. -/
theorem sameDirectories_of_files (files : List (List Text)) (hhome : t.home = t'.home) (hdevice : t.device = t'.device)
    (hfiles : ∀ place ∈ files, t.root.at? place ≠ some .directory ∧ t'.root.at? place ≠ some .directory)
    (hrest : ∀ place, place ∉ files → t'.root.at? place = t.root.at? place) : SameDirectories t t' := by
  refine ⟨hhome, hdevice, fun place => ?_⟩
  by_cases hfile : place ∈ files
  · exact iff_of_false (hfiles place hfile).1 (hfiles place hfile).2
  · rw [hrest place hfile]

/-- No directory stands under a name that is free or that of a file. -/
theorem not_directory {p : Path} {e : End} {name : Text} (he : t.endOf p = .ok e)
    (hfree : ∀ entries, e.entries.lookup name ≠ some (.directory entries)) :
    t.root.at? (name :: e.directory).reverse ≠ some .directory := by
  obtain ⟨-, hlookup⟩ := at?_endOf he name
  intro hdirectory
  rw [hlookup, Option.map_eq_some_iff] at hdirectory
  obtain ⟨node, hnode, hstanding⟩ := hdirectory
  obtain ⟨entries, rfl⟩ := Node.eq_directory hstanding
  exact hfree entries hnode

/-- A file can be written where a path ends in a name that is not too long and not that of a directory. -/
theorem target_eq_ok {path name : Text} {directory : List Text} (h : t.target path = .ok (directory, name)) :
    ∃ p e, Path.ofText path = .ok p ∧ t.endOf p = .ok e ∧ e.directory = directory ∧ e.name? = some name ∧
      p.slashed = false ∧ ∀ entries, e.entries.lookup name ≠ some (.directory entries) := by
  obtain ⟨p, hp, h⟩ := bind_eq_ok.mp h
  obtain ⟨e, he, h⟩ := bind_eq_ok.mp h
  split at h
  case h_1 => cases h
  case h_2 name hname =>
    split at h
    case isTrue => cases h
    case isFalse hslashed =>
      split at h
      case isTrue => cases h
      case isFalse =>
        split at h
        case h_1 => cases h
        case h_2 hfree =>
          cases h
          exact ⟨p, e, hp, he, rfl, hname, by simpa using hslashed, fun entries hlookup => hfree entries hlookup⟩

/-- What putting a file where one can be written changes. -/
theorem put_target {path name : Text} {directory : List Text} (h : t.target path = .ok (directory, name)) (text : Text) :
    SameDirectories t (t.put directory name (.file text)) ∧
      ∀ place, (t.put directory name (.file text)).root.at? place =
        if place = (name :: directory).reverse then some (.file text) else t.root.at? place := by
  obtain ⟨p, e, -, he, rfl, -, -, hfree⟩ := target_eq_ok h
  have hplace := not_directory he hfree
  have hview := at?_put text (at?_endOf he name).1 hplace
  refine ⟨sameDirectories_of_files [(name :: e.directory).reverse] rfl rfl ?_ ?_, hview⟩
  · intro place hmem
    rw [List.mem_singleton.mp hmem, hview, if_pos rfl]
    exact ⟨hplace, nofun⟩
  · intro place hmem
    rw [hview, if_neg fun heq => hmem (List.mem_singleton.mpr heq)]

/-- A write that succeeds puts the whole text where a file can be written. -/
theorem write_eq_ok {path text : Text} (h : t.write path text = (.ok (), t')) :
    ∃ directory name, t.target path = .ok (directory, name) ∧ t' = t.put directory name (.file text) := by
  unfold write at h
  split at h
  case h_1 => cases h
  case h_2 directory name htarget =>
    split at h
    case h_1 =>
      cases h
      exact ⟨directory, name, htarget, rfl⟩
    case h_2 => cases h
    case h_3 => cases h

/-- A write that fails leaves the tree alone, or some text where the file can be written. -/
theorem write_eq_error {path text : Text} {fault : FileFault} (h : t.write path text = (.error fault, t')) :
    t' = t ∨ ∃ directory name kept, t.target path = .ok (directory, name) ∧
      t' = t.put directory name (.file kept) := by
  unfold write at h
  split at h
  case h_1 =>
    cases h
    exact Or.inl rfl
  case h_2 directory name htarget =>
    split at h
    case h_1 => cases h
    case h_2 =>
      cases h
      exact Or.inl rfl
    case h_3 kept message hwriting =>
      cases h
      exact Or.inr ⟨directory, name, kept, htarget, rfl⟩

/-- What writing a file changes. -/
theorem write_spec {path text : Text} (h : t.write path text = (.ok (), t')) :
    ∃ p e name, Path.ofText path = .ok p ∧ t.endOf p = .ok e ∧ e.name? = some name ∧ SameDirectories t t' ∧
      ∀ place, t'.root.at? place =
        if place = (name :: e.directory).reverse then some (.file text) else t.root.at? place := by
  obtain ⟨directory, name, htarget, rfl⟩ := write_eq_ok h
  obtain ⟨p, e, hp, he, rfl, hname, -, -⟩ := target_eq_ok htarget
  exact ⟨p, e, name, hp, he, hname, put_target htarget text⟩

/-- The tree in which a file has moved to another end of a path. -/
def moved (t : FileTree) (e f : End) (old new text : Text) : FileTree :=
  { t.put f.directory new (.file text) with
    root := (t.put f.directory new (.file text)).root.erase (old :: e.directory).reverse }

/-- The file is put at one place and taken from the other. -/
theorem at?_moved {e f : End} {old new text : Text} (hdirectory : t.root.at? f.directory.reverse = some .directory)
    (hfree : t.root.at? (new :: f.directory).reverse ≠ some .directory)
    (hfile : t.root.at? (old :: e.directory).reverse = some (.file text))
    (hdiffer : (old :: e.directory).reverse ≠ (new :: f.directory).reverse) (place : List Text) :
    (t.moved e f old new text).root.at? place =
      if place = (new :: f.directory).reverse then some (.file text)
      else if place = (old :: e.directory).reverse then none else t.root.at? place := by
  have hput := at?_put text hdirectory hfree
  have hpresent : (t.put f.directory new (.file text)).root.at? (old :: e.directory).reverse = some (.file text) := by
    rw [hput, if_neg hdiffer, hfile]
  rw [moved, Node.at?_erase hpresent (by simp), hput]
  by_cases hplace : place = (old :: e.directory).reverse
  · rw [if_pos hplace, if_neg (hplace ▸ hdiffer), if_pos hplace]
  · rw [if_neg hplace, if_neg hplace]

/-- The device does nothing to a tree but to refuse that a file is renamed. -/
theorem rename_eq_ok {source target : Text} :
    t.rename source target = .ok t' ↔ t.renamed source target = .ok t' ∧ t.device.rename source target = none := by
  constructor
  · intro h
    obtain ⟨after, hafter, h⟩ := bind_eq_ok.mp h
    split at h
    case h_1 => cases h
    case h_2 hdevice =>
      cases h
      exact ⟨hafter, hdevice⟩
  · rintro ⟨hafter, hdevice⟩
    refine bind_eq_ok.mpr ⟨t', hafter, ?_⟩
    rw [hdevice]
    rfl

/-- A file that is renamed stays where it is or moves to where no directory stands. -/
theorem renamed_eq_ok {source target : Text} (h : t.renamed source target = .ok t') :
    ∃ p q e f old new text, Path.ofText source = .ok p ∧ Path.ofText target = .ok q ∧
      t.endOf p = .ok e ∧ t.endOf q = .ok f ∧ e.name? = some old ∧ f.name? = some new ∧
      e.entries.lookup old = some (.file text) ∧ Path.isLongName new = false ∧ q.slashed = false ∧
      ((e.directory = f.directory ∧ old = new ∧ t' = t) ∨
        (¬ (e.directory = f.directory ∧ old = new) ∧
          (∀ entries, f.entries.lookup new ≠ some (.directory entries)) ∧ t' = t.moved e f old new text)) := by
  obtain ⟨p, hp, h⟩ := bind_eq_ok.mp h
  obtain ⟨q, hq, h⟩ := bind_eq_ok.mp h
  obtain ⟨e, he, h⟩ := bind_eq_ok.mp h
  obtain ⟨f, hf, h⟩ := bind_eq_ok.mp h
  split at h
  case h_2 => cases h
  case h_1 old new hold hnew =>
    split at h
    case h_1 => cases h
    case h_2 => cases h
    case h_3 text hlookup =>
      split at h
      case isTrue => cases h
      case isFalse hlong =>
        split at h
        case isTrue => cases h
        case isFalse hslashed =>
          rw [Bool.not_eq_true, Bool.or_eq_false_iff] at hslashed
          refine ⟨p, q, e, f, old, new, text, hp, hq, he, hf, hold, hnew, hlookup, by simpa using hlong,
            hslashed.2, ?_⟩
          split at h
          case isTrue hsame =>
            cases h
            exact Or.inl ⟨hsame.1, hsame.2, rfl⟩
          case isFalse hdiffer =>
            split at h
            case h_1 => cases h
            case h_2 hfree =>
              cases h
              exact Or.inr ⟨hdiffer, fun entries hlookup => hfree entries hlookup, rfl⟩

/-- What renaming a file changes. -/
theorem rename_spec {source target : Text} (h : t.rename source target = .ok t') :
    ∃ p q e f old new text, Path.ofText source = .ok p ∧ Path.ofText target = .ok q ∧
      t.endOf p = .ok e ∧ t.endOf q = .ok f ∧ e.name? = some old ∧ f.name? = some new ∧
      t.root.at? (old :: e.directory).reverse = some (.file text) ∧
      Path.isLongName new = false ∧ q.slashed = false ∧ SameDirectories t t' ∧
      ∀ place, t'.root.at? place =
        if place = (new :: f.directory).reverse then some (.file text)
        else if place = (old :: e.directory).reverse then none else t.root.at? place := by
  obtain ⟨p, q, e, f, old, new, text, hp, hq, he, hf, hold, hnew, hlookup, hlong, hslashed, hchange⟩ :=
    renamed_eq_ok (rename_eq_ok.mp h).1
  have hfile : t.root.at? (old :: e.directory).reverse = some (.file text) := by
    rw [(at?_endOf he old).2, hlookup]
    rfl
  -- What is seen afterwards, and that no directory was in the way, say all the rest.
  have hview : t.home = t'.home ∧ t.device = t'.device ∧ t.root.at? (new :: f.directory).reverse ≠ some .directory ∧
      ∀ place, t'.root.at? place =
        if place = (new :: f.directory).reverse then some (.file text)
        else if place = (old :: e.directory).reverse then none else t.root.at? place := by
    rcases hchange with ⟨hdirectory, rfl, rfl⟩ | ⟨hdiffer, hfree, rfl⟩
    · rw [← hdirectory]
      refine ⟨rfl, rfl, by rw [hfile]; nofun, fun place => ?_⟩
      by_cases hplace : place = (old :: e.directory).reverse
      · rw [if_pos hplace, hplace, hfile]
      · rw [if_neg hplace, if_neg hplace]
    · have hplaces : (old :: e.directory).reverse ≠ (new :: f.directory).reverse := by
        rw [ne_eq, List.reverse_inj, List.cons.injEq]
        exact fun heq => hdiffer ⟨heq.2, heq.1⟩
      have hnone := not_directory hf hfree
      exact ⟨rfl, rfl, hnone, at?_moved (at?_endOf hf new).1 hnone hfile hplaces⟩
  obtain ⟨hhome, hdevice, hnone, hview⟩ := hview
  refine ⟨p, q, e, f, old, new, text, hp, hq, he, hf, hold, hnew, hfile, hlong, hslashed, ?_, hview⟩
  refine sameDirectories_of_files [(new :: f.directory).reverse, (old :: e.directory).reverse] hhome hdevice ?_ ?_
  · intro place hmem
    rw [hview]
    simp only [List.mem_cons, List.not_mem_nil, or_false] at hmem
    rcases hmem with rfl | rfl
    · rw [if_pos rfl]
      exact ⟨hnone, nofun⟩
    · rw [hfile, if_pos rfl]
      refine ⟨nofun, ?_⟩
      split <;> nofun
  · intro place hmem
    simp only [List.mem_cons, List.not_mem_nil, or_false, not_or] at hmem
    rw [hview, if_neg hmem.1, if_neg hmem.2]

/-- What replacing a file changes, once the directories that lead to it are there. -/
theorem replace_spec {path text : Text} {after : FileTree} (h : t.replace path text = (.ok (), after)) :
    ∃ prepared p q e f old new, t.makeDirectories (Path.ancestors path) = (.ok (), prepared) ∧
      Path.ofText (temporary path) = .ok p ∧ Path.ofText path = .ok q ∧ after.endOf p = .ok e ∧ after.endOf q = .ok f ∧
      e.name? = some old ∧ f.name? = some new ∧ Path.isLongName new = false ∧ q.slashed = false ∧
      ∀ place, after.root.at? place =
        if place = (new :: f.directory).reverse then some (.file text)
        else if place = (old :: e.directory).reverse then none else prepared.root.at? place := by
  unfold replace at h
  simp only at h
  split at h
  case h_1 => cases h
  case h_2 prepared hprepared =>
    split at h
    case h_1 => cases h
    case h_2 written hwrite =>
      split at h
      case h_1 => cases h
      case h_2 renamed hrename =>
        cases h
        obtain ⟨p, e, name, hp, he, hname, hsame, hwritten⟩ := write_spec hwrite
        obtain ⟨p', q, e', f, old, new, text', hp', hq, he', hf, hold, hnew, hfile, hlong, hslashed, hsame', hview⟩ :=
          rename_spec hrename
        -- The file that is renamed is the one that was written.
        obtain ⟨e'', he'', hdirectory, hname''⟩ := endOf_directory hsame he
        rw [hp, Except.ok.injEq] at hp'
        subst hp'
        rw [he'', Except.ok.injEq] at he'
        subst he'
        have hold' : old = name := by rwa [hname'', hname, Option.some.injEq, eq_comm] at hold
        rw [hold', hdirectory, hwritten, if_pos rfl, Option.some.injEq, Node.Standing.file.injEq] at hfile
        obtain ⟨e₁, he₁, hdirectory₁, hname₁⟩ := endOf_directory hsame' he''
        obtain ⟨f₁, hf₁, hdirectory₂, hname₂⟩ := endOf_directory hsame' hf
        refine ⟨prepared, p, q, e₁, f₁, old, new, hprepared, hp, hq, he₁, hf₁, hname₁.trans hold, hname₂.trans hnew,
          hlong, hslashed, fun place => ?_⟩
        rw [hdirectory₁, hdirectory₂, hview, hwritten, hold', hdirectory, ← hfile]
        by_cases hplace : place = (name :: e.directory).reverse
        · rw [if_pos hplace, if_pos hplace]
        · rw [if_neg hplace, if_neg hplace, if_neg hplace]

/-- **A file that was replaced** holds the text that was written. -/
theorem read_replace {path text : Text} {after : FileTree} (h : t.replace path text = (.ok (), after)) :
    after.read path = .ok text := by
  obtain ⟨prepared, p, q, e, f, old, new, -, -, hq, -, hf, -, hnew, hlong, hslashed, hview⟩ := replace_spec h
  refine read_endOf hq hf hnew hslashed hlong ?_
  rw [hview, if_pos rfl]

end Changes

end SealedScript.FileTree
