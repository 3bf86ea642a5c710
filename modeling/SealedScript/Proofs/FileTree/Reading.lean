import SealedScript.Proofs.FileTree.Frame

/-!
What reading a file depends on.

A path is followed up to the first place where no directory stands (`reached`), and in trees with the same directories
that place alone decides what is read (`read_congr`). So a path reads the same where files have changed at other places
only (`read_apart`).
-/

namespace SealedScript.FileTree
set_option autoImplicit false

variable {t t' : FileTree} {path text : Text} {names : List Text} {steps : List Step}

/-! ## The place that decides -/

/-- Where a step from a directory leads. -/
def stepped (names : List Text) : Step → List Text
  | .stay => names
  | .up => names.drop 1
  | .into name => name :: names

/-- Where steps come to an end: at the last place that they lead to, or at the first where no directory stands. -/
def reached (t : FileTree) (names : List Text) : List Step → List Text
  | [] => names
  | step :: rest =>
    match t.root.at? names.reverse with
    | some .directory => t.reached (stepped names step) rest
    | _ => names

def endingOf (t : FileTree) (p : Path) : List Text :=
  (t.reached (if p.absolute then [] else t.home.reverse) p.steps).reverse

/-- The place that decides what is read under a path. -/
def deciding? (t : FileTree) (path : Text) : Option (List Text) := (Path.ofText path).toOption.map t.endingOf

theorem reached_of_not_directory (h : t.root.at? names.reverse ≠ some .directory) (steps : List Step) :
    t.reached names steps = names := by
  cases steps with
  | nil => rfl
  | cons step rest =>
    rw [reached]
    split
    case h_1 hdirectory => exact absurd hdirectory h
    case h_2 => rfl

theorem reached_of_directory (h : t.root.at? names.reverse = some .directory) (step : Step) (rest : List Step) :
    t.reached names (step :: rest) = t.reached (stepped names step) rest := by rw [reached, h]

theorem Shows.at? {s : Spot} (h : t.Shows s) : t.root.at? s.names.reverse = some s.node.standing := by
  rw [Node.at?, h, Option.map_some]

/-- Does the step go into a name that no entry can have? -/
def isTooLong : Step → Bool
  | .into name => Path.isLongName name
  | .stay | .up => false

theorem take_file {s : Spot} {text : Text} (h : s.node = .file text) (step : Step) :
    t.take s step = .error .notDirectory := by
  rw [take, h]
  rfl

theorem take_directory {s : Spot} (hs : t.Shows s) {entries : List (Text × Node)} (h : s.node = .directory entries)
    (step : Step) :
    t.take s step = if isTooLong step then .error .nameTooLong else t.spotAt (stepped s.names step) := by
  rw [take, h]
  cases step with
  | stay => exact (spotAt_eq_ok.mpr ⟨rfl, hs⟩).symm
  | up => rfl
  | into name =>
    rw [isTooLong, stepped]
    show (if Path.isLongName name then _ else _) = _
    split
    case isTrue => rfl
    case isFalse =>
      rw [spotAt, List.reverse_cons, hs.lookup h]
      cases entries.lookup name <;> rfl

theorem spotAt_congr (h : t'.root.at? names.reverse = t.root.at? names.reverse) :
    t.spotAt names = .error .missing ∧ t'.spotAt names = .error .missing ∨
      ∃ s s', t.spotAt names = .ok s ∧ t'.spotAt names = .ok s' ∧ s.names = names ∧ s'.names = names := by
  rw [Node.at?, Node.at?] at h
  rw [spotAt, spotAt]
  cases hnode : t.root.get? names.reverse with
  | none =>
    rw [hnode, Option.map_none, Option.map_eq_none_iff] at h
    rw [h]
    exact Or.inl ⟨rfl, rfl⟩
  | some node =>
    rw [hnode, Option.map_some, Option.map_eq_some_iff] at h
    obtain ⟨node', hnode', -⟩ := h
    rw [hnode']
    exact Or.inr ⟨_, _, rfl, rfl, rfl, rfl⟩

/-! ## Trees that agree where it matters -/

/-- What a spot that may be found is seen to be. -/
def seen (found : Except FileFault Spot) : Except FileFault Node.Standing := found.map fun s => s.node.standing

/-- What is read where a path leads. -/
def textSeen (slashed : Bool) : Node.Standing → Except FileFault Text
  | .file text => if slashed then .error .notDirectory else .ok text
  | .directory => .error .isDirectory

theorem textSeen_eq_ok {slashed : Bool} {standing : Node.Standing} (h : textSeen slashed standing = .ok text) :
    standing = .file text ∧ slashed = false := by
  cases standing with
  | directory => cases h
  | file other =>
    rw [textSeen] at h
    split at h
    case isTrue => cases h
    case isFalse hslashed =>
      cases h
      exact ⟨rfl, by simpa using hslashed⟩

/-- A file is read where the steps of its path lead. -/
theorem read_eq {p : Path} (hp : Path.ofText path = .ok p) :
    t.read path = seen (t.follow p p.steps) >>= textSeen p.slashed := by
  rw [read, find, hp]
  show (t.follow p p.steps >>= _) >>= _ = _
  cases t.follow p p.steps with
  | error fault => rfl
  | ok s =>
    obtain ⟨names, node⟩ := s
    cases node with
    | directory entries => rfl
    | file text =>
      show ((if p.slashed then .error .notDirectory else .ok (.file text) : Except FileFault Node) >>= _) =
        textSeen p.slashed (.file text)
      cases p.slashed <;> rfl

section Agreement
variable (h : SameDirectories t t')
include h

/-- Trees that agree where steps end agree where they start. -/
theorem SameDirectories.start
    (hsame : t'.root.at? (t.reached names steps).reverse = t.root.at? (t.reached names steps).reverse) :
    t'.root.at? names.reverse = t.root.at? names.reverse := by
  by_cases hdirectory : t.root.at? names.reverse = some .directory
  · rw [hdirectory]
    exact (h.at?_iff _).mp hdirectory
  · rwa [reached_of_not_directory hdirectory] at hsame

theorem SameDirectories.standing {s s' : Spot} (hs : t.Shows s) (hs' : t'.Shows s') (hnames : s'.names = s.names)
    (hsame : t'.root.at? (t.reached s.names steps).reverse = t.root.at? (t.reached s.names steps).reverse) :
    s'.node.standing = s.node.standing := by
  have hstart := h.start hsame
  rwa [hs.at?, ← hnames, hs'.at?, Option.some.injEq] at hstart

/-- **Steps lead to the same** in trees that agree where the steps end. -/
theorem SameDirectories.seen_steps {s s' : Spot} (hs : t.Shows s) (hs' : t'.Shows s') (hnames : s'.names = s.names)
    (hsame : t'.root.at? (t.reached s.names steps).reverse = t.root.at? (t.reached s.names steps).reverse) :
    seen (steps.foldlM t'.take s') = seen (steps.foldlM t.take s) := by
  induction steps generalizing s s' with
  | nil => exact congrArg Except.ok (h.standing hs hs' hnames hsame)
  | cons step rest ih =>
    have hstanding := h.standing hs hs' hnames hsame
    rw [List.foldlM_cons, List.foldlM_cons]
    cases hnode : s.node with
    | file text =>
      rw [hnode] at hstanding
      rw [take_file hnode, take_file (Node.eq_file hstanding)]
      rfl
    | directory entries =>
      have hdirectory := hs.at?
      rw [hnode] at hdirectory hstanding
      obtain ⟨entries', hnode'⟩ := Node.eq_directory hstanding
      rw [reached_of_directory hdirectory] at hsame
      rw [take_directory hs hnode, take_directory hs' hnode', hnames]
      split
      case isTrue => rfl
      case isFalse =>
        rcases spotAt_congr (h.start hsame) with ⟨hnone, hnone'⟩ | ⟨next, next', hnext, hnext', hat, hat'⟩
        · rw [hnone, hnone']
          rfl
        · rw [hnext, hnext']
          exact ih (spotAt_eq_ok.mp hnext).2 (spotAt_eq_ok.mp hnext').2 (hat'.trans hat.symm) (hat ▸ hsame)

theorem SameDirectories.seen_follow {p : Path}
    (hsame : t'.root.at? (t.endingOf p) = t.root.at? (t.endingOf p)) :
    seen (t'.follow p p.steps) = seen (t.follow p p.steps) := by
  rw [FileTree.follow, FileTree.follow, ← h.home]
  rcases spotAt_congr (h.start hsame) with ⟨hnone, hnone'⟩ | ⟨s, s', hs, hs', hat, hat'⟩
  · rw [hnone, hnone']
    rfl
  · rw [hs, hs']
    exact h.seen_steps (spotAt_eq_ok.mp hs).2 (spotAt_eq_ok.mp hs').2 (hat'.trans hat.symm) (hat ▸ hsame)

/-- **What is read under a path** depends on directories and on what stands at one place. -/
theorem read_congr (hsame : ∀ place, t.deciding? path = some place → t'.root.at? place = t.root.at? place) :
    t'.read path = t.read path := by
  cases hpath : Path.ofText path with
  | error fault =>
    rw [read, read, find, find, hpath]
    rfl
  | ok p =>
    rw [deciding?, hpath] at hsame
    rw [read_eq hpath, read_eq hpath, h.seen_follow (hsame _ rfl)]

/-- What is read under a path whose place is not among those where files differ. -/
theorem read_apart {but : List (List Text)} (hfiles : SameFiles but t t')
    (hpath : ∀ place, t.deciding? path = some place → place ∉ but) : t'.read path = t.read path := by
  refine read_congr h fun place hplace => ?_
  have hfile := hfiles place (hpath place hplace)
  have hdirectory := h.at?_iff place
  rw [fileAt?, fileAt?] at hfile
  -- A place is free, or a file is there, or a directory; the files are the same and the directories too.
  rcases hold : t.root.at? place with _ | ⟨_ | _⟩ <;> rcases hnew : t'.root.at? place with _ | ⟨_ | _⟩ <;> simp_all

end Agreement

end SealedScript.FileTree
