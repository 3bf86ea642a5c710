import SealedScript.FileTree
import SealedScript.Proofs.Text.Join

/-!
Which steps the texts beside a path and in front of it write.

The temporary path leads to the same directory as the path, and in it to a longer name (`ofText_temporary`). The path to
the nearest directory in front writes the first steps of the path, not all of them (`ofText_ancestor`).
-/

namespace SealedScript.Path
set_option autoImplicit false

variable {t : Text} {p q : Path} {name : Text}

/-! ## Steps -/

theorem stepOf?_eq_into {component : Text} (h : stepOf? component = some (.into name)) : name = component := by
  unfold stepOf? at h
  split at h
  case isTrue => cases h
  case isFalse =>
    split at h
    case isTrue => cases h
    case isFalse =>
      split at h
      case isTrue => cases h
      case isFalse =>
        cases h
        rfl

theorem stepOf?_append {component tail : Text} (hne : component ≠ []) (htail : 2 < tail.length) :
    stepOf? (component ++ tail) = some (.into (component ++ tail)) := by
  have hlength : ∀ short : Text, short.length ≤ 2 → component ++ tail ≠ short := by
    rintro short hshort rfl
    rw [List.length_append] at hshort
    omega
  rw [stepOf?, if_neg, if_neg, if_neg]
  · exact fun h => hlength _ (by decide) (beq_iff_eq.mp h)
  · exact fun h => hlength _ (by decide) (beq_iff_eq.mp h)
  · exact fun h => hne (List.append_eq_nil_iff.mp (List.isEmpty_iff.mp h)).1

theorem exists_stepOf? {component : Text} (hne : component ≠ []) : ∃ step, stepOf? component = some step := by
  unfold stepOf?
  rw [if_neg fun h => hne (List.isEmpty_iff.mp h)]
  split
  case isTrue => exact ⟨_, rfl⟩
  case isFalse => split <;> exact ⟨_, rfl⟩

theorem ofText_eq_ok : ofText t = .ok p ↔ t.contains '\x00' = false ∧ t ≠ [] ∧ Text.byteLength t < lengthLimit ∧
    p = ⟨t.head? == some '/', (Text.split '/' t).filterMap stepOf?, t.getLast? == some '/'⟩ := by
  unfold ofText
  constructor
  · intro h
    split at h
    case isTrue => cases h
    case isFalse hnul =>
      split at h
      case isTrue => cases h
      case isFalse hempty =>
        split at h
        case isTrue => cases h
        case isFalse hshort =>
          cases h
          exact ⟨Bool.not_eq_true _ ▸ hnul, by simpa using hempty, Nat.lt_of_not_le hshort, rfl⟩
  · rintro ⟨hnul, hempty, hshort, rfl⟩
    rw [if_neg (by rw [hnul]; exact Bool.false_ne_true), if_neg (by simpa using hempty), if_neg (Nat.not_le.mpr hshort)]

/-- A path that does not end with a slash ends with a step, also when it goes on in the same component. -/
theorem steps_eq_concat {tail : Text} (hq : ofText t = .ok q) (hslashed : q.slashed = false) (htail : '/' ∉ tail) :
    ∃ front last step, last ≠ [] ∧ stepOf? last = some step ∧ q.steps = front.filterMap stepOf? ++ [step] ∧
      Text.split '/' (t ++ tail) = front ++ [last ++ tail] := by
  obtain ⟨-, hne, -, rfl⟩ := ofText_eq_ok.mp hq
  obtain ⟨front, last, hsplit, hsplit', hends⟩ := Text.split_tail t htail
  have hlast : last ≠ [] := by
    intro hnil
    rcases hends hnil with h | h
    · exact hne h
    · simp [h] at hslashed
  obtain ⟨step, hstep⟩ := exists_stepOf? hlast
  refine ⟨front, last, step, hlast, hstep, ?_, hsplit'⟩
  rw [hsplit, List.filterMap_append, List.filterMap_cons_some hstep, List.filterMap_nil]

/-! ## The path beside a path -/

/-- **The temporary path** leads to the same directory, and in it to a longer name. -/
theorem ofText_temporary (hq : ofText t = .ok q) (hp : ofText (FileTree.temporary t) = .ok p)
    (hslashed : q.slashed = false) (hname : q.name? = some name) :
    p.absolute = q.absolute ∧ p.front = q.front ∧ p.name? = some (name ++ ".tmp") := by
  have hslash : '/' ∉ ".tmp".toList := by decide
  obtain ⟨front, last, step, hlast, hstep, hsteps, htail⟩ := steps_eq_concat hq hslashed hslash
  have hinto : step = .into name := by
    rw [name?, hsteps, List.getLast?_concat] at hname
    split at hname
    case h_1 inner hinner =>
      cases hname
      exact Option.some.inj hinner
    case h_2 => cases hname
  subst hinto
  obtain rfl := stepOf?_eq_into hstep
  have hsteps' : p.steps = front.filterMap stepOf? ++ [.into (name ++ ".tmp")] := by
    obtain ⟨-, -, -, rfl⟩ := ofText_eq_ok.mp hp
    rw [FileTree.temporary, htail, List.filterMap_append, List.filterMap_cons_some (stepOf?_append hlast (by decide)),
      List.filterMap_nil]
  refine ⟨?_, ?_, ?_⟩
  · obtain ⟨-, hne, -, rfl⟩ := ofText_eq_ok.mp hq
    obtain ⟨-, -, -, rfl⟩ := ofText_eq_ok.mp hp
    obtain ⟨c, t, rfl⟩ := List.exists_cons_of_ne_nil hne
    rfl
  · rw [Path.front, Path.front, hsteps, hsteps', List.dropLast_concat, List.dropLast_concat]
  · rw [name?, hsteps', List.getLast?_concat]

/-! ## The paths in front of a path -/

theorem ne_nil_of_not_trivial {component : Text} (h : isTrivial component = false) : component ≠ [] := by
  rintro rfl
  cases h

theorem endings_eq_cons {components rest : List Text} {first : Text} (h : endings components = first :: rest) :
    ∃ skipped last before, components = skipped ++ last :: before ∧ isTrivial last = false ∧
      first = Text.join ['/'] (last :: before).reverse ∧ rest = endings before := by
  induction components with
  | nil => cases h
  | cons component before ih =>
    rw [endings] at h
    split at h
    case isTrue =>
      obtain ⟨skipped, last, before', rfl, hlast, hfirst, hrest⟩ := ih h
      exact ⟨component :: skipped, last, before', rfl, hlast, hfirst, hrest⟩
    case isFalse htrivial =>
      cases h
      exact ⟨[], component, before, rfl, by simpa using htrivial, rfl, rfl⟩

/-- The nearest path in front is made of the first components, behind which there is one more that counts. -/
theorem ancestors_eq_cons {first : Text} {rest : List Text} (h : ancestors t = first :: rest) :
    ∃ front last behind, Text.split '/' t = front ++ [last] ++ behind ∧ isTrivial last = false ∧
      first = Text.join ['/'] (front ++ [last]) ∧ ∃ component ∈ behind, isTrivial component = false := by
  rw [ancestors] at h
  cases hendings : endings (Text.split '/' t).reverse with
  | nil =>
    rw [hendings] at h
    cases h
  | cons longest others =>
    rw [hendings, List.drop_one, List.tail_cons] at h
    obtain ⟨skipped, component, before, hsplit, hcomponent, -, rfl⟩ := endings_eq_cons hendings
    obtain ⟨skipped', last, before', rfl, hlast, hfirst, -⟩ := endings_eq_cons h
    refine ⟨before'.reverse, last, skipped'.reverse ++ component :: skipped.reverse, ?_, hlast, ?_, component, ?_,
      hcomponent⟩
    · rw [← List.reverse_reverse (Text.split '/' t), hsplit]
      simp
    · rw [hfirst, List.reverse_cons]
    · simp

/-- **The path to the nearest directory in front** writes the first steps of the path, and not all of them. -/
theorem ofText_ancestor {first : Text} {rest : List Text} (hp : ofText t = .ok p) (h : ancestors t = first :: rest) :
    ∃ steps more, ofText first = .ok ⟨p.absolute, steps, false⟩ ∧ p.steps = steps ++ more ∧ more ≠ [] := by
  obtain ⟨hnul, -, hshort, rfl⟩ := ofText_eq_ok.mp hp
  obtain ⟨front, last, behind, hsplit, hlast, hfirst, component, hmem, hcomponent⟩ := ancestors_eq_cons h
  obtain ⟨a, others, hfront⟩ := List.exists_cons_of_ne_nil (List.append_ne_nil_of_right_ne_nil front
    (List.cons_ne_nil last []))
  obtain ⟨hwhole, hpieces⟩ := Text.split_front (hfront ▸ hsplit) (List.ne_nil_of_mem hmem)
  rw [← hfront, ← hfirst] at hwhole hpieces
  have hslash : '/' ∉ last := by
    refine Text.not_mem_of_mem_splitFrom (t := t) (List.not_mem_nil (a := '/')) ?_
    rw [← Text.split, hsplit]
    simp
  have hlastne := ne_nil_of_not_trivial hlast
  have hends : first.getLast? = some (last.getLast hlastne) := by
    rw [hfirst, Text.getLast?_join_concat ['/'] hlastne, List.getLast?_eq_some_getLast hlastne]
  have hne : first ≠ [] := by
    rintro rfl
    cases hends
  have hhead : t.head? = first.head? := by
    obtain ⟨c, first, rfl⟩ := List.exists_cons_of_ne_nil hne
    rw [hwhole]
    rfl
  have hslashed : (first.getLast? == some '/') = false := by
    rw [hends]
    refine beq_eq_false_iff_ne.mpr fun heq => hslash ?_
    rw [← Option.some.inj heq]
    exact List.getLast_mem hlastne
  refine ⟨(front ++ [last]).filterMap stepOf?, behind.filterMap stepOf?, ofText_eq_ok.mpr ⟨?_, hne, ?_, ?_⟩, ?_, ?_⟩
  · rw [hwhole] at hnul
    simp only [List.contains_eq_mem, List.mem_append, decide_eq_false_iff_not, not_or] at hnul ⊢
    exact hnul.1
  · rw [hwhole, Text.byteLength_append] at hshort
    exact Nat.lt_of_le_of_lt (Nat.le_add_right _ _) hshort
  · rw [hhead, hslashed, hpieces]
  · rw [hsplit, List.filterMap_append]
  · obtain ⟨step, hstep⟩ := exists_stepOf? (ne_nil_of_not_trivial hcomponent)
    exact List.ne_nil_of_mem (List.mem_filterMap.mpr ⟨component, hmem, hstep⟩)

end SealedScript.Path
