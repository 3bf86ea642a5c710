import SealedScript.Proofs.Text.Blank
import SealedScript.Proofs.Text.Search
import SealedScript.Proofs.Ty.Layers
import SealedScript.Ty.Parse

/-!
Types as they are written.

A name is followed by a pair of brackets for each array layer, and white space may stand in front of each pair
(`parse_brackets`). What a type is displayed as is read back as that type (`parse_display`).
-/

namespace SealedScript.Ty
set_option autoImplicit false

variable {t s : Text} {ty : Ty} {c : Char}

/-! ## Names -/

/-- A name holds letters, digits and dots only. -/
theorem ofName_spec (h : ofName t = .ok ty) : ∀ c ∈ t, Text.isLetterOrDigit c = true ∨ c = '.' := by
  have hnames : ∀ entry ∈ names, entry.1.all Text.isLetterOrDigit = true := by decide
  have hpackage : package.all (fun c => Text.isLetterOrDigit c || c == '.') = true := by decide
  unfold ofName at h
  split at h
  case h_1 found hlookup =>
    obtain ⟨before, behind, hsplit, -⟩ := List.lookup_eq_some_iff.mp hlookup
    have hname := List.all_eq_true.mp (hnames _ (hsplit ▸ List.mem_append_right _ List.mem_cons_self))
    intro c hc
    cases hlead : Text.dropLead? package t with
    | none =>
      rw [hlead] at hname
      exact Or.inl (hname c hc)
    | some name =>
      rw [hlead] at hname
      rw [Text.dropLead?_eq_some.mp hlead] at hc
      rcases List.mem_append.mp hc with hc | hc
      · simpa using List.all_eq_true.mp hpackage c hc
      · exact Or.inl (hname c hc)
  case h_2 => cases h

theorem ofName_of_mem (hc : c ∈ t) (hname : ¬ (Text.isLetterOrDigit c = true ∨ c = '.')) :
    ofName t = .error (.unknownType t) := by
  cases h : ofName t with
  | ok ty => exact absurd (ofName_spec h c hc) hname
  | error fault =>
    unfold ofName at h
    split at h
    case h_1 => cases h
    case h_2 => exact h.symm

/-! ## White space and brackets -/

/-- What ends with neither white space nor a pair of brackets is taken for a name. -/
theorem ofReversed_name {r : Text} (hblank : Text.isBlank c = false) (hpair : ∀ r', c :: r ≠ ']' :: '[' :: r') :
    ofReversed (c :: r) = ofName (c :: r).reverse := by
  unfold ofReversed
  split
  case h_1 h => cases h
  case h_2 h => exact absurd h (hpair _)
  case h_3 h =>
    cases h
    rw [hblank, if_neg Bool.false_ne_true]

theorem parse_append_brackets (t : Text) : parse (t ++ ['[', ']']) = (parse t).map .array := by
  rw [parse, Text.trimStart, List.dropWhile_append]
  split
  case isTrue hempty =>
    rw [parse, Text.trimStart, List.isEmpty_iff.mp hempty]
    rfl
  case isFalse =>
    rw [List.reverse_append]
    rfl

theorem ofReversed_blank (hs : ∀ c ∈ s, Text.isBlank c = true) (r : Text) : ofReversed (s ++ r) = ofReversed r := by
  induction s with
  | nil => rfl
  | cons c s ih =>
    have hc := hs c List.mem_cons_self
    rw [← ih fun d hd => hs d (List.mem_cons_of_mem c hd), List.cons_append, ofReversed]
    · rw [if_pos hc]
    · rintro r' rfl -
      cases hc

theorem parse_append_blank (hs : ∀ c ∈ s, Text.isBlank c = true) : parse (t ++ s) = parse t := by
  rw [parse, Text.trimStart, List.dropWhile_append]
  split
  case isTrue hempty =>
    rw [parse, Text.trimStart, List.isEmpty_iff.mp hempty, List.dropWhile_eq_nil_iff.mpr hs]
  case isFalse =>
    rw [List.reverse_append, ofReversed_blank fun c hc => hs c (List.mem_reverse.mp hc)]
    rfl

theorem parse_name (hhead : ∀ c, t.head? = some c → Text.isBlank c = false)
    (hlast : ∀ c, t.getLast? = some c → Text.isBlank c = false ∧ c ≠ ']') : parse t = ofName t := by
  rw [parse, Text.trimStart_eq_self hhead]
  cases hreverse : t.reverse with
  | nil =>
    rw [List.reverse_eq_nil_iff.mp hreverse]
    rfl
  | cons c r =>
    obtain ⟨hblank, hbracket⟩ := hlast c (by rw [← List.head?_reverse, hreverse, List.head?_cons])
    rw [ofReversed_name hblank fun r' h => hbracket (List.cons.inj h).1, ← hreverse, List.reverse_reverse]

/-- A pair of brackets as written, with what stands in front of it and between its brackets. -/
structure Brackets where
  before : Text.Gap
  inside : Text.Gap

namespace Brackets

def text (b : Brackets) : Text := b.before.1 ++ '[' :: (b.inside.1 ++ [']'])

/-- Nothing stands between the brackets. -/
def Tight (b : Brackets) : Prop := b.inside.1 = []

instance (b : Brackets) : Decidable b.Tight := inferInstanceAs (Decidable (_ = _))

def plain : Brackets := ⟨.none, .none⟩

theorem tight_of_mem_replicate {b : Brackets} {k : Nat} (h : b ∈ List.replicate k plain) : b.Tight :=
  List.eq_of_mem_replicate h ▸ rfl

theorem text_tight {b : Brackets} (h : b.Tight) : b.text = b.before.1 ++ ['[', ']'] := by
  rw [text, h]
  rfl

end Brackets

variable {b : Brackets} {bs : List Brackets}

theorem parse_append_tight (h : b.Tight) : parse (t ++ b.text) = (parse t).map .array := by
  rw [Brackets.text_tight h, ← List.append_assoc, parse_append_brackets,
    parse_append_blank b.before.blank]

/-- Each pair of brackets adds an array layer. -/
theorem parse_brackets (h : ∀ b ∈ bs, b.Tight) :
    parse (t ++ bs.flatMap Brackets.text) = (parse t).map fun ty => ty.layered bs.length := by
  induction bs generalizing t with
  | nil =>
    rw [List.flatMap_nil, List.append_nil]
    cases parse t <;> rfl
  | cons b bs ih =>
    rw [List.flatMap_cons, ← List.append_assoc, ih fun b' hb' => h b' (List.mem_cons_of_mem b hb'),
      parse_append_tight (h b List.mem_cons_self)]
    cases parse t with
    | error fault => rfl
    | ok ty => exact congrArg Except.ok (layered_array ty bs.length)

/-- White space between two brackets makes them a part of the name. -/
theorem parse_append_loose (hc : Text.isBlank c = false) (h : ¬ b.Tight) :
    parse (c :: t ++ b.text) = .error (.unknownType (c :: t ++ b.text)) := by
  have hinside : b.inside.1.reverse ≠ [] := fun hnil => h (List.reverse_eq_nil_iff.mp hnil)
  obtain ⟨d, r, hdr⟩ := List.exists_cons_of_ne_nil hinside
  have hd : Text.isSpacing d = true := b.inside.2 d (List.mem_reverse.mp (hdr ▸ List.mem_cons_self))
  have hbracket : ']' ∈ c :: t ++ b.text := by simp [Brackets.text]
  have hreverse : (c :: t ++ b.text).reverse = ']' :: (d :: r ++ '[' :: (c :: t ++ b.before.1).reverse) := by
    simp [Brackets.text, ← hdr]
  have htrim : Text.trimStart (c :: t ++ b.text) = c :: t ++ b.text := by
    refine Text.trimStart_eq_self fun c' hc' => ?_
    cases hc'
    exact hc
  rw [parse, htrim, hreverse, ofReversed_name (by decide),
    ← hreverse, List.reverse_reverse, ofName_of_mem hbracket (by decide)]
  intro r' hr'
  simp only [List.cons_append, List.cons.injEq, true_and] at hr'
  rw [hr'.1] at hd
  cases hd

/-- The last pair with white space between its brackets ends what is taken for a name. -/
theorem parse_brackets_loose (hc : Text.isBlank c = false) (h : ∃ b ∈ bs, ¬ b.Tight) :
    ∃ front b back, bs = front ++ b :: back ∧ ¬ b.Tight ∧ (∀ b' ∈ back, b'.Tight) ∧
      parse (c :: t ++ bs.flatMap Brackets.text) =
        .error (.unknownType (c :: t ++ (front ++ [b]).flatMap Brackets.text)) := by
  induction bs generalizing t with
  | nil =>
    obtain ⟨b, hb, -⟩ := h
    cases hb
  | cons b bs ih =>
    by_cases hlater : ∃ b' ∈ bs, ¬ b'.Tight
    · obtain ⟨front, b', back, rfl, hloose, hback, hparse⟩ := ih (t := t ++ b.text) hlater
      refine ⟨b :: front, b', back, rfl, hloose, hback, ?_⟩
      simpa only [List.cons_append, List.flatMap_cons, List.append_assoc] using hparse
    · have hback : ∀ b' ∈ bs, b'.Tight := by
        intro b' hb'
        by_contra hloose
        exact hlater ⟨b', hb', hloose⟩
      have hloose : ¬ b.Tight := by
        obtain ⟨b', hb', hloose⟩ := h
        rcases List.mem_cons.mp hb' with rfl | hb'
        · exact hloose
        · exact absurd ⟨b', hb', hloose⟩ hlater
      refine ⟨[], b, bs, rfl, hloose, hback, ?_⟩
      rw [List.flatMap_cons, ← List.append_assoc, parse_brackets hback, parse_append_loose hc hloose]
      simp only [List.nil_append, List.flatMap_cons, List.flatMap_nil, List.append_nil]
      rfl

/-! ## Displayed types -/

/-- The name of an innermost type consists of letters. -/
theorem display_innermost (ty : Ty) :
    ty.innermost.display ≠ [] ∧ ∀ c ∈ ty.innermost.display, Text.isLetterOrDigit c = true := by
  have hletters : ty.innermost.display ≠ [] ∧ ty.innermost.display.all Text.isLetterOrDigit = true := by
    induction ty with
    | array element ih => exact ih
    | primitive p => cases p <;> decide
    | _ => decide
  exact ⟨hletters.1, List.all_eq_true.mp hletters.2⟩

/-- A type is displayed as its innermost type with a pair of brackets for each layer. -/
theorem display_eq (ty : Ty) :
    ty.display = ty.innermost.display ++ (List.replicate ty.depth Brackets.plain).flatMap Brackets.text := by
  induction ty with
  | array element ih =>
    rw [display_array, ih, depth, List.replicate_succ', List.flatMap_append, ← List.append_assoc]
    rfl
  | _ => exact (List.append_nil _).symm

theorem parse_innermost (ty : Ty) : parse ty.innermost.display = .ok ty.innermost := by
  induction ty with
  | array element ih => exact ih
  | primitive p => cases p <;> rfl
  | _ => rfl

/-- **What a type is displayed as is read as that type.** -/
theorem parse_display (ty : Ty) : parse ty.display = .ok ty := by
  rw [display_eq, parse_brackets fun _ => Brackets.tight_of_mem_replicate, parse_innermost, List.length_replicate]
  exact congrArg Except.ok ty.layered_depth

end SealedScript.Ty
