import SealedScript.Proofs.Access
import SealedScript.Proofs.Text.Measure
import SealedScript.Proofs.Text.Search

/-!
Texts read at byte offsets.

A text is cut at offsets only where a character starts or the text ends, and `slice?` is `none` anywhere else. The
places that searches answer are such offsets, and one inside a character moves back to its start without passing the
start of the text (`boundaryBack?_eq`).
-/

namespace SealedScript.Text
set_option autoImplicit false

variable {width : Char → Nat} {a b c t : Text}

/-! ## Slices -/

/-- The text from one byte offset to another; `none` when they are out of order, past the end or inside a
character. -/
def slice? (t : Text) (start stop : Nat) : Option Text :=
  if start ≤ stop then do
    let first ← byteIndex? t start
    let last ← byteIndex? t stop
    return (t.take last).drop first
  else none

def front? (t : Text) (stop : Nat) : Option Text := slice? t 0 stop

def behind? (t : Text) (start : Nat) : Option Text := slice? t start (byteLength t)

/-- The code units in front of a byte offset, which is held to the text. -/
def unitsAhead? (t : Text) (offset : Nat) : Option Nat := (front? t (min offset (byteLength t))).map unitLength

/-- A goal within a front is found as in the front alone. -/
theorem indexAt_front {here goal : Nat} {s : Text} (t : Text) (h : goal ≤ lengthBy width s) :
    indexAt width here goal (s ++ t) = indexAt width here goal s := by
  induction s generalizing here goal with
  | nil =>
    obtain rfl : goal = 0 := Nat.le_zero.mp h
    simp only [indexAt]
  | cons c s ih =>
    cases goal with
    | zero => simp only [indexAt]
    | succ goal =>
      rw [lengthBy_cons] at h
      rw [List.cons_append, indexAt, indexAt, ih (by omega)]

theorem indexAt_le {here goal i : Nat} (h : indexAt width here goal t = some i) : i ≤ here + t.length := by
  induction t generalizing here goal with
  | nil =>
    cases goal with
    | zero =>
      cases h
      exact Nat.le_refl _
    | succ goal => cases h
  | cons c t ih =>
    cases goal with
    | zero =>
      cases h
      exact Nat.le_add_right _ _
    | succ goal =>
      rw [indexAt] at h
      split at h
      case isTrue =>
        have hle := ih h
        rw [List.length_cons]
        omega
      case isFalse => cases h

theorem indexAt_from (here goal : Nat) (t : Text) :
    indexAt width here goal t = (indexAt width 0 goal t).map (here + ·) := by
  induction t generalizing here goal with
  | nil => cases goal <;> simp [indexAt]
  | cons c t ih =>
    cases goal with
    | zero => simp [indexAt]
    | succ goal =>
      rw [indexAt, indexAt]
      split
      case isTrue =>
        rw [ih (here + 1), ih (0 + 1), Option.map_map]
        congr 1
        funext i
        simp only [Function.comp_apply]
        omega
      case isFalse => rfl

theorem byteIndex?_behind (a t : Text) (n : Nat) :
    byteIndex? (a ++ t) (byteLength a + n) = (byteIndex? t n).map (a.length + ·) := by
  rw [byteIndex?, byteLength, indexAt_behind Char.utf8Size_pos, indexAt_from, Nat.zero_add, byteIndex?]

theorem byteIndex?_append (a b : Text) : byteIndex? (a ++ b) (byteLength a) = some a.length := by
  rw [byteIndex?, byteLength, indexAt_append Char.utf8Size_pos, Nat.zero_add]

/-- Behind a front, slices are those of what follows it. -/
theorem slice?_behind (a t : Text) (n : Nat) :
    slice? (a ++ t) (byteLength a) (byteLength a + n) = (splitBytes? n t).map Prod.fst := by
  rw [slice?, if_pos (Nat.le_add_right _ _), byteIndex?_append, byteIndex?_behind, splitBytes?]
  cases byteIndex? t n with
  | none => rfl
  | some i =>
    rw [Option.map_some, Option.map_some, Option.map_some, List.splitAt_eq]
    show some (((a ++ t).take (a.length + i)).drop a.length) = some (t.take i)
    rw [List.take_length_add_append, List.drop_left]

theorem slice?_append (a b c : Text) :
    slice? (a ++ (b ++ c)) (byteLength a) (byteLength a + byteLength b) = some b := by
  rw [slice?_behind, splitBytes?_append]
  rfl

theorem front?_append (a b : Text) : front? (a ++ b) (byteLength a) = some a := by
  have h := slice?_append [] a b
  rwa [List.nil_append, byteLength_nil, Nat.zero_add] at h

theorem front?_of_front (h : a <+: t) : front? t (byteLength a) = some a := by
  obtain ⟨b, rfl⟩ := h
  exact front?_append a b

theorem byteLength_le_of_front (h : a <+: t) : byteLength a ≤ byteLength t := lengthBy_le_of_front h

theorem unitsAhead?_of_front (h : a <+: t) : unitsAhead? t (byteLength a) = some (unitLength a) := by
  rw [unitsAhead?, Nat.min_eq_left (byteLength_le_of_front h), front?_of_front h, Option.map_some]

theorem behind?_append (a b : Text) : behind? (a ++ b) (byteLength a) = some b := by
  have h := slice?_append a b []
  rwa [List.append_nil, ← byteLength_append] at h

theorem splitBytes?_eq_some {n : Nat} (h : splitBytes? n t = some (a, b)) : t = a ++ b ∧ byteLength a = n := by
  obtain ⟨i, hindex, hi⟩ := Option.map_eq_some_iff.mp h
  obtain ⟨k, rfl, hk⟩ := indexAt_eq_some hindex
  rw [List.splitAt_eq, Prod.mk.injEq, Nat.zero_add] at hi
  rw [← hi.1, ← hi.2, List.take_append_drop]
  exact ⟨rfl, hk⟩

theorem dropLead?_append (lead rest : Text) : dropLead? lead (lead ++ rest) = some rest := dropLead?_eq_some.mpr rfl

theorem dropLead?_eq_none {lead : Text} (h : ¬ lead <+: t) : dropLead? lead t = none := by
  cases hlead : dropLead? lead t with
  | none => rfl
  | some rest => exact absurd ⟨rest, (dropLead?_eq_some.mp hlead).symm⟩ h

/-- A slice is a text exactly when that text stands there. -/
theorem slice?_eq_lead {lead : Text} :
    slice? (a ++ t) (byteLength a) (byteLength a + byteLength lead) = some lead ↔ lead <+: t := by
  rw [slice?_behind, Option.map_eq_some_iff]
  constructor
  · rintro ⟨⟨front, rest⟩, hsplit, rfl⟩
    exact ⟨rest, (splitBytes?_eq_some hsplit).1.symm⟩
  · rintro ⟨rest, rfl⟩
    exact ⟨_, splitBytes?_append lead rest, rfl⟩

/-! ## Places -/

/-- The byte offset at which `pat` starts for the last time. -/
def lastByteOf? (pat t : Text) : Option Nat := (lastIndexOf? pat t).map fun i => byteLength (t.take i)

/-- The byte offset at which `pat` starts for the first time. -/
def firstByteOf? (pat t : Text) : Option Nat := (indexOf? pat t).map fun i => byteLength (t.take i)

/-- The byte offset of the first character that passes a test. -/
def firstByteWhere? (p : Char → Bool) (t : Text) : Option Nat := (t.findIdx? p).map fun i => byteLength (t.take i)

theorem firstByteOf?_eq_some {pat : Text} {n : Nat} (hpat : pat ≠ []) (h : firstByteOf? pat t = some n) :
    ∃ front more, t = front ++ (pat ++ more) ∧ n = byteLength front ∧ ¬ pat <:+: front := by
  obtain ⟨i, hi, rfl⟩ := Option.map_eq_some_iff.mp h
  obtain ⟨more, hmore, hfront⟩ := indexOf?_eq_some hi
  exact ⟨t.take i, more, hmore, rfl, hfront hpat⟩

theorem firstByteOf?_eq_none {pat : Text} (h : firstByteOf? pat t = none) : ¬ pat <:+: t :=
  indexFrom_eq_none (Option.map_eq_none_iff.mp h)

/-- Up to the first character that passes, or to the end, stand those in front that do not. -/
theorem firstByteWhere?_getD (p : Char → Bool) (t : Text) :
    (firstByteWhere? p t).getD (byteLength t) = byteLength (t.takeWhile fun c => !p c) := by
  induction t with
  | nil => rfl
  | cons c t ih =>
    rw [firstByteWhere?, List.findIdx?_cons, List.takeWhile_cons]
    cases hc : p c with
    | true => rfl
    | false =>
      simp only [Bool.not_false, if_true, Bool.false_eq_true, if_false, byteLength_cons, ← ih, firstByteWhere?,
        Option.map_map]
      cases t.findIdx? p with
      | none => rfl
      | some i => simp

/-- Characters that do not pass stand in front of one that does, or of the end. -/
theorem takeWhile_split (p : Char → Bool) (t : Text) :
    ∃ more, t = t.takeWhile (fun c => !p c) ++ more ∧ ∀ d, more.head? = some d → p d = true := by
  refine ⟨t.dropWhile fun c => !p c, List.takeWhile_append_dropWhile.symm, fun d hd => ?_⟩
  have hfirst := List.head?_dropWhile_not (fun c => !p c) t
  rw [hd] at hfirst
  simpa using hfirst

/-! ## Starts of characters -/

theorem floorByteIndex_inside {s u : Text} {c : Char} {n : Nat} (hle : byteLength s ≤ n)
    (hlt : n < byteLength s + c.utf8Size) : floorByteIndex (s ++ c :: u) n = s.length := by
  rw [floorByteIndex, floorIndexAt_inside hle hlt, Nat.zero_add, Option.getD_some]

/-- Does a character start, or the text end, at this byte offset? -/
def isBoundary (t : Text) (n : Nat) : Bool := (byteIndex? t n).isSome

/-- The last such offset that is not behind `n`, one step back after another; `none` when that leads below zero. -/
def boundaryBack? (t : Text) : Nat → Option Nat
  | 0 => if isBoundary t 0 then some 0 else none
  | n + 1 => if isBoundary t (n + 1) then some (n + 1) else boundaryBack? t n

theorem isBoundary_append (a b : Text) : isBoundary (a ++ b) (byteLength a) = true := by
  rw [isBoundary, byteIndex?_append, Option.isSome_some]

theorem exists_append_of_isBoundary {n : Nat} (h : isBoundary t n = true) : ∃ a b, t = a ++ b ∧ byteLength a = n := by
  obtain ⟨i, hi⟩ := Option.isSome_iff_exists.mp h
  exact ⟨(t.splitAt i).1, (t.splitAt i).2, splitBytes?_eq_some (by rw [splitBytes?, hi]; rfl)⟩

theorem isBoundary_inside {s u : Text} {c : Char} {k : Nat} (hk : k + 1 < c.utf8Size) :
    isBoundary (s ++ c :: u) (byteLength s + (k + 1)) = false := by
  rw [isBoundary, byteIndex?_behind, byteIndex?, indexAt, if_neg (by omega)]
  rfl

theorem boundaryBack?_of_isBoundary {n : Nat} (h : isBoundary t n = true) : boundaryBack? t n = some n := by
  cases n <;> rw [boundaryBack?, if_pos h]

/-- **Stepping back ends where a character starts.** -/
theorem boundaryBack?_eq (a b : Text) {n : Nat} (h : n ≤ byteLength a) :
    boundaryBack? (a ++ b) n = some (byteLength (a.take (floorByteIndex a n))) := by
  have hplace : n = byteLength a ∨ ∃ s c u, a = s ++ c :: u ∧ byteLength s ≤ n ∧ n < byteLength s + c.utf8Size :=
    around Char.utf8Size a h
  rcases hplace with rfl | ⟨s, c, u, rfl, hle, hlt⟩
  · have hindex := floorByteIndex_append a []
    rw [List.append_nil] at hindex
    rw [boundaryBack?_of_isBoundary (isBoundary_append a b), hindex, List.take_length]
  · obtain ⟨k, rfl⟩ := Nat.exists_eq_add_of_le hle
    rw [floorByteIndex_inside hle hlt, List.take_left, List.append_assoc, List.cons_append]
    clear h hle
    -- Inside the character, `k` bytes behind its start, every step back meets no boundary until that start.
    induction k with
    | zero => exact boundaryBack?_of_isBoundary (isBoundary_append _ _)
    | succ k ih =>
      rw [← Nat.add_assoc, boundaryBack?, if_neg]
      · exact ih (by omega)
      · rw [Nat.add_assoc, isBoundary_inside (by omega)]
        exact Bool.false_ne_true

end SealedScript.Text
