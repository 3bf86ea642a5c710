import Mathlib.Data.List.TakeWhile
import SealedScript.Text.Blank

/-!
White space around texts. What is trimmed away makes no difference (`trim_append`, `append_trim`), and a text with none
at its ends is left as it is (`trim_eq_self`).
-/

namespace SealedScript.Text
set_option autoImplicit false

variable {s t : Text} {c : Char}

/-! ## Classes of characters -/

theorem isBlank_iff : isBlank c = true ↔ ∃ r ∈ blankRanges, r.1 ≤ c.toNat ∧ c.toNat ≤ r.2 := by
  simp [isBlank]

theorem isSpacing_iff : isSpacing c = true ↔ c = ' ' ∨ c = '\t' := by
  simp [isSpacing]

theorem isBlank_of_isSpacing (h : isSpacing c = true) : isBlank c = true := by
  rcases isSpacing_iff.mp h with rfl | rfl <;> decide

/-- Spaces and tabs. -/
def Gap := { t : Text // ∀ c ∈ t, isSpacing c = true }

namespace Gap

def none : Gap := ⟨[], nofun⟩

def space : Gap := ⟨[' '], fun _ hc => List.mem_singleton.mp hc ▸ rfl⟩

def tab : Gap := ⟨['\t'], fun _ hc => List.mem_singleton.mp hc ▸ rfl⟩

theorem blank (g : Gap) : ∀ c ∈ g.1, isBlank c = true := fun c hc => isBlank_of_isSpacing (g.2 c hc)

end Gap

/-- Printable ASCII characters other than the space are not blank. -/
theorem isBlank_of_ascii (hlow : 0x21 ≤ c.toNat) (hhigh : c.toNat ≤ 0x7E) : isBlank c = false := by
  rw [← Bool.not_eq_true, isBlank_iff]
  rintro ⟨r, hr, hle⟩
  simp only [blankRanges, List.mem_cons, List.not_mem_nil, or_false] at hr
  rcases hr with rfl | rfl | rfl | rfl | rfl | rfl | rfl | rfl | rfl | rfl <;> simp only at hle <;> omega

theorem isLetterOrDigit_ascii (h : isLetterOrDigit c = true) : 0x30 ≤ c.toNat ∧ c.toNat ≤ 0x7A := by
  have hranges : (decide ('A'.val ≤ c.val ∧ c.val ≤ 'Z'.val) ||
      (decide ('a'.val ≤ c.val) && decide (c.val ≤ 'z'.val)) ||
      (decide ('0'.val ≤ c.val) && decide (c.val ≤ '9'.val))) = true := h
  simp [UInt32.le_iff_toNat_le] at hranges
  omega

/-! ## Trimming -/

theorem trimStart_append (hs : ∀ c ∈ s, isBlank c = true) : trimStart (s ++ t) = trimStart t :=
  List.dropWhile_append_of_pos hs

theorem trimStart_eq_self (h : ∀ c, t.head? = some c → isBlank c = false) : trimStart t = t := by
  cases t with
  | nil => rfl
  | cons c t => exact List.dropWhile_cons_of_neg (by simp [h c rfl])

theorem trimEnd_eq_self (h : ∀ c, t.getLast? = some c → isBlank c = false) : trimEnd t = t := by
  have hreverse : trimStart t.reverse = t.reverse :=
    trimStart_eq_self fun c hc => h c (by rwa [List.head?_reverse] at hc)
  show (trimStart t.reverse).reverse = t
  rw [hreverse, List.reverse_reverse]

/-- A text with no white space at its ends is left as it is. -/
theorem trim_eq_self (hhead : ∀ c, t.head? = some c → isBlank c = false)
    (hlast : ∀ c, t.getLast? = some c → isBlank c = false) : trim t = t := by
  rw [trim, trimStart_eq_self hhead, trimEnd_eq_self hlast]

theorem append_trim (hs : ∀ c ∈ s, isBlank c = true) : trim (s ++ t) = trim t := by
  rw [trim, trimStart_append hs, trim]

theorem trimEnd_append (ht : ∀ c ∈ t, isBlank c = true) : trimEnd (s ++ t) = trimEnd s := by
  show (trimStart (s ++ t).reverse).reverse = (trimStart s.reverse).reverse
  rw [List.reverse_append, trimStart_append fun c hc => ht c (List.mem_reverse.mp hc)]

theorem trim_append (ht : ∀ c ∈ t, isBlank c = true) : trim (s ++ t) = trim s := by
  rw [trim, trim, trimStart, List.dropWhile_append]
  split
  case isTrue hempty =>
    have hblank : t.dropWhile isBlank = [] := List.dropWhile_eq_nil_iff.mpr ht
    rw [hblank, trimStart, List.isEmpty_iff.mp hempty]
  case isFalse => exact trimEnd_append ht

end SealedScript.Text
