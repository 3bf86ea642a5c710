import SealedScript.Program.Run
import SealedScript.Proofs.Access

/-!
Arithmetic on machine words.

Integers are added, subtracted, multiplied and divided as words of 64 bits, and an operation is only done on words
after it is known that it neither overflows nor divides by zero. What a word then holds is the exact result, so that
arithmetic never leaves the range of words (`applyAt_eq`).
-/

namespace SealedScript
set_option autoImplicit false

/-- An integral value as a word. -/
def Value.word? : Value → Option Int64
  | .byte v => some v.toInt64
  | .short v => some v.toInt64
  | .int v => some v.toInt64
  | .long v => some v
  | _ => none

namespace ArithOp

/-- Does the operation overflow on words? -/
def overflows : ArithOp → Int64 → Int64 → Bool
  | .add, x, y => x.toBitVec.saddOverflow y.toBitVec
  | .sub, x, y => x.toBitVec.ssubOverflow y.toBitVec
  | .mul, x, y => x.toBitVec.smulOverflow y.toBitVec
  | .div, x, y => decide (x = .minValue ∧ y = -1)

def onWords : ArithOp → Int64 → Int64 → Int64
  | .add, x, y => x + y
  | .sub, x, y => x - y
  | .mul, x, y => x * y
  | .div, x, y => x / y

/-- The operation where it must not overflow nor divide by zero. -/
def exactly? (op : ArithOp) (x y : Int64) : Option Int64 :=
  if (op = .div ∧ y = 0) ∨ op.overflows x y = true then none else some (op.onWords x y)

def applyWords (op : ArithOp) (wide : Bool) (x y : Int64) : Guarded EngineFault Value :=
  if op = .div ∧ y = 0 then throw .divisionByZero
  else if op.overflows x y then throw .overflow
  else do
    let result ← op.exactly? x y
    return integral wide result.toInt

/-- The operation on values; only two integral ones make it an operation on words. -/
def applyAt (op : ArithOp) (a b : Value) : Guarded EngineFault Value :=
  match a.word?, b.word? with
  | some x, some y => op.applyWords (isLong a || isLong b) x y
  | _, _ => within (op.apply a b)

variable {op : ArithOp} {x y : Int64} {a b : Value}

/-! ## Words and integers -/

theorem fits_iff {bits : Nat} {n : Int} :
    fits bits n = true ↔ (Value.wordRange bits).1 ≤ n ∧ n ≤ (Value.wordRange bits).2 := by
  rw [fits, Bool.and_eq_true, decide_eq_true_eq, decide_eq_true_eq]

theorem overflow_eq (bits : Nat) (n : Int) :
    (decide (n ≥ (Value.wordRange bits).2 + 1) || decide (n < (Value.wordRange bits).1)) = !fits bits n := by
  rw [Bool.eq_iff_iff, Bool.or_eq_true, decide_eq_true_eq, decide_eq_true_eq, Bool.not_eq_true', ← Bool.not_eq_true,
    fits_iff]
  omega

theorem fits_toInt (x : Int64) : fits 64 x.toInt = true := fits_iff.mpr ⟨x.le_toInt, Int.le_sub_one_of_lt x.toInt_lt⟩

theorem toInt_div (h : ¬ (x = .minValue ∧ y = -1)) : (x / y).toInt = x.toInt.tdiv y.toInt := by
  by_cases hx : x = .minValue
  · exact Int64.toInt_div_of_ne_right x y fun hy => h ⟨hx, hy⟩
  · exact Int64.toInt_div_of_ne_left x y hx

/-- The exact result exists, and it fits a word exactly where the operation on words does not overflow; the word is
then that result. -/
theorem onInts?_words (h : ¬ (op = .div ∧ y = 0)) : ∃ n, op.onInts? x.toInt y.toInt = some n ∧
    op.overflows x y = !fits 64 n ∧ (op.overflows x y = false → (op.onWords x y).toInt = n) := by
  cases op with
  | add =>
    exact ⟨_, rfl, overflow_eq 64 _, fun hno => BitVec.toInt_add_of_not_saddOverflow (Bool.eq_false_iff.mp hno)⟩
  | sub =>
    exact ⟨_, rfl, overflow_eq 64 _, fun hno => BitVec.toInt_sub_of_not_ssubOverflow (Bool.eq_false_iff.mp hno)⟩
  | mul =>
    exact ⟨_, rfl, overflow_eq 64 _, fun hno => BitVec.toInt_mul_of_not_smulOverflow (Bool.eq_false_iff.mp hno)⟩
  | div =>
    have hzero : y.toInt ≠ 0 := by
      intro hy
      exact h ⟨rfl, Int64.toInt_inj.mp hy⟩
    refine ⟨_, if_neg hzero, ?_, fun hno => toInt_div (of_decide_eq_false hno)⟩
    by_cases hover : x = .minValue ∧ y = -1
    · -- The one quotient of words that is no word.
      obtain ⟨rfl, rfl⟩ := hover
      decide
    · rw [← toInt_div hover, fits_toInt]
      exact decide_eq_false hover

theorem applyWords_eq (op : ArithOp) (wide : Bool) (x y : Int64) :
    op.applyWords wide x y = within (op.applyInts wide x.toInt y.toInt) := by
  rw [applyWords, applyInts]
  by_cases hzero : op = .div ∧ y = 0
  · obtain ⟨rfl, rfl⟩ := hzero
    rfl
  · obtain ⟨n, hn, hover, hexact⟩ := onInts?_words (x := x) hzero
    rw [if_neg hzero, hn]
    cases hno : op.overflows x y with
    | true =>
      have hfits : fits 64 n = false := by simpa [hno] using hover
      simp [hfits]
    | false =>
      have hfits : fits 64 n = true := by simpa [hno] using hover
      have hword : op.exactly? x y = some (op.onWords x y) := by simp [exactly?, hzero, hno]
      simp [hword, hfits, hexact hno]

/-! ## Values -/

theorem numeric?_of_word? (h : a.word? = some x) : a.numeric? = some (.integral x.toInt) ∧ isText a = false := by
  cases a with
  | byte | short | int | long =>
    cases h
    simp [Value.numeric?, isText]
  | _ => cases h

theorem applyAt_eq (op : ArithOp) (a b : Value) : op.applyAt a b = within (op.apply a b) := by
  unfold applyAt
  split
  case h_1 x y hx hy =>
    obtain ⟨ha, htext⟩ := numeric?_of_word? hx
    obtain ⟨hb, htext'⟩ := numeric?_of_word? hy
    simp [applyWords_eq, apply, ha, hb, htext, htext', applyNumbers]
  case h_2 => rfl

/-- **A sum of items never leaves the range of words.** -/
theorem foldlM_applyAt (items : List Value) (v : Value) :
    items.foldlM op.applyAt v = within (items.foldlM op.apply v) := by
  induction items generalizing v with
  | nil => rfl
  | cons item items ih =>
    rw [List.foldlM_cons, List.foldlM_cons, applyAt_eq]
    exact within_bind_eq fun total _ => ih total

end ArithOp
end SealedScript
