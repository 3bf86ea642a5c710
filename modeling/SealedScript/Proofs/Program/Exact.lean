import Mathlib.Algebra.BigOperators.Group.List.Basic
import Mathlib.Algebra.Ring.Int.Defs
import SealedScript.Proofs.Outcome
import SealedScript.Proofs.Program.Word

/-!
Integer programs compute exactly.

`ArithOp.Exact` says what the result of an operation on whole numbers is, without a word in it: a quotient by the
remainder it leaves. On integral values an operation succeeds exactly where that result fits 64 bits, and then answers
it (`apply_integral`); a sum succeeds exactly where no sum on the way leaves that range (`foldlM_add_succeeds`), and
answers the exact sum (`foldlM_add_exact`). So what a sum denotes does not depend on the order of its items
(`integers_exact`).
-/

namespace SealedScript
set_option autoImplicit false

/-- The whole number that a value denotes. -/
def Value.integer? : Value → Option Int
  | .byte v => some v.toInt
  | .short v => some v.toInt
  | .int v => some v.toInt
  | .long v => some v.toInt
  | _ => none

namespace ArithOp

/-- `n` is the result of the operation on `x` and `y`. A quotient leaves a remainder that is smaller than the divisor
and on the dividend's side of zero. -/
inductive Exact : ArithOp → Int → Int → Int → Prop
  | add (x y : Int) : Exact .add x y (x + y)
  | sub (x y : Int) : Exact .sub x y (x - y)
  | mul (x y : Int) : Exact .mul x y (x * y)
  | div (x y n rest : Int) (hleaves : x = n * y + rest) (hsmall : rest.natAbs < y.natAbs)
    (hside : (0 ≤ x → 0 ≤ rest) ∧ (x ≤ 0 → rest ≤ 0)) : Exact .div x y n

/-- The whole numbers that signed words of `bits` bits hold. -/
def InWord (bits : Nat) (n : Int) : Prop := -2 ^ (bits - 1) ≤ n ∧ n < 2 ^ (bits - 1)

/-- The value is `n`: an integer where no operand was long and `n` fits one, and a long otherwise. -/
structure Answers (a b : Value) (n : Int) (v : Value) : Prop where
  denotes : v.integer? = some n
  narrow : a.ty? ≠ some .long → b.ty? ≠ some .long → InWord 32 n → v.ty? = some .integer
  wide : a.ty? = some .long ∨ b.ty? = some .long ∨ ¬ InWord 32 n → v.ty? = some .long

variable {op : ArithOp} {a b v acc total : Value} {x y n : Int} {items : List Value} {nums : List Int}

/-! ## Results -/

theorem exact_div_iff : Exact .div x y n ↔ y ≠ 0 ∧ x.tdiv y = n := by
  constructor
  · intro h
    obtain ⟨⟩ | ⟨⟩ | ⟨⟩ | ⟨_, _, _, rest, hleaves, hsmall, hside⟩ := h
    have hy : y ≠ 0 := by
      rintro rfl
      exact Nat.not_lt_zero _ hsmall
    have hcomm : n * y = y * n := Int.mul_comm n y
    -- A truncated quotient is determined on either side of zero on its own.
    rcases Int.le_total 0 x with hpos | hneg
    · exact ⟨hy, ((Int.tdiv_tmod_unique (r := rest) hpos hy).mpr (by omega)).1⟩
    · exact ⟨hy, ((Int.tdiv_tmod_unique' (r := rest) hneg hy).mpr (by omega)).1⟩
  · rintro ⟨hy, rfl⟩
    have hsmall : (x.tmod y).natAbs < y.natAbs := by
      rw [Int.natAbs_tmod]
      exact Nat.mod_lt _ (Int.natAbs_pos.mpr hy)
    refine .div x y _ (x.tmod y) (Int.tdiv_mul_add_tmod x y).symm hsmall ⟨Int.tmod_nonneg y, fun hneg => ?_⟩
    have hpos := Int.tmod_nonneg y (Int.neg_nonneg_of_nonpos hneg)
    rw [Int.neg_tmod] at hpos
    omega

theorem exact_iff : Exact op x y n ↔ op.onInts? x y = some n := by
  cases op with
  | add => exact ⟨fun h => by cases h; rfl, fun h => by cases h; exact .add x y⟩
  | sub => exact ⟨fun h => by cases h; rfl, fun h => by cases h; exact .sub x y⟩
  | mul => exact ⟨fun h => by cases h; rfl, fun h => by cases h; exact .mul x y⟩
  | div =>
    rw [exact_div_iff, onInts?]
    by_cases hy : y = 0
    · simp [hy]
    · simp [hy]

/-! ## Values -/

theorem fits_iff_inWord {bits : Nat} : fits bits n = true ↔ InWord bits n := by
  have hpow : ((Nat.pow 2 (bits - 1) : Nat) : Int) = 2 ^ (bits - 1) := by
    rw [Nat.pow_eq, Int.natCast_pow]
    rfl
  rw [fits_iff, InWord, Value.wordRange, hpow]
  omega

theorem numeric?_of_integer? (h : v.integer? = some x) : v.numeric? = some (.integral x) ∧ isText v = false := by
  cases v with
  | byte | short | int | long =>
    cases h
    exact ⟨rfl, rfl⟩
  | _ => cases h

theorem isLong_iff : isLong v = true ↔ v.ty? = some .long := by
  cases v <;> simp [isLong, Value.ty?]

theorem integral_answers (h : InWord 64 n) : Answers a b n (integral (isLong a || isLong b) n) := by
  have hlong : (isLong a || isLong b) = true ↔ a.ty? = some .long ∨ b.ty? = some .long := by
    rw [Bool.or_eq_true, isLong_iff, isLong_iff]
  unfold integral
  by_cases hshort : (isLong a || isLong b) = false ∧ InWord 32 n
  · obtain ⟨hno, hfits⟩ := hshort
    rw [if_pos (by rw [hno, fits_iff_inWord.mpr hfits]; rfl)]
    rw [← Bool.not_eq_true, hlong, not_or] at hno
    refine ⟨congrArg some (Int32.toInt_ofInt_of_le hfits.1 hfits.2), fun _ _ _ => rfl, ?_⟩
    rintro (ha | hb | hout)
    · exact absurd ha hno.1
    · exact absurd hb hno.2
    · exact absurd hfits hout
  · rw [if_neg (by rw [Bool.and_eq_true, Bool.not_eq_true', fits_iff_inWord]; exact hshort)]
    refine ⟨congrArg some (Int64.toInt_ofInt_of_le h.1 h.2), fun ha hb hfits => ?_, fun _ => rfl⟩
    have hno : (isLong a || isLong b) = false := by
      rw [← Bool.not_eq_true, hlong]
      exact not_or.mpr ⟨ha, hb⟩
    exact absurd ⟨hno, hfits⟩ hshort

theorem inWord_of_integer? (h : v.integer? = some x) : InWord 64 x := by
  cases v with
  | byte w | short w | int w | long w =>
    cases h
    have hlow := w.le_toInt
    have hhigh := w.toInt_lt
    constructor <;> omega
  | _ => cases h

/-- **An operation on integral values answers its exact result where that fits 64 bits, and fails everywhere else**:
with an overflow where there is such a result, and for a division by zero where there is none. -/
theorem apply_integral (op : ArithOp) (ha : a.integer? = some x) (hb : b.integer? = some y) :
    (∀ n, Exact op x y n → InWord 64 n → ∃ v, op.apply a b = .ok v ∧ Answers a b n v) ∧
    (∀ n, Exact op x y n → ¬ InWord 64 n → op.apply a b = .error .overflow) ∧
    ((∀ n, ¬ Exact op x y n) → op.apply a b = .error .divisionByZero) := by
  obtain ⟨hx, htext⟩ := numeric?_of_integer? ha
  obtain ⟨hy, htext'⟩ := numeric?_of_integer? hb
  have hplain : op.apply a b = op.applyInts (isLong a || isLong b) x y := by
    simp [apply, hx, hy, htext, htext', applyNumbers]
  rw [hplain, applyInts]
  refine ⟨fun n hexact hin => ?_, fun n hexact hout => ?_, fun hnone => ?_⟩
  · rw [exact_iff.mp hexact]
    exact ⟨_, if_pos (fits_iff_inWord.mpr hin), integral_answers hin⟩
  · rw [exact_iff.mp hexact]
    exact if_neg fun hfits => hout (fits_iff_inWord.mp hfits)
  · cases hn : op.onInts? x y with
    | none => rfl
    | some n => exact absurd (exact_iff.mpr hn) (hnone n)

/-! ## Sums -/

theorem add_integral (ha : a.integer? = some x) (hb : b.integer? = some y) :
    (InWord 64 (x + y) → ∃ v, add.apply a b = .ok v) ∧ ∀ v, add.apply a b = .ok v → v.integer? = some (x + y) := by
  obtain ⟨hok, hover, -⟩ := apply_integral .add ha hb
  refine ⟨fun hin => ?_, fun v hv => ?_⟩
  · obtain ⟨v, hv, -⟩ := hok _ (.add x y) hin
    exact ⟨v, hv⟩
  · by_cases hin : InWord 64 (x + y)
    · obtain ⟨w, hw, hanswers⟩ := hok _ (.add x y) hin
      cases hw.symm.trans hv
      exact hanswers.denotes
    · cases (hover _ (.add x y) hin).symm.trans hv

theorem foldlM_add_exact (hitems : items.map Value.integer? = nums.map some) (hacc : acc.integer? = some x)
    (h : items.foldlM add.apply acc = .ok total) : total.integer? = some (x + nums.sum) := by
  -- Over the items; the accumulator denotes the exact sum of those in front, whichever of the two widths it has.
  induction items generalizing acc x nums with
  | nil =>
    obtain rfl := List.map_eq_nil_iff.mp hitems.symm
    cases h
    simpa using hacc
  | cons item items ih =>
    obtain ⟨y, nums, rfl, hy, hrest⟩ := List.map_eq_cons_iff.mp hitems.symm
    rw [List.foldlM_cons] at h
    obtain ⟨next, hnext, h⟩ := bind_eq_ok.mp h
    have htotal := ih hrest.symm ((add_integral hacc hy.symm).2 next hnext) h
    rwa [List.sum_cons, ← Int.add_assoc]

/-- A sum succeeds exactly where no sum on the way leaves 64 bits. -/
theorem foldlM_add_succeeds (hitems : items.map Value.integer? = nums.map some) (hacc : acc.integer? = some x) :
    (∃ total, items.foldlM add.apply acc = .ok total) ↔ ∀ front, front <+: nums → InWord 64 (x + front.sum) := by
  induction items generalizing acc x nums with
  | nil =>
    obtain rfl := List.map_eq_nil_iff.mp hitems.symm
    refine ⟨fun _ front hfront => ?_, fun _ => ⟨acc, rfl⟩⟩
    obtain rfl := List.prefix_nil.mp hfront
    simpa using inWord_of_integer? hacc
  | cons item items ih =>
    obtain ⟨y, nums, rfl, hy, hrest⟩ := List.map_eq_cons_iff.mp hitems.symm
    obtain ⟨hok, hexact⟩ := add_integral hacc hy.symm
    constructor
    · rintro ⟨total, h⟩ front hfront
      rw [List.foldlM_cons] at h
      obtain ⟨next, hnext, h⟩ := bind_eq_ok.mp h
      obtain rfl | ⟨more, rfl, hmore⟩ := List.prefix_cons_iff.mp hfront
      · simpa using inWord_of_integer? hacc
      · rw [List.sum_cons, ← Int.add_assoc]
        exact (ih hrest.symm (hexact next hnext)).mp ⟨total, h⟩ more hmore
    · intro hfronts
      have hfirst : InWord 64 (x + y) := by simpa using hfronts [y] (by simp)
      obtain ⟨next, hnext⟩ := hok hfirst
      obtain ⟨total, htotal⟩ := (ih hrest.symm (hexact next hnext)).mpr fun front hfront => by
        have hin := hfronts (y :: front) ((List.prefix_cons_inj y).mpr hfront)
        rwa [List.sum_cons, ← Int.add_assoc] at hin
      refine ⟨total, ?_⟩
      rw [List.foldlM_cons, hnext]
      exact htotal

theorem map_integer?_filter (h : ∀ v ∈ items, v = .null ∨ ∃ x, v.integer? = some x) :
    (items.filter fun v => !v.isNull).map Value.integer? = (items.filterMap Value.integer?).map some := by
  induction items with
  | nil => rfl
  | cons v items ih =>
    have htail := ih fun w hw => h w (List.mem_cons_of_mem v hw)
    rcases h v (List.mem_cons_self ..) with rfl | ⟨x, hx⟩
    · exact htail
    · have hsome : v.isNull = false := by
        cases v with
        | null => cases hx
        | _ => rfl
      simp [hsome, hx, htail]

end ArithOp

open ArithOp

section

variable {items : List Value}

theorem sumItems_exact {total : Value} (hitems : ∀ v ∈ items, v = .null ∨ ∃ x, v.integer? = some x)
    (h : sumItems items = .ok total) : total.integer? = some (items.filterMap Value.integer?).sum := by
  simpa using foldlM_add_exact (map_integer?_filter hitems) (x := 0) rfl h

/-- **Only a sum on the way that leaves 64 bits makes a sum of integral values fail.** -/
theorem sumItems_succeeds (hitems : ∀ v ∈ items, v = .null ∨ ∃ x, v.integer? = some x) :
    (∃ total, sumItems items = .ok total) ↔
      ∀ front, front <+: items.filterMap Value.integer? → InWord 64 front.sum := by
  simpa [sumItems] using foldlM_add_succeeds (map_integer?_filter hitems) (x := 0) rfl

/-- So the order of the items does matter for whether there is a sum. -/
example : sumItems [.long Int64.maxValue, .int 1, .byte (-1)] = .error .overflow ∧
    sumItems [.long Int64.maxValue, .byte (-1), .int 1] = .ok (.long Int64.maxValue) := ⟨rfl, rfl⟩

end

/-! ## Steps -/

namespace Machine

variable {engine : Text} {f : Frame} {m : Machine} {rest : List Value} {scope : Option Scope}

theorem step_neg_integral {a : Value} {x : Int} (ha : a.integer? = some x) :
    (InWord 64 (-x) → ∃ v, step engine f ⟨a :: rest, scope⟩ .neg = .ok ⟨v :: rest, scope⟩ ∧ v.integer? = some (-x)) ∧
    (¬ InWord 64 (-x) → step engine f ⟨a :: rest, scope⟩ .neg = .error (.engine engine .overflow)) := by
  have hexact : Exact .sub 0 x (-x) := by
    rw [← Int.zero_sub]
    exact .sub 0 x
  obtain ⟨hok, hover, -⟩ := apply_integral (a := .int 0) .sub rfl ha
  constructor
  · intro hin
    obtain ⟨v, hv, hanswers⟩ := hok _ hexact hin
    exact ⟨v, by simp [step, stackStep, onTop, hv, Except.map, Except.mapError], hanswers.denotes⟩
  · intro hout
    simp [step, stackStep, onTop, hover _ hexact hout, Except.map, Except.mapError]

theorem step_sum_eq_ok {element : Ty} {items : List Value}
    (h : step engine f ⟨.array element items :: rest, scope⟩ .sum = .ok m) :
    ∃ total, sumItems items = .ok total ∧ m = ⟨total :: rest, scope⟩ := by
  obtain ⟨answer, hanswer, rfl⟩ := map_eq_ok.mp (mapError_eq_ok.mp h)
  obtain ⟨total, htotal, rfl⟩ := map_eq_ok.mp hanswer
  exact ⟨total, htotal, rfl⟩

/-- **Integers compute exactly.** An operation on integral values answers its exact result where that fits 64 bits and
fails everywhere else, so does a negation, and a sum that succeeds is the exact sum of the items that are not null,
whatever their order. -/
theorem integers_exact (engine : Text) (f : Frame) (rest : List Value) (scope : Option Scope) :
    (∀ op a b x y, a.integer? = some x → b.integer? = some y →
      (∀ n, Exact op x y n → InWord 64 n → ∃ v, op.apply a b = .ok v ∧ Answers a b n v) ∧
      (∀ n, Exact op x y n → ¬ InWord 64 n → op.apply a b = .error .overflow) ∧
      ((∀ n, ¬ Exact op x y n) → op.apply a b = .error .divisionByZero)) ∧
    (∀ a x, a.integer? = some x →
      (InWord 64 (-x) → ∃ v, step engine f ⟨a :: rest, scope⟩ .neg = .ok ⟨v :: rest, scope⟩ ∧
        v.integer? = some (-x)) ∧
      (¬ InWord 64 (-x) → step engine f ⟨a :: rest, scope⟩ .neg = .error (.engine engine .overflow))) ∧
    (∀ element items m, (∀ v ∈ items, v = .null ∨ ∃ x, v.integer? = some x) →
      step engine f ⟨.array element items :: rest, scope⟩ .sum = .ok m →
      ∃ total, m = ⟨total :: rest, scope⟩ ∧ total.integer? = some (items.filterMap Value.integer?).sum) ∧
    (∀ element element' items items' m m', (∀ v ∈ items, v = .null ∨ ∃ x, v.integer? = some x) → items.Perm items' →
      step engine f ⟨.array element items :: rest, scope⟩ .sum = .ok m →
      step engine f ⟨.array element' items' :: rest, scope⟩ .sum = .ok m' →
      ∃ n total total', m = ⟨total :: rest, scope⟩ ∧ m' = ⟨total' :: rest, scope⟩ ∧
        total.integer? = some n ∧ total'.integer? = some n) := by
  refine ⟨fun op a b x y ha hb => apply_integral op ha hb, fun a x ha => step_neg_integral ha, ?_, ?_⟩
  · intro element items m hitems hstep
    obtain ⟨total, htotal, rfl⟩ := step_sum_eq_ok hstep
    exact ⟨total, rfl, sumItems_exact hitems htotal⟩
  · intro element element' items items' m m' hitems hperm hstep hstep'
    obtain ⟨total, htotal, rfl⟩ := step_sum_eq_ok hstep
    obtain ⟨total', htotal', rfl⟩ := step_sum_eq_ok hstep'
    have hitems' : ∀ v ∈ items', v = .null ∨ ∃ x, v.integer? = some x := fun v hv => hitems v (hperm.mem_iff.mpr hv)
    refine ⟨_, total, total', rfl, rfl, sumItems_exact hitems htotal, ?_⟩
    rw [(hperm.filterMap Value.integer?).sum_eq]
    exact sumItems_exact hitems' htotal'

theorem integers_exact_extremes :
    (∃ v, ArithOp.div.apply (.int Int32.minValue) (.byte (-1)) = .ok v ∧
      Answers (.int Int32.minValue) (.byte (-1)) 2147483648 v) ∧
    ArithOp.div.apply (.long Int64.minValue) (.short (-1)) = .error .overflow ∧
    ArithOp.div.apply (.short (-7)) (.byte 0) = .error .divisionByZero ∧
    step [] ⟨[], [], []⟩ ⟨[.long Int64.minValue], none⟩ .neg = .error (.engine [] .overflow) ∧
    (∃ n total total',
      step [] ⟨[], [], []⟩ ⟨[.array .object [.long Int64.maxValue, .byte (-1), .null, .int 1]], none⟩ .sum =
        .ok ⟨[total], none⟩ ∧
      step [] ⟨[], [], []⟩ ⟨[.array .long [.byte (-1), .null, .int 1, .long Int64.maxValue]], none⟩ .sum =
        .ok ⟨[total'], none⟩ ∧
      total.integer? = some n ∧ total'.integer? = some n) := by
  obtain ⟨harith, hneg, -, horder⟩ := integers_exact [] ⟨[], [], []⟩ [] none
  refine ⟨?_, ?_, ?_, ?_, ?_⟩
  · exact (harith .div (.int Int32.minValue) (.byte (-1)) _ _ rfl rfl).1 2147483648
      (.div _ _ _ 0 (by decide) (by decide) (by decide)) ⟨by decide, by decide⟩
  · refine (harith .div (.long Int64.minValue) (.short (-1)) _ _ rfl rfl).2.1 9223372036854775808
      (.div _ _ _ 0 (by decide) (by decide) (by decide)) fun h => ?_
    exact absurd h.2 (by decide)
  · refine (harith .div (.short (-7)) (.byte 0) _ _ rfl rfl).2.2 fun n h => ?_
    rw [exact_div_iff] at h
    exact h.1 rfl
  · refine (hneg (.long Int64.minValue) _ rfl).2 fun h => ?_
    exact absurd h.2 (by decide)
  · obtain ⟨n, total, total', hm, hm', hn, hn'⟩ := horder .object .long _ _ _ _ (by simp [Value.integer?])
      (List.perm_append_singleton (.long Int64.maxValue) [.byte (-1), .null, .int 1]).symm rfl rfl
    exact ⟨n, total, total', congrArg Except.ok hm, congrArg Except.ok hm', hn, hn'⟩

end Machine
end SealedScript
