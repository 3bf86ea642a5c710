/-!
Computations that say when they leave their range.

A guarded computation answers, fails, or reaches for what is not there; only then it is `none`. What cannot leave its
range is `within` it, and a sequence of steps stays within range when each of them does (`bind_eq_within`).
-/

namespace SealedScript
set_option autoImplicit false

/-- A computation that answers, fails or leaves its range. -/
abbrev Guarded (ε α : Type) : Type := ExceptT ε Option α

/-- A computation that stays in its range. -/
def within {ε α : Type} (x : Except ε α) : Guarded ε α := ExceptT.mk (some x)

/-- Goes on only where the condition holds. -/
def demand {ε : Type} (p : Prop) [Decidable p] (fault : ε) : Guarded ε Unit :=
  within (if p then .ok () else .error fault)

/-- The difference of two numbers that must not fall below zero. -/
def minus? (a b : Nat) : Option Nat := if b ≤ a then some (a - b) else none

/-- The same computation with its faults seen through `f`. -/
def Guarded.mapFault {ε ε' α : Type} (f : ε → ε') (x : Guarded ε α) : Guarded ε' α :=
  ExceptT.mk (x.run.map (Except.mapError f))

/-- The members in front of a place. -/
def upTo? {α : Type} (stop : Nat) (as : List α) : Option (List α) :=
  if stop ≤ as.length then some (as.take stop) else none

/-- The members from a place on. -/
def onward? {α : Type} (start : Nat) (as : List α) : Option (List α) :=
  if start ≤ as.length then some (as.drop start) else none

/-- The array with two of its members exchanged. -/
def swap? {α : Type} (as : Array α) (i j : Nat) : Option (Array α) :=
  if h : i < as.size ∧ j < as.size then some (as.swap i j h.1 h.2) else none

/-- The members that pass a test; `none` when the test of one of them leaves its range. -/
def filter? {α : Type} (test : α → Option Bool) : List α → Option (List α)
  | [] => some []
  | a :: as => do
    let keep ← test a
    let kept ← filter? test as
    return if keep then a :: kept else kept

variable {ε α β γ : Type}

theorem minus?_of_le {a b : Nat} (h : b ≤ a) : minus? a b = some (a - b) := if_pos h

theorem minus?_of_lt {a b : Nat} (h : a < b) : minus? a b = none := if_neg (by omega)

theorem upTo?_of_le {stop : Nat} {as : List α} (h : stop ≤ as.length) : upTo? stop as = some (as.take stop) := if_pos h

theorem onward?_of_le {start : Nat} {as : List α} (h : start ≤ as.length) : onward? start as = some (as.drop start) :=
  if_pos h

/-- The two last members are found by their distance from the end. -/
theorem swap?_push (as : Array α) (a b : α) :
    swap? ((as.push a).push b) (as.size + 1) as.size = some ((as.push b).push a) := by
  have hbounds : as.size + 1 < ((as.push a).push b).size ∧ as.size < ((as.push a).push b).size := by
    simp only [Array.size_push]
    omega
  rw [swap?, dif_pos hbounds, Option.some.injEq]
  apply Array.ext
  · simp
  · intro i hi _
    simp only [Array.getElem_swap, Array.getElem_push, Array.size_push]
    simp only [Array.size_push, Array.size_swap] at hi
    by_cases hlast : i = as.size + 1
    · simp [hlast]
    · by_cases hnext : i = as.size
      · simp [hnext]
      · simp [hlast, hnext, show i < as.size by omega, show i < as.size + 1 by omega]

theorem filter?_eq {test : α → Option Bool} {p : α → Bool} {as : List α} (h : ∀ a ∈ as, test a = some (p a)) :
    filter? test as = some (as.filter p) := by
  induction as with
  | nil => rfl
  | cons a as ih =>
    rw [filter?, h a (List.mem_cons_self ..), ih fun b hb => h b (List.mem_cons_of_mem a hb), List.filter_cons]
    rfl

/-- Of a rising list, the last member that passes. -/
theorem getLast?_filter_of_sorted {p : Nat → Bool} {n : Nat} {ns : List Nat} (hsorted : ns.Pairwise (· < ·))
    (hn : n ∈ ns) (hp : p n = true) (hlater : ∀ m ∈ ns, n < m → p m = false) : (ns.filter p).getLast? = some n := by
  induction ns with
  | nil => cases hn
  | cons m ns ih =>
    obtain ⟨hrise, hsorted⟩ := List.pairwise_cons.mp hsorted
    rcases List.mem_cons.mp hn with rfl | hn
    · have hnone : ns.filter p = [] := List.filter_eq_nil_iff.mpr fun k hk => by
        rw [hlater k (List.mem_cons_of_mem _ hk) (hrise k hk)]
        exact Bool.false_ne_true
      rw [List.filter_cons, if_pos hp, hnone, List.getLast?_singleton]
    · have hlast := ih hsorted hn fun k hk => hlater k (List.mem_cons_of_mem _ hk)
      rw [List.filter_cons]
      split
      case isTrue => rw [List.getLast?_cons, hlast, Option.getD_some]
      case isFalse => exact hlast

/-! ## Steps -/

@[simp] theorem within_ok_bind (a : α) (f : α → Guarded ε β) : (within (.ok a) >>= f) = f a := rfl

@[simp] theorem within_error_bind (e : ε) (f : α → Guarded ε β) : (within (.error e) >>= f) = within (.error e) := rfl

@[simp] theorem lift_some_bind (a : α) (f : α → Guarded ε β) : ((liftM (some a) : Guarded ε α) >>= f) = f a := rfl

@[simp] theorem throw_eq_within (e : ε) : (throw e : Guarded ε α) = within (.error e) := rfl

@[simp] theorem pure_eq_within (a : α) : (pure a : Guarded ε α) = within (.ok a) := rfl

@[simp] theorem mapFault_within {ε' : Type} (f : ε → ε') (x : Except ε α) :
    (within x).mapFault f = within (x.mapError f) := rfl

theorem demand_eq_within {p : Prop} [Decidable p] {fault : ε} {x : Except ε β} {f : Unit → Guarded ε β}
    (hyes : p → f () = within x) (hno : ¬ p → x = .error fault) : (demand p fault >>= f) = within x := by
  rw [demand]
  by_cases h : p
  · rw [if_pos h, within_ok_bind, hyes h]
  · rw [if_neg h, within_error_bind, hno h]

/-- A step that is in range, seen through `g`, is followed by a step that need only be in range where the first
one answers. -/
theorem bind_eq_within {x : Except ε α} {f : α → Except ε γ} {g : α → β} {x' : Guarded ε β} {f' : β → Guarded ε γ}
    (hx : x' = within (x.map g)) (hf : ∀ a, x = .ok a → f' (g a) = within (f a)) : (x' >>= f') = within (x >>= f) := by
  rw [hx]
  cases x with
  | error e => rfl
  | ok a => exact hf a rfl

theorem within_bind_eq {x : Except ε α} {f : α → Except ε β} {f' : α → Guarded ε β}
    (hf : ∀ a, x = .ok a → f' a = within (f a)) : (within x >>= f') = within (x >>= f) := by
  cases x with
  | error e => rfl
  | ok a => exact hf a rfl

end SealedScript
