import SealedScript.Text.Basic

/-!
The two measures of a text: its length in UTF-8 bytes and its length in UTF-16 code units.

Positions are character indices. `unitIndex?` and `floorUnitIndex?` find the index that lies a number
of code units from the start, and `byteIndex?` the one that lies a number of bytes from it; offsets
in one measure become offsets in the other by measuring what precedes the index.
-/

namespace SealedScript.Text
set_option autoImplicit false

/-! ## Measures -/

/-- The UTF-16 code units of a character: itself, or a surrogate pair above the basic plane. -/
def unitsOf (c : Char) : List Nat :=
  let n := c.toNat
  if n < 0x10000 then [n]
  else [0xD800 + (n - 0x10000) / 0x400, 0xDC00 + (n - 0x10000) % 0x400]

def unitWidth (c : Char) : Nat := if c.toNat < 0x10000 then 1 else 2

def units (t : Text) : List Nat := t.flatMap unitsOf

/-- The length of a text when each character has a width. -/
@[specialize] def lengthBy (width : Char → Nat) (t : Text) : Nat := t.foldl (fun n c => n + width c) 0

def unitLength (t : Text) : Nat := lengthBy unitWidth t

def byteLength (t : Text) : Nat := lengthBy Char.utf8Size t

theorem foldl_width (width : Char → Nat) (n : Nat) (t : Text) :
    t.foldl (fun n c => n + width c) n = n + lengthBy width t := by
  induction t generalizing n with
  | nil => rfl
  | cons c t ih =>
    rw [lengthBy, List.foldl_cons, List.foldl_cons, ih, ih (0 + width c)]
    omega

theorem lengthBy_cons (width : Char → Nat) (c : Char) (t : Text) :
    lengthBy width (c :: t) = width c + lengthBy width t := by
  rw [lengthBy, List.foldl_cons, foldl_width, Nat.zero_add]

theorem lengthBy_append (width : Char → Nat) (s t : Text) :
    lengthBy width (s ++ t) = lengthBy width s + lengthBy width t := by
  rw [lengthBy, List.foldl_append, foldl_width]
  rfl

@[simp] theorem unitLength_nil : unitLength [] = 0 := rfl

@[simp] theorem unitLength_cons (c : Char) (t : Text) :
    unitLength (c :: t) = unitWidth c + unitLength t := lengthBy_cons _ c t

@[simp] theorem unitLength_append (s t : Text) :
    unitLength (s ++ t) = unitLength s + unitLength t := lengthBy_append _ s t

theorem length_unitsOf (c : Char) : (unitsOf c).length = unitWidth c := by
  by_cases h : c.toNat < 0x10000 <;> simp [unitsOf, unitWidth, h]

/-- The length in code units is the number of code units. -/
theorem length_units (t : Text) : (units t).length = unitLength t := by
  induction t with
  | nil => rfl
  | cons c t ih =>
    rw [units] at ih
    rw [units, List.flatMap_cons, List.length_append, ih, length_unitsOf, unitLength_cons]

theorem unitWidth_pos (c : Char) : 0 < unitWidth c := by
  by_cases h : c.toNat < 0x10000 <;> simp [unitWidth, h]

@[simp] theorem byteLength_nil : byteLength [] = 0 := rfl

@[simp] theorem byteLength_cons (c : Char) (t : Text) :
    byteLength (c :: t) = c.utf8Size + byteLength t := lengthBy_cons _ c t

@[simp] theorem byteLength_append (s t : Text) :
    byteLength (s ++ t) = byteLength s + byteLength t := lengthBy_append _ s t

/-! ## Indices -/

/-- The index exactly `goal` units (as `width` counts them) further on, counting indices from `here`. -/
@[specialize] def indexAt (width : Char → Nat) (here : Nat) : Nat → Text → Option Nat
  | 0, _ => some here
  | _ + 1, [] => none
  | goal + 1, c :: t =>
    if width c ≤ goal + 1 then indexAt width (here + 1) (goal + 1 - width c) t else none

/-- The last index at most `goal` units further on; `none` when the text is shorter than that. -/
@[specialize] def floorIndexAt (width : Char → Nat) (here : Nat) : Nat → Text → Option Nat
  | goal, [] => if goal = 0 then some here else none
  | goal, c :: t =>
    if width c ≤ goal then floorIndexAt width (here + 1) (goal - width c) t else some here

/-- The character index that lies `goal` code units from the start; `none` past the end or inside a
surrogate pair. -/
def unitIndex? (t : Text) (goal : Nat) : Option Nat := indexAt unitWidth 0 goal t

/-- Like `unitIndex?`, but a goal inside a surrogate pair moves back to the start of that character. -/
def floorUnitIndex? (t : Text) (goal : Nat) : Option Nat := floorIndexAt unitWidth 0 goal t

/-- The character index that lies `goal` bytes from the start; `none` past the end or inside a
character. -/
def byteIndex? (t : Text) (goal : Nat) : Option Nat := indexAt Char.utf8Size 0 goal t

/-- Like `byteIndex?`, but a goal inside a character moves back to its start, and one past the end
back to the end. -/
def floorByteIndex (t : Text) (goal : Nat) : Nat :=
  (floorIndexAt Char.utf8Size 0 goal t).getD t.length

/-! ## Offsets -/

/-- The byte offset of the character that starts `goal` code units from the start. -/
def byteOfUnit? (t : Text) (goal : Nat) : Option Nat :=
  (unitIndex? t goal).map fun i => byteLength (t.take i)

/-- The byte offset of the character that starts or is crossed `goal` code units from the start. -/
def floorByteOfUnit? (t : Text) (goal : Nat) : Option Nat :=
  (floorUnitIndex? t goal).map fun i => byteLength (t.take i)

def unitOfByte (t : Text) (here : Nat) : Nat := unitLength (t.take (floorByteIndex t here))

/-- The leading `n` bytes of `t` and what follows them, when a character ends there. -/
def splitBytes? (n : Nat) (t : Text) : Option (Text × Text) :=
  (byteIndex? t n).map t.splitAt

end SealedScript.Text
