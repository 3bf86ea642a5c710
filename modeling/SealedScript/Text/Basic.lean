/-!
Texts as lists of characters, with the searches every reader of this library is built from.

A text is cut by what it holds, never by a stored position: `indexOf?` and `lastIndexOf?` count
characters, and `List.take` and `List.drop` cut there. String literals are used as texts directly.
-/

namespace SealedScript
set_option autoImplicit false

/-- A text: Unicode scalar values in reading order. -/
abbrev Text := List Char

instance : Coe String Text := ⟨String.toList⟩

namespace Text

/-! ## Searching -/

/-- Where `pat` starts for the first time, counted in characters from the index `here`. -/
def indexFrom (pat : Text) (here : Nat) : Text → Option Nat
  | [] => if pat.isEmpty then some here else none
  | c :: t => if pat.isPrefixOf (c :: t) then some here else indexFrom pat (here + 1) t

/-- The first index at which `pat` starts in `t`. -/
def indexOf? (pat t : Text) : Option Nat := indexFrom pat 0 t

/-- The last index at which `pat` starts, `last` being the latest one met so far. -/
def lastIndexFrom (pat : Text) (here : Nat) (last : Option Nat) : Text → Option Nat
  | [] => if pat.isEmpty then some here else last
  | c :: t =>
    lastIndexFrom pat (here + 1) (if pat.isPrefixOf (c :: t) then some here else last) t

/-- The last index at which `pat` starts in `t`. -/
def lastIndexOf? (pat t : Text) : Option Nat := lastIndexFrom pat 0 none t

def occursIn (pat t : Text) : Bool := (indexOf? pat t).isSome

/-! ## Cutting -/

/-- `t` without a leading `lead`, when it starts with one. -/
def dropLead? (lead t : Text) : Option Text := lead.isPrefixOf? t

/-- `t` without a closing `tail`, when it ends with one. -/
def dropTail? (tail t : Text) : Option Text :=
  (tail.reverse.isPrefixOf? t.reverse).map List.reverse

def endsWith (tail t : Text) : Bool := (dropTail? tail t).isSome

def splitFirst? (sep : Char) (t : Text) : Option (Text × Text) :=
  match t.span (· != sep) with
  | (_, []) => none
  | (before, _ :: after) => some (before, after)

/-- The pieces of `t` between separators, `piece` holding the current piece in reverse. -/
def splitFrom (sep : Char) (piece : Text) : Text → List Text
  | [] => [piece.reverse]
  | c :: t => if c == sep then piece.reverse :: splitFrom sep [] t else splitFrom sep (c :: piece) t

/-- The pieces of `t` between separators; a text without one is a single piece. -/
def split (sep : Char) (t : Text) : List Text := splitFrom sep [] t

def join (sep : Text) (ts : List Text) : Text := (ts.intersperse sep).flatten

/-- `t` filled up on the left with spaces to `width` characters. -/
def padLeft (width : Nat) (t : Text) : Text := List.replicate (width - t.length) ' ' ++ t

/-! ## Character classes of names -/

/-- A letter of the Latin alphabet, without marks. -/
def isLetter (c : Char) : Bool := c.isAlpha

/-- A letter or a decimal digit, ASCII only. -/
def isLetterOrDigit (c : Char) : Bool := c.isAlphanum

/-! ## Texts as keys -/

theorem lookup_cons {β : Type} (key name : Text) (value : β) (entries : List (Text × β)) :
    List.lookup key ((name, value) :: entries) = if key = name then some value else entries.lookup key := by
  by_cases h : key = name
  · simp [h]
  · have differs : (key == name) = false := beq_eq_false_iff_ne.2 h
    rw [List.lookup_cons, differs, if_neg h]

end Text
end SealedScript
