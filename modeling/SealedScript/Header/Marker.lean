import SealedScript.Header.Launch
import SealedScript.Text.Blank

/-!
Engine markers: an at sign, a dotted name, an optional option in parentheses and a colon, anywhere
behind the launch lines. The first complete one counts.
-/

namespace SealedScript.Header
set_option autoImplicit false

/-- The engine that a script asks for, and the option it asks for it with. -/
structure Marker where
  engine : Text
  option : Option Text
deriving DecidableEq, Repr

def isDottedChar (c : Char) : Bool := Text.isLetterOrDigit c || c == '.'

/-- Are the parts between the dots words that start with a letter? -/
def isDottedName (name : Text) : Bool :=
  (Text.split '.' name).all fun part => part.head?.any Text.isLetter

/-- May the character stand between the parentheses of an option? -/
def isOptionChar (c : Char) : Bool := c != ')' && c != '\n'

/-- The option behind an opening parenthesis, which ends at the first closing one if a colon follows that.
White space around it does not count, and without any other text there is none. -/
def readOption? (t : Text) : Option (Option Text) :=
  match t.span isOptionChar with
  | (inner, ')' :: ':' :: _) =>
    let option := Text.trim inner
    some (if option.isEmpty then none else some option)
  | _ => none

/-- The marker whose at sign precedes the text. None with an option is looked for when the next closing
parenthesis is `barred`. -/
def readMarker? (barred : Bool) (t : Text) : Option Marker :=
  let (name, rest) := t.span isDottedChar
  match isDottedName name, rest with
  | true, ':' :: _ => some ⟨name, none⟩
  | true, '(' :: inner => if barred then none else (readOption? inner).map (⟨name, ·⟩)
  | _, _ => none

/-- Does an option open behind the at sign that precedes the text? -/
def opensOption (t : Text) : Bool :=
  let (name, rest) := t.span isDottedChar
  isDottedName name && rest.head? == some '('

/-- The first complete marker. All options that are open at one place end at the same parenthesis, so when
one of them is found to be none the others are `barred` up to there. -/
def markerFrom (barred : Bool) : Text → Option Marker
  | [] => none
  | c :: t =>
    if c == '@' then
      match readMarker? barred t with
      | some marker => some marker
      | none => markerFrom (barred || opensOption t) t
    else markerFrom (barred && isOptionChar c) t

def marker? (code : Text) : Option Marker := markerFrom false (behindLaunchLines code)

end SealedScript.Header
