import SealedScript.Yaml.BlockScalar
import SealedScript.Yaml.Property

/-!
The tokens of a YAML text that can hold a flat mapping.

Scalars and what may stand in front of them are tokens, and so are the ends of a mapping, whether braces or
indentation shows them. There are no tokens for sequences, which no flat mapping holds.
-/

namespace SealedScript.Yaml
set_option autoImplicit false

/-- A token. -/
inductive Token
  /-- The directive that tells the version. -/
  | version (major minor : Nat)
  /-- The directive that tells what a handle of tags stands for. -/
  | handle (name : Text) (lead : Bytes)
  | documentStart
  | documentEnd
  /-- The start of a mapping written by indentation. -/
  | blockStart
  | blockEnd
  /-- The start of a mapping in braces. -/
  | flowStart
  | flowEnd
  | key
  | value
  | separator
  | reference (name : Text)
  | anchor (name : Text)
  | tag (tag : TagText)
  | scalar (style : Style) (text : Text)
deriving DecidableEq, Repr

/-! ## Directives -/

/-- A number of at most nine digits and what follows it. -/
def readVersionNumber? (t : Text) : Option (Nat × Text) :=
  let digits := t.takeWhile Char.isDigit
  if 9 < digits.length then none
  else (Numeral.readNat? 10 digits).map fun n => (n, t.dropWhile Char.isDigit)

def readVersion? (t : Text) : Option (Token × Text) := do
  match ← readVersionNumber? (Text.skipSpacing t) with
  | (major, '.' :: t) => do
    let (minor, rest) ← readVersionNumber? t
    return (.version major minor, rest)
  | _ => none

def readTagDirective? (t : Text) : Option (Token × Text) := do
  let (handle, t) ← readHandle? (Text.skipSpacing t)
  if !t.head?.any Text.isSpacing then none
  else
    let part ← readTagPart? true (Text.skipSpacing t)
    if atBlank part.rest then return (.handle handle part.octets, part.rest) else none

def readDirectiveText? (t : Text) : Option (Token × Text) :=
  let rest := t.dropWhile isWordChar
  if !atBlank rest then none
  else if t.takeWhile isWordChar = "YAML".toList then readVersion? rest
  else if t.takeWhile isWordChar = "TAG".toList then readTagDirective? rest
  else none

/-- The directive at a place and the start of the line behind it. -/
def readDirective? (c : Cursor) : Option (Token × Cursor) := do
  let line := lineOf (c.rest.drop 1)
  let (token, behind) ← readDirectiveText? line
  let comment := Text.skipSpacing behind
  if comment.isEmpty || comment.head? == some '#' then return (token, c.past (line.length + 2)) else none

/-! ## Parts of nodes -/

/-- A part of a node, the place behind it, and whether a key may start at the next token. -/
structure Part where
  token : Token
  after : Cursor
  keyAllowed : Bool

/-- The reference, property or scalar at a place, in a mapping whose entries have this least column. -/
def readPart? (flow : Bool) (floor : Nat) (c : Cursor) : Option Part :=
  match c.rest with
  | '*' :: t => (readName? t).map fun name => ⟨.reference name, c.past (name.length + 1), false⟩
  | '&' :: t => (readName? t).map fun name => ⟨.anchor name, c.past (name.length + 1), false⟩
  | '!' :: _ => (readTag? flow c.rest).map fun (tag, width) => ⟨.tag tag, c.past width, false⟩
  | '\'' :: t =>
    (singleFrom (c.place.past '\'') .none [] t).map fun (text, after) =>
      ⟨.scalar .quoted text, after, false⟩
  | '"' :: t =>
    (doubleFrom (c.place.past '"') .outside .none [] t).map fun (text, after) =>
      ⟨.scalar .quoted text, after, false⟩
  | t =>
    if startsPlain flow t then
      (plainFrom flow floor c.place .none [] t).map fun p => ⟨.scalar .plain p.text, p.after, p.broken⟩
    else none

end SealedScript.Yaml
