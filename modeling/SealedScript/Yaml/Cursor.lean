import SealedScript.Text.Blank

/-!
Places in a YAML text.

A cursor is the text from a place on, with the line and the column there. Line ends are the line feed and
the separators of lines and paragraphs; `normalize` turns every other kind into a line feed.
-/

namespace SealedScript.Yaml
set_option autoImplicit false

/-! ## Characters -/

/-- A text with carriage returns, alone or before a line feed, and next-line marks as line feeds. -/
def normalize : Text → Text
  | [] => []
  | '\r' :: '\n' :: t => '\n' :: normalize t
  | '\r' :: t => '\n' :: normalize t
  | '\u0085' :: t => '\n' :: normalize t
  | c :: t => c :: normalize t

def isPrintable (c : Char) : Bool :=
  let n := c.toNat
  n == 0x9 || n == 0xA || n == 0xD || (0x20 ≤ n && n ≤ 0x7E) || n == 0x85
    || (0xA0 ≤ n && n ≤ 0xFFFD) || 0x10000 ≤ n

def isBreak (c : Char) : Bool := c == '\n' || c == '\u2028' || c == '\u2029'

/-- The mark that may stand in front of a text and of its lines without being a part of them. -/
def byteOrderMark : Char := '\ufeff'

/-- Letters, digits and two marks: the characters of names. -/
def isWordChar (c : Char) : Bool := Text.isLetterOrDigit c || c == '_' || c == '-'

def atBlank (t : Text) : Bool := t.head?.all fun c => Text.isSpacing c || isBreak c

def lineOf (t : Text) : Text := t.takeWhile (!isBreak ·)

/-- Does the text start with three of these marks and nothing directly behind them? -/
def isMarker (mark : Char) : Text → Bool
  | a :: b :: c :: t => a == mark && b == mark && c == mark && atBlank t
  | _ => false

/-- Does a line that starts here start or end a document? -/
def isDocumentMarker (t : Text) : Bool := isMarker '-' t || isMarker '.' t

/-! ## Positions and cursors -/

/-- A line and a column, both counted from zero. -/
structure Position where
  line : Nat
  column : Nat
deriving DecidableEq, Repr

def Position.past (p : Position) (c : Char) : Position :=
  if isBreak c then ⟨p.line + 1, 0⟩ else ⟨p.line, p.column + 1⟩

/-- A place in a text and what follows there. -/
structure Cursor where
  rest : Text
  place : Position

namespace Cursor

def start (t : Text) : Cursor := ⟨t, ⟨0, 0⟩⟩

def past (c : Cursor) (count : Nat) : Cursor :=
  ⟨c.rest.drop count, (c.rest.take count).foldl Position.past c.place⟩

end Cursor

/-- Skips blanks, comments and line ends up to the next token, and tells whether a key may start there:
outside braces it may behind a line end. A tab is a blank only in braces and where no key may start. -/
def skipFrom (flow keyAllowed comment : Bool) (p : Position) : Text → Bool × Cursor
  | [] => (keyAllowed, ⟨[], p⟩)
  | c :: t =>
    if isBreak c then skipFrom flow (keyAllowed || !flow) false (p.past c) t
    else if comment || c == ' ' || (c == '\t' && (flow || !keyAllowed))
        || (c == byteOrderMark && p.column == 0) then
      skipFrom flow keyAllowed comment (p.past c) t
    else if c == '#' then skipFrom flow keyAllowed true (p.past c) t
    else (keyAllowed, ⟨c :: t, p⟩)

end SealedScript.Yaml
