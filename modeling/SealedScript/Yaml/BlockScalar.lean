import SealedScript.Yaml.Scalar

/-!
YAML block scalars: indented lines taken as they are, or folded into paragraphs.

A header tells which, what becomes of the line ends at the end, and possibly the indentation, which is
otherwise that of the first line with text.
-/

namespace SealedScript.Yaml
set_option autoImplicit false

/-! ## Headers -/

/-- What a block scalar's header says; line ends at its end are kept, dropped, or cut down to one. -/
structure BlockHeader where
  style : Style
  keep : Option Bool
  indentation : Option Nat

/-- Reads the indicators of a header, each kind at most once, and answers what follows them. -/
def indicatorsFrom (h : BlockHeader) : Text → BlockHeader × Text
  | [] => (h, [])
  | c :: t =>
    if (c == '+' || c == '-') && h.keep.isNone then indicatorsFrom { h with keep := some (c == '+') } t
    else if '1' ≤ c ∧ c ≤ '9' ∧ h.indentation = none then
      indicatorsFrom { h with indentation := some (c.toNat - '0'.toNat) } t
    else (h, c :: t)

/-- The indentation of the lines that a text starts with: that of the first one with more than spaces, but
at least that of the lines in front of it and `least`. A tab must not stand in its place. `column` is the
number of spaces so far. -/
def detectIndentation? (least column : Nat) : Text → Option Nat
  | [] => some (max least column)
  | c :: t =>
    if c == ' ' then detectIndentation? least (column + 1) t
    else if isBreak c then detectIndentation? (max least column) 0 t
    else if c == '\t' then none
    else some (max least column)

/-! ## Contents -/

/-- What has been read of a block scalar: its text in reverse, the line end that is due behind it, those of
the blank lines since, in reverse, and whether its last line started with a blank. -/
structure BlockText where
  done : Text
  lineEnd : Option Char
  blankLines : Text
  indented : Bool

namespace BlockText

/-- Nothing has been read. -/
def empty : BlockText := ⟨[], none, [], false⟩

/-- The line end behind the text when another line follows. In a folded scalar a single line feed between
two lines that start without a blank becomes a space, and of several ends one is dropped. -/
def joint (b : BlockText) (style : Style) (indented : Bool) : Text :=
  if style = .folded ∧ b.lineEnd = some '\n' ∧ !b.indented ∧ !indented then
    if b.blankLines.isEmpty then [' '] else []
  else b.lineEnd.toList

def addLine (b : BlockText) (style : Style) (text : Text) (ending : Option Char) : BlockText :=
  let indented := text.head?.any Text.isSpacing
  ⟨text.reverse ++ (b.blankLines ++ (b.joint style indented ++ b.done)), ending, [], indented⟩

def finish (b : BlockText) (keep : Option Bool) : Text :=
  b.done.reverse ++ (if keep = some false then [] else b.lineEnd.toList)
    ++ (if keep = some true then b.blankLines.reverse else [])

end BlockText

/-- Reads the lines of a block scalar and answers the place behind them. `line` is what has been read of a
line with text, in reverse; without it only indentation has been read. -/
def blockFrom (style : Style) (indentation : Nat) (b : BlockText) (line : Option Text) (p : Position) :
    Text → Option (BlockText × Cursor)
  | [] => some (line.elim b fun text => b.addLine style text.reverse none, ⟨[], p⟩)
  | c :: t =>
    match line with
    | some text =>
      if isBreak c then
        blockFrom style indentation (b.addLine style text.reverse (some c)) none (p.past c) t
      else blockFrom style indentation b (some (c :: text)) (p.past c) t
    | none =>
      if isBreak c then
        blockFrom style indentation { b with blankLines := c :: b.blankLines } none (p.past c) t
      else if p.column = indentation then blockFrom style indentation b (some [c]) (p.past c) t
      else if c == ' ' then blockFrom style indentation b none (p.past c) t
      else if c == '\t' then none
      else some (b, ⟨c :: t, p⟩)

/-- The block scalar of this style whose header follows the mark at a place, and the place behind it.
`floor` is the least column of the entry around it. -/
def readBlockScalar? (style : Style) (floor : Nat) (c : Cursor) : Option (Text × Cursor) :=
  let header := lineOf (c.rest.drop 1)
  let (h, behind) := indicatorsFrom ⟨style, none, none⟩ header
  let comment := Text.skipSpacing behind
  if comment.isEmpty || comment.head? == some '#' then do
    let c := c.past (header.length + 2)
    let indentation ←
      match h.indentation with
      | some n => some (floor - 1 + n)
      | none => detectIndentation? (max floor 1) 0 c.rest
    let (b, after) ← blockFrom style indentation .empty none c.place c.rest
    return (b.finish h.keep, after)
  else none

end SealedScript.Yaml
