import SealedScript.Numeral
import SealedScript.Yaml.Cursor

/-!
Plain and quoted YAML scalars.

Either may go on over several lines. The white space around a line end counts as one space, or as the line
ends behind the first one when there are several of them; a separator of lines or paragraphs is always kept.
-/

namespace SealedScript.Yaml
set_option autoImplicit false

/-- How a scalar is written. -/
inductive Style
  | plain
  | quoted
  /-- A block scalar that keeps its lines. -/
  | literal
  /-- A block scalar that joins its lines. -/
  | folded
deriving DecidableEq, Repr

/-! ## White space inside scalars -/

/-- What stands between two parts of a scalar; texts are in reverse. -/
inductive Gap
  | none
  /-- Blanks of one line. -/
  | blanks (t : Text)
  /-- A line end and those after it. -/
  | breaks (first : Char) (more : Text)
  /-- Line ends after one behind a backslash. -/
  | escaped (more : Text)

namespace Gap

/-- What the gap contributes to the scalar, in reverse. -/
def reversed : Gap → Text
  | none => []
  | blanks t => t
  | breaks first more => if first != '\n' then more ++ [first] else if more.isEmpty then [' '] else more
  | escaped more => more

def addBlank (c : Char) : Gap → Gap
  | none => blanks [c]
  | blanks t => blanks (c :: t)
  | g => g

def addBreak (c : Char) : Gap → Gap
  | none | blanks _ => breaks c []
  | breaks first more => breaks first (c :: more)
  | escaped more => escaped (c :: more)

def isNone : Gap → Bool
  | none => true
  | _ => false

def isBroken : Gap → Bool
  | breaks .. | escaped _ => true
  | none | blanks _ => false

end Gap

/-! ## Plain scalars -/

/-- The marks that separate entries and delimit collections in braces. -/
def isFlowMark (c : Char) : Bool := [',', '[', ']', '\x7b', '\x7d'].contains c

/-- The characters that start something other than a plain scalar. -/
def indicators : Text := ",[]\x7b\x7d#&*!|>'\"%@\x60"

/-- May a plain scalar start here? Some marks may when more text follows them directly. -/
def startsPlain (flow : Bool) : Text → Bool
  | [] => false
  | c :: t =>
    if c == '-' then !atBlank t
    else if c == '?' || c == ':' then !flow && !atBlank t
    else !Text.isSpacing c && !isBreak c && !indicators.contains c

/-- A plain scalar, whether a line ends between it and the next token, and the place of that token. -/
structure Plain where
  text : Text
  broken : Bool
  after : Cursor

/-- Does a plain scalar end between a gap and the text `t` in this column? Outside braces lines that go on
need at least `floor` columns. -/
def endsAfter (flow : Bool) (floor column : Nat) (gap : Gap) (t : Text) : Bool :=
  !gap.isNone && (t.head? == some '#' || (column == 0 && isDocumentMarker t)
    || (gap.isBroken && !flow && column < floor))

/-- Reads on in a plain scalar of which `done` has been read, in reverse. -/
def plainFrom (flow : Bool) (floor : Nat) (p : Position) (gap : Gap) (done : Text) : Text → Option Plain
  | [] => some ⟨done.reverse, gap.isBroken, ⟨[], p⟩⟩
  | c :: t =>
    if isBreak c then plainFrom flow floor (p.past c) (gap.addBreak c) done t
    else if Text.isSpacing c then
      if c == '\t' && gap.isBroken && p.column < floor then none
      else plainFrom flow floor (p.past c) (gap.addBlank c) done t
    else if endsAfter flow floor p.column gap (c :: t) || (c == ':' && atBlank t)
        || (flow && isFlowMark c) then
      some ⟨done.reverse, gap.isBroken, ⟨c :: t, p⟩⟩
    else if flow && c == ':' && t.head?.any (fun d => isFlowMark d || d == '?') then none
    else plainFrom flow floor (p.past c) .none (c :: (gap.reversed ++ done)) t

/-! ## Quoted scalars -/

/-- Reads on in a scalar in single quotes, in which a quote is written twice. -/
def singleFrom (p : Position) (gap : Gap) (done : Text) : Text → Option (Text × Cursor)
  | [] => none
  | '\'' :: '\'' :: t =>
    singleFrom ((p.past '\'').past '\'') .none ('\'' :: (gap.reversed ++ done)) t
  | '\'' :: t => some ((gap.reversed ++ done).reverse, ⟨t, p.past '\''⟩)
  | c :: t =>
    if isBreak c then singleFrom (p.past c) (gap.addBreak c) done t
    else if Text.isSpacing c then singleFrom (p.past c) (gap.addBlank c) done t
    else if p.column == 0 && isDocumentMarker (c :: t) then none
    else singleFrom (p.past c) .none (c :: (gap.reversed ++ done)) t

/-- The escapes of one character. -/
def escapes : List (Char × Char) :=
  [('0', '\x00'), ('a', '\x07'), ('b', '\x08'), ('t', '\t'), ('\t', '\t'), ('n', '\n'),
    ('v', '\x0b'), ('f', '\x0c'), ('r', '\r'), ('e', '\x1b'), (' ', ' '), ('"', '"'), ('/', '/'),
    ('\\', '\\'), ('N', '\u0085'), ('_', '\u00a0'), ('L', '\u2028'), ('P', '\u2029')]

/-- The number of hexadecimal digits that an escape with this letter takes. -/
def escapeDigits? (c : Char) : Option Nat :=
  if c == 'x' then some 2 else if c == 'u' then some 4 else if c == 'U' then some 8 else none

/-- How much of an escape has been read: nothing, the backslash, or digits of a code with some still to
come. -/
inductive EscapeState
  | outside
  | started
  | digits (missing code : Nat)

def doubleFrom (p : Position) (state : EscapeState) (gap : Gap) (done : Text) :
    Text → Option (Text × Cursor)
  | [] => none
  | c :: t =>
    match state with
    | .digits missing code =>
      match Numeral.digit? 16 c with
      | none => none
      | some d =>
        let code := code * 16 + d
        if 1 < missing then doubleFrom (p.past c) (.digits (missing - 1) code) gap done t
        else if code.isValidChar then doubleFrom (p.past c) .outside .none (Char.ofNat code :: done) t
        else none
    | .started =>
      if isBreak c then doubleFrom (p.past c) .outside (.escaped []) done t
      else
        match escapes.lookup c, escapeDigits? c with
        | some e, _ => doubleFrom (p.past c) .outside .none (e :: done) t
        | none, some n => doubleFrom (p.past c) (.digits n 0) .none done t
        | none, none => none
    | .outside =>
      if c == '"' then some ((gap.reversed ++ done).reverse, ⟨t, p.past c⟩)
      else if isBreak c then doubleFrom (p.past c) .outside (gap.addBreak c) done t
      else if Text.isSpacing c then doubleFrom (p.past c) .outside (gap.addBlank c) done t
      else if p.column == 0 && isDocumentMarker (c :: t) then none
      else if c == '\\' then doubleFrom (p.past c) .started .none (gap.reversed ++ done) t
      else doubleFrom (p.past c) .outside .none (c :: (gap.reversed ++ done)) t

end SealedScript.Yaml
