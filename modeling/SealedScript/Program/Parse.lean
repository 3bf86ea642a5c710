import SealedScript.Error
import SealedScript.Program
import SealedScript.Text.Blank
import SealedScript.Text.Measure

/-!
Reading program text.

Tokens are words between white space, texts in double quotes with backslash escapes, and two kinds of
comments: from two slashes to the end of the line, and between a slash with a star and a star with a
slash. A comment or text starts only where a token can start. The scanner is a left fold over the
characters, so what precedes a line break determines the rest only through the state it ends in.
-/

namespace SealedScript
set_option autoImplicit false

open Floating (Double)

/-! ## Words -/

namespace Op

def words : List (Text × Op) :=
  [("+", .arith .add), ("-", .arith .sub), ("*", .arith .mul), ("/", .arith .div), ("sum", .sum),
    ("len", .len), ("neg", .neg), ("dup", .dup), ("swap", .swap), ("drop", .drop),
    ("true", .push (.bool true)), ("false", .push (.bool false)), ("null", .push .null)]

def isNameStart (c : Char) : Bool := Text.isLetter c || c == '_' || c == '$'

def isNameChar (c : Char) : Bool := Text.isLetterOrDigit c || c == '_' || c == '$'

/-- Is the word the name of a variable? -/
def isName : Text → Bool
  | [] => false
  | c :: t => isNameStart c && t.all isNameChar

/-- May a real number start with the character? A plus sign may not. -/
def isRealStart (c : Char) : Bool := c.isDigit || c == '-' || c == '.'

/-- The number that a word writes: an integer of the shortest of the two long types that holds it, else
a finite double. -/
def number? (word : Text) : Option Value :=
  match Numeral.readSigned? 32 word, Numeral.readSigned? 64 word with
  | some n, _ => some (.int (Int32.ofInt n))
  | none, some n => some (.long (Int64.ofInt n))
  | none, none =>
    if word.head?.any isRealStart then
      ((Double.read? word).filter Double.isFinite).map .double
    else none

def ofWord? (word : Text) : Option Op :=
  match words.lookup word with
  | some op => some op
  | none =>
    match word with
    | '=' :: target => if isName target then some (.store target) else none
    | _ => if isName word then some (.load word) else (number? word).map .push

end Op

/-! ## The scanner -/

/-- Where in a token the scanner stands, with the offset at which the token starts. The characters of a
word or text are held in reverse. -/
inductive Place
  | between
  | slash (start : Nat)
  | word (start : Nat) (chars : Text)
  | lineComment
  | comment (start : Nat) (star : Bool)
  | quoted (start : Nat) (escaped : Bool) (chars : Text)

/-- The state of the scanner: its place, the offset in bytes, and the operations read, in reverse. -/
structure Scanner where
  place : Place
  offset : Nat
  ops : List Op

namespace Scanner

def start : Scanner := ⟨.between, 0, []⟩

/-- The character that a backslash and `c` stand for. -/
def unescape (c : Char) : Char :=
  if c == 'n' then '\n' else if c == 't' then '\t' else if c == 'r' then '\r' else c

def endWord (s : Scanner) (start : Nat) (word : Text) : Except EngineFault Scanner :=
  match Op.ofWord? word with
  | some op => .ok { s with place := .between, ops := op :: s.ops }
  | none => .error (.unexpectedToken word start)

/-- Takes the first character of a token, or white space between tokens. -/
def begin (s : Scanner) (c : Char) : Scanner :=
  if Text.isBlank c then { s with place := .between }
  else if c == '/' then { s with place := .slash s.offset }
  else if c == '"' then { s with place := .quoted s.offset false [] }
  else { s with place := .word s.offset [c] }

/-- Takes one character; the offset stays that of the character. -/
def take (s : Scanner) (c : Char) : Except EngineFault Scanner :=
  match s.place with
  | .between => .ok (s.begin c)
  | .slash start =>
    if c == '/' then .ok { s with place := .lineComment }
    else if c == '*' then .ok { s with place := .comment start false }
    else if Text.isBlank c then s.endWord start ['/']
    else .ok { s with place := .word start [c, '/'] }
  | .word start chars =>
    if Text.isBlank c then s.endWord start chars.reverse
    else .ok { s with place := .word start (c :: chars) }
  | .lineComment => .ok (if c == '\n' then { s with place := .between } else s)
  | .comment start star =>
    if star && c == '/' then .ok { s with place := .between }
    else .ok { s with place := .comment start (c == '*') }
  | .quoted start escaped chars =>
    if escaped then .ok { s with place := .quoted start false (unescape c :: chars) }
    else if c == '\\' then .ok { s with place := .quoted start true chars }
    else if c == '"' then
      .ok { s with place := .between, ops := .push (.text (String.ofList chars.reverse)) :: s.ops }
    else .ok { s with place := .quoted start false (c :: chars) }

def step (s : Scanner) (c : Char) : Except EngineFault Scanner :=
  (s.take c).map fun s => { s with offset := s.offset + c.utf8Size }

def finish (s : Scanner) : Except EngineFault (List Op) :=
  match s.place with
  | .between | .lineComment => .ok s.ops.reverse
  | .slash start => (s.endWord start ['/']).map fun s => s.ops.reverse
  | .word start chars => (s.endWord start chars.reverse).map fun s => s.ops.reverse
  | .comment start _ => .error (.unterminatedComment start)
  | .quoted start _ _ => .error (.unterminatedString start)

end Scanner

def Op.parse (t : Text) : Except EngineFault (List Op) := do
  let s ← t.foldlM Scanner.step Scanner.start
  s.finish

end SealedScript
