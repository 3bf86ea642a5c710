import SealedScript.Header.Launch
import SealedScript.Header.SignatureText

/-!
Info blocks: what a script compiles to.

A block is a word in braces, followed by a signature unless the word stands alone. The first place
behind the launch lines at which a complete block starts counts, whatever its word; only then is the
word looked up and the signature read.
-/

namespace SealedScript.Header
set_option autoImplicit false

/-! ## Kinds -/

/-- What a script can be declared as. -/
inductive DeclaredKind
  | script
  | function
  | macroRoutine
  | main
deriving DecidableEq, Repr

namespace DeclaredKind

def display : DeclaredKind → Text
  | .script => "script"
  | .function => "function"
  | .macroRoutine => "macro"
  | .main => "main"

def parse (word : Text) : Outcome DeclaredKind :=
  match [script, function, macroRoutine, main].find? fun k => k.display == word with
  | some k => .ok k
  | none => .error (.unsupportedKind word)

/-- What the kind is compiled to; `main` is a function with a signature of its own. -/
def toKind : DeclaredKind → Kind
  | .script => .script
  | .function | .main => .function
  | .macroRoutine => .macroRoutine

end DeclaredKind

/-- What a script declares about itself. -/
structure Info where
  fileName : Option Text
  kind : DeclaredKind
  signatureText : Text
  declared : Option CallShape
deriving DecidableEq

namespace Info

/-- The info of a program that is called with the texts of a command line. -/
def main (fileName : Option Text) : Info :=
  ⟨fileName, .main, "($Args:String ...):Void", some .main⟩

def bare (fileName : Option Text) (kind : DeclaredKind) : Info := ⟨fileName, kind, [], none⟩

/-- What the script is called with, when it declares no signature the default of its kind. -/
def call (info : Info) : CallShape :=
  info.declared.getD (if info.kind = .main then .main else .free)

end Info

/-! ## Blocks -/

/-- An info block as written. -/
structure Block where
  word : Text
  signatureText : Text
deriving DecidableEq, Repr

/-- May the character stand in the name of a return type? -/
def isTypeChar (c : Char) : Bool :=
  Text.isLetterOrDigit c || c == '$' || c == '_' || c == '.'

/-- May the character stand between the parentheses of a signature? -/
def isParamChar (c : Char) : Bool := c != '(' && c != ')' && c != '\n'

/-- The bracket pairs in front of the text and what follows them; spaces and tabs may stand before and
inside each pair. `done` holds the pairs found so far and `pending` what has been read since, both
in reverse, and `behind` is what follows those pairs. -/
def bracketsFrom (done pending behind : Text) (inside : Bool) : Text → Text × Text
  | [] => (done.reverse, behind)
  | c :: t =>
    if Text.isSpacing c then bracketsFrom done (c :: pending) behind inside t
    else if !inside && c == '[' then bracketsFrom done (c :: pending) behind true t
    else if inside && c == ']' then bracketsFrom (c :: (pending ++ done)) [] t false t
    else (done.reverse, behind)

/-- The bracket pairs in front of the text and what follows them. -/
def readBrackets (t : Text) : Text × Text := bracketsFrom [] [] t false t

/-- The return type in front of the text, with its colon, and what follows it. -/
def readBlockReturn? (t : Text) : Option (Text × Text) :=
  let (gap, r) := t.span Text.isSpacing
  match r with
  | ':' :: r =>
    let (gap', r) := r.span Text.isSpacing
    match r.span isTypeChar with
    | ([], _) => none
    | (name, r) =>
      let (brackets, r) := readBrackets r
      some (gap ++ ':' :: (gap' ++ name ++ brackets), r)
  | _ => none

/-- The signature in front of the text, empty when there is none, and what follows it. -/
def readBlockSignature? : Text → Option (Text × Text)
  | '(' :: r =>
    match r.span isParamChar with
    | (params, ')' :: r) =>
      (readBlockReturn? r).map fun (returns, r) => ('(' :: (params ++ ')' :: returns), r)
    | _ => none
  | t => some ([], t)

def readBlock? (t : Text) : Option Block :=
  match (Text.skipSpacing t).span Text.isLetter with
  | ([], _) => none
  | (word, rest) =>
    match readBlockSignature? (Text.skipSpacing rest) with
    | none => none
    | some (signatureText, rest) =>
      match Text.skipSpacing rest with
      | '}' :: _ => some ⟨word, signatureText⟩
      | _ => none

def blockIn? : Text → Option Block
  | [] => none
  | c :: t =>
    if c == '{' then
      match readBlock? t with
      | some block => some block
      | none => blockIn? t
    else blockIn? t

/-! ## Info -/

def Info.ofBlock (fileName : Option Text) (block : Block) : Outcome Info := do
  let kind ← DeclaredKind.parse block.word
  let written := Text.trim block.signatureText
  if written.isEmpty then
    return if kind = .main then .main fileName else .bare fileName kind
  else if kind = .script then .error (.invalidSignature (.givenForScript written))
  else do
    let shape ← readSignature fileName written
    return ⟨fileName, kind, written, some shape⟩

/-- The info that a script declares, if it declares any. -/
def Info.ofCode? (fileName : Option Text) (code : Text) : Outcome (Option Info) :=
  match blockIn? (behindLaunchLines code) with
  | none => .ok none
  | some block => (Info.ofBlock fileName block).map some

end SealedScript.Header
