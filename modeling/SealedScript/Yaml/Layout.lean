import SealedScript.Yaml.Token

/-!
From a YAML text to its tokens.

Where a mapping starts and ends shows in the columns of its entries, and what is a key shows only at the
colon behind it. So the tokens of a node that may turn out to be a key are held back until the colon comes
or can no longer come: a key and its colon are in one line, at most 1024 columns apart.

A flat mapping has one level: a second one below it, or a sequence, makes the text unreadable here.
-/

namespace SealedScript.Yaml
set_option autoImplicit false

/-- A node that may be a key: where it starts, whether it must be one, and its tokens in reverse. -/
structure PossibleKey where
  start : Position
  required : Bool
  tokens : List Token

/-- The greatest distance in columns between the start of a key and its colon. -/
def keyReach : Nat := 1024

/-- Can the colon behind the key no longer come? -/
def PossibleKey.isStale (k : PossibleKey) (p : Position) : Bool :=
  k.start.line < p.line || k.start.column + keyReach < p.column

/-- How far a text has been read. -/
structure Layout where
  cursor : Cursor
  /-- The tokens in front of a possible key, in reverse. -/
  tokens : List Token
  possibleKey : Option PossibleKey
  /-- May a key start at the next token? -/
  keyAllowed : Bool
  /-- Is the next token in braces? -/
  flow : Bool
  /-- The column behind that of the keys of the mapping which indentation shows; zero outside one. -/
  floor : Nat

namespace Layout

def start (t : Text) : Layout := ⟨.start t, [], none, true, false, 0⟩

def column (l : Layout) : Nat := l.cursor.place.column

def emit (l : Layout) (token : Token) : Layout :=
  match l.possibleKey with
  | some k => { l with possibleKey := some { k with tokens := token :: k.tokens } }
  | none => { l with tokens := token :: l.tokens }

def after (l : Layout) (c : Cursor) (keyAllowed : Bool) : Layout :=
  { l with cursor := c, keyAllowed := keyAllowed }

/-- Gives a possible key up; it must not be one that is required. -/
def dropKey? (l : Layout) : Option Layout :=
  match l.possibleKey with
  | none => some l
  | some k =>
    if k.required then none
    else some { l with tokens := k.tokens ++ l.tokens, possibleKey := none }

/-- Notes that the next token starts a possible key, if a key may start there. It has to be one where the
keys of the mapping around it stand. -/
def noteKey? (l : Layout) : Option Layout :=
  if l.keyAllowed then do
    let l ← l.dropKey?
    return { l with possibleKey := some ⟨l.cursor.place, !l.flow && l.floor == l.column + 1, []⟩ }
  else some l

/-- Ends the mapping that indentation shows, if it lies deeper than a number of columns. -/
def closeBlock (l : Layout) (columns : Nat) : Layout :=
  if columns < l.floor then { l.emit .blockEnd with floor := 0 } else l

/-- Starts the mapping that indentation shows with a first key in a column, if it has not started. -/
def openBlock? (l : Layout) (column : Nat) : Option Layout :=
  if column < l.floor then some l
  else if l.floor = 0 then some { l.emit .blockStart with floor := column + 1 }
  else none

/-! ## Steps -/

/-- Goes on to the next token, gives up a key that it is too far from, and ends the mapping that it is not
deep enough for. -/
def advance? (l : Layout) : Option Layout := do
  let (keyAllowed, c) := skipFrom l.flow l.keyAllowed false l.cursor.place l.cursor.rest
  let l := l.after c keyAllowed
  let l ← if l.possibleKey.any (·.isStale c.place) then l.dropKey? else some l
  return if l.flow then l else l.closeBlock (l.column + 1)

/-- Ends everything in front of a mark of the document. -/
def leave? (l : Layout) : Option Layout :=
  if l.flow then none else (l.closeBlock 0).dropKey?

def directive? (l : Layout) : Option Layout := do
  let l ← l.leave?
  let (token, c) ← readDirective? l.cursor
  return (l.emit token).after c false

def documentMarker? (l : Layout) (token : Token) : Option Layout := do
  let l ← l.leave?
  return (l.emit token).after (l.cursor.past 3) false

def openFlow? (l : Layout) : Option Layout :=
  if l.flow || l.floor != 0 then none
  else do
    let l ← l.dropKey?
    return { (l.emit .flowStart).after (l.cursor.past 1) true with flow := true }

def closeFlow? (l : Layout) : Option Layout :=
  if l.flow then do
    let l ← l.dropKey?
    return { (l.emit .flowEnd).after (l.cursor.past 1) false with flow := false }
  else none

def separator? (l : Layout) : Option Layout :=
  if l.flow then do
    let l ← l.dropKey?
    return (l.emit .separator).after (l.cursor.past 1) true
  else none

/-- Starts an entry by a mark instead of a key in front of the colon. -/
def markEntry? (l : Layout) : Option Layout :=
  if l.flow then some l
  else if l.keyAllowed then l.openBlock? l.column
  else none

def key? (l : Layout) : Option Layout := do
  let l ← (← l.markEntry?).dropKey?
  return (l.emit .key).after (l.cursor.past 1) (!l.flow)

/-- Reads a colon: behind a possible key it makes one of it, otherwise it starts the value of the key that a
question mark announced. -/
def value? (l : Layout) : Option Layout :=
  match l.possibleKey with
  | some k => do
    let l := { l with possibleKey := none }
    let l ← if l.flow then some l else l.openBlock? k.start.column
    let l := l.emit .key
    return ({ l with tokens := k.tokens ++ l.tokens }.emit .value).after (l.cursor.past 1) false
  | none => do
    let l ← l.markEntry?
    return (l.emit .value).after (l.cursor.past 1) (!l.flow)

def blockScalar? (l : Layout) (style : Style) : Option Layout := do
  let l ← l.dropKey?
  let (text, c) ← readBlockScalar? style l.floor l.cursor
  return (l.emit (.scalar style text)).after c true

def part? (l : Layout) : Option Layout := do
  let l ← l.noteKey?
  let p ← readPart? l.flow l.floor l.cursor
  return (l.emit p.token).after p.after p.keyAllowed

def step? (l : Layout) : Option Layout :=
  match l.cursor.rest with
  | [] => none
  | c :: t =>
    if l.column == 0 && c == '%' then l.directive?
    else if l.column == 0 && isMarker '-' (c :: t) then l.documentMarker? .documentStart
    else if l.column == 0 && isMarker '.' (c :: t) then l.documentMarker? .documentEnd
    else if c == '\x7b' then l.openFlow?
    else if c == '\x7d' then l.closeFlow?
    else if c == ',' then l.separator?
    else if c == '?' && (l.flow || atBlank t) then l.key?
    else if c == ':' && (l.flow || atBlank t) then l.value?
    else if c == '|' && !l.flow then l.blockScalar? .literal
    else if c == '>' && !l.flow then l.blockScalar? .folded
    else l.part?

/-- All tokens from here on. Each one takes a character, so `fuel` can be their number. -/
def tokensFrom? : Nat → Layout → Option (List Token)
  | 0, _ => none
  | fuel + 1, l => do
    let l ← l.advance?
    if l.cursor.rest.isEmpty then return (← l.leave?).tokens.reverse
    else tokensFrom? fuel (← l.step?)

end Layout

def tokens? (t : Text) : Option (List Token) :=
  if t.all isPrintable then
    let text := normalize t
    (Layout.start text).tokensFrom? (text.length + 1)
  else none

end SealedScript.Yaml
