import SealedScript.Yaml.Layout

/-!
YAML documents that are flat mappings: one document whose keys and values are scalars.

A node may carry an anchor, and a reference stands for the node with its anchor's number. A number is given
to an anchor when its name is met and is that of the names so far; a number given twice means the later
node, also for references in front of it. `parse?` answers the entries of the mapping, and none for an empty
document.
-/

namespace SealedScript.Yaml
set_option autoImplicit false

/-! ## Nodes -/

/-- A scalar. How it is written and its tag decide what it can mean. -/
structure Scalar where
  text : Text
  style : Style
  tag : Option Bytes
deriving DecidableEq, Repr

/-- A node of a flat mapping. -/
inductive Leaf
  | scalar (s : Scalar)
  /-- What the anchor with this number stands at. -/
  | reference (number : Nat)
deriving DecidableEq, Repr

def unwritten : Leaf := .scalar ⟨[], .plain, none⟩

/-- The anchors met so far: the numbers of their names and what the numbers stand for, each name and each
number once, the latest first; the mapping itself is no scalar. -/
structure Anchors where
  numbers : List (Text × Nat)
  nodes : List (Nat × Option Scalar)

namespace Anchors

def empty : Anchors := ⟨[], []⟩

/-- Gives an anchor's name the next number, and the number to a node. -/
def add (anchors : Anchors) (node : Option Scalar) : Option Text → Anchors
  | none => anchors
  | some name =>
    let number := anchors.numbers.length
    ⟨(name, number) :: anchors.numbers.filter fun entry => entry.1 != name,
      (number, node) :: anchors.nodes.filter fun entry => entry.1 != number⟩

def scalar? (anchors : Anchors) : Leaf → Option Scalar
  | .scalar s => some s
  | .reference number => (anchors.nodes.lookup number).join

end Anchors

/-! ## Properties -/

abbrev Handles := List (Text × Bytes)

def standardHandles : Handles :=
  [("!", [exclamation]), ("!!", Utf8.encode "tag:yaml.org,2002:")]

/-- What stands in front of a node. -/
structure Properties where
  anchor : Option Text
  tag : Option TagText

def Properties.isEmpty (p : Properties) : Bool := p.anchor.isNone && p.tag.isNone

/-- The properties at the start of tokens, at most one of each kind, and what follows them. -/
def readProperties : List Token → Properties × List Token
  | .anchor name :: .tag tag :: rest => (⟨some name, some tag⟩, rest)
  | .tag tag :: .anchor name :: rest => (⟨some name, some tag⟩, rest)
  | .anchor name :: rest => (⟨some name, none⟩, rest)
  | .tag tag :: rest => (⟨none, some tag⟩, rest)
  | rest => (⟨none, none⟩, rest)

def TagText.resolve? (handles : Handles) (t : TagText) : Option Bytes :=
  if t.handle.isEmpty then some t.suffix else (handles.lookup t.handle).map (· ++ t.suffix)

def Properties.resolve? (handles : Handles) (p : Properties) : Option (Option Bytes) :=
  match p.tag with
  | none => some none
  | some t => (t.resolve? handles).map some

/-! ## Mappings -/

def readLeaf? (handles : Handles) (anchors : Anchors) :
    List Token → Option (Leaf × Anchors × List Token)
  | .reference name :: rest => (anchors.numbers.lookup name).map fun n => (.reference n, anchors, rest)
  | tokens => do
    let (p, behind) := readProperties tokens
    let tag ← p.resolve? handles
    let (s, rest) ←
      match behind with
      | .scalar style text :: rest => some ((⟨text, style, tag⟩ : Scalar), rest)
      | _ => if p.isEmpty then none else some (⟨[], .plain, tag⟩, behind)
    return (.scalar s, anchors.add (some s) p.anchor, rest)

/-- The node at the start of tokens, which need not be written if one of the tokens `ends` follows. -/
def readLeafUnless? (ends : List Token) (handles : Handles) (anchors : Anchors) (tokens : List Token) :
    Option (Leaf × Anchors × List Token) :=
  if tokens.head?.any ends.contains then some (unwritten, anchors, tokens)
  else readLeaf? handles anchors tokens

def readValue? (ends : List Token) (handles : Handles) (anchors : Anchors) :
    List Token → Option (Leaf × Anchors × List Token)
  | .value :: rest => readLeafUnless? ends handles anchors rest
  | tokens => some (unwritten, anchors, tokens)

/-- The entries of a mapping, the anchors behind it and the tokens that follow it. -/
structure Mapping where
  entries : List (Leaf × Leaf)
  anchors : Anchors
  rest : List Token

def Mapping.cons (entry : Leaf × Leaf) (m : Mapping) : Mapping := { m with entries := entry :: m.entries }

/-- The tokens in front of which a key or a value in a block need not be written. -/
def blockEnds : List Token := [.key, .value, .blockEnd]

/-- Reads the entries of a mapping that indentation shows; `fuel` bounds their number. -/
def readBlock? (handles : Handles) : Nat → Anchors → List Token → Option Mapping
  | fuel + 1, anchors, .key :: rest => do
    let (key, anchors, rest) ← readLeafUnless? blockEnds handles anchors rest
    let (value, anchors, rest) ← readValue? blockEnds handles anchors rest
    return (← readBlock? handles fuel anchors rest).cons (key, value)
  | _, anchors, .blockEnd :: rest => some ⟨[], anchors, rest⟩
  | _, _, _ => none

/-- The tokens in front of which a value in braces need not be written. -/
def flowEnds : List Token := [.separator, .flowEnd]

/-- Reads an entry in braces; a key without a mark and a colon has no value. -/
def readFlowEntry? (handles : Handles) (anchors : Anchors) :
    List Token → Option ((Leaf × Leaf) × Anchors × List Token)
  | .key :: rest => do
    let (key, anchors, rest) ← readLeafUnless? (.value :: flowEnds) handles anchors rest
    let (value, anchors, rest) ← readValue? flowEnds handles anchors rest
    return ((key, value), anchors, rest)
  | tokens => do
    let (key, anchors, rest) ← readLeaf? handles anchors tokens
    return ((key, unwritten), anchors, rest)

/-- Reads the entries of a mapping in braces; `fuel` bounds their number. -/
def readFlow? (handles : Handles) : Nat → Anchors → List Token → Option Mapping
  | _, anchors, .flowEnd :: rest => some ⟨[], anchors, rest⟩
  | 0, _, _ => none
  | fuel + 1, anchors, tokens => do
    let (entry, anchors, rest) ← readFlowEntry? handles anchors tokens
    match rest with
    | .separator :: rest => return (← readFlow? handles fuel anchors rest).cons entry
    | .flowEnd :: rest => return ⟨[entry], anchors, rest⟩
    | _ => none

/-! ## Documents -/

/-- Reads the directives in front of a document: at most one version, and each handle once. -/
def readDirectives? (versioned : Bool) (handles : Handles) : List Token → Option (Handles × List Token)
  | .version major minor :: rest =>
    if !versioned && major == 1 && (minor == 1 || minor == 2) then readDirectives? true handles rest
    else none
  | .handle name lead :: rest =>
    if (handles.lookup name).isSome then none else readDirectives? versioned ((name, lead) :: handles) rest
  | rest => some (handles, rest)

/-- Does the token belong to what stands around documents? -/
def Token.isOutside : Token → Bool
  | .version .. | .handle .. | .documentStart | .documentEnd => true
  | _ => false

/-- Reads the content of a document, which is a mapping, or properties of none. -/
def readContent? (handles : Handles) (tokens : List Token) : Option Mapping := do
  let (p, rest) := readProperties tokens
  let _ ← p.resolve? handles
  let anchors := Anchors.empty.add none p.anchor
  match rest with
  | .blockStart :: rest => readBlock? handles rest.length anchors rest
  | .flowStart :: rest => readFlow? handles rest.length anchors rest
  | .scalar .. :: _ => none
  | _ => if p.isEmpty then none else some ⟨[], anchors, rest⟩

/-- Reads a document, with or without a mark of its start, which directives need. -/
def readDocument? (tokens : List Token) : Option Mapping :=
  match tokens with
  | [] => some ⟨[], .empty, []⟩
  | .documentEnd :: _ => none
  | first :: _ =>
    if first.isOutside then do
      match ← readDirectives? false [] tokens with
      | (handles, .documentStart :: rest) =>
        if rest.head?.all Token.isOutside then some ⟨[], .empty, rest⟩
        else readContent? (handles ++ standardHandles) rest
      | _ => none
    else readContent? standardHandles tokens

def parse? (t : Text) : Option (List (Scalar × Scalar)) := do
  let m ← readDocument? (← tokens? t)
  if m.rest.all (· == .documentEnd) then
    m.entries.mapM fun (key, value) => do return (← m.anchors.scalar? key, ← m.anchors.scalar? value)
  else none

end SealedScript.Yaml
