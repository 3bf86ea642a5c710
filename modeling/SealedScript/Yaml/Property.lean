import SealedScript.Numeral
import SealedScript.Text.Utf8
import SealedScript.Yaml.Cursor

/-!
Names of anchors, and tags.

A tag is a string of octets. It is written in full, or as a suffix behind a handle that stands for the
first part of it.
-/

namespace SealedScript.Yaml
set_option autoImplicit false

/-! ## Anchors -/

/-- The marks that may follow the name of an anchor directly. -/
def nameEnds : Text := "?:,]\x7d%@\x60"

def readName? (t : Text) : Option Text :=
  let name := t.takeWhile isWordChar
  let rest := t.dropWhile isWordChar
  if !name.isEmpty && (atBlank rest || rest.head?.any nameEnds.contains) then some name else none

/-! ## Octets of tags -/

/-- May the character stand for itself in a tag? Commas and brackets may only in a wide one. -/
def isTagChar (wide : Bool) (c : Char) : Bool :=
  isWordChar c || ";/?:@&=+$.!~*'()".toList.contains c || (wide && [',', '[', ']'].contains c)

/-- Octets at the start of a text, the number of characters that write them, and what follows. -/
structure Octets where
  octets : Bytes
  width : Nat
  rest : Text

/-- Reads on in octets as long as characters can stand in a tag, of which `done` have been read, in reverse.
A percent sign takes two hexadecimal digits. -/
def octetsFrom (wide : Bool) (done : Bytes) (width : Nat) : Text → Option Octets
  | '%' :: a :: b :: t =>
    match Numeral.digit? 16 a, Numeral.digit? 16 b with
    | some high, some low => octetsFrom wide (UInt8.ofNat (high * 16 + low) :: done) (width + 3) t
    | _, _ => none
  | c :: t =>
    if c == '%' then none
    else if isTagChar wide c then octetsFrom wide (UInt8.ofNat c.toNat :: done) (width + 1) t
    else some ⟨done.reverse, width, c :: t⟩
  | [] => some ⟨done.reverse, width, []⟩

/-- The number of octets that have to follow a leading octet. -/
def following? (octet : UInt8) : Option Nat :=
  let n := octet.toNat
  if n < 0x80 then some 0
  else if n < 0xC0 then none
  else if n < 0xE0 then some 1
  else if n < 0xF0 then some 2
  else if n < 0xF8 then some 3
  else none

/-- Does every leading octet have as many others behind it as it asks for? -/
def areSequences (missing : Nat) : Bytes → Bool
  | [] => missing == 0
  | octet :: rest =>
    match missing, following? octet with
    | 0, some n => areSequences n rest
    | 0, none => false
    | n + 1, _ => (Utf8.continuation? octet).isSome && areSequences n rest

/-- A part of a tag that is not written empty. A zero octet ends the part. -/
def readTagPart? (wide : Bool) (t : Text) : Option Octets := do
  let part ← octetsFrom wide [] 0 t
  if part.octets.isEmpty || !areSequences 0 part.octets then none
  else return { part with octets := part.octets.takeWhile (· != 0) }

/-! ## Tags -/

/-- The handle at the start of a text: an exclamation mark, or a name between two. -/
def readHandle? : Text → Option (Text × Text)
  | '!' :: t =>
    match t.dropWhile isWordChar with
    | '!' :: rest => some ('!' :: (t.takeWhile isWordChar ++ ['!']), rest)
    | _ => some (['!'], t)
  | _ => none

/-- A handle, which is empty for a tag in full, and the octets behind it. -/
structure TagText where
  handle : Text
  suffix : Bytes
deriving DecidableEq, Repr

def exclamation : UInt8 := UInt8.ofNat '!'.toNat

/-- The tag at the start of a text, the number of its characters, and what follows it. -/
def readTagText? : Text → Option (TagText × Nat × Text)
  | '!' :: '<' :: t => do
    let part ← readTagPart? true t
    match part.rest with
    | '>' :: rest => return (⟨[], part.octets⟩, part.width + 3, rest)
    | _ => none
  | t => do
    let (handle, behind) ← readHandle? t
    if handle == ['!'] then
      let part ← readTagPart? false t
      let tag : TagText :=
        match part.octets.drop 1 with
        | [] => ⟨[], [exclamation]⟩
        | suffix => ⟨handle, suffix⟩
      return (tag, part.width, part.rest)
    else
      let part ← readTagPart? false behind
      return (⟨handle, part.octets⟩, handle.length + part.width, part.rest)

/-- The tag at the start of a text, if nothing else follows it directly, and the number of its
characters. -/
def readTag? (flow : Bool) (t : Text) : Option (TagText × Nat) := do
  let (tag, width, rest) ← readTagText? t
  if atBlank rest || (flow && rest.head? == some ',') then return (tag, width) else none

end SealedScript.Yaml
