import SealedScript.Artifact.Seal

/-!
Reading trailers.

The last line of lengths is where an artifact is read from. The recorded length of the source counts
from the front of the text and that of the block from the line of digests backwards, both in UTF-16
code units; neither is trusted before the digests agree.
-/

namespace SealedScript.Artifact
set_option autoImplicit false

/-- What a trailer says about the text in front of it. `split` tells that the recorded length of the
source ends inside a character, so that the source cannot be the one that was compiled. -/
structure Trailer where
  /-- The text in front of the line of digests. -/
  head : Text
  source : Text
  split : Bool
  block : Text
  sourceDigest : Text
  blockDigest : Text
deriving DecidableEq, Repr

/-- What the last line of lengths starts with. -/
def countsMark : Text := "\n##:COUNTS:"

/-- The text in front of the last line of lengths and the text from there on. -/
def splitAtCounts? (text : Text) : Option (Text × Text) :=
  (Text.lastIndexOf? countsMark text).map text.splitAt

def readLength (t : Text) : Except TrailerFault (Nat × Text) :=
  match Text.splitBytes? Digest.columns t with
  | none => .error .truncatedLength
  | some (raw, rest) =>
    match Numeral.readUnsigned? 16 (Text.trim raw) with
    | some n => .ok (n, rest)
    | none => .error (.badLength raw)

/-- The two recorded lengths; `counts` is the text from the last line of lengths on. -/
def readCounts (counts : Text) : Except TrailerFault (Nat × Nat) := do
  if (counts.drop 1).count '\n' ≠ 1 then throw .linesAfterCounts
  let some fields := Text.dropLead? countsLead counts | throw .noCountsField
  let (source, rest) ← readLength fields
  let some rest := Text.dropLead? fieldSeparator rest | throw .noCountsSeparator
  let (block, _) ← readLength rest
  return (source, block)

/-- Refuses lengths that cannot be those of parts of a text with `total` code units. -/
def checkCounts (source block total : Nat) : Except TrailerFault Unit := do
  if block = 0 then throw .emptyBlock
  if total ≤ source ∨ total ≤ block then throw (.lengthsExceed source block total)

/-- The text in front of the line of digests and the two digests; `counts` follows `before`. -/
def readHashes (before counts : Text) : Except TrailerFault (Text × Text × Text) := do
  let some start := Text.lastIndexOf? ['\n'] before | throw .noHashesLine
  let (head, line) := before.splitAt start
  let some fields := Text.dropLead? hashesLead (line ++ counts) | throw .noHashesLine
  let some (sourceDigest, rest) := Text.splitBytes? Digest.columns fields
    | throw .truncatedSourceDigest
  let some rest := Text.dropLead? fieldSeparator rest | throw .noHashesSeparator
  let some (blockDigest, _) := Text.splitBytes? Digest.columns rest | throw .truncatedBlockDigest
  return (head, sourceDigest, blockDigest)

/-- The block that ends in front of the line of digests. Its recorded length counts the line feed
behind it. -/
def cutBlock (head : Text) (length : Nat) : Except TrailerFault Text := do
  let available := Text.unitLength head + 1
  if available < length then throw .blockBeforeStart
  let some start := Text.unitIndex? head (available - length) | throw .blockSplitsCharacter
  return head.drop start

/-- The source at the front of the text, and whether its length ends inside a character. -/
def cutSource (text : Text) (length : Nat) : Except TrailerFault (Text × Bool) := do
  let some stop := Text.floorUnitIndex? text length | throw .sourceExceeds
  let source := text.take stop
  return (source, Text.unitLength source != length)

/-- Reads the trailer of a text that is cut in front of its last line of lengths. -/
def readTrailer (before counts : Text) : Except TrailerFault Trailer := do
  let text := before ++ counts
  let (sourceLength, blockLength) ← readCounts counts
  checkCounts sourceLength blockLength (Text.unitLength text)
  let (head, sourceDigest, blockDigest) ← readHashes before counts
  let block ← cutBlock head blockLength
  let (source, split) ← cutSource text sourceLength
  return { head, source, split, block, sourceDigest, blockDigest }

/-! ## Source without a usable trailer -/

/-- The source in front of the last block that opens in `before`, which is the front of `text`. The
comment around the block starts `commentWidth` columns before it, so the source ends at the last line
feed ahead of that margin; a text in which no block opens is source altogether. -/
def sourceBefore (text before : Text) : Text :=
  match Text.lastIndexOf? ('\n' :: Block.opening) before with
  | none => text
  | some start =>
    let ahead := before.take start
    let margin := ahead.take (Text.floorByteIndex ahead (Text.byteLength ahead + 4 - commentWidth))
    match Text.lastIndexOf? ['\n'] margin with
    | some stop => margin.take stop
    | none => []

end SealedScript.Artifact
