import SealedScript.Base64
import SealedScript.Error
import SealedScript.Text.Blank

/-!
Compiled blocks: bytes as lines of base64 between an opening and a closing line.

Reading looks for the two delimiters and ignores ASCII white space between them.
-/

namespace SealedScript.Block
set_option autoImplicit false

/-- The most characters that a line of base64 has. -/
def width : Nat := 76

def opening : Text := "##:COMPILED::BASE64 \x7b"

def closing : Text := "\x7d"

/-- The text in pieces of `width` characters, the last one shorter; `fuel` bounds their number. -/
def chunks (width : Nat) : Nat → Text → List Text
  | 0, t => [t]
  | fuel + 1, t =>
    match t.drop width with
    | [] => [t]
    | rest => t.take width :: chunks width fuel rest

/-- A text broken into lines of at most `width` characters. -/
def wrap (width : Nat) (t : Text) : Text := Text.join ['\n'] (chunks width t.length t)

def encode (bs : Bytes) : Text :=
  opening ++ '\n' :: (wrap width (Base64.encode bs) ++ '\n' :: closing)

def body? (block : Text) : Option Text := do
  let behind ← Text.dropLead? (opening ++ ['\n']) block
  Text.dropTail? ('\n' :: closing) behind

def decode (block : Text) : Except CodecFault Bytes :=
  match body? block with
  | none => .error .noDelimiters
  | some body =>
    match Base64.decode (body.filter fun c => !Text.isAsciiBlank c) with
    | some bs => .ok bs
    | none => .error .base64

end SealedScript.Block
