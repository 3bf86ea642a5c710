import SealedScript.Numeral

/-!
JSON objects whose members are scalars, printed one member a line.
-/

namespace SealedScript
set_option autoImplicit false

/-- A member of a flat object. -/
inductive JsonScalar
  | null
  | bool (v : Bool)
  | text (v : Text)

namespace JsonScalar

/-- How a character is written inside quotes: marks and control characters are escaped, all else stands
for itself. -/
def writeChar (c : Char) : Text :=
  if c == '"' then ['\\', '"']
  else if c == '\\' then ['\\', '\\']
  else if c == '\n' then ['\\', 'n']
  else if c == '\t' then ['\\', 't']
  else if c == '\r' then ['\\', 'r']
  else if c == '\x08' then ['\\', 'b']
  else if c == '\x0c' then ['\\', 'f']
  else if c.toNat < 32 then '\\' :: 'u' :: '0' :: '0' :: Numeral.hexBytes [c.toNat.toUInt8]
  else [c]

def quote (t : Text) : Text := '"' :: (t.flatMap writeChar ++ ['"'])

def write : JsonScalar → Text
  | .null => "null"
  | .bool v => if v then "true" else "false"
  | .text v => quote v

/-- The text of an object with its members in the given order, each on a line of its own. -/
def writeObject (members : List (Text × JsonScalar)) : Text :=
  let lines := members.map fun m => "  " ++ quote m.1 ++ ": " ++ m.2.write
  '\x7b' :: '\n' :: (Text.join [',', '\n'] lines ++ ['\n', '\x7d'])

end JsonScalar
end SealedScript
