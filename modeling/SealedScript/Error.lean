import SealedScript.Kind
import SealedScript.Signature
import SealedScript.Value

/-!
Everything that can go wrong, by cause.

Each part of the library has an inductive type of its faults, and `Failure` joins them. The
wording of every fault is in its `message`; no other part of the library words an error.
-/

namespace SealedScript
set_option autoImplicit false

/-! ## Faults of the parts -/

/-- Why a signature is refused. -/
inductive SignatureFault
  | variadicWithoutParams
  | primitiveReturn (ty : Ty)
  | primitiveParam (ty : Ty)
  | unreadable (text : Text)
  | variadicBeforeLast (text : Text)
  | unnamedParam (index : Nat) (text : Text)
  | givenForScript (text : Text)
  | paramNameCount (count : Nat) (signature : Signature)
  | emptyParamName

def SignatureFault.message : SignatureFault → Text
  | .variadicWithoutParams => "a signature without parameters cannot be variable-arity"
  | .primitiveReturn ty => "primitive return type '" ++ ty.display ++ "' is not allowed"
  | .primitiveParam ty => "primitive parameter type '" ++ ty.display ++ "' is not allowed"
  | .unreadable text => "cannot parse '" ++ text ++ "'"
  | .variadicBeforeLast text =>
    "only the last parameter may be variable-arity in '" ++ text ++ "'"
  | .unnamedParam index text =>
    "parameter " ++ Numeral.decimal index ++ " has no name in '" ++ text ++ "'"
  | .givenForScript text => "a script takes no signature: '" ++ text ++ "'"
  | .paramNameCount count signature =>
    Numeral.decimal count ++ " parameter names for " ++ signature.display
  | .emptyParamName => "parameter names must not be empty"

/-- Why a variable cannot be declared, assigned or read. -/
inductive ScopeFault
  | emptyName
  | exists (name : Text)
  | mistyped (value : Value) (name : Text) (ty : Ty)
  | missing (name : Text)
  | constant (name : Text)
  | noScope (name : Text)
  | unreadable (text : Text) (ty : Ty)

def ScopeFault.message : ScopeFault → Text
  | .emptyName => "variable name must not be empty"
  | .exists name => "variable '" ++ name ++ "' already exists"
  | .mistyped value name ty =>
    "cannot assign " ++ value.describe ++ " to '" ++ name ++ "' of type " ++ ty.display
  | .missing name => "variable '" ++ name ++ "' does not exist"
  | .constant name => "'" ++ name ++ "' is a constant"
  | .noScope name => "no scope to store '" ++ name ++ "' into"
  | .unreadable text ty => "cannot read '" ++ text ++ "' as " ++ ty.display

/-- Why an engine cannot compile, load or run a program. -/
inductive EngineFault
  | unknownOption (text : Text)
  | unterminatedComment (offset : Nat)
  | unterminatedString (offset : Nat)
  | unexpectedToken (word : Text) (offset : Nat)
  | undefinedName (name : Text)
  | stackUnderflow
  | sumOf (value : Value)
  | lengthOf (value : Value)
  | lengthTooLarge
  | mismatch (symbol : Char) (left right : Value)
  | divisionByZero
  | overflow
  | noImage

def EngineFault.message : EngineFault → Text
  | .unknownOption text => "unknown option '" ++ text ++ "'"
  | .unterminatedComment offset => "unterminated comment at offset " ++ Numeral.decimal offset
  | .unterminatedString offset => "unterminated string at offset " ++ Numeral.decimal offset
  | .unexpectedToken word offset =>
    "unexpected token '" ++ word ++ "' at offset " ++ Numeral.decimal offset
  | .undefinedName name => "undefined name '" ++ name ++ "'"
  | .stackUnderflow => "stack underflow"
  | .sumOf value => "sum needs an array, got " ++ value.describe
  | .lengthOf value => "len needs an array or text, got " ++ value.describe
  | .lengthTooLarge => "length does not fit an Integer"
  | .mismatch symbol left right =>
    "cannot apply " ++ [symbol] ++ " to " ++ left.describe ++ " and " ++ right.describe
  | .divisionByZero => "division by zero"
  | .overflow => "integer overflow"
  | .noImage => "interpreted bodies have no image"

/-- Why stored bytes are refused, or cannot be produced. -/
inductive CodecFault
  | malformed
  | invalidSignature (fault : SignatureFault)
  | version (found supported : Nat)
  | noDelimiters
  | base64
  | notSerializable (engine : Text)
  | noSignature (kind : Kind)
  | digestMismatch (payload trailer : Text)

/-- The fault in words; bytes that are no message of the binary format are named after it. -/
def CodecFault.message : CodecFault → Text
  | .malformed => "bincode"
  | .invalidSignature fault => "invalid signature: " ++ fault.message
  | .version found supported =>
    "unsupported envelope version " ++ Numeral.decimal found ++ " (expected "
      ++ Numeral.decimal supported ++ ")"
  | .noDelimiters => "compiled block delimiters not found"
  | .base64 => "base64"
  | .notSerializable engine => "compiled code of engine '" ++ engine ++ "' is not serializable"
  | .noSignature kind => kind.display ++ " record without a signature"
  | .digestMismatch payload trailer =>
    "payload digest 0x" ++ payload ++ " does not match trailer 0x" ++ trailer

/-- Why the trailer of an artifact cannot be read. -/
inductive TrailerFault
  | linesAfterCounts
  | noCountsField
  | truncatedLength
  | badLength (field : Text)
  | noCountsSeparator
  | emptyBlock
  | lengthsExceed (source block total : Nat)
  | noHashesLine
  | truncatedSourceDigest
  | noHashesSeparator
  | truncatedBlockDigest
  | blockBeforeStart
  | blockSplitsCharacter
  | sourceExceeds
deriving DecidableEq

def TrailerFault.message : TrailerFault → Text
  | .linesAfterCounts => "counts line must be followed by exactly one line"
  | .noCountsField => "counts line has no 0x field"
  | .truncatedLength => "truncated length field"
  | .badLength field => "bad length field '" ++ field ++ "'"
  | .noCountsSeparator => "counts separator missing"
  | .emptyBlock => "compiled length is zero"
  | .lengthsExceed source block total =>
    "recorded lengths " ++ Numeral.decimal source ++ "/" ++ Numeral.decimal block
      ++ " exceed artifact length " ++ Numeral.decimal total
  | .noHashesLine => "hashes line missing"
  | .truncatedSourceDigest => "truncated source digest"
  | .noHashesSeparator => "hashes separator missing"
  | .truncatedBlockDigest => "truncated block digest"
  | .blockBeforeStart => "compiled length reaches before the artifact start"
  | .blockSplitsCharacter => "compiled length splits a character"
  | .sourceExceeds => "source length exceeds the artifact"

/-- What checking an artifact found. -/
inductive Validation
  | fresh
  | noTrailer
  | malformed (fault : TrailerFault)
  | staleSource
  | staleCompiled
deriving DecidableEq

def Validation.isFresh : Validation → Bool
  | .fresh => true
  | _ => false

def Validation.display : Validation → Text
  | .fresh => "FRESH"
  | .noTrailer => "NO_TRAILER"
  | .malformed fault => "MALFORMED (" ++ fault.message ++ ")"
  | .staleSource => "STALE_SOURCE"
  | .staleCompiled => "STALE_COMPILED"

/-- Why a path cannot be used. -/
inductive FileFault
  | missing
  | exists
  | notDirectory
  | isDirectory
  | busy
  | nameTooLong
  | nulInPath
  /-- What is below the tree fails, in words of its own. -/
  | device (message : Text)
deriving DecidableEq, Repr

/-- The fault in the words of the operating system, with its number if it has one. -/
def FileFault.message : FileFault → Text
  | .missing => "No such file or directory (os error 2)"
  | .exists => "File exists (os error 17)"
  | .notDirectory => "Not a directory (os error 20)"
  | .isDirectory => "Is a directory (os error 21)"
  | .busy => "Device or resource busy (os error 16)"
  | .nameTooLong => "File name too long (os error 36)"
  | .nulInPath => "file name contained an unexpected NUL byte"
  | .device message => message

/-- Why a load policy is refused. -/
inductive PolicyFault
  | unreadable
  | unreadableFile (path : Text)
  | forceWithoutRecompile
deriving DecidableEq, Repr

def PolicyFault.message : PolicyFault → Text
  | .unreadable => "YAML parse error"
  | .unreadableFile path => path ++ ": config error: YAML parse error"
  | .forceWithoutRecompile => "force_recompile requires recompile: true"

/-! ## All of them -/

/-- Why an operation of the library failed. -/
inductive Failure
  /-- The arguments do not fit; a script, which has no signature, takes none. -/
  | incompatibleArguments (args : List Value) (signature : Option Signature)
  /-- The body produced a value that the signature does not permit. -/
  | invalidReturn (value : Value) (signature : Signature)
  /-- A captured variable no longer has a type that fits. -/
  | incompatibleCapture (name : Text) (required found : Ty)
  | malformedTrailer (artifact : Text) (fault : TrailerFault)
  /-- The artifact is not fresh and must not be recompiled. -/
  | stale (artifact : Text) (state : Validation)
  | engine (name : Text) (fault : EngineFault)
  | unknownEngine (name : Text)
  | noEngineMarker
  | invalidSignature (fault : SignatureFault)
  | unknownType (name : Text)
  | unsupportedKind (word : Text)
  | scope (fault : ScopeFault)
  | codec (fault : CodecFault)
  | file (path : Text) (fault : FileFault)
  /-- The store of a rebuilt artifact is read-only. -/
  | readOnly (artifact : Text)
  | policy (fault : PolicyFault)

namespace Failure

def message : Failure → Text
  | .incompatibleArguments args signature =>
    "Incompatible parameter: (" ++ Text.join ", " (args.map Value.describe) ++ ") for "
      ++ signature.elim "script".toList Signature.display
  | .invalidReturn value signature =>
    "Invalid return value '" ++ value.display ++ "' for " ++ signature.display
  | .incompatibleCapture name required found =>
    "Incompatible frozen variable type '" ++ required.display ++ "' need but '" ++ found.display
      ++ "' found for '" ++ name ++ "'"
  | .malformedTrailer artifact fault =>
    "mal-formed compiled data in '" ++ artifact ++ "': " ++ fault.message
  | .stale artifact state =>
    "compiled data of '" ++ artifact ++ "' is " ++ state.display ++ " and recompilation is disabled"
  | .engine name fault => "engine '" ++ name ++ "' failed: " ++ fault.message
  | .unknownEngine name => "unknown engine '" ++ name ++ "'"
  | .noEngineMarker => "unknown engine 'no engine marker in script text'"
  | .invalidSignature fault => "invalid signature: " ++ fault.message
  | .unknownType name => "unknown type name '" ++ name ++ "'"
  | .unsupportedKind word => "executable kind '" ++ word ++ "' is not supported"
  | .scope fault => "scope error: " ++ fault.message
  | .codec fault => "codec error: " ++ fault.message
  | .file path fault => "cannot access " ++ path ++ ": " ++ fault.message
  | .readOnly artifact => "cannot persist '" ++ artifact ++ "': store is read-only"
  | .policy fault => "config error: " ++ fault.message

/-- Can the caller recover by allowing the artifact to be recompiled? -/
def isRepairable : Failure → Bool
  | .malformedTrailer .. | .stale .. => true
  | _ => false

end Failure

abbrev Outcome := Except Failure

end SealedScript
