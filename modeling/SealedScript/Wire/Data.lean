import SealedScript.Program
import SealedScript.Signature.Make
import SealedScript.Wire.Codec

/-!
The binary form of types, values, signatures and programs.

Each case of an enumeration is written as its number in the order of declaration and then its fields.
Types and values nest, so their readers take a byte string that bounds the levels they may descend by its
length. The input itself serves as the bound, since every level takes a byte or more. A signature that was
read is checked like any other.
-/

namespace SealedScript
set_option autoImplicit false

namespace Codec

/-! ## Types -/

def primitives : List Primitive :=
  [.boolean, .byte, .short, .int, .long, .float, .double, .char, .void]

def primitive : Codec Primitive := tag.via (fun p => primitives.idxOf p) fun n => primitives[n]?

def writeTy : Ty → Bytes
  | .object => tag.write 0
  | .void => tag.write 1
  | .boolean => tag.write 2
  | .number => tag.write 3
  | .byte => tag.write 4
  | .short => tag.write 5
  | .integer => tag.write 6
  | .long => tag.write 7
  | .float => tag.write 8
  | .double => tag.write 9
  | .text => tag.write 10
  | .array element => tag.write 11 ++ writeTy element
  | .primitive p => tag.write 12 ++ primitive.write p

/-- Reads a type of no more array layers than `bound` has bytes. -/
def readTy (bound : Bytes) : Reader Ty := do
  match ← tag.read with
  | 0 => return .object
  | 1 => return .void
  | 2 => return .boolean
  | 3 => return .number
  | 4 => return .byte
  | 5 => return .short
  | 6 => return .integer
  | 7 => return .long
  | 8 => return .float
  | 9 => return .double
  | 10 => return .text
  | 11 =>
    match bound with
    | [] => refuse
    | _ :: bound => .array <$> readTy bound
  | 12 => .primitive <$> primitive.read
  | _ => refuse

def ty : Codec Ty where
  write := writeTy
  read := fun bs => readTy bs bs

/-! ## Values -/

mutual
def writeValue : Value → Bytes
  | .null => tag.write 0
  | .bool v => tag.write 1 ++ bool.write v
  | .byte v => tag.write 2 ++ int8.write v
  | .short v => tag.write 3 ++ int16.write v
  | .int v => tag.write 4 ++ int32.write v
  | .long v => tag.write 5 ++ int64.write v
  | .float v => tag.write 6 ++ single.write v
  | .double v => tag.write 7 ++ double.write v
  | .text v => tag.write 8 ++ text.write v.toList
  | .array element items =>
    tag.write 9 ++ ty.write element ++ length.write items.length ++ writeValues items
def writeValues : List Value → Bytes
  | [] => []
  | v :: vs => writeValue v ++ writeValues vs
end

/-- Reads a value of no more array layers than `bound` has bytes. -/
def readValue (bound : Bytes) : Reader Value := do
  match ← tag.read with
  | 0 => return .null
  | 1 => .bool <$> bool.read
  | 2 => .byte <$> int8.read
  | 3 => .short <$> int16.read
  | 4 => .int <$> int32.read
  | 5 => .long <$> int64.read
  | 6 => .float <$> single.read
  | 7 => .double <$> double.read
  | 8 => (fun v => .text (String.ofList v)) <$> text.read
  | 9 =>
    match bound with
    | [] => refuse
    | _ :: bound => do
      let element ← ty.read
      let items ← readMany (readValue bound) (← length.read) []
      return .array element items
  | _ => refuse

def value : Codec Value where
  write := writeValue
  read := fun bs => readValue bs bs

/-! ## Signatures -/

/-- A signature; its parts are checked when they have been read. -/
def signature : Codec Signature where
  write s :=
    (option text).write s.name ++ (list ty).write s.params ++ bool.write s.variadic
      ++ ty.write s.returns
  read := do
    let name ← (option text).read
    let params ← (list ty).read
    let variadic ← bool.read
    let returns ← ty.read
    match Signature.make name params variadic returns with
    | .ok s => return s
    | .error fault => throw (.invalidSignature fault)

/-! ## Programs -/

def op : Codec Op where
  write
    | .push v => tag.write 0 ++ value.write v
    | .load name => tag.write 1 ++ text.write name
    | .store name => tag.write 2 ++ text.write name
    | .arith .add => tag.write 3
    | .arith .sub => tag.write 4
    | .arith .mul => tag.write 5
    | .arith .div => tag.write 6
    | .sum => tag.write 7
    | .len => tag.write 8
    | .neg => tag.write 9
    | .dup => tag.write 10
    | .swap => tag.write 11
    | .drop => tag.write 12
  read := do
    match ← tag.read with
    | 0 => .push <$> value.read
    | 1 => .load <$> text.read
    | 2 => .store <$> text.read
    | 3 => return .arith .add
    | 4 => return .arith .sub
    | 5 => return .arith .mul
    | 6 => return .arith .div
    | 7 => return .sum
    | 8 => return .len
    | 9 => return .neg
    | 10 => return .dup
    | 11 => return .swap
    | 12 => return .drop
    | _ => refuse

def program : Codec Program where
  write p := (list op).write p.ops ++ bool.write p.void
  read := do
    let ops ← (list op).read
    let void ← bool.read
    return ⟨ops, void⟩

end Codec

def Program.image (p : Program) : Bytes := Codec.program.write p

/-- The program with this image; what follows it is not looked at. -/
def Program.ofImage (image : Bytes) : Except CodecFault Program :=
  (Codec.program.read.run image).map Prod.fst

end SealedScript
