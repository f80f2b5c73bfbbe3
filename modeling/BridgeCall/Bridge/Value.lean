/-
  BridgeCall/Bridge/Value.lean
  ============================
  **Values on both sides of the bridge.**  A `Wire` is a value as it crosses:
  one of Java's primitives or a reference.  A `HostValue` is a value of the
  calling program.  Arrays live in a heap and are passed by reference, so that
  a later write to an array is seen by everyone who holds it.  Floating-point
  numbers are bit patterns.
-/
import BridgeCall.Expr.Types
import BridgeCall.Number.Binary
import BridgeCall.Text.Quoted

namespace BridgeCall

/-- A borrowed reference to a Java object. -/
inductive Obj where
  | null
  /-- A reference of a known class that points nowhere. -/
  | nullRef
  /-- A named object, which may report itself as Java's null. -/
  | ref (name : Bytes) (isNull : Bool)
  | array (id : Nat)
  deriving DecidableEq, Repr, Inhabited

def Obj.isNull : Obj → Bool
  | .null | .nullRef => true
  | .ref _ n => n
  | .array _ => false

inductive HostValue where
  | absent
  | bool (v : Bool)
  | int8 (v : Int8)
  | int16 (v : Int16)
  | int32 (v : Int32)
  | int64 (v : Int64)
  | uint8 (v : UInt8)
  | uint16 (v : UInt16)
  | uint32 (v : UInt32)
  | uint64 (v : UInt64)
  | float32 (bits : UInt32)
  | float64 (bits : UInt64)
  | string (v : Bytes)
  | object (o : Obj)
  deriving DecidableEq, Repr, Inhabited

/-- A Java array: the letter of its element kind, the class of its elements, the elements. -/
structure JavaArray where
  kind : UInt8
  cls : Bytes
  elements : List HostValue
  deriving DecidableEq, Repr, Inhabited

/-- All arrays, by their number. -/
abbrev Heap := List JavaArray

inductive Wire where
  /-- No value was ever set. -/
  | unset
  | void
  | boolean (v : UInt8)
  | byte (v : Int8)
  | char (v : UInt16)
  | short (v : Int16)
  | int (v : Int32)
  | long (v : Int64)
  | float (bits : UInt32)
  | double (bits : UInt64)
  | object (o : Obj)
  deriving DecidableEq, Repr, Inhabited

/-! ### Kinds -/

def objectLetter : UInt8 := 0x4c

def kindName (letter : UInt8) : Bytes :=
  if letter = objectLetter then "object"
  else match Primitive.all.find? fun p => p.letter = letter with
    | some p => p.name
    | none => "Kind(" ++ Quoted.quoteChar letter.toNat ++ ")"

/-- The kind letter of a wire value; zero when it was never set. -/
def Wire.letter : Wire → UInt8
  | .unset => 0
  | .void => Primitive.void.letter
  | .boolean _ => Primitive.boolean.letter
  | .byte _ => Primitive.byte.letter
  | .char _ => Primitive.char.letter
  | .short _ => Primitive.short.letter
  | .int _ => Primitive.int.letter
  | .long _ => Primitive.long.letter
  | .float _ => Primitive.float.letter
  | .double _ => Primitive.double.letter
  | .object _ => objectLetter

/-- A value was read as another kind than its own. -/
structure KindMismatch where
  want : UInt8
  got : UInt8
  deriving DecidableEq, Repr

def KindMismatch.message (m : KindMismatch) : Bytes :=
  "type mismatch: want " ++ kindName m.want ++ ", got " ++ kindName m.got

namespace Wire

/-- The value as the host sees it before any conversion. -/
def raw : Wire → HostValue
  | .unset | .void => .absent
  | .boolean v => .uint8 v
  | .byte v => .int8 v
  | .char v => .uint16 v
  | .short v => .int16 v
  | .int v => .int32 v
  | .long v => .int64 v
  | .float v => .float32 v
  | .double v => .float64 v
  | .object .null => .absent
  | .object o => .object o

def read (letter : UInt8) (w : Wire) : Except KindMismatch HostValue :=
  if w.letter = letter then .ok w.raw else .error ⟨letter, w.letter⟩

/-- The reference of an object, and no reference for any other kind. -/
def objectOrNull : Wire → Obj
  | .object o => o
  | _ => .null

end Wire

/-! ### Texts -/

namespace HostValue

def typeName : HostValue → Bytes
  | .absent | .object .null => "<nil>"
  | .bool _ => "bool"
  | .int8 _ => "int8"
  | .int16 _ => "int16"
  | .int32 _ => "int32"
  | .int64 _ => "int64"
  | .uint8 _ => "uint8"
  | .uint16 _ => "uint16"
  | .uint32 _ => "uint32"
  | .uint64 _ => "uint64"
  | .float32 _ => "float32"
  | .float64 _ => "float64"
  | .string _ => "string"
  | .object (.array _) => "*jnitest.Array"
  | .object _ => "*jnitest.Ref"

def scalarText : HostValue → Bytes
  | .absent => "<nil>"
  | .bool v => if v then "true" else "false"
  | .int8 v => Bytes.ofInt v.toInt
  | .int16 v => Bytes.ofInt v.toInt
  | .int32 v => Bytes.ofInt v.toInt
  | .int64 v => Bytes.ofInt v.toInt
  | .uint8 v => Bytes.ofNat v.toNat
  | .uint16 v => Bytes.ofNat v.toNat
  | .uint32 v => Bytes.ofNat v.toNat
  | .uint64 v => Bytes.ofNat v.toNat
  | .float32 b => Number.single.write b.toNat
  | .float64 b => Number.double.write b.toNat
  | .string v => v
  | .object o =>
    match o with
    | .null => "<nil>"
    | .nullRef => "null"
    | .ref name isNull => if isNull then "null" else name
    | .array _ => []

/-- The text of a value; an array is written with its kind, its class and its elements. -/
def text (heap : Heap) (v : HostValue) : Bytes :=
  match v with
  | .object (.array id) =>
    match heap[id]? with
    | some a =>
      "&\x7b" ++ kindName a.kind ++ " " ++ a.cls ++ " ["
        ++ Bytes.join " " (a.elements.map scalarText) ++ "]\x7d"
    | none => []
  | v => v.scalarText

end HostValue

def Obj.text (heap : Heap) (o : Obj) : Bytes := (HostValue.object o).text heap

/-- The text of a wire value: its kind with the number in parentheses. -/
def Wire.text (heap : Heap) (w : Wire) : Bytes :=
  match w with
  | .void => "void"
  | .object o => if o.isNull then "null" else "object(" ++ o.text heap ++ ")"
  | .unset => kindName 0 ++ "(0)"
  | w => kindName w.letter ++ "(" ++ w.raw.scalarText ++ ")"

end BridgeCall
