/-
  BridgeCall/Expr/Types.lean
  ==========================
  **Types of call expressions.**  Two vocabularies name the primitives: Java's
  own keywords, and host keywords, each of which travels as one of Java's.  A
  word in both vocabularies takes its host reading.  Everything else is an
  object of a class.
-/
import BridgeCall.Expr.ClassPath

namespace BridgeCall

/-- Java's primitive types and `void`. -/
inductive Primitive where
  | void
  | byte
  | boolean
  | char
  | short
  | int
  | long
  | float
  | double
  deriving DecidableEq, Repr, Inhabited

namespace Primitive

/-- Every primitive, in the order keywords are listed. -/
def all : List Primitive := [.void, .byte, .boolean, .char, .short, .int, .long, .float, .double]

def name : Primitive → Bytes
  | .void => "void"
  | .byte => "byte"
  | .boolean => "boolean"
  | .char => "char"
  | .short => "short"
  | .int => "int"
  | .long => "long"
  | .float => "float"
  | .double => "double"

def letter : Primitive → UInt8
  | .void => 0x56
  | .byte => 0x42
  | .boolean => 0x5a
  | .char => 0x43
  | .short => 0x53
  | .int => 0x49
  | .long => 0x4a
  | .float => 0x46
  | .double => 0x44

/-- The host type of a value of this Java type; void has none. -/
def hostType : Primitive → Bytes
  | .void => ""
  | .byte => "int8"
  | .boolean => "bool"
  | .char => "uint16"
  | .short => "int16"
  | .int => "int32"
  | .long => "int64"
  | .float => "float32"
  | .double => "float64"

def ofName? (w : Bytes) : Option Primitive := all.find? fun p => p.name = w

end Primitive

inductive HostPrimitive where
  | bool
  | char
  | u8
  | i8
  | u16
  | i16
  | u32
  | i32
  | u64
  | i64
  | f32
  | f64
  deriving DecidableEq, Repr, Inhabited

namespace HostPrimitive

/-- Every host primitive, in the order keywords are listed. -/
def all : List HostPrimitive :=
  [.bool, .char, .u8, .i8, .u16, .i16, .u32, .i32, .u64, .i64, .f32, .f64]

def name : HostPrimitive → Bytes
  | .bool => "bool"
  | .char => "char"
  | .u8 => "u8"
  | .i8 => "i8"
  | .u16 => "u16"
  | .i16 => "i16"
  | .u32 => "u32"
  | .i32 => "i32"
  | .u64 => "u64"
  | .i64 => "i64"
  | .f32 => "f32"
  | .f64 => "f64"

def java : HostPrimitive → Primitive
  | .bool => .boolean
  | .char => .char
  | .u8 | .i8 => .byte
  | .u16 | .i16 => .short
  | .u32 | .i32 => .int
  | .u64 | .i64 => .long
  | .f32 => .float
  | .f64 => .double

/-- The host type that callers pass and receive. -/
def hostType : HostPrimitive → Bytes
  | .bool => "bool"
  | .char => "rune"
  | .u8 => "uint8"
  | .i8 => "int8"
  | .u16 => "uint16"
  | .i16 => "int16"
  | .u32 => "uint32"
  | .i32 => "int32"
  | .u64 => "uint64"
  | .i64 => "int64"
  | .f32 => "float32"
  | .f64 => "float64"

/-- Unsigned values are reinterpreted as the signed Java type of the same width. -/
def isUnsigned : HostPrimitive → Bool
  | .u8 | .u16 | .u32 | .u64 => true
  | _ => false

def ofName? (w : Bytes) : Option HostPrimitive := all.find? fun p => p.name = w

end HostPrimitive

/-- Every type keyword, Java's first; one that both vocabularies have is listed once. -/
def keywords : List Bytes :=
  Primitive.all.map Primitive.name ++
    (HostPrimitive.all.map HostPrimitive.name).filter fun w => (Primitive.ofName? w).isNone

inductive ValueType where
  | java (p : Primitive) (span : Span)
  | host (h : HostPrimitive) (span : Span)
  | object (c : ClassPath)
  deriving DecidableEq, Repr, Inhabited

namespace ValueType

def span : ValueType → Span
  | .java _ s => s
  | .host _ s => s
  | .object c => c.span

def isObject : ValueType → Bool
  | .object _ => true
  | _ => false

def isVoid : ValueType → Bool
  | .java .void _ => true
  | _ => false

/-- The Java primitive that a value travels as; none for objects. -/
def primitive? : ValueType → Option Primitive
  | .java p _ => some p
  | .host h _ => some h.java
  | .object _ => none

/-- The letter of the type in signatures, `L` for every object. -/
def letter : ValueType → UInt8
  | .java p _ => p.letter
  | .host h _ => h.java.letter
  | .object _ => 0x4c

def signature : ValueType → Bytes
  | .java p _ => [p.letter]
  | .host h _ => [h.java.letter]
  | .object c => c.signature

/-- The host type of a value, empty for objects and void. -/
def hostType : ValueType → Bytes
  | .java p _ => p.hostType
  | .host h _ => h.hostType
  | .object _ => ""

/-- The name on the Java side: the primitive it travels as, or the dotted class. -/
def display : ValueType → Bytes
  | .java p _ => p.name
  | .host h _ => h.java.name
  | .object c => c.display

def keyword : ValueType → Bytes
  | .java p _ => p.name
  | .host h _ => h.name
  | .object c => c.display

end ValueType
end BridgeCall
