/-
  BridgeCall/Bridge/Marshal.lean
  ==============================
  **Crossing the bridge.**  Booleans travel as 0 or 1, unsigned numbers as the
  signed number of the same bits, a character as one UTF-16 code unit.
  `toWire?` accepts a host value for a declared type, `fromWire` reads a
  converted result back.
-/
import BridgeCall.Bridge.Value

namespace BridgeCall

/-! ### Single conversions -/

def boolToWire (b : Bool) : UInt8 := if b then 1 else 0

/-- Every byte but zero is true. -/
def wireToBool (v : UInt8) : Bool := v != 0

/-- A UTF-16 unit that is half of a pair. -/
def isSurrogate (c : Int) : Bool := 0xD800 ≤ c && c ≤ 0xDFFF

/-- A code point as one UTF-16 unit; the replacement character when one unit cannot hold it. -/
def encodeChar (c : Int32) : UInt16 :=
  let v := c.toInt
  if v < 0 ∨ 0xFFFF < v ∨ isSurrogate v then 0xFFFD else v.toNat.toUInt16

/-- A UTF-16 unit on its own; half of a pair becomes the replacement character. -/
def decodeChar (u : UInt16) : Int32 :=
  if isSurrogate u.toNat then 0xFFFD else Int32.ofNat u.toNat

/-- An unsigned byte as the signed byte of the same bits. -/
def u8ToWire (v : UInt8) : Int8 := v.toInt8

/-- A signed byte as the unsigned byte of the same bits. -/
def wireToU8 (v : Int8) : UInt8 := v.toUInt8

/-- An unsigned 16-bit number as the signed one of the same bits. -/
def u16ToWire (v : UInt16) : Int16 := v.toInt16

/-- A signed 16-bit number as the unsigned one of the same bits. -/
def wireToU16 (v : Int16) : UInt16 := v.toUInt16

/-- An unsigned 32-bit number as the signed one of the same bits. -/
def u32ToWire (v : UInt32) : Int32 := v.toInt32

/-- A signed 32-bit number as the unsigned one of the same bits. -/
def wireToU32 (v : Int32) : UInt32 := v.toUInt32

/-- An unsigned 64-bit number as the signed one of the same bits. -/
def u64ToWire (v : UInt64) : Int64 := v.toInt64

/-- A signed 64-bit number as the unsigned one of the same bits. -/
def wireToU64 (v : Int64) : UInt64 := v.toUInt64

/-! ### By declared type -/

/-- The wire value of a host value for a declared type; none when the value does not fit it. A
    signed 32-bit value is accepted for every type that travels as Java's `int`. -/
def toWire? (ty : ValueType) (v : HostValue) : Option Wire :=
  match v, ty with
  | .bool b, ty => if ty.primitive? = some .boolean then some (.boolean (boolToWire b)) else none
  | .int32 i, .host .char _ => some (.char (encodeChar i))
  | .int32 i, ty => if ty.primitive? = some .int then some (.int i) else none
  | .uint16 u, .host .u16 _ => some (.short (u16ToWire u))
  | .uint16 u, .java .char _ => some (.char u)
  | .int8 i, .java .byte _ | .int8 i, .host .i8 _ => some (.byte i)
  | .uint8 u, .host .u8 _ => some (.byte (u8ToWire u))
  | .int16 i, .java .short _ | .int16 i, .host .i16 _ => some (.short i)
  | .uint32 u, .host .u32 _ => some (.int (u32ToWire u))
  | .int64 i, .java .long _ | .int64 i, .host .i64 _ => some (.long i)
  | .uint64 u, .host .u64 _ => some (.long (u64ToWire u))
  | .float32 b, .java .float _ | .float32 b, .host .f32 _ => some (.float b)
  | .float64 b, .java .double _ | .float64 b, .host .f64 _ => some (.double b)
  | _, _ => none

def fromWire (ty : ValueType) (w : Wire) : HostValue :=
  match w, ty with
  | .boolean v, _ => .bool (wireToBool v)
  | .char v, .host .char _ => .int32 (decodeChar v)
  | .byte v, .host .u8 _ => .uint8 (wireToU8 v)
  | .short v, .host .u16 _ => .uint16 (wireToU16 v)
  | .int v, .host .u32 _ => .uint32 (wireToU32 v)
  | .long v, .host .u64 _ => .uint64 (wireToU64 v)
  | w, _ => w.raw

end BridgeCall
