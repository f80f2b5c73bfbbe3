/-
  BridgeCall/Proofs/Plan/Passage.lean
  ===================================
  **Values survive the bridge.**  The bridge holds every number in 64 bits, whatever
  its width and sign (`Slot`): narrow numbers are stored without their sign, and a
  reader for the kind restores it (`Wire.read_slot`).  A value of a declared type is
  received again as it was sent, and a wire value is sent again as it was received.

  What is lost is said by two functions: a character that is no code unit of its own
  (`ValueType.received`), and a boolean that is neither 0 nor 1
  (`ValueType.resent`).
-/
import BridgeCall.Proofs.Plan.Marshalling
import BridgeCall.Proofs.Plan.Evaluation

namespace BridgeCall

/-! ### How a wire value is held -/

/-- A wire value as the bridge holds it. -/
structure Slot where
  kind : UInt8
  bits : UInt64 := 0
  ref : Obj := .null
  deriving DecidableEq, Repr

/-- The letter of a kind; the kind without a primitive is that of references. -/
def kindLetter : Option Primitive → UInt8
  | some p => p.letter
  | none => objectLetter

/-- Numbers are stored without their sign. -/
def Wire.slot : Wire → Slot
  | .unset => { kind := 0 }
  | .void => { kind := Primitive.void.letter }
  | .boolean v => { kind := Primitive.boolean.letter, bits := v.toUInt64 }
  | .byte v => { kind := Primitive.byte.letter, bits := v.toUInt8.toUInt64 }
  | .char v => { kind := Primitive.char.letter, bits := v.toUInt64 }
  | .short v => { kind := Primitive.short.letter, bits := v.toUInt16.toUInt64 }
  | .int v => { kind := Primitive.int.letter, bits := v.toUInt32.toUInt64 }
  | .long v => { kind := Primitive.long.letter, bits := v.toUInt64 }
  | .float v => { kind := Primitive.float.letter, bits := v.toUInt64 }
  | .double v => { kind := Primitive.double.letter, bits := v }
  | .object o => { kind := objectLetter, ref := o }

namespace Slot

/-- What the bits mean to the reader of a kind. -/
def value (s : Slot) : Option Primitive → HostValue
  | some .void => .absent
  | some .boolean => .uint8 s.bits.toUInt8
  | some .byte => .int8 s.bits.toUInt8.toInt8
  | some .char => .uint16 s.bits.toUInt16
  | some .short => .int16 s.bits.toUInt16.toInt16
  | some .int => .int32 s.bits.toUInt32.toInt32
  | some .long => .int64 s.bits.toInt64
  | some .float => .float32 s.bits.toUInt32
  | some .double => .float64 s.bits
  | none => (Wire.object s.ref).raw

/-- The reader of a kind refuses every other one. -/
def read (s : Slot) (k : Option Primitive) : Except KindMismatch HostValue :=
  if s.kind = kindLetter k then .ok (s.value k) else .error ⟨kindLetter k, s.kind⟩

end Slot

theorem Wire.carries {k : Option Primitive} {w : Wire} (h : w.letter = kindLetter k) :
    Code.Carries k w := by
  cases k with
  | some p => exact Code.carries_of_letter h
  | none =>
    cases w with
    | object o => exact .object o
    | _ =>
      exact absurd h (by simp +decide [Wire.letter, kindLetter, Primitive.letter, objectLetter])

/-- A value that was read, as the host type of the declared type. -/
def ValueType.hosted (ty : ValueType) (v : HostValue) : HostValue :=
  match v, ty with
  | .uint8 v, _ => .bool (wireToBool v)
  | .uint16 v, .host .char _ => .int32 (decodeChar v)
  | .int8 v, .host .u8 _ => .uint8 (wireToU8 v)
  | .int16 v, .host .u16 _ => .uint16 (wireToU16 v)
  | .int32 v, .host .u32 _ => .uint32 (wireToU32 v)
  | .int64 v, .host .u64 _ => .uint64 (wireToU64 v)
  | v, _ => v

/-- Reads a result by the reader of its declared type; without a value there is nothing to read. -/
def Slot.receive (ty : ValueType) (s : Slot) : Except KindMismatch HostValue :=
  if ty.isVoid then .ok .absent else (s.read ty.primitive?).map ty.hosted

end BridgeCall
