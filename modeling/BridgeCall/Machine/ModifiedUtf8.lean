/-
  BridgeCall/Machine/ModifiedUtf8.lean
  ====================================
  **The machine's string encoding.**  Every UTF-16 unit is stored on its own in
  one to three bytes, NUL in two; characters beyond the first plane are stored
  as two surrogates.
-/
import BridgeCall.Text.Utf8

namespace BridgeCall.Utf16

/-- A unit that starts a pair. -/
def isHigh (u : Nat) : Bool := 0xD800 ≤ u && u < 0xDC00

/-- A unit that ends a pair. -/
def isLow (u : Nat) : Bool := 0xDC00 ≤ u && u < 0xE000

/-- The code points of a list of units; half of a pair on its own becomes the replacement
    character. -/
def decode : List Nat → List Nat
  | [] => []
  | [u] => [if isHigh u || isLow u then Utf8.replacement else u]
  | u :: v :: rest =>
    if isHigh u && isLow v then
      ((u - 0xD800) * 0x400 + (v - 0xDC00) + 0x10000) :: decode rest
    else (if isHigh u || isLow u then Utf8.replacement else u) :: decode (v :: rest)

/-- The units of a code point. -/
def encode (c : Nat) : List Nat :=
  if 0x10000 ≤ c then [0xD800 + (c - 0x10000) / 0x400, 0xDC00 + (c - 0x10000) % 0x400] else [c]

end BridgeCall.Utf16

namespace BridgeCall.ModifiedUtf8

/-- The units of a stored string; a byte that starts no sequence stands for the replacement
    character. -/
def units : Bytes → List Nat
  | [] => []
  | [c] => [if c.toNat < 0x80 then c.toNat else Utf8.replacement]
  | [c, d] =>
    if c.toNat < 0x80 then c.toNat :: units [d]
    else if c.toNat / 0x20 = 6 then [(c.toNat % 0x20) * 0x40 + d.toNat % 0x40]
    else Utf8.replacement :: units [d]
  | c :: d :: e :: rest =>
    if c.toNat < 0x80 then c.toNat :: units (d :: e :: rest)
    else if c.toNat / 0x20 = 6 then
      ((c.toNat % 0x20) * 0x40 + d.toNat % 0x40) :: units (e :: rest)
    else if c.toNat / 0x10 = 14 then
      ((c.toNat % 0x10) * 0x1000 + (d.toNat % 0x40) * 0x40 + e.toNat % 0x40) :: units rest
    else Utf8.replacement :: units (d :: e :: rest)

/-- The text of a stored string. -/
def decode (bs : Bytes) : Bytes := Utf8.ofCodePoints (Utf16.decode (units bs))

end BridgeCall.ModifiedUtf8
