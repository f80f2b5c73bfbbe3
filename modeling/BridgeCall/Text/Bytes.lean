/-
  BridgeCall/Text/Bytes.lean
  ==========================
  **Byte strings.**  Every text the library reads or writes is a list of bytes:
  a call expression may hold bytes that are no UTF-8 at all, and every position
  is counted in bytes.  Constant texts are written as string literals and
  coerced.
-/

namespace BridgeCall

abbrev Bytes := List UInt8

namespace Bytes

/-- The UTF-8 bytes of a string. -/
def ofString (s : String) : Bytes := s.toUTF8.data.toList

instance : Coe String Bytes := ⟨ofString⟩

/-- The string these bytes encode, when they are UTF-8. -/
def toString? (bs : Bytes) : Option String := String.fromUTF8? ⟨bs.toArray⟩

/-- The digits of `n` in base `b`, most significant first, lower case. -/
def digits (b n : Nat) : Bytes := (Nat.toDigits b n).map fun c => c.toNat.toUInt8

/-- `n` in decimal. -/
def ofNat (n : Nat) : Bytes := digits 10 n

/-- `i` in decimal, with a minus sign when it is negative. -/
def ofInt : Int → Bytes
  | .ofNat n => ofNat n
  | .negSucc n => (0x2d : UInt8) :: ofNat (n + 1)

/-- `n` in lower-case hexadecimal, filled with zeros to `width` digits. -/
def hex (width n : Nat) : Bytes :=
  let ds := digits 16 n
  List.replicate (width - ds.length) 0x30 ++ ds

/-- The texts one after the other with `sep` between neighbours. -/
def join (sep : Bytes) : List Bytes → Bytes
  | [] => []
  | [x] => x
  | x :: y :: rest => x ++ sep ++ join sep (y :: rest)

/-- The pieces between the occurrences of the byte `b`. -/
def splitOn (b : UInt8) : Bytes → List Bytes
  | [] => [[]]
  | c :: cs =>
    if c = b then [] :: splitOn b cs
    else match splitOn b cs with
      | [] => [[c]]
      | p :: ps => (c :: p) :: ps

/-- Removes the leading bytes that satisfy `p`. -/
def trimLeft (p : UInt8 → Bool) (bs : Bytes) : Bytes := bs.dropWhile p

/-- Removes the trailing bytes that satisfy `p`. -/
def trimRight (p : UInt8 → Bool) (bs : Bytes) : Bytes := (bs.reverse.dropWhile p).reverse

/-- Removes the bytes that satisfy `p` at both ends. -/
def trim (p : UInt8 → Bool) (bs : Bytes) : Bytes := trimRight p (trimLeft p bs)

/-- The six ASCII blanks: tab, line feed, vertical tab, form feed, carriage return, space. -/
def isBlank (b : UInt8) : Bool := b = 0x20 || (0x09 ≤ b && b ≤ 0x0d)

/-- What follows `lead`, when the text starts with it. -/
def stripLead (lead bs : Bytes) : Option Bytes :=
  if lead.isPrefixOf bs then some (bs.drop lead.length) else none

/-- Whether the text starts with `lead`. -/
def startsWith (lead bs : Bytes) : Bool := lead.isPrefixOf bs

/-- Whether the text ends with `tail`. -/
def endsWith (tail bs : Bytes) : Bool := tail.reverse.isPrefixOf bs.reverse

/-- The text before and after the first occurrence of `sep`. -/
def cut (sep : Bytes) : Bytes → Option (Bytes × Bytes)
  | [] => if sep.isEmpty then some ([], []) else none
  | c :: cs =>
    if sep.isPrefixOf (c :: cs) then some ([], (c :: cs).drop sep.length)
    else (cut sep cs).map fun (a, b) => (c :: a, b)

/-- Whether `sub` occurs in the text. -/
def includes (sub bs : Bytes) : Bool := (cut sub bs).isSome

/-- Every occurrence of the byte `a` becomes `b`. -/
def replaceByte (a b : UInt8) (bs : Bytes) : Bytes := bs.map fun c => if c = a then b else c

/-- The bytes of the half-open range `[a, b)`. -/
def slice (a b : Nat) (bs : Bytes) : Bytes := (bs.drop a).take (b - a)

/-- Lexicographic order by byte value. -/
def lt : Bytes → Bytes → Bool
  | [], [] => false
  | [], _ :: _ => true
  | _ :: _, [] => false
  | a :: as, b :: bs => if a = b then lt as bs else a < b

def isDigit (b : UInt8) : Bool := 0x30 ≤ b && b ≤ 0x39

/-- An ASCII hexadecimal digit of either case. -/
def isHexDigit (b : UInt8) : Bool :=
  isDigit b || (0x61 ≤ b && b ≤ 0x66) || (0x41 ≤ b && b ≤ 0x46)

/-- An ASCII letter or the underscore. -/
def isWordStart (b : UInt8) : Bool :=
  (0x61 ≤ b && b ≤ 0x7a) || (0x41 ≤ b && b ≤ 0x5a) || b = 0x5f

def hexValue? (b : UInt8) : Option Nat :=
  if isDigit b then some (b.toNat - 0x30)
  else if 0x61 ≤ b && b ≤ 0x66 then some (b.toNat - 0x61 + 10)
  else if 0x41 ≤ b && b ≤ 0x46 then some (b.toNat - 0x41 + 10)
  else none

/-- ASCII letters in lower case, all other bytes as they are. -/
def toLower (bs : Bytes) : Bytes :=
  bs.map fun b => if 0x41 ≤ b && b ≤ 0x5a then b + 0x20 else b

end Bytes
end BridgeCall
