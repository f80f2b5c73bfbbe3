/-
  BridgeCall/Number/Integer.lean
  ==============================
  **Integer literals.**  A literal may start with a base mark (`0b`, `0o`, `0x`,
  or a plain `0` for octal) and may separate digits by underscores.  Digits are
  read from the left and the first problem wins: a value that leaves the range
  is reported before a bad digit further right.
-/
import BridgeCall.Text.Bytes

namespace BridgeCall.Number

/-- Why a literal has no value. -/
inductive Trouble where
  | form
  | range
  deriving DecidableEq, Repr

def Trouble.message : Trouble → Bytes
  | .form => "invalid syntax"
  | .range => "value out of range"

/-- The value of a digit in a base up to 36, for either case of letters. -/
def digit? (b : UInt8) : Option Nat :=
  if 0x30 ≤ b && b ≤ 0x39 then some (b.toNat - 0x30)
  else if 0x61 ≤ b && b ≤ 0x7a then some (b.toNat - 0x61 + 10)
  else if 0x41 ≤ b && b ≤ 0x5a then some (b.toNat - 0x41 + 10)
  else none

/-- Whether a byte is the given lower-case letter in either case. -/
def isLetter (l b : UInt8) : Bool := b = l || b + 0x20 = l

/-- What stands to the left of a position, as far as underscores care. -/
inductive Left where
  | start
  | digit
  | underscore
  | other
  deriving DecidableEq, Repr

/-- Underscores stand between digits only; `hex` admits the hexadecimal letters as digits. -/
def separated (hex : Bool) : Left → Bytes → Bool
  | left, [] => left != .underscore
  | left, b :: bs =>
    if Bytes.isDigit b || (hex && Bytes.isHexDigit b) then separated hex .digit bs
    else if b = 0x5f then left == .digit && separated hex .underscore bs
    else left != .underscore && separated hex .other bs

/-- The text without one leading sign. -/
def dropSign : Bytes → Bytes
  | 0x2b :: bs => bs
  | 0x2d :: bs => bs
  | bs => bs

/-- Underscores separate digits, and one may follow a base mark. -/
def underscoresOk (bs : Bytes) : Bool :=
  match dropSign bs with
  | 0x30 :: m :: rest =>
    if isLetter 0x78 m then separated true .digit rest
    else if isLetter 0x62 m || isLetter 0x6f m then separated false .digit rest
    else separated false .start (0x30 :: m :: rest)
  | bs => separated false .start bs

/-- The base of a literal and its digits after the base mark. -/
def splitBase : Bytes → Nat × Bytes
  | 0x30 :: m :: d :: rest =>
    if isLetter 0x62 m then (2, d :: rest)
    else if isLetter 0x6f m then (8, d :: rest)
    else if isLetter 0x78 m then (16, d :: rest)
    else (8, m :: d :: rest)
  | 0x30 :: rest => (8, rest)
  | bs => (10, bs)

/-- Accumulates digits, skipping underscores, while the value stays at most `max`. -/
def readDigits (base max : Nat) : Nat → Bytes → Except Trouble Nat
  | acc, [] => .ok acc
  | acc, b :: bs =>
    if b = 0x5f then readDigits base max acc bs
    else match digit? b with
      | none => .error .form
      | some d =>
        if base ≤ d then .error .form
        else
          let v := acc * base + d
          if max < v then .error .range else readDigits base max v bs

/-- Reads an unsigned literal of the given width in bits. -/
def readUnsigned (width : Nat) (bs : Bytes) : Except Trouble Nat :=
  match bs with
  | [] => .error .form
  | _ =>
    let (base, ds) := splitBase bs
    match readDigits base (Nat.pow 2 width - 1) 0 ds with
    | .error e => .error e
    | .ok v => if bs.contains 0x5f && !underscoresOk bs then .error .form else .ok v

/-- Reads a signed literal of the given width in bits. -/
def readSigned (width : Nat) (bs : Bytes) : Except Trouble Int :=
  let negative := bs.head? = some 0x2d
  match readUnsigned width (dropSign bs) with
  | .error .form => .error .form
  | .error .range => .error .range
  | .ok v =>
    if negative then if Nat.pow 2 (width - 1) < v then .error .range else .ok (-(v : Int))
    else if Nat.pow 2 (width - 1) ≤ v then .error .range else .ok (v : Int)

/-- The words for true and false. -/
def readBool (bs : Bytes) : Except Trouble Bool :=
  if bs ∈ (["1", "t", "T", "true", "TRUE", "True"] : List Bytes) then .ok true
  else if bs ∈ (["0", "f", "F", "false", "FALSE", "False"] : List Bytes) then .ok false
  else .error .form

end BridgeCall.Number
