/-
  BridgeCall/Settings/Pattern.lean
  ================================
  **The forms that settings have.**  Every setting is a text of ASCII characters
  with a simple form: words with separators between them.
-/
import BridgeCall.Text.Bytes

namespace BridgeCall.Pattern

/-- A lower-case letter or the underscore. -/
def isLowerStart (b : UInt8) : Bool := (0x61 ≤ b && b ≤ 0x7a) || b = 0x5f

/-- A letter, a digit or the underscore. -/
def isWordByte (b : UInt8) : Bool := Bytes.isWordStart b || Bytes.isDigit b

/-- A word: its first byte satisfies one test and all others another. -/
def isWord (start more : UInt8 → Bool) : Bytes → Bool
  | [] => false
  | b :: bs => start b && bs.all more

/-- A name of letters, digits and underscores that starts with no digit. -/
def isName (bs : Bytes) : Bool := isWord Bytes.isWordStart isWordByte bs

/-- A package: lower-case words with dots between them. -/
def isPackage (bs : Bytes) : Bool :=
  (Bytes.splitOn 0x2e bs).all (isWord isLowerStart fun b => isLowerStart b || Bytes.isDigit b)

def isPathByte (b : UInt8) : Bool := isWordByte b || b = 0x2e || b = 0x7e || b = 0x2d

/-- An import path: elements with slashes between them. -/
def isPath (bs : Bytes) : Bool := (Bytes.splitOn 0x2f bs).all (isWord isPathByte isPathByte)

/-- A marker: a package name, a dot and a function name. -/
def isMarker (bs : Bytes) : Bool :=
  match Bytes.splitOn 0x2e bs with
  | [a, b] => isName a && isName b
  | _ => false

def isTag (bs : Bytes) : Bool :=
  isWord (fun b => isWordByte b || b = 0x2e) (fun b => isWordByte b || b = 0x2e) bs

/-- The ending of a generated file. -/
def isSuffix (bs : Bytes) : Bool :=
  Bytes.endsWith ".go" bs && bs.all fun b => isWordByte b || b = 0x2e || b = 0x2d

end BridgeCall.Pattern
