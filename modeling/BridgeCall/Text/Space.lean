/-
  BridgeCall/Text/Space.lean
  ==========================
  **White space at the ends of a text.**  Spaces of any script count; bytes that
  are no UTF-8 do not.
-/
import BridgeCall.Text.Utf8
import BridgeCall.Text.Printable

namespace BridgeCall.Unicode

/-- The text without the white space before it. -/
def trimSpaceLeft (bs : Bytes) : Bytes :=
  ((Utf8.runes bs).dropWhile fun r => isSpace r.1).flatMap (·.2)

/-- The text without the white space after it. -/
def trimSpaceRight (bs : Bytes) : Bytes :=
  ((Utf8.runes bs).reverse.dropWhile fun r => isSpace r.1).reverse.flatMap (·.2)

/-- The text without the white space around it. -/
def trimSpace (bs : Bytes) : Bytes := trimSpaceRight (trimSpaceLeft bs)

/-- The words between stretches of white space: `word` is the one begun, last character first. -/
def fieldsFrom (word : List Bytes) : List (Nat × Bytes) → List Bytes
  | [] => if word.isEmpty then [] else [word.reverse.flatten]
  | (c, bs) :: rest =>
    if isSpace c then
      if word.isEmpty then fieldsFrom [] rest else word.reverse.flatten :: fieldsFrom [] rest
    else fieldsFrom (bs :: word) rest

def fields (bs : Bytes) : List Bytes := fieldsFrom [] (Utf8.runes bs)

end BridgeCall.Unicode
