/-
  BridgeCall/Editor/Words.lean
  ============================
  **Completing words of call expressions.**  The words are the primitive types and
  the words of return types and targets.  A word starts after a blank, a comma or
  an opening bracket.
-/
import BridgeCall.Expr.Types

namespace BridgeCall.Editor

def words : List Bytes := keywords ++ ["static", "Option", "Result", "String"].map Bytes.ofString

def isBoundary (b : UInt8) : Bool :=
  b = 0x20 || b = 0x28 || b = 0x3c || b = 0x2c || b = 0x5b

def complete (line : Bytes) : List Bytes :=
  let word := (line.reverse.takeWhile fun b => !isBoundary b).reverse
  let before := line.take (line.length - word.length)
  if word.isEmpty then []
  else (words.filter (Bytes.startsWith word)).map (before ++ ·)

end BridgeCall.Editor
