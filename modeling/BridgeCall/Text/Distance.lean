/-
  BridgeCall/Text/Distance.lean
  =============================
  **How far two texts are apart:** the least number of bytes to insert, to drop or
  to replace that turns one into the other.
-/
import BridgeCall.Text.Bytes

namespace BridgeCall.Bytes

/-- The next row of distances. `corner` and `left` are the distances for one byte less of both texts
    and for one byte less of the second; `above` is the rest of the row before. -/
def distanceRow (a : UInt8) (corner left : Nat) : Bytes → List Nat → List Nat
  | b :: bs, up :: above =>
    let d := if a = b then corner else 1 + min corner (min up left)
    d :: distanceRow a up d bs above
  | _, _ => []

/-- The distances of a text to all leading parts of `t`, from those of its part before. -/
def distanceStep (t : Bytes) (row : List Nat) (a : UInt8) : List Nat :=
  match row with
  | [] => []
  | corner :: above => (corner + 1) :: distanceRow a corner (corner + 1) t above

def distance (s t : Bytes) : Nat :=
  (s.foldl (distanceStep t) (List.range (t.length + 1))).getLast?.getD 0

end BridgeCall.Bytes
