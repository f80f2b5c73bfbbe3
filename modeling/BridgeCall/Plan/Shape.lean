/-
  BridgeCall/Plan/Shape.lean
  ==========================
  **What an expanded call yields.**  Up to three values: the payload, whether it
  is present, and an error.
-/
import BridgeCall.Expr.Call

namespace BridgeCall

/-- Which values an expanded call yields. -/
structure Shape where
  value : Bool
  optional : Bool
  fallible : Bool
  deriving DecidableEq, Repr

def Shape.of (r : ReturnSpec) : Shape :=
  { value := !r.payload.isVoid, optional := r.isNullable, fallible := r.isFallible }

def Shape.arity (s : Shape) : Nat := s.value.toNat + s.optional.toNat + s.fallible.toNat

end BridgeCall
