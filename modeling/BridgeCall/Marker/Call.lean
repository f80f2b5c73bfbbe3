/-
  BridgeCall/Marker/Call.lean
  ===========================
  **A marker that was left as it is.**  A marked file is never meant to run: the
  marker function stops the program.
-/
import BridgeCall.Text.Bytes

namespace BridgeCall

/-- The message with which the marker function stops. -/
def unexpandedMessage (expr : Bytes) : Bytes :=
  "jnicall: Call(" ++ expr ++ ") was not expanded; run jnicall generate"

end BridgeCall
