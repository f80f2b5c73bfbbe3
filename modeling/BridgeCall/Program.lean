/-
  BridgeCall/Program.lean
  =======================
  **The program's name and version,** as it says them on the command line and to
  editors.
-/
import BridgeCall.Text.Bytes

namespace BridgeCall

def programName : Bytes := "jnicall"

def programVersion : Bytes := "0.1.0"

end BridgeCall
