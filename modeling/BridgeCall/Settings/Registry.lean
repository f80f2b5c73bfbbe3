/-
  BridgeCall/Settings/Registry.lean
  =================================
  **The package that native functions belong to.**  It is set once; setting it
  again is fine as long as it is the same.
-/
import BridgeCall.Text.Quoted

namespace BridgeCall

/-- The package name, once it is set. -/
structure Registry where
  name : Option Bytes := none
  deriving DecidableEq, Repr, Inhabited

/-- What can go wrong with the package name. -/
inductive RegistryError where
  | missing
  | taken (old new : Bytes)
  deriving DecidableEq, Repr

def RegistryError.message : RegistryError → Bytes
  | .missing => "package name has not been configured"
  | .taken old new =>
    "package name is already configured: " ++ Quoted.quote old ++ ", not " ++ Quoted.quote new

namespace Registry

def set (r : Registry) (name : Bytes) : Except RegistryError Registry :=
  match r.name with
  | none => .ok ⟨some name⟩
  | some old => if old = name then .ok r else .error (.taken old name)

def get (r : Registry) : Except RegistryError Bytes :=
  match r.name with
  | some n => .ok n
  | none => .error .missing

end Registry
end BridgeCall
