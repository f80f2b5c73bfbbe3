/-
  BridgeCall/Plan/Failure.lean
  ============================
  **How a running call fails.**  A failure names the step that broke down and
  what broke it.  The wording of the steps is shared with the expanded code,
  where the cause is filled in when the program runs.
-/
import BridgeCall.Plan.Basic
import BridgeCall.Bridge.Recorder

namespace BridgeCall

inductive Step where
  | allocate (ty : Bytes) (n : Nat)
  | fill (ty : Bytes)
  | setElement (index : Nat) (ty : Bytes)
  | call
  | convert (ty : Bytes)
  | nullCheck
  deriving DecidableEq, Repr

def Step.message (c : Call) : Step → Bytes
  | .allocate ty n =>
    "jnicall: failed to allocate " ++ ty ++ " array of length " ++ Bytes.ofNat n ++ " for "
      ++ c.method ++ "()"
  | .fill ty => "jnicall: failed to fill " ++ ty ++ " array for " ++ c.method ++ "()"
  | .setElement i ty =>
    "jnicall: failed to set element " ++ Bytes.ofNat i ++ " of " ++ ty ++ " array for "
      ++ c.method ++ "()"
  | .call =>
    match c.target with
    | .static k _ =>
      "jnicall: failed to call static method " ++ c.method ++ "() on " ++ k.display
    | .object _ _ => "jnicall: failed to call " ++ c.method ++ "()"
  | .convert ty => "jnicall: expected " ++ c.method ++ "() to return " ++ ty
  | .nullCheck =>
    "jnicall: expected object returned by " ++ c.method ++ "() to not be null"

/-- Why the text of an expression is no literal of the wanted type. -/
inductive LiteralError where
  | bool (text : Bytes)
  | signed (text : Bytes) (why : Number.Trouble)
  | unsigned (text : Bytes) (why : Number.Trouble)
  | float (text : Bytes) (why : Number.Trouble)
  | char (text : Bytes)
  | noLiterals (ty : Bytes)
  deriving DecidableEq, Repr

def LiteralError.numberMessage (reader : Bytes) (text : Bytes) (why : Number.Trouble) : Bytes :=
  "strconv." ++ reader ++ ": parsing " ++ Quoted.quote text ++ ": " ++ why.message

/-- The wording of a literal that cannot be read. -/
def LiteralError.message : LiteralError → Bytes
  | .bool t => numberMessage "ParseBool" t .form
  | .signed t w => numberMessage "ParseInt" t w
  | .unsigned t w => numberMessage "ParseUint" t w
  | .float t w => numberMessage "ParseFloat" t w
  | .char t => "invalid rune literal " ++ t
  | .noLiterals ty => "cannot parse " ++ ty ++ " literal"

/-- What broke a step. -/
inductive Cause where
  | bridge (e : BridgeError)
  | unboundObject (expr : Bytes)
  | notObject (expr typeName : Bytes)
  | unbound (expr : Bytes) (why : LiteralError)
  | wrongHostType (value typeName want : Bytes)
  | kind (m : KindMismatch)
  deriving DecidableEq, Repr

def Cause.message : Cause → Bytes
  | .bridge e => e.message
  | .unboundObject x => "no binding for " ++ Quoted.quote x
  | .notObject x t => "binding for " ++ Quoted.quote x ++ " is " ++ t ++ ", not an object"
  | .unbound x why => "no binding for " ++ Quoted.quote x ++ ": " ++ why.message
  | .wrongHostType v t want =>
    "value " ++ v ++ " (" ++ t ++ ") does not have Go type " ++ want
  | .kind m => m.message

/-- A failure that stops the call for good. -/
structure Fatal where
  step : Step
  cause : Option Cause
  deriving DecidableEq, Repr

def Fatal.message (c : Call) (f : Fatal) : Bytes :=
  match f.cause with
  | some why => f.step.message c ++ ": " ++ why.message
  | none => f.step.message c

/-- Whether the result had another kind than the declared one. -/
def Fatal.isMismatch (f : Fatal) : Bool :=
  match f.cause with
  | some (.kind _) => true
  | _ => false

end BridgeCall
