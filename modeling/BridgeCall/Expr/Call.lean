/-
  BridgeCall/Expr/Call.lean
  =========================
  **Call expressions.**  A call names its target, its method, the parameters
  with their declared types, and what comes back.  A return specification is a
  plain value or a possibly absent object, and either of the two may be wrapped
  once as a result that can fail instead.
-/
import BridgeCall.Expr.Types

namespace BridgeCall

/-- What a call that succeeds gives back. -/
inductive Success where
  /-- A value that is never null. -/
  | value (ty : ValueType)
  /-- An object that may be null. -/
  | option (c : ClassPath) (span : Span)
  deriving DecidableEq, Repr, Inhabited

inductive ReturnSpec where
  /-- The call never throws. -/
  | plain (ok : Success)
  /-- A thrown exception comes back as an error. -/
  | result (ok : Success) (span : Span)
  deriving DecidableEq, Repr, Inhabited

namespace Success

def span : Success → Span
  | .value ty => ty.span
  | .option _ s => s

def payload : Success → ValueType
  | .value ty => ty
  | .option c _ => .object c

/-- Whether null is an absent value rather than a fatal error. -/
def isNullable : Success → Bool
  | .value _ => false
  | .option _ _ => true

def render : Success → Bytes
  | .value ty => ty.keyword
  | .option c _ => "Option<" ++ c.display ++ ">"

end Success

namespace ReturnSpec

/-- What comes back when nothing was thrown. -/
def success : ReturnSpec → Success
  | .plain ok => ok
  | .result ok _ => ok

def span : ReturnSpec → Span
  | .plain ok => ok.span
  | .result _ s => s

/-- The type the machine sees, without any wrapping. -/
def payload (r : ReturnSpec) : ValueType := r.success.payload

/-- Whether null is an absent value rather than a fatal error. -/
def isNullable (r : ReturnSpec) : Bool := r.success.isNullable

/-- Whether exceptions come back as errors. -/
def isFallible : ReturnSpec → Bool
  | .plain _ => false
  | .result _ _ => true

def render : ReturnSpec → Bytes
  | .plain ok => ok.render
  | .result ok _ => "Result<" ++ ok.render ++ ", String>"

end ReturnSpec

inductive Target where
  /-- A class, for static methods. -/
  | static (c : ClassPath) (span : Span)
  /-- The host expression of an object. -/
  | object (receiver : Bytes) (span : Span)
  deriving DecidableEq, Repr, Inhabited

def Target.span : Target → Span
  | .static _ s => s
  | .object _ s => s

inductive Argument where
  /-- One host expression: `type(value)`. -/
  | single (value : Bytes)
  /-- A host expression of an existing array: `[type](value)`. -/
  | array (value : Bytes)
  /-- A new array from the listed expressions: `[type]([a, b])`. -/
  | literal (elements : List Bytes)
  deriving DecidableEq, Repr, Inhabited

/-- A parameter with its declared type; for arrays this is the type of the elements. -/
structure Parameter where
  ty : ValueType
  arg : Argument
  span : Span
  deriving DecidableEq, Repr, Inhabited

namespace Parameter

def isArray (p : Parameter) : Bool :=
  match p.arg with
  | .single _ => false
  | .array _ | .literal _ => true

/-- What the parameter adds to the method's signature. -/
def signature (p : Parameter) : Bytes :=
  if p.isArray then "[" ++ p.ty.signature else p.ty.signature

end Parameter

structure Call where
  target : Target
  method : Bytes
  methodSpan : Span
  params : List Parameter
  ret : ReturnSpec
  span : Span
  deriving DecidableEq, Repr, Inhabited

/-- The method signature, such as `(Z[I)V`. -/
def Call.signature (c : Call) : Bytes :=
  "(" ++ c.params.flatMap Parameter.signature ++ ")" ++ c.ret.payload.signature

end BridgeCall
