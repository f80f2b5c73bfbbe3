/-
  BridgeCall/Editor/Session.lean
  ==============================
  **Working with expressions line by line.**  A line is a call expression, which is
  expanded, or a command with a call expression.  Some commands run the plan on a
  recording bridge: every object expression is a reference with its own name, and
  the method returns a sample value.
-/
import BridgeCall.Expr.Parse
import BridgeCall.Plan.Expand
import BridgeCall.Plan.Run

namespace BridgeCall.Editor

inductive LineError where
  | fault (f : Fault)
  | render (w : Host.Wording)
  | unknown (command : Bytes)
  deriving DecidableEq, Repr

def LineError.message : LineError → Bytes
  | .fault f => f.message
  | .render w => w.known
  | .unknown c => "unknown command " ++ c ++ "; try :plan, :sig, :trace, :null, :throw or :quit"

def LineError.wording : LineError → Host.Wording
  | .render w => w
  | e => { known := e.message }

inductive Reply where
  | text (out : Bytes)
  | quit
  | failed (e : LineError)
  deriving DecidableEq, Repr

/-! ### Running on a recording bridge -/

inductive Behaviour where
  | returns
  | returnsNull
  | throws
  deriving DecidableEq, Repr

def objectExprs (c : Call) : List Bytes :=
  let receiver := match c.target with
    | .object r _ => [r]
    | .static .. => []
  receiver ++ c.params.flatMap fun p =>
    match p.arg with
    | .literal es => if p.ty.isObject then es else []
    | .array v => [v]
    | .single v => if p.ty.isObject then [v] else []

/-- A value of a type: minus one, one and a half, true, the letter j, or a reference. -/
def sample (ty : ValueType) : Wire :=
  match ty.primitive? with
  | none => .object (.ref "result" false)
  | some .boolean => .boolean 1
  | some .byte => .byte (-1)
  | some .char => .char 0x6a
  | some .short => .short (-1)
  | some .int => .int (-1)
  | some .long => .long (-1)
  | some .float => .float 0x3fc00000
  | some .double => .double 0x3ff8000000000000
  | some .void => .void

def tracer (c : Call) (b : Behaviour) : Recorder :=
  { result := if b = .returnsNull then .object (.ref [] true) else sample c.ret.payload
    exception :=
      if b = .throws then some ⟨"java.lang.RuntimeException", "thrown by " ++ c.method⟩ else none }

def outcomeLine (c : Call) (heap : Heap) : Except Fatal Outcome → Bytes
  | .error f => "panic: " ++ f.message c
  | .ok o =>
    match o.err with
    | some e => "=> error " ++ e.text
    | none =>
      if !(Shape.of c.ret).value then "=> ok"
      else if !o.present then "=> absent"
      else "=> " ++ o.value.text heap

/-- The operations of a call, one a line, and how it ended. -/
def trace (c : Call) (b : Behaviour) : Bytes :=
  let bindings : Bindings := (objectExprs c).map fun e => (e, .object (.ref e false))
  let (result, bridge) := (Plan.lower c).run bindings (tracer c b)
  bridge.calls.flatMap (fun r => r.text ++ [0x0a]) ++ outcomeLine c bridge.heap result

/-! ### Lines -/

def expandLine (options : ExpandOptions) (src : Bytes) : Reply :=
  match Call.parse (Source.at src Position.origin) with
  | .error f => .failed (.fault f)
  | .ok c =>
    let plan := Plan.lower c
    match plan.expand options with
    | some code => .text code
    | none => .failed (.render (plan.unwritten options))

def answer (command : Bytes) (c : Call) : Reply :=
  if command = (":plan" : Bytes) then
    let text := (Plan.lower c).text
    .text (if text.getLast? = some 0x0a then text.dropLast else text)
  else if command = (":sig" : Bytes) then .text c.signature
  else if command = (":trace" : Bytes) then .text (trace c .returns)
  else if command = (":null" : Bytes) then .text (trace c .returnsNull)
  else if command = (":throw" : Bytes) then .text (trace c .throws)
  else .failed (.unknown command)

def evalLine (options : ExpandOptions) (line : Bytes) : Reply :=
  if line.head? ≠ some 0x3a then expandLine options line
  else
    let (command, src) := (Bytes.cut " " line).getD (line, [])
    if command = (":quit" : Bytes) || command = (":q" : Bytes) then .quit
    else match Call.parse (Source.at (Unicode.trimSpace src) Position.origin) with
      | .error f => .failed (.fault f)
      | .ok c => answer command c

end BridgeCall.Editor
