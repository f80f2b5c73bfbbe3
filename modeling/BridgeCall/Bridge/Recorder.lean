/-
  BridgeCall/Bridge/Recorder.lean
  ===============================
  **A bridge that records.**  Every operation is written down before it is
  carried out.  Method calls answer with a configured result and may leave a
  configured exception pending; any operation can be told to fail.
-/
import BridgeCall.Bridge.Value

namespace BridgeCall

inductive BridgeOp where
  | callStaticMethod
  | callMethod
  | catchException
  | newArray (p : Primitive)
  | setArrayRegion (p : Primitive)
  | newObjectArray
  | setObjectArrayElement
  deriving DecidableEq, Repr

/-- The word for a primitive inside operation names. -/
def Primitive.stem : Primitive → Bytes
  | .void => "Void"
  | .byte => "Byte"
  | .boolean => "Boolean"
  | .char => "Char"
  | .short => "Short"
  | .int => "Int"
  | .long => "Long"
  | .float => "Float"
  | .double => "Double"

def BridgeOp.name : BridgeOp → Bytes
  | .callStaticMethod => "CallStaticMethod"
  | .callMethod => "CallMethod"
  | .catchException => "CatchException"
  | .newArray p => "New" ++ p.stem ++ "Array"
  | .setArrayRegion p => "Set" ++ p.stem ++ "ArrayRegion"
  | .newObjectArray => "NewObjectArray"
  | .setObjectArrayElement => "SetObjectArrayElement"

structure Recorded where
  op : BridgeOp
  cls : Bytes := []
  name : Bytes := []
  sig : Bytes := []
  index : Int := 0
  len : Int := 0
  args : List Wire := []
  deriving DecidableEq, Repr

/-- The line that shows an operation. -/
def Recorded.text (r : Recorded) : Bytes :=
  match r.op with
  | .callStaticMethod => r.op.name ++ " " ++ r.cls ++ "." ++ r.name ++ r.sig
  | .callMethod => r.op.name ++ " " ++ r.name ++ r.sig
  | .setObjectArrayElement => r.op.name ++ " [" ++ Bytes.ofInt r.index ++ "]"
  | .newArray _ | .newObjectArray => r.op.name ++ "(" ++ Bytes.ofInt r.len ++ ")"
  | .catchException | .setArrayRegion _ => r.op.name

structure JavaException where
  cls : Bytes
  message : Bytes
  deriving DecidableEq, Repr

def JavaException.text (e : JavaException) : Bytes :=
  if e.message.isEmpty then e.cls else e.cls ++ ": " ++ e.message

/-- Why an operation of the bridge failed. -/
inductive BridgeError where
  /-- The operation was told to fail with this text. -/
  | told (text : Bytes)
  /-- The operand, shown by its text, is no array. -/
  | notArray (op : BridgeOp) (operand : Bytes)
  | regionOutOfBounds (op : BridgeOp) (start stop : Int) (length : Nat)
  | indexOutOfBounds (index : Int) (length : Nat)
  /-- The process itself breaks down. -/
  | crash (text : Bytes)
  deriving DecidableEq, Repr

def BridgeError.message : BridgeError → Bytes
  | .told t => t
  | .notArray op o => op.name ++ ": not an array: " ++ o
  | .regionOutOfBounds op a b n =>
    op.name ++ ": region [" ++ Bytes.ofInt a ++ ", " ++ Bytes.ofInt b ++ ") out of bounds for length "
      ++ Bytes.ofNat n
  | .indexOutOfBounds i n =>
    "SetObjectArrayElement: index " ++ Bytes.ofInt i ++ " out of bounds for length " ++ Bytes.ofNat n
  | .crash t => t

/-- The state of a recording bridge. -/
structure Recorder where
  /-- What every method call returns. -/
  result : Wire := .unset
  /-- What is pending after every method call. -/
  exception : Option JavaException := none
  /-- The operations that fail, by name, with their error texts. -/
  fail : List (Bytes × Bytes) := []
  /-- Everything that was asked for, the first first. -/
  calls : List Recorded := []
  pending : Option JavaException := none
  heap : Heap := []
  deriving Repr

abbrev BridgeM := ExceptT BridgeError (StateM Recorder)

namespace Recorder

/-- Writes an operation down and fails if it was told to. -/
def record (r : Recorded) : BridgeM Unit := do
  modify fun s => { s with calls := s.calls ++ [r] }
  match (← get).fail.lookup r.op.name with
  | some t => throw (.told t)
  | none => return ()

/-- Calls a method: answers with the configured result and leaves the exception pending. -/
def invoke (r : Recorded) : BridgeM Wire := do
  record r
  modify fun s => { s with pending := s.exception }
  return (← get).result

def callStaticMethod (cls name sig : Bytes) (args : List Wire) : BridgeM Wire :=
  invoke { op := .callStaticMethod, cls, name, sig, args }

def callMethod (name sig : Bytes) (args : List Wire) : BridgeM Wire :=
  invoke { op := .callMethod, name, sig, args }

/-- Takes the pending exception. A failure that was configured for this operation is ignored. -/
def catchException : StateM Recorder (Option JavaException) := do
  modify fun s => { s with calls := s.calls ++ [{ op := .catchException }] }
  let e := (← get).pending
  modify fun s => { s with pending := none }
  return e

def allocate (a : JavaArray) : StateM Recorder Obj := do
  let id := (← get).heap.length
  modify fun s => { s with heap := s.heap ++ [a] }
  return .array id

/-- The host value that stands for a reference in an array. -/
def element : Obj → HostValue
  | .null => .absent
  | o => .object o

/-- Allocates an array of a primitive, whose elements are not set yet. -/
def newArrayOf (p : Primitive) (n : Nat) : BridgeM Obj := do
  record { op := .newArray p, len := n }
  allocate { kind := p.letter, cls := [], elements := List.replicate n .absent }

/-- Allocates an array of objects, all set to `init`. -/
def newObjectArrayOf (n : Nat) (cls : Bytes) (init : Obj) : BridgeM Obj := do
  record { op := .newObjectArray, cls, len := n }
  allocate { kind := objectLetter, cls, elements := List.replicate n (element init) }

/-- The largest number of elements an allocation may ask for. -/
def maxLength : Int := 0x100000000000

/-- Allocates as many elements as were asked for, unless there can be no such number of them. The
    request is written down in any case. -/
def allocateUpTo (n : Int) (r : Recorded) (m : Nat → BridgeM Obj) : BridgeM Obj :=
  if n < 0 ∨ maxLength < n then do
    record r
    throw (.crash "runtime error: makeslice: len out of range")
  else m n.toNat

/-- Allocates an array of a primitive for a length from outside. -/
def newArray (p : Primitive) (n : Int) : BridgeM Obj :=
  allocateUpTo n { op := .newArray p, len := n } (newArrayOf p)

/-- Allocates an array of objects for a length from outside. -/
def newObjectArray (n : Int) (cls : Bytes) (init : Obj) : BridgeM Obj :=
  allocateUpTo n { op := .newObjectArray, cls, len := n } fun n => newObjectArrayOf n cls init

def arrayOf (op : BridgeOp) (o : Obj) : BridgeM (Nat × JavaArray) := do
  let heap := (← get).heap
  match o with
  | .array id =>
    match heap[id]? with
    | some a => return (id, a)
    | none => throw (.notArray op [])
  | o => throw (.notArray op (o.text heap))

def store (id : Nat) (a : JavaArray) : BridgeM Unit :=
  modify fun s => { s with heap := s.heap.set id a }

/-- The list with the elements from `start` on replaced by those of `buf`. -/
def overwrite {α : Type} (start : Nat) (buf xs : List α) : List α :=
  xs.take start ++ buf ++ xs.drop (start + buf.length)

/-- Writes a region of an array. The end of the region is computed in 64 bits. -/
def setArrayRegion (p : Primitive) (arr : Obj) (start : Int) (buf : List HostValue) :
    BridgeM Unit := do
  let op : BridgeOp := .setArrayRegion p
  record { op, index := start, len := buf.length }
  let (id, a) ← arrayOf op arr
  let n := a.elements.length
  let stop := (Int64.ofInt (start + buf.length)).toInt
  if start < 0 ∨ (n : Int) < stop then throw (.regionOutOfBounds op start stop n)
  else if (n : Int) < start + buf.length then
    throw (.crash ("runtime error: index out of range [" ++ Bytes.ofInt start ++ "] with length "
      ++ Bytes.ofNat n))
  else store id { a with elements := overwrite start.toNat buf a.elements }

def setObjectArrayElement (arr : Obj) (index : Int) (v : Obj) : BridgeM Unit := do
  record { op := .setObjectArrayElement, index }
  let (id, a) ← arrayOf .setObjectArrayElement arr
  let n := a.elements.length
  if index < 0 ∨ (n : Int) ≤ index then throw (.indexOutOfBounds index n)
  else store id { a with elements := a.elements.set index.toNat (element v) }

/-- How often an operation of the given name was recorded. -/
def count (s : Recorder) (name : Bytes) : Nat :=
  (s.calls.filter fun c => c.op.name = name).length

end Recorder
end BridgeCall
