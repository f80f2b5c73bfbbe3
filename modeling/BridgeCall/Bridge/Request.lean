/-
  BridgeCall/Bridge/Request.lean
  ==============================
  **Bridges.**  A running call knows a bridge by the requests it answers.  Each
  request has its own kind of answer, and answering may change the state of the
  bridge.  The recorder is one bridge; `Bridge.traced` makes of any bridge one
  that also keeps the requests.
-/
import BridgeCall.Bridge.Recorder

namespace BridgeCall

/-- What a running call asks of a bridge. The lengths and indices are those of lists that the call
    has, so they are never negative. -/
inductive Request where
  | callStaticMethod (cls name sig : Bytes) (args : List Wire)
  | callMethod (receiver : Obj) (name sig : Bytes) (args : List Wire)
  | catchException
  | newArray (p : Primitive) (n : Nat)
  | setArrayRegion (p : Primitive) (arr : Obj) (start : Nat) (buf : List HostValue)
  | newObjectArray (n : Nat) (cls : Bytes) (init : Obj)
  | setObjectArrayElement (arr : Obj) (index : Nat) (v : Obj)
  deriving DecidableEq, Repr

/-- The answer to a request. Only the pending exception is always there to be taken; everything else
    can fail. -/
abbrev Request.Answer : Request → Type
  | .callStaticMethod .. | .callMethod .. => Except BridgeError Wire
  | .catchException => Option JavaException
  | .newArray .. | .newObjectArray .. => Except BridgeError Obj
  | .setArrayRegion .. | .setObjectArrayElement .. => Except BridgeError Unit

/-- A bridge with states in `σ`. The arrays that it shows are there for messages only. -/
structure Bridge (σ : Type) where
  answer : (r : Request) → σ → r.Answer × σ
  arrays : σ → Heap

/-- The recorder as a bridge. The receiver of a method is not written down. -/
def Recorder.bridge : Bridge Recorder where
  answer
    | .callStaticMethod cls name sig args => Recorder.callStaticMethod cls name sig args
    | .callMethod _ name sig args => Recorder.callMethod name sig args
    | .catchException => Recorder.catchException
    | .newArray p n => Recorder.newArrayOf p n
    | .setArrayRegion p arr start buf => Recorder.setArrayRegion p arr start buf
    | .newObjectArray n cls init => Recorder.newObjectArrayOf n cls init
    | .setObjectArrayElement arr index v => Recorder.setObjectArrayElement arr index v
  arrays := Recorder.heap

/-- A bridge that keeps all requests next to its state, the first first. -/
def Bridge.traced {σ : Type} (B : Bridge σ) : Bridge (σ × List Request) where
  answer r s :=
    let (a, s') := B.answer r s.1
    (a, s', s.2 ++ [r])
  arrays s := B.arrays s.1

end BridgeCall
