/-
  BridgeCall/Plan/Run.lean
  ========================
  **Running a plan.**  The steps are carried out on a bridge.  The expressions
  of a call are looked up in a list of bindings; a primitive that is not bound
  is read as a literal.
-/
import BridgeCall.Plan.Failure
import BridgeCall.Bridge.Marshal
import BridgeCall.Bridge.Request

namespace BridgeCall

/-- The values of expressions, by their text. -/
abbrev Bindings := List (Bytes × HostValue)

/-- What a call yields, in the terms of its shape. -/
structure Outcome where
  value : HostValue := .absent
  present : Bool := false
  err : Option JavaException := none
  deriving DecidableEq, Repr

/-! ### Literals -/

/-- A character literal without its quotes, when it has both. -/
def dropCharQuotes (text : Bytes) : Bytes :=
  match text with
  | 0x27 :: rest =>
    match rest.getLast? with
    | some 0x27 => rest.dropLast
    | _ => text
  | _ => text

/-- Reads the text of an expression as a literal of the type's host type. -/
def readLiteral (ty : ValueType) (text : Bytes) : Except LiteralError HostValue :=
  let signed (width : Nat) (mk : Int → HostValue) : Except LiteralError HostValue :=
    match Number.readSigned width text with
    | .ok v => .ok (mk v)
    | .error e => .error (.signed text e)
  let unsigned (width : Nat) (mk : Nat → HostValue) : Except LiteralError HostValue :=
    match Number.readUnsigned width text with
    | .ok v => .ok (mk v)
    | .error e => .error (.unsigned text e)
  let float (f : Number.Format) (mk : Nat → HostValue) : Except LiteralError HostValue :=
    match f.read text with
    | .ok v => .ok (mk v)
    | .error e => .error (.float text e)
  match ty with
  | .java .boolean _ | .host .bool _ =>
    match Number.readBool text with
    | .ok b => .ok (.bool b)
    | .error _ => .error (.bool text)
  | .host .char _ =>
    match Quoted.unquoteChar? 0x27 (dropCharQuotes text) with
    | some (u, []) => .ok (.int32 (Int32.ofNat u.value))
    | _ => .error (.char text)
  | .java .byte _ | .host .i8 _ => signed 8 fun v => .int8 (Int8.ofInt v)
  | .java .short _ | .host .i16 _ => signed 16 fun v => .int16 (Int16.ofInt v)
  | .java .int _ | .host .i32 _ => signed 32 fun v => .int32 (Int32.ofInt v)
  | .java .long _ | .host .i64 _ => signed 64 fun v => .int64 (Int64.ofInt v)
  | .host .u8 _ => unsigned 8 fun v => .uint8 v.toUInt8
  | .java .char _ | .host .u16 _ => unsigned 16 fun v => .uint16 v.toUInt16
  | .host .u32 _ => unsigned 32 fun v => .uint32 v.toUInt32
  | .host .u64 _ => unsigned 64 fun v => .uint64 v.toUInt64
  | .java .float _ | .host .f32 _ => float Number.single fun v => .float32 v.toUInt32
  | .java .double _ | .host .f64 _ => float Number.double fun v => .float64 v.toUInt64
  | ty => .error (.noLiterals ty.display)

/-! ### Expressions -/

def Bindings.object (b : Bindings) (expr : Bytes) : Except Cause Obj :=
  match b.lookup expr with
  | none => if expr = ("nil" : Bytes) then .ok .null else .error (.unboundObject expr)
  | some .absent => .ok .null
  | some (.object o) => .ok o
  | some v => .error (.notObject expr v.typeName)

def Bindings.wire (b : Bindings) (heap : Heap) (ty : ValueType) (expr : Bytes) :
    Except Cause Wire := do
  let v ← match b.lookup expr with
    | some v => pure v
    | none => match readLiteral ty expr with
      | .ok v => pure v
      | .error e => throw (.unbound expr e)
  match toWire? ty v with
  | some w => return w
  | none => throw (.wrongHostType (v.text heap) v.typeName ty.hostType)

/-! ### Steps -/

/-- What a run carries from step to step: the arrays it built, by parameter, the result of the call
    and whether an optional result is there. -/
structure Progress where
  arrays : List (Nat × Obj) := []
  result : Wire := .unset
  isPresent : Bool := false
  deriving Repr

/-- A step of a run on a bridge with states in `σ`: it may end in a cause. -/
abbrev RunM (σ : Type) := ExceptT Cause (StateM σ)

section Bridge

variable {σ α : Type}

def RunM.ask (m : σ → Except BridgeError α × σ) : RunM σ α := fun s =>
  match m s with
  | (.ok a, s) => (.ok a, s)
  | (.error e, s) => (.error (.bridge e), s)

def RunM.lookup (x : Except Cause α) : RunM σ α := fun s => (x, s)

namespace Plan

variable (B : Bridge σ)

def arrayAt (g : Progress) (i : Nat) : Obj := (g.arrays.lookup i).getD .null

/-- The wire value of an expression of a primitive type, as part of a run. -/
def wire (b : Bindings) (ty : ValueType) (expr : Bytes) : RunM σ Wire := fun s =>
  (b.wire (B.arrays s) ty expr, s)

/-- The wire value of the argument with index `i`. -/
def argValue (b : Bindings) (g : Progress) (i : Nat) (a : Arg) : RunM σ Wire :=
  match a.param.arg with
  | .literal _ => return .object (arrayAt g i)
  | .array v => do return .object (← RunM.lookup (b.object v))
  | .single v =>
    if a.param.ty.isObject then do return .object (← RunM.lookup (b.object v))
    else wire B b a.param.ty v

/-- The wire values of arguments, from index `i` on. -/
def argValues (b : Bindings) (g : Progress) : Nat → List Arg → RunM σ (List Wire)
  | _, [] => return []
  | i, a :: rest => do
    let w ← argValue B b g i a
    return w :: (← argValues b g (i + 1) rest)

def invoke (p : Plan) (b : Bindings) (g : Progress) : RunM σ Wire := do
  let args ← argValues B b g 0 p.args
  match p.call.target with
  | .static c _ =>
    RunM.ask (B.answer (.callStaticMethod c.internalName p.call.method p.signature args))
  | .object r _ =>
    let o ← RunM.lookup (b.object r)
    RunM.ask (B.answer (.callMethod o p.call.method p.signature args))

/-- The elements of an array literal, one after the other. -/
def elementWires (b : Bindings) (ty : ValueType) : List Bytes → RunM σ (List Wire)
  | [] => return []
  | e :: rest => do
    let w ← wire B b ty e
    return w :: (← elementWires b ty rest)

/-- Writes all elements of an array literal of a primitive type. -/
def fill (p : Plan) (b : Bindings) (g : Progress) (i : Nat) (ty : ValueType) : RunM σ Unit := do
  let ws ← elementWires B b ty (p.elementsOf i)
  let prim := ty.primitive?.getD .void
  RunM.ask (B.answer (.setArrayRegion prim (arrayAt g i) 0 (ws.map Wire.raw)))

/-- How a run goes on after a step. -/
inductive Next where
  | more (g : Progress)
  | done (o : Outcome)

/-- The outcome of a call whose result passed all checks. -/
def outcome (p : Plan) (g : Progress) (ty : ValueType) : Outcome :=
  let shape := Shape.of p.call.ret
  if !shape.value then {}
  else if shape.optional then
    if g.isPresent then { value := .object g.result.objectOrNull, present := true } else {}
  else { value := fromWire ty g.result, present := true }

/-- Names the step a cause broke. -/
def blame (s : Step) (m : RunM σ α) : ExceptT Fatal (StateM σ) α := fun st =>
  match m st with
  | (.ok a, st) => (.ok a, st)
  | (.error e, st) => (.error ⟨s, some e⟩, st)

def takeException : ExceptT Fatal (StateM σ) (Option JavaException) := fun s =>
  let (e, s) := B.answer .catchException s
  (.ok e, s)

def step (p : Plan) (b : Bindings) (g : Progress) : Op → ExceptT Fatal (StateM σ) Next
  | .newPrimitiveArray i n ty => do
    let prim := ty.primitive?.getD .void
    let o ← blame (.allocate ty.display n) (RunM.ask (B.answer (.newArray prim n)))
    return .more { g with arrays := (i, o) :: g.arrays }
  | .fillPrimitiveArray i _ ty => do
    blame (.fill ty.display) (p.fill B b g i ty)
    return .more g
  | .newObjectArray i n c => do
    let o ← blame (.allocate c.display n)
      (RunM.ask (B.answer (.newObjectArray n c.internalName .null)))
    return .more { g with arrays := (i, o) :: g.arrays }
  | .setObjectElement i j c => do
    blame (.setElement j c.display) do
      let o ← RunM.lookup (b.object (p.elementOf i j))
      RunM.ask (B.answer (.setObjectArrayElement (arrayAt g i) j o))
    return .more g
  | .invoke => do
    let w ← blame .call (p.invoke B b g)
    return .more { g with result := w }
  | .convert ty =>
    if g.result.letter = ty.letter then return .more g
    else throw ⟨.convert ty.display, some (.kind ⟨ty.letter, g.result.letter⟩)⟩
  | .nullCheck _ =>
    if g.result.objectOrNull.isNull then throw ⟨.nullCheck, none⟩ else return .more g
  | .optionWrap _ => return .more { g with isPresent := !g.result.objectOrNull.isNull }
  | .exceptionCheck => do
    match ← takeException B with
    | some e => return .done { err := some e }
    | none => return .more g
  | .ret ty => return .done (p.outcome g ty)

/-- Carries out steps until one ends the run. -/
def steps (p : Plan) (b : Bindings) (g : Progress) : List Op → ExceptT Fatal (StateM σ) Outcome
  | [] => return {}
  | o :: rest => do
    match ← p.step B b g o with
    | .done r => return r
    | .more g => p.steps b g rest

def runOn (p : Plan) (b : Bindings) : ExceptT Fatal (StateM σ) Outcome := p.steps B b {} p.ops

end Plan
end Bridge

def Plan.run (p : Plan) (b : Bindings) : ExceptT Fatal (StateM Recorder) Outcome :=
  p.runOn Recorder.bridge b

end BridgeCall
