/-
  BridgeCall/Plan/Basic.lean
  ==========================
  **Plans.**  A call is lowered to the ordered list of steps that perform it:
  array literals are built first, in parameter order; then the method is
  invoked; then its result is converted, checked for null or wrapped as an
  option, and checked for an exception, in this order.
-/
import BridgeCall.Plan.Shape

namespace BridgeCall

/-- One step of a plan. `param` is the index of a parameter. -/
inductive Op where
  | newPrimitiveArray (param len : Nat) (ty : ValueType)
  | fillPrimitiveArray (param len : Nat) (ty : ValueType)
  | newObjectArray (param len : Nat) (c : ClassPath)
  | setObjectElement (param index : Nat) (c : ClassPath)
  | invoke
  | convert (ty : ValueType)
  | nullCheck (ty : ValueType)
  | optionWrap (ty : ValueType)
  | exceptionCheck
  | ret (ty : ValueType)
  deriving DecidableEq, Repr, Inhabited

inductive OpKind where
  | newPrimitiveArray
  | fillPrimitiveArray
  | newObjectArray
  | setObjectElement
  | invoke
  | convert
  | nullCheck
  | optionWrap
  | exceptionCheck
  | ret
  deriving DecidableEq, Repr

namespace OpKind

def all : List OpKind :=
  [.newPrimitiveArray, .fillPrimitiveArray, .newObjectArray, .setObjectElement, .invoke, .convert,
    .nullCheck, .optionWrap, .exceptionCheck, .ret]

def name : OpKind → Bytes
  | .newPrimitiveArray => "new-primitive-array"
  | .fillPrimitiveArray => "fill-primitive-array"
  | .newObjectArray => "new-object-array"
  | .setObjectElement => "set-object-element"
  | .invoke => "invoke"
  | .convert => "convert"
  | .nullCheck => "null-check"
  | .optionWrap => "option-wrap"
  | .exceptionCheck => "exception-check"
  | .ret => "return"

def nameOfCode (code : Int) : Bytes :=
  if code < 0 then "unknown" else (all[code.toNat]?.map name).getD "unknown"

end OpKind

namespace Op

def kind : Op → OpKind
  | .newPrimitiveArray .. => .newPrimitiveArray
  | .fillPrimitiveArray .. => .fillPrimitiveArray
  | .newObjectArray .. => .newObjectArray
  | .setObjectElement .. => .setObjectElement
  | .invoke => .invoke
  | .convert _ => .convert
  | .nullCheck _ => .nullCheck
  | .optionWrap _ => .optionWrap
  | .exceptionCheck => .exceptionCheck
  | .ret _ => .ret

/-- The parameter a step belongs to, zero when it belongs to none. -/
def param : Op → Nat
  | .newPrimitiveArray p _ _ | .fillPrimitiveArray p _ _ | .newObjectArray p _ _
  | .setObjectElement p _ _ => p
  | _ => 0

/-- The number of elements a step is about, zero when it is about none. -/
def len : Op → Nat
  | .newPrimitiveArray _ n _ | .fillPrimitiveArray _ n _ | .newObjectArray _ n _ => n
  | _ => 0

def index : Op → Nat
  | .setObjectElement _ i _ => i
  | _ => 0

end Op

/-- A parameter with the local that holds it, when it is an array built from a literal. -/
structure Arg where
  param : Parameter
  var : Option Bytes
  deriving DecidableEq, Repr, Inhabited

/-- The expressions of an argument's array literal; none when it is no literal. -/
def Arg.elements (a : Arg) : List Bytes :=
  match a.param.arg with
  | .literal es => es
  | _ => []

/-- The steps that perform a call. -/
structure Plan where
  call : Call
  signature : Bytes
  args : List Arg
  ops : List Op
  deriving DecidableEq, Repr

namespace Plan

/-- The local that holds the array of the parameter with the given index. -/
def arrayVar (i : Nat) : Bytes := "jniArg" ++ Bytes.ofNat i

def argOf (i : Nat) (p : Parameter) : Arg :=
  match p.arg with
  | .literal _ => ⟨p, some (arrayVar i)⟩
  | _ => ⟨p, none⟩

/-- The steps that build the array of a parameter, none unless it is a literal. -/
def buildOps (i : Nat) (p : Parameter) : List Op :=
  match p.arg, p.ty with
  | .literal es, .object c =>
    .newObjectArray i es.length c :: (List.range es.length).map fun j => .setObjectElement i j c
  | .literal es, ty =>
    .newPrimitiveArray i es.length ty ::
      (if es.isEmpty then [] else [.fillPrimitiveArray i es.length ty])
  | _, _ => []

/-- The steps after the arrays are built. -/
def callOps (r : ReturnSpec) : List Op :=
  let ty := r.payload
  [Op.invoke, .convert ty]
    ++ (if r.isNullable then [Op.optionWrap ty] else if ty.isObject then [.nullCheck ty] else [])
    ++ (if r.isFallible then [Op.exceptionCheck] else [])
    ++ [Op.ret ty]

def lower (call : Call) : Plan :=
  { call
    signature := call.signature
    args := call.params.mapIdx argOf
    ops := (call.params.mapIdx buildOps).flatten ++ callOps call.ret }

def count (p : Plan) (k : OpKind) : Nat := (p.ops.filter fun o => o.kind = k).length

/-- The local of a parameter, empty when it has none. -/
def varOf (p : Plan) (i : Nat) : Bytes := ((p.args[i]?.bind Arg.var).getD [])

/-- The expressions of a parameter's array literal. -/
def elementsOf (p : Plan) (i : Nat) : List Bytes := ((p.args[i]?).map Arg.elements).getD []

/-- The expression of one element of a parameter's array literal. -/
def elementOf (p : Plan) (i j : Nat) : Bytes := (p.elementsOf i).getD j []

def targetText (p : Plan) : Bytes :=
  match p.call.target with
  | .static c _ => c.display ++ "." ++ p.call.method
  | .object r _ => "(" ++ r ++ ")." ++ p.call.method

def opText (p : Plan) (o : Op) : Bytes :=
  let rest : Bytes := match o with
    | .newPrimitiveArray i n ty => " " ++ ty.display ++ "[" ++ Bytes.ofNat n ++ "] -> " ++ p.varOf i
    | .newObjectArray i n c => " " ++ c.display ++ "[" ++ Bytes.ofNat n ++ "] -> " ++ p.varOf i
    | .fillPrimitiveArray i n _ => " " ++ p.varOf i ++ "[0:" ++ Bytes.ofNat n ++ "]"
    | .setObjectElement i j _ =>
      " " ++ p.varOf i ++ "[" ++ Bytes.ofNat j ++ "] = " ++ p.elementOf i j
    | .invoke => " " ++ p.targetText
    | .convert ty | .nullCheck ty | .optionWrap ty | .ret ty => " " ++ ty.display
    | .exceptionCheck => []
  "  " ++ o.kind.name ++ rest ++ "\n"

/-- The plan with one step a line, under a line with method and signature. -/
def text (p : Plan) : Bytes :=
  p.call.method ++ " " ++ p.signature ++ "\n" ++ p.ops.flatMap p.opText

end Plan
end BridgeCall
