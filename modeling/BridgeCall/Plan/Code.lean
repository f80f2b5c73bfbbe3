/-
  BridgeCall/Plan/Code.lean
  =========================
  **The code of a plan.**  A plan expands to a function literal that is called in
  place.  Its body has few forms: definitions, checks that panic, and returns.
  The expressions of a call are copied as they were written; everything else
  speaks of the generated locals, the bridge and the environment.

  The locals start with `jni` so that they capture no name of a copied
  expression.
-/
import BridgeCall.Plan.Failure

namespace BridgeCall

namespace Code

inductive Package where
  | bridge
  | format
  deriving DecidableEq, Repr

inductive Expr where
  /-- A name or a type of the expanded code itself. -/
  | text (t : Bytes)
  /-- An expression of the call as it was written. -/
  | copied (t : Bytes)
  | environment (t : Bytes)
  | str (s : Bytes)
  | num (n : Nat)
  | qual (pkg : Package) (name : Bytes)
  | method (x : Expr) (name : Bytes) (args : List Expr)
  | apply (fn : Expr) (args : List Expr)
  | slice (elem : Expr) (values : List Expr)
  | not (x : Expr)
  deriving Repr

/-- A statement of expanded code. -/
inductive Stmt where
  | define (vars : List Bytes) (x : Expr)
  /-- Panics when the last error is there. -/
  | panicIfError (message : Bytes)
  | panicIfErrorOf (x : Expr) (message : Bytes)
  | panicIf (cond : Expr) (message : Bytes)
  | returnIfErrorOf (x : Expr) (results : List Expr)
  | returnIf (cond : Expr) (results : List Expr)
  | ret (results : List Expr)
  deriving Repr

/-- A function without parameters. -/
structure Function where
  results : List Expr
  body : List Stmt
  deriving Repr

/-! ### Names -/

def envVar : Bytes := "jniEnv"

/-- The local that holds the raw result. -/
def resultVar : Bytes := "jniRes"

/-- The local that holds the converted result. -/
def valueVar : Bytes := "jniVal"

/-- The local that holds the last error. -/
def errorVar : Bytes := "jniErr"

/-- The local that says whether an optional result is there. -/
def presentVar : Bytes := "jniOk"

def nil : Expr := .text "nil"

def bridge (fn : Bytes) (args : List Expr) : Expr := .apply (.qual .bridge fn) args

def env (name : Bytes) (args : List Expr) : Expr := .method (.text envVar) name args

/-! ### Crossing the bridge -/

/-- The word for a primitive in the names of the bridge. -/
def stem : Primitive → Bytes
  | .void => "Void"
  | .boolean => "Boolean"
  | .byte => "Byte"
  | .char => "Char"
  | .short => "Short"
  | .int => "Int"
  | .long => "Long"
  | .float => "Float"
  | .double => "Double"

/-- The word for the type's values in the names of the bridge. -/
def typeStem (ty : ValueType) : Bytes :=
  match ty.primitive? with
  | some p => stem p
  | none => "Ref"

def rawType : Primitive → Bytes
  | .boolean => "uint8"
  | p => p.hostType

/-- The function that turns a host value of the type into its wire form, when they differ. -/
def toWireName? : ValueType → Option Bytes
  | .java .boolean _ | .host .bool _ => some "BoolToWire"
  | .host .char _ => some "EncodeChar"
  | .host .u8 _ => some "U8ToWire"
  | .host .u16 _ => some "U16ToWire"
  | .host .u32 _ => some "U32ToWire"
  | .host .u64 _ => some "U64ToWire"
  | _ => none

/-- The function that turns a wire value into the host value of the type, when they differ. -/
def fromWireName? : ValueType → Option Bytes
  | .java .boolean _ | .host .bool _ => some "WireToBool"
  | .host .char _ => some "DecodeChar"
  | .host .u8 _ => some "WireToU8"
  | .host .u16 _ => some "WireToU16"
  | .host .u32 _ => some "WireToU32"
  | .host .u64 _ => some "WireToU64"
  | _ => none

/-- An expression, converted by a function of the bridge when there is one. -/
def convertBy (fn : Option Bytes) (x : Expr) : Expr :=
  match fn with
  | some f => bridge f [x]
  | none => x

def toWire (ty : ValueType) (x : Expr) : Expr := convertBy (toWireName? ty) x

def fromWire (ty : ValueType) (x : Expr) : Expr := convertBy (fromWireName? ty) x

/-- The argument that the method gets. Objects and arrays go by reference. -/
def argument (a : Arg) : Expr :=
  match a.var, a.param.arg with
  | some v, _ => bridge "Ref" [.text v]
  | none, .single v =>
    if a.param.ty.isObject then bridge "Ref" [.copied v]
    else bridge (typeStem a.param.ty) [toWire a.param.ty (.copied v)]
  | none, .array v => bridge "Ref" [.copied v]
  | none, .literal _ => bridge "Ref" [.text []]

/-! ### Statements -/

def withCause (c : Call) (s : Step) : Bytes := s.message c ++ ": %w"

def invoke (p : Plan) : List Stmt :=
  let args := if p.args.isEmpty then nil else .slice (.qual .bridge "Value") (p.args.map argument)
  let tail := [.str p.call.method, .str p.signature, args]
  let call := match p.call.target with
    | .static c _ => env "CallStaticMethod" (.str c.internalName :: tail)
    | .object r _ => env "CallMethod" (.copied r :: tail)
  [.define [resultVar, errorVar] call, .panicIfError (withCause p.call .call)]

/-- The result on the way out of a call that threw: the zero value of the payload. -/
def zero (ty : ValueType) : Expr :=
  if ty.isObject then nil
  else if ty.primitive? = some .boolean then .text "false"
  else .num 0

/-- The values returned with an error. -/
def failed (p : Plan) : List Expr :=
  let shape := Shape.of p.call.ret
  (if shape.value then [zero p.call.ret.payload] else [])
    ++ (if shape.optional then [Expr.text "false"] else [])
    ++ [Expr.text errorVar]

/-- Reads the raw result as the declared type. -/
def convert (p : Plan) (ty : ValueType) : List Stmt :=
  let read := Expr.method (.text resultVar) [ty.letter] []
  let message := withCause p.call (.convert ty.display)
  if ty.isVoid then [.panicIfErrorOf read message]
  else [.define [valueVar, errorVar] read, .panicIfError message]

def isNull : Expr := bridge "IsNull" [.text valueVar]

def finish (p : Plan) (ty : ValueType) : List Stmt :=
  let shape := Shape.of p.call.ret
  let tail := if shape.fallible then [nil] else []
  if shape.optional then
    [.returnIf (.not (.text presentVar)) ([nil, .text "false"] ++ tail),
      .ret ([Expr.text valueVar, .text "true"] ++ tail)]
  else
    let results := (if shape.value then [fromWire ty (.text valueVar)] else []) ++ tail
    if results.isEmpty then [] else [.ret results]

def ofOp (p : Plan) : Op → List Stmt
  | .newPrimitiveArray i n ty =>
    [.define [p.varOf i, errorVar] (env ("New" ++ typeStem ty ++ "Array") [.num n]),
      .panicIfError (withCause p.call (.allocate ty.display n))]
  | .fillPrimitiveArray i _ ty =>
    let elem := rawType (ty.primitive?.getD .void)
    let values := (p.elementsOf i).map fun e => toWire ty (.copied e)
    [.panicIfErrorOf
      (env ("Set" ++ typeStem ty ++ "ArrayRegion")
        [.text (p.varOf i), .num 0, .slice (.text elem) values])
      (withCause p.call (.fill ty.display))]
  | .newObjectArray i n c =>
    [.define [p.varOf i, errorVar] (env "NewObjectArray" [.num n, .str c.internalName, nil]),
      .panicIfError (withCause p.call (.allocate c.display n))]
  | .setObjectElement i j c =>
    [.panicIfErrorOf
      (env "SetObjectArrayElement" [.text (p.varOf i), .num j, .copied (p.elementOf i j)])
      (withCause p.call (.setElement j c.display))]
  | .invoke => invoke p
  | .convert ty => convert p ty
  | .nullCheck _ => [.panicIf isNull (Step.nullCheck.message p.call)]
  | .optionWrap _ => [.define [presentVar] (.not isNull)]
  | .exceptionCheck => [.returnIfErrorOf (env "CatchException" []) (failed p)]
  | .ret ty => finish p ty

/-- The types of the values that the function yields. -/
def resultTypes (p : Plan) : List Expr :=
  let shape := Shape.of p.call.ret
  let payload := p.call.ret.payload
  let value := if payload.isObject then Expr.qual .bridge "Object" else .text payload.hostType
  (if shape.value then [value] else [])
    ++ (if shape.optional then [Expr.text "bool"] else [])
    ++ (if shape.fallible then [Expr.text "error"] else [])

end Code

/-- The function that carries out a plan in the environment that an expression stands for. -/
def Plan.code (p : Plan) (environment : Bytes) : Code.Function :=
  { results := Code.resultTypes p
    body := .define [Code.envVar] (.environment environment) :: p.ops.flatMap (Code.ofOp p) }

end BridgeCall
