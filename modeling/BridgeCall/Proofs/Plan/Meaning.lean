/-
  BridgeCall/Proofs/Plan/Meaning.lean
  ===================================
  **What expanded code means.**  `Function.exec` runs expanded code on a bridge.
  Names of the bridge package stand for its functions, methods of the
  environment are requests to the bridge, and a copied expression stands for the
  value it is bound to, unless one of its names is a local of the code: then the
  local has captured the name, and nothing is said about its value.

  Code that the host language refuses has no meaning: a name that nothing
  defines, an argument of another type, a definition without a new local, a
  result of another type than the declared one, a body that ends without the
  results.  It gives `none`, which is neither a return nor a panic.
-/
import BridgeCall.Plan.Code
import BridgeCall.Host.Lexer
import BridgeCall.Proofs.Plan.Binding

namespace BridgeCall.Code

/-! ### Values -/

inductive Raised where
  | bridge (e : BridgeError)
  | kind (m : KindMismatch)
  | thrown (e : JavaException)
  deriving DecidableEq, Repr

def Raised.text : Raised → Bytes
  | .bridge e => e.message
  | .kind m => m.message
  | .thrown e => e.text

/-- A value of running code. -/
inductive Value where
  /-- A value of the calling program; the absent one is nil. -/
  | host (v : HostValue)
  /-- A number that has no type yet. -/
  | num (n : Nat)
  | str (s : Bytes)
  | wire (w : Wire)
  | wires (ws : List Wire)
  | buffer (elem : Bytes) (vs : List HostValue)
  | raised (e : Raised)
  | environment
  deriving DecidableEq, Repr

namespace Value

/-- No value: no reference, no arguments or no error. -/
def nil : Value := .host .absent

def bool (v : Bool) : Value := .host (.bool v)

def ofObj (o : Obj) : Value := .host (Wire.object o).raw

/-- The reference that a value is. -/
def object? : Value → Option Obj
  | .host .absent => some .null
  | .host (.object o) => some o
  | _ => none

def wires? : Value → Option (List Wire)
  | .host .absent => some []
  | .wires ws => some ws
  | _ => none

/-- The error that a value is, if there is one. -/
def error? : Value → Option (Option Raised)
  | .host .absent => some none
  | .raised e => some (some e)
  | _ => none

def bool? : Value → Option Bool
  | .host (.bool v) => some v
  | _ => none

/-- The value as an element of a buffer of the given type. -/
def typed? (elem : Bytes) : Value → Option HostValue
  | .host v => if v.typeName = elem then some v else none
  | _ => none

def wire? : Value → Option Wire
  | .wire w => some w
  | _ => none

end Value

/-! ### The bridge package -/

/-- The functions of the bridge package that make wire values, ask for null and convert. -/
def functions : List (Bytes × (Value → Option Value)) :=
  [("Ref", fun v => v.object?.map fun o => .wire (.object o)),
    ("IsNull", fun v => v.object?.map fun o => .bool o.isNull),
    ("Boolean", fun | .host (.uint8 v) => some (.wire (.boolean v)) | _ => none),
    ("Byte", fun | .host (.int8 v) => some (.wire (.byte v)) | _ => none),
    ("Char", fun | .host (.uint16 v) => some (.wire (.char v)) | _ => none),
    ("Short", fun | .host (.int16 v) => some (.wire (.short v)) | _ => none),
    ("Int", fun | .host (.int32 v) => some (.wire (.int v)) | _ => none),
    ("Long", fun | .host (.int64 v) => some (.wire (.long v)) | _ => none),
    ("Float", fun | .host (.float32 v) => some (.wire (.float v)) | _ => none),
    ("Double", fun | .host (.float64 v) => some (.wire (.double v)) | _ => none),
    ("BoolToWire", fun | .host (.bool v) => some (.host (.uint8 (boolToWire v))) | _ => none),
    ("EncodeChar", fun | .host (.int32 v) => some (.host (.uint16 (encodeChar v))) | _ => none),
    ("U8ToWire", fun | .host (.uint8 v) => some (.host (.int8 (u8ToWire v))) | _ => none),
    ("U16ToWire", fun | .host (.uint16 v) => some (.host (.int16 (u16ToWire v))) | _ => none),
    ("U32ToWire", fun | .host (.uint32 v) => some (.host (.int32 (u32ToWire v))) | _ => none),
    ("U64ToWire", fun | .host (.uint64 v) => some (.host (.int64 (u64ToWire v))) | _ => none),
    ("WireToBool", fun | .host (.uint8 v) => some (.bool (wireToBool v)) | _ => none),
    ("DecodeChar", fun | .host (.uint16 v) => some (.host (.int32 (decodeChar v))) | _ => none),
    ("WireToU8", fun | .host (.int8 v) => some (.host (.uint8 (wireToU8 v))) | _ => none),
    ("WireToU16", fun | .host (.int16 v) => some (.host (.uint16 (wireToU16 v))) | _ => none),
    ("WireToU32", fun | .host (.int32 v) => some (.host (.uint32 (wireToU32 v))) | _ => none),
    ("WireToU64", fun | .host (.int64 v) => some (.host (.uint64 (wireToU64 v))) | _ => none)]

def zeroWires : List Wire :=
  [.object .null, .void, .boolean 0, .byte 0, .char 0, .short 0, .int 0, .long 0, .float 0,
    .double 0]

/-- What a wire value gives when it is read as the kind with the given name: its value and an error.
    A wire value that is read as void gives the error alone. -/
def access (w : Wire) (name : Bytes) : Option (List Value) :=
  (zeroWires.find? fun z => [z.letter] = name).map fun z =>
    let (v, e) : HostValue × Value := match w.read z.letter with
      | .ok v => (v, .nil)
      | .error m => (z.raw, .raised (.kind m))
    if z = .void then [e] else [.host v, e]

/-- The host type of the elements of a buffer for arrays of a primitive. -/
def bufferType (p : Primitive) : Bytes :=
  match zeroWires.find? fun z => z.letter = p.letter with
  | some z => z.raw.typeName
  | none => []

/-- The methods of the environment. There are no arrays of void. -/
def methods : List BridgeOp :=
  [BridgeOp.callStaticMethod, .callMethod, .catchException, .newObjectArray, .setObjectArrayElement]
    ++ (Primitive.all.filter (· ≠ .void)).flatMap fun p => [BridgeOp.newArray p, .setArrayRegion p]

/-- The request that a method with arguments is, when the arguments have the right types. -/
def requestOf : BridgeOp → List Value → Option Request
  | .callStaticMethod, [.str cls, .str name, .str sig, args] =>
    args.wires?.map fun ws => .callStaticMethod cls name sig ws
  | .callMethod, [receiver, .str name, .str sig, args] => do
    return .callMethod (← receiver.object?) name sig (← args.wires?)
  | .catchException, [] => some .catchException
  | .newArray p, [.num n] => some (.newArray p n)
  | .setArrayRegion p, [arr, .num start, .buffer elem vs] =>
    if elem = bufferType p then arr.object?.map fun o => .setArrayRegion p o start vs else none
  | .newObjectArray, [.num n, .str cls, init] =>
    init.object?.map fun o => .newObjectArray n cls o
  | .setObjectArrayElement, [arr, .num j, v] => do
    return .setObjectArrayElement (← arr.object?) j (← v.object?)
  | _, _ => none

def request? (name : Bytes) (args : List Value) : Option Request :=
  (methods.find? fun m => m.name = name).bind fun m => requestOf m args

def errorOf {α : Type} : Except BridgeError α → Value
  | .ok _ => .nil
  | .error e => .raised (.bridge e)

/-- The values that an answer gives to code. -/
def results : (r : Request) → r.Answer → List Value
  | .callStaticMethod .., a | .callMethod .., a =>
    [.wire (a.toOption.getD .unset), errorOf a]
  | .newArray .., a | .newObjectArray .., a => [.ofObj (a.toOption.getD .null), errorOf a]
  | .setArrayRegion .., a | .setObjectArrayElement .., a => [errorOf a]
  | .catchException, a =>
    [match a with
      | some e => .raised (.thrown e)
      | none => .nil]

/-! ### Expressions -/

/-- The locals of running code, the last first. -/
abbrev Locals := List (Bytes × Value)

def namesOf (t : Bytes) : List Bytes :=
  ((Host.Lexer.lexemes t).filter fun x => x.kind = .name).map Host.Lexeme.text

def captured (l : Locals) (t : Bytes) : Bool := (namesOf t).any fun n => (l.lookup n).isSome

def constants : List (Bytes × Value) := [("nil", .nil), ("true", .bool true), ("false", .bool false)]

def applied? : Expr → List Value → Option Value
  | .qual .bridge fn, [v] => (functions.lookup fn).bind fun f => f v
  | _, _ => none

/-- The values of a slice with elements of the given type. -/
def slice? : Expr → List Value → Option Value
  | .qual .bridge name, vs =>
    if name = ("Value" : Bytes) then (vs.mapM Value.wire?).map .wires else none
  | .text elem, vs => (vs.mapM (Value.typed? elem)).map (.buffer elem)
  | _, _ => none

mutual

/-- The value of an expression that asks nothing of the bridge. -/
def Expr.eval (b : Bindings) (l : Locals) : Expr → Option Value
  | .text t => (l.lookup t).or (constants.lookup t)
  | .copied t => if captured l t then none else (b.lookup t).map .host
  | .environment t => if captured l t then none else some .environment
  | .str s => some (.str s)
  | .num n => some (.num n)
  | .apply fn args => (evalList b l args).bind (applied? fn)
  | .slice elem values => (evalList b l values).bind (slice? elem)
  | .not x => ((x.eval b l).bind Value.bool?).map fun v => .bool !v
  | .qual _ _ | .method _ _ _ => none

def evalList (b : Bindings) (l : Locals) : List Expr → Option (List Value)
  | [] => some []
  | x :: xs => do return (← x.eval b l) :: (← evalList b l xs)

end

/-! ### Texts of errors -/

/-- Fills the texts of causes into a message, one for each `%w`. Every cause has to be used. -/
def errorf : Bytes → List Bytes → Option Bytes
  | [], [] => some []
  | [], _ :: _ => none
  | c :: m, causes =>
    if c = 0x25 then
      match m, causes with
      | 0x77 :: m, cause :: causes => (errorf m causes).map (cause ++ ·)
      | 0x25 :: m, causes => (errorf m causes).map (0x25 :: ·)
      | _, _ => none
    else (errorf m causes).map (c :: ·)

/-! ### Results -/

/-- The numbers that the constant zero can be. -/
def zeroNumbers : List HostValue :=
  [.int8 0, .int16 0, .int32 0, .int64 0, .uint8 0, .uint16 0, .uint32 0, .uint64 0, .float32 0,
    .float64 0]

/-- A value as a result of the declared type. -/
def assign? : Expr → Value → Option Value
  | .qual .bridge name, v =>
    if name = ("Object" : Bytes) then v.object?.map fun _ => v else none
  | .text t, v =>
    if t = ("error" : Bytes) then v.error?.map fun _ => v
    else match v with
      | .num 0 => (zeroNumbers.find? fun z => z.typeName = hostTypeName t).map .host
      | .host v => if v.typeName = hostTypeName t then some (.host v) else none
      | _ => none
  | _, _ => none

def assignAll : List Expr → List Value → Option (List Value)
  | [], [] => some []
  | t :: ts, v :: vs => do return (← assign? t v) :: (← assignAll ts vs)
  | _, _ => none

/-! ### Statements -/

inductive Ending where
  | returned (vs : List Value)
  | panicked (text : Bytes)
  deriving DecidableEq, Repr

/-- How running code goes on after a statement. -/
inductive Flow where
  | next (l : Locals)
  | stop (e : Ending)

section Bridge

variable {σ : Type} (B : Bridge σ) (b : Bindings) (types : List Expr)

/-- The values of an expression that may ask the bridge. -/
def Expr.run (l : Locals) (x : Expr) (s : σ) : Option (List Value × σ) :=
  match x with
  | .method x name args => do
    let vs ← evalList b l args
    match ← x.eval b l with
    | .environment => (request? name vs).map fun r => (results r (B.answer r s).1, (B.answer r s).2)
    | .wire w => if vs = [] then (access w name).map fun vs => (vs, s) else none
    | _ => none
  | x => (x.eval b l).map fun v => ([v], s)

def Expr.raise (l : Locals) (x : Expr) (s : σ) : Option (Option Raised × σ) := do
  match ← x.run B b l s with
  | ([v], s) => v.error?.map fun e => (e, s)
  | _ => none

def panic (m : Bytes) (causes : List Bytes) (s : σ) : Option (Flow × σ) :=
  (errorf m causes).map fun t => (.stop (.panicked t), s)

/-- Ends with a return of the declared types. -/
def returnAll (l : Locals) (xs : List Expr) (s : σ) : Option (Flow × σ) := do
  let vs ← assignAll types (← evalList b l xs)
  return (.stop (.returned vs), s)

def Stmt.exec (l : Locals) (st : Stmt) (s : σ) : Option (Flow × σ) :=
  match st with
  | .define vars x => do
    let (vs, s) ← x.run B b l s
    if vs.length = vars.length ∧ ∃ x ∈ vars, l.lookup x = none then
      return (.next (vars.zip vs ++ l), s)
    else none
  | .panicIfError m => do
    match ← (← l.lookup errorVar).error? with
    | none => return (.next l, s)
    | some e => panic m [e.text] s
  | .panicIfErrorOf x m => do
    match ← x.raise B b l s with
    | (none, s) => return (.next l, s)
    | (some e, s) => panic m [e.text] s
  | .panicIf cond m => do
    if ← (← cond.eval b l).bool? then panic m [] s else return (.next l, s)
  | .returnIfErrorOf x rs => do
    match ← x.raise B b l s with
    | (none, s) => return (.next l, s)
    | (some e, s) => returnAll b types ((errorVar, .raised e) :: l) rs s
  | .returnIf cond rs => do
    if ← (← cond.eval b l).bool? then returnAll b types l rs s else return (.next l, s)
  | .ret rs => returnAll b types l rs s

/-- Carries out statements until one ends the code. Only code without results may run out. -/
def execAll (l : Locals) : List Stmt → σ → Option (Ending × σ)
  | [], s => if types = [] then some (.returned [], s) else none
  | st :: rest, s => do
    match ← st.exec B b types l s with
    | (.next l, s) => execAll l rest s
    | (.stop e, s) => return (e, s)

def Function.exec (f : Function) (s : σ) : Option (Ending × σ) := execAll B b f.results [] f.body s

end Bridge

/-- The results of a statement that returns. -/
def Stmt.returns? : Stmt → Option (List Expr)
  | .returnIfErrorOf _ rs | .returnIf _ rs | .ret rs => some rs
  | _ => none

end BridgeCall.Code
