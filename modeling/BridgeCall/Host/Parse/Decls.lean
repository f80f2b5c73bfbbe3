/-
  BridgeCall/Host/Parse/Decls.lean
  ================================
  **Declarations.**  Imports, constants, variables, types and functions.  A
  bracket after the name of a declared type opens its type parameters or the
  length of an array; what stands in it decides.
-/
import BridgeCall.Host.Parse.Exprs

namespace BridgeCall.Host.Parse

open ParserM

def importSpec (doc : CommentGroup) : ParserM Node := do
  let l ← cur
  let localName ←
    if l.kind = .name then pure (some (← name))
    else if l.kind = .op "." then do next; pure (some (.name l.pos [0x2e]))
    else pure none
  let p ← cur
  if p.kind ≠ .literal .string then failAt p.pos
  next
  let comment ← semicolon
  let spec := Node.importSpec doc comment localName (.literal p.pos .string p.text) 0
  modify fun c => { c with imports := spec :: c.imports }
  return spec

/-- One or more names with commas between them. -/
def nameList : ParserM (List Node) := do
  let x ← name
  let more ← many do
    if (← isOp ",") then
      next
      return some (← name)
    return none
  return x :: more

/-- The values after an equals sign, when there is one. -/
def initialValues (g : Grammar) : ParserM (List Node) := do
  if (← isOp "=") then
    next
    g.exprList
  else return []

def valueSpec (g : Grammar) (w : String) (doc : CommentGroup) : ParserM Node := do
  let names ← nameList
  let (type, values) ←
    if w = "const" then
      if (← atEnd) || (← isOp ";") || (← isOp ")") then pure (none, [])
      else
        let t ← g.type?
        pure (t, ← initialValues g)
    else
      let t ← if (← isOp "=") then pure none else pure (some (← g.type))
      pure (t, ← initialValues g)
  let comment ← semicolon
  return .valueSpec doc comment names type values

/-- Whether an expression can only be a type or a union of types. -/
def isTypeElem : Node → Bool
  | .arrayType .. | .structType .. | .funcType .. | .interfaceType .. | .mapType ..
  | .chanType .. => true
  | .binary x _ _ y => isTypeElem x || isTypeElem y
  | .unary _ s _ => s = "~"
  | .paren _ x _ => isTypeElem x
  | _ => false

/-- Splits what was read as an expression into the name of a type parameter and its constraint,
    when it can be read so. -/
def extractName (force : Bool) : Node → Option Node × Option Node
  | .name p t => (some (.name p t), none)
  | .binary x p s y =>
    if s = "*" then
      if x.isName && (force || isTypeElem y) then (some x, some (.star p y))
      else (none, some (.binary x p s y))
    else if s = "|" then
      match extractName (force || isTypeElem y) x with
      | (some n, some lhs) => (some n, some (.binary lhs p s y))
      | _ => (none, some (.binary x p s y))
    else (none, some (.binary x p s y))
  | .call fn l [arg] 0 r =>
    if fn.isName && (force || isTypeElem arg) then (some fn, some (.paren l arg r))
    else (none, some (.call fn l [arg] 0 r))
  | x => (none, some x)

/-- The equals sign of an alias and the type after it. -/
def aliasedType (g : Grammar) : ParserM (Pos × Node) := do
  let eq ← if (← isOp "=") then do let p ← here; next; pure p else pure 0
  return (eq, ← g.type)

/-- The bracket after the name of a declared type: type parameters and the type, or an array
    type. -/
def bracketSpec (g : Grammar) : ParserM (Option Node × Pos × Node) := do
  let l ← op "["
  if (← kind) ≠ .name then return (none, 0, ← arrayType g l none)
  let n ← name
  let x ←
    if (← isOp "[") then pure n
    else nested do
      binaryFrom g 1 (← primary g (some n))
  match extractName (← isOp ",") x with
  | (some pname, ptype) =>
    if ptype.isSome || !(← isOp "]") then
      let fields ← parameterList g "]" (some ⟨some pname, ptype⟩)
      let r ← op "]"
      let (eq, t) ← aliasedType g
      return (some (.fieldList l fields r), eq, t)
    else return (none, 0, ← arrayType g l (some x))
  | (none, _) => return (none, 0, ← arrayType g l (some x))

def typeSpec (g : Grammar) (doc : CommentGroup) : ParserM Node := do
  let n ← name
  let (typeParams, eq, t) ←
    if (← isOp "[") then bracketSpec g
    else do
      let (eq, t) ← aliasedType g
      pure (none, eq, t)
  let comment ← semicolon
  return .typeSpec doc comment n typeParams eq t

def spec (g : Grammar) (w : String) (doc : CommentGroup) : ParserM Node :=
  if w = "import" then importSpec doc
  else if w = "type" then typeSpec g doc
  else valueSpec g w doc

/-- A declaration of imports, constants, variables or types. -/
def genDecl (g : Grammar) (w : String) : ParserM Node := do
  let doc := (← get).lead
  let p ← word w
  if (← isOp "(") then
    let l ← op "("
    let specs ← many do
      if (← isOp ")") || (← atEnd) then return none
      return some (← spec g w (← get).lead)
    let r ← op ")"
    let _ ← semicolon
    return .genDecl doc p w l specs r
  return .genDecl doc p w 0 [← spec g w []] 0

/-- A function declaration. A method has no type parameters of its own. -/
def funcDecl (g : Grammar) : ParserM Node := do
  let doc := (← get).lead
  let p ← word "func"
  let recv ← if (← isOp "(") then pure (some (← parameters g)) else pure none
  let n ← name
  let typeParams ← typeParameters g
  let params ← parameters g
  match recv, typeParams with
  | some _, some t => failAt t.pos
  | _, _ =>
    let rs ← results g
    let type := Node.funcType p typeParams params rs
    if (← isOp lbrace) then
      let body ← g.block
      let _ ← semicolon
      return .funcDecl doc recv n type (some body)
    let _ ← semicolon
    if (← isOp lbrace) then fail
    return .funcDecl doc recv n type none

def decl (g : Grammar) : ParserM Node := do
  match ← kind with
  | .keyword w =>
    if w = "func" then funcDecl g
    else if w = "const" || w = "type" || w = "var" then genDecl g w
    else fail
  | _ => fail

end BridgeCall.Host.Parse
