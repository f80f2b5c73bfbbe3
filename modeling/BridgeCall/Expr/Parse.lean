/-
  BridgeCall/Expr/Parse.lean
  ==========================
  **The grammar of call expressions.**

      Call    = Target "(" [ Param { "," Param } [ "," ] ] ")" "->" Return
      Target  = "static" Path ( "::" | "." ) name | Receiver "." name
      Param   = Type "(" tokens ")" | "[" Type "]" "(" tokens ")"
      Return  = Type | "Option" "<" Path ">" | "Result" "<" Return' "," "String" ">"

  One reader per construct; the entry points at the end read a whole text.
-/
import BridgeCall.Expr.Reader

namespace BridgeCall.Reader

/-! ### Class paths and types -/

/-- The tokens of a class path: dotted segments, of which there are at least two, and nested
    classes. -/
structure Path where
  first : Token
  dotted : List Token
  nested : List Token
  deriving Repr

namespace Path

def lastDotted (p : Path) : Token := p.dotted.getLastD p.first

def initDotted (p : Path) : List Token := (p.first :: p.dotted).dropLast

def span (p : Path) : Span :=
  p.first.span.to (p.nested.getLastD p.lastDotted).span

def toClassPath (p : Path) : ClassPath :=
  { packages := p.initDotted.map Token.literal
    outer := p.lastDotted.literal
    nested := p.nested.map Token.literal
    span := p.span }

end Path

def path : Reader Path := do
  if (← peekKind) ≠ .ident then fail .emptyPath [.ident]
  else
    let first ← advance
    let dotted ← segments .dot
    if dotted.isEmpty then
      throw { problem := .noPackage first.literal, span := first.span }
    else
      let nested ← segments .dollar
      return { first, dotted, nested }

/-- Takes the method off a path that was read to its end: the last dotted segment, or a further
    segment after nested classes. -/
def splitMethod (p : Path) : Reader (ClassPath × Token) := do
  if p.nested.isEmpty then
    if p.dotted.length < 2 then
      throw { problem := .noPackageBeforeMethod, span := p.span }
    else
      return ({ p with dotted := p.dotted.dropLast : Path }.toClassPath, p.lastDotted)
  else
    let _ ← expect .dot .noNestedDot []
    let m ← expect .ident .noMethod []
    return (p.toClassPath, m)

/-- Reads a type: a host keyword, a Java keyword, or a class path. -/
def valueType : Reader ValueType := do
  let t ← peek
  if t.kind ≠ .ident then fail .noType [.ident]
  else match HostPrimitive.ofName? t.literal with
    | some h => do
      let _ ← advance
      return .host h t.span
    | none => match Primitive.ofName? t.literal with
      | some p => do
        let _ ← advance
        return .java p t.span
      | none => return .object (← path).toClassPath

/-! ### Return specifications -/

/-- Reads `Option<class>`, whose first word is next. -/
def option : Reader Success := do
  let start ← advance
  let _ ← expect .lt .optionWithoutArgument []
  match ← valueType with
  | .object c =>
    let stop ← expect .gt .optionWithMoreArguments []
    return .option c (start.span.to stop.span)
  | ty =>
    if ty.isVoid then throw { problem := .voidOption, span := ty.span }
    else throw { problem := .primitiveOption ty.keyword, span := ty.span }

/-- Reads what a call that succeeds gives back. -/
def success : Reader Success := do
  if ← atKeyword "Option" then option else return .value (← valueType)

/-- Splits off the tokens before the `>` that closes the enclosing `<`. -/
def upToClosingGt (depth : Nat) : List Token → List Token × List Token
  | [] => ([], [])
  | t :: rest =>
    if t.kind = .eof ∨ t.kind = .gt ∧ depth = 0 then ([], t :: rest)
    else
      let d := if t.kind = .lt then depth + 1 else if t.kind = .gt then depth - 1 else depth
      let (a, b) := upToClosingGt d rest
      (t :: a, b)

/-- Reads the error type of a result, which must be `String`. -/
def errorType (src : Source) : Reader Unit := do
  let ts ← modifyGet (upToClosingGt 0)
  match ts.head?, ts.getLast? with
  | some a, some b =>
    let text := textOf src ts
    if text = ("String" : Bytes) then return ()
    else throw { problem := .unsupportedErrorType text, span := a.span.to b.span }
  | _, _ => fail .noErrorType [.ident]

def returnSpec (src : Source) : Reader ReturnSpec := do
  if ← atKeyword "Result" then
    let start ← advance
    let _ ← expect .lt .resultWithoutArguments []
    if ← atKeyword "Result" then
      throw { problem := .nestedResult, span := (← peek).span }
    else
      let ok ← success
      let _ ← expect .comma .resultWithOneArgument []
      errorType src
      let stop ← expect .gt .unclosedResult []
      return .result ok (start.span.to stop.span)
  else return .plain (← success)

/-! ### Targets and parameters -/

/-- Reads the target of a call and the method's name. -/
def target (src : Source) : Reader (Target × Token) := do
  let start ← peek
  match start.kind with
  | .static =>
    let _ ← advance
    let p ← path
    let (c, m) ←
      if (← peekKind) = .colonColon then do
        let _ ← advance
        let m ← expect .ident .noMethodAfterColons []
        pure (p.toClassPath, m)
      else splitMethod p
    return (.static c (start.span.to c.span), m)
  | .lparen | .lbrace =>
    let g ← group
    if g.contents.isEmpty then throw { problem := .emptyReceiver, span := g.closer.span }
    else
      let _ ← expect .dot .noReceiverDot []
      let m ← expect .ident .noMethod []
      return (.object (textOf src g.contents) (start.span.to g.closer.span), m)
  | .ident =>
    let t ← advance
    let _ ← expect .dot .noReceiverDot []
    let m ← expect .ident .noMethod []
    return (.object t.literal t.span, m)
  | _ => fail .noTarget [.static, .ident, .lparen, .lbrace]

/-- Reads the type of a parameter; the flag says whether it was bracketed. -/
def parameterType : Reader (Bool × ValueType) := do
  if (← peekKind) = .lbracket then
    let _ ← advance
    let ty ← valueType
    let _ ← expect .rbracket .noElementTypeEnd []
    return (true, ty)
  else return (false, ← valueType)

def parameter (src : Source) : Reader Parameter := do
  let start ← peek
  let (array, ty) ← parameterType
  if ty.isVoid then throw { problem := .voidParameter, span := ty.span }
  else if (← peekKind) ≠ .lparen then fail .noParameterValue [.lparen]
  else
    let g ← group
    if g.contents.isEmpty then
      throw
        { problem := .emptyParameterValue
          span := g.closer.span
          expected := [.ident]
          got := some g.closer }
    else
      let span := start.span.to g.closer.span
      if !array then return ⟨ty, .single (textOf src g.contents), span⟩
      else match ← arrayElements? g.contents with
        | some es => return ⟨ty, .literal (es.map (textOf src)), span⟩
        | none => return ⟨ty, .array (textOf src g.contents), span⟩

/-- Reads parameters up to the closing parenthesis; `fuel` bounds their number. -/
def parametersUpTo (src : Source) : Nat → Reader (List Parameter)
  | 0 => return []
  | fuel + 1 => do
    match ← peekKind with
    | .rparen => return []
    | .eof => fail .unclosedParameterList [.rparen]
    | _ =>
      let p ← parameter src
      if (← peekKind) = .comma then
        let _ ← advance
        return p :: (← parametersUpTo src fuel)
      else return [p]

def parameters (src : Source) : Reader (List Parameter) := do
  let _ ← expect .lparen .noParameterList []
  -- each parameter takes at least one token
  let ps ← parametersUpTo src (← get).length
  let _ ← expect .rparen .noParameterEnd [.comma]
  return ps

/-- Reads a call expression to the end of the input. -/
def call (src : Source) : Reader Call := do
  let start ← peek
  let (target, method) ← target src
  let params ← parameters src
  let _ ← expect .arrow .noArrow []
  let ret ← returnSpec src
  expectEnd .returnType
  return {
    target, method := method.literal, methodSpan := method.span, params, ret
    span := ⟨start.span.start, ret.span.stop⟩ }

def run {α : Type} (r : Reader α) (src : Source) : Except Fault α :=
  (r src.tokens).map Prod.fst

end Reader

/-! ### Whole texts -/

def ClassPath.parse (src : Source) : Except Fault ClassPath :=
  Reader.run (do
    let p ← Reader.path
    Reader.expectEnd .classPath
    return p.toClassPath) src

/-- Reads a class path followed by a method's name. -/
def ClassPath.parseWithMethod (src : Source) : Except Fault (ClassPath × Bytes) :=
  Reader.run (do
    let p ← Reader.path
    let (c, m) ← Reader.splitMethod p
    Reader.expectEnd .methodName
    return (c, m.literal)) src

def ValueType.parse (src : Source) : Except Fault ValueType :=
  Reader.run (do
    let ty ← Reader.valueType
    Reader.expectEnd .type
    return ty) src

def ReturnSpec.parse (src : Source) : Except Fault ReturnSpec :=
  Reader.run (do
    let r ← Reader.returnSpec src
    Reader.expectEnd .returnType
    return r) src

def Call.parse (src : Source) : Except Fault Call := Reader.run (Reader.call src) src

end BridgeCall
