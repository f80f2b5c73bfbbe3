/-
  BridgeCall/Host/Parse/Exprs.lean
  ================================
  **Expressions.**  An operand is followed by selectors, calls, indices and
  composite values; prefix operators bind stronger than infix ones.  In the
  header of a statement a brace after a name opens the statement's block.
-/
import BridgeCall.Host.Parse.Types

namespace BridgeCall.Host.Parse

open ParserM

/-- A function literal, or a function type when no body follows. -/
def funcTypeOrLiteral (g : Grammar) : ParserM Node := do
  let t ← funcType g
  if (← isOp lbrace) then return .funcLit t (← nested g.block)
  return t

def operand (g : Grammar) : ParserM Node := do
  let l ← cur
  match l.kind with
  | .name => name
  | .literal k =>
    next
    return .literal l.pos k l.text
  | .op "(" =>
    next
    let x ← nested g.expr
    let r ← op ")"
    return .paren l.pos x r
  | .keyword "func" => funcTypeOrLiteral g
  | _ => g.type

/-- What follows a point: a selected name or a type assertion. -/
def selectorOrAssertion (g : Grammar) (x : Node) : ParserM Node := do
  if (← kind) = .name then return .selector x (← name)
  let l ← op "("
  let t ← if (← isWord "type") then do next; pure none else pure (some (← g.type))
  let r ← op ")"
  return .assertion x l t r

/-- One more part of a slice expression: the colon's place and the index after it. -/
def slicePart (g : Grammar) : ParserM (Option (Pos × Option Node)) := do
  if !(← isOp ":") then return none
  let p ← here
  next
  if (← isOp ":") || (← isOp "]") || (← atEnd) then return some (p, none)
  return some (p, some (← g.expr))

inductive Bracket where
  | index (args : List Node)
  | slice (low high max : Option Node) (three : Bool)

def bracketBody (g : Grammar) : ParserM (Bracket × Option Pos) := do
  let first ← if (← isOp ":") then pure none else pure (some (← g.expr))
  match ← slicePart g with
  | some (p1, high) =>
    match ← slicePart g with
    | none => return (.slice first high none false, none)
    | some (p2, max) =>
      let missing := if high.isNone then some p1 else if max.isNone then some p2 else none
      return (.slice first high max true, missing)
  | none =>
    let more ← many do
      if !(← isOp ",") then return none
      next
      if (← isOp "]") || (← atEnd) then return some none
      return some (some (← g.type))
    return (.index (first.toList ++ more.filterMap id), none)

/-- An index, a slice or the arguments of a generic function. A full slice has all its bounds. -/
def bracketed (g : Grammar) (x : Node) : ParserM Node := do
  let l ← op "["
  if (← isOp "]") then fail
  let (body, missing) ← nested (bracketBody g)
  let r ← op "]"
  match missing with
  | some p => failAt p
  | none =>
    match body with
    | .index args => return .index x l args r
    | .slice low high max three => return .slice x l low high max three r

/-- At most `n` arguments and the place of the dots after the last one. -/
def arguments (g : Grammar) : Nat → ParserM (List Node × Pos)
  | 0 => return ([], 0)
  | n + 1 => do
    if (← isOp ")") || (← atEnd) then return ([], 0)
    let x ← g.expr
    let dots ← if (← isOp "...") then do let p ← here; next; pure p else pure 0
    if !(← atComma ")") then return ([x], dots)
    next
    if dots ≠ 0 then return ([x], dots)
    let (xs, d) ← arguments g n
    return (x :: xs, d)

def callArgs (g : Grammar) (fn : Node) : ParserM Node := do
  let l ← op "("
  let (args, dots) ← nested (do arguments g ((← get).rest.length + 2))
  let r ← op ")"
  return .call fn l args dots r

/-- The body of a composite value: `elem` reads an element. -/
def compositeBody (type : Option Node) (elem : ParserM Node) : ParserM Node := do
  let l ← op lbrace
  let elems ← nested (commaList rbrace elem)
  let r ← op rbrace
  return .composite type l elems r

/-- An element of a composite value with its key, at most `n` deep. A value inside a composite
    value may leave out its type. -/
def element (g : Grammar) : Nat → ParserM Node
  | 0 => fail
  | n + 1 => do
    let value : ParserM Node := do
      if (← isOp lbrace) then compositeBody none (element g n) else g.expr
    let x ← value
    if (← isOp ":") then
      let colon ← here
      next
      return .keyValue x colon (← value)
    return x

/-- Whether a brace after this node opens a composite value, at the given level. -/
def opensComposite (level : Int) : Node → Bool
  | .name .. | .selector .. | .index .. => 0 ≤ level
  | .arrayType .. | .structType .. | .mapType .. => true
  | _ => false

/-- One more selector, index, call or composite body after an operand. -/
def primaryStep (g : Grammar) (x : Node) : ParserM (Option Node) := do
  match ← kind with
  | .op "." =>
    next
    return some (← selectorOrAssertion g x)
  | .op "[" => return some (← bracketed g x)
  | .op "(" => return some (← callArgs g x)
  | .op s =>
    if s = lbrace && opensComposite (← get).level x.unparen then
      match x with
      | .paren .. => failAt x.unparen.pos
      | _ => return some (← compositeBody (some x) (element g ((← get).rest.length + 2)))
    return none
  | _ => return none

/-- An operand with everything that follows it; the operand may have been read already. -/
def primary (g : Grammar) (first : Option Node) : ParserM Node := do
  let x ← match first with
    | some x => pure x
    | none => operand g
  extend (primaryStep g) x

/-- An arrow in front of a channel type belongs to the type: it moves inwards through types that
    only send. -/
def receiveChan (arrow : Pos) : Node → Except Pos Node
  | .chanType _ inner dir value =>
    match dir, value with
    | .receive, _ => .error inner
    | .both, v => .ok (.chanType arrow arrow .receive v)
    | .send, .chanType p a d v =>
      (receiveChan inner (.chanType p a d v)).map (.chanType arrow arrow .receive)
    | .send, _ => .error inner
  | x => .ok x

/-- An operand with its prefix operators. -/
def unary (g : Grammar) : ParserM Node := do
  let l ← cur
  match l.kind with
  | .op "<-" =>
    next
    let x ← g.unary
    match x with
    | .chanType .. => liftM (receiveChan l.pos x)
    | _ => return .unary l.pos "<-" x
  | .op "*" =>
    next
    return .star l.pos (← g.unary)
  | .op s =>
    if ["+", "-", "!", "^", "&", "~"].contains s then
      next
      return .unary l.pos s (← g.unary)
    primary g none
  | _ => primary g none

/-- Extends an operand by the operators that bind at least as strongly as `prec`. -/
def binaryFrom (g : Grammar) (prec : Nat) (x : Node) : ParserM Node :=
  extend (fun x => do
    let l ← cur
    match l.kind with
    | .op s =>
      if l.kind.precedence < prec then return none
      next
      return some (.binary x l.pos s (← g.binary (l.kind.precedence + 1)))
    | _ => return none) x

/-- An expression of operators that bind at least as strongly as `prec`. -/
def binary (g : Grammar) (prec : Nat) : ParserM Node := do
  binaryFrom g prec (← g.unary)

end BridgeCall.Host.Parse
