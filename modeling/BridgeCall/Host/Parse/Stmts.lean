/-
  BridgeCall/Host/Parse/Stmts.lean
  ================================
  **Statements.**
-/
import BridgeCall.Host.Parse.Decls

namespace BridgeCall.Host.Parse

open ParserM

def assignOps : List String :=
  [":=", "=", "+=", "-=", "*=", "/=", "%=", "&=", "|=", "^=", "<<=", ">>=", "&^="]

/-- A simple statement: an assignment, a label, a send, a step or an expression. The second part
    says whether it is the clause of a loop over a range. -/
def simple (g : Grammar) (mode : SimpleMode) : ParserM (Node × Bool) := do
  let xs ← g.exprList
  let l ← cur
  let sign : String := match l.kind with
    | .op s => s
    | _ => ""
  if assignOps.contains sign then
    next
    if mode = .rangeOk && (← isWord "range") && (sign = ":=" || sign = "=") then
      let p ← here
      next
      return (.assign xs l.pos sign [.unary p "range" (← g.expr)], true)
    return (.assign xs l.pos sign (← g.exprList), false)
  match xs with
  | [x] =>
    if sign = ":" then
      next
      if mode = .labelOk && x.isName then return (.labeled x l.pos (← g.stmt), false)
      failAt l.pos
    else if sign = "<-" then
      next
      return (.send x l.pos (← g.expr), false)
    else if sign = "++" || sign = "--" then
      next
      return (.step x l.pos sign, false)
    else return (.exprStmt x, false)
  | _ => failAt (Node.posList xs)

/-- A simple statement that is no range clause. -/
def basic (g : Grammar) : ParserM Node := return (← simple g .basic).1

def asExpr : Option Node → ParserM (Option Node)
  | none => return none
  | some (.exprStmt x) => return some x
  | some s => failAt s.pos

/-- A call that runs on its own or later. -/
def spawn (g : Grammar) (w : String) : ParserM Node := do
  let p ← word w
  let x ← g.expr
  match x with
  | .call .. =>
    let _ ← semicolon
    return .spawn p w x
  | .paren .. => failAt x.pos
  | _ => failAt x.stop

def returnStmt (g : Grammar) : ParserM Node := do
  let p ← word "return"
  let xs ← if (← isOp ";") || (← isOp rbrace) then pure [] else g.exprList
  let _ ← semicolon
  return .ret p xs

/-- A jump, whose label may be missing unless it is a plain jump. -/
def branchStmt (w : String) : ParserM Node := do
  let p ← word w
  let label ←
    if w = "goto" || ((w = "continue" || w = "break") && (← kind) = .name) then
      pure (some (← name))
    else pure none
  let _ ← semicolon
  return .branch p w label

def ifHeader (g : Grammar) : ParserM (Option Node × Node) := do
  if (← isOp lbrace) then fail
  inHeader do
    let init ← if (← isOp ";") then pure none
      else if (← isWord "var") then do next; fail
      else pure (some (← basic g))
    if (← isOp lbrace) then
      match ← asExpr init with
      | some c => return (none, c)
      | none => fail
    let semi ← op ";"
    if (← isOp lbrace) then failAt semi
    match ← asExpr (some (← basic g)) with
    | some c => return (init, c)
    | none => fail

/-- A conditional statement with at most `n` further conditions. -/
def ifStmt (g : Grammar) : Nat → ParserM Node
  | 0 => fail
  | n + 1 => do
    let p ← word "if"
    let (init, cond) ← ifHeader g
    let body ← g.block
    if (← isWord "else") then
      next
      if (← isWord "if") then
        return .ifStmt p init cond body (some (← ifStmt g n))
      let other ← g.block
      let _ ← semicolon
      return .ifStmt p init cond body (some other)
    let _ ← semicolon
    return .ifStmt p init cond body none

def caseClause (g : Grammar) : ParserM Node := do
  let p ← here
  let xs ← if (← isWord "case") then do next; g.exprList else do
    let _ ← word "default"
    pure []
  let colon ← op ":"
  return .caseClause p xs colon (← g.stmtList)

/-- The clauses between the braces of a switch or select. -/
def clauses (clause : ParserM Node) : ParserM Node := do
  let l ← op lbrace
  let list ← many do
    if (← isWord "case") || (← isWord "default") then return some (← clause)
    return none
  let r ← op rbrace
  let _ ← semicolon
  return .block l list r

def asksType : Node → Bool
  | .assertion _ _ none _ => true
  | _ => false

/-- Whether a statement makes the switch one over types. -/
def isTypeGuard : Option Node → ParserM Bool
  | some (.exprStmt x) => return asksType x
  | some (.assign [_] p s [y]) =>
    if asksType y then
      if s = ":=" then return true
      else if s = "=" then failAt p
      else return false
    else return false
  | _ => return false

def switchStmt (g : Grammar) : ParserM Node := do
  let p ← word "switch"
  let (init, tag) ←
    if (← isOp lbrace) then pure (none, none)
    else inHeader do
      let first ← if (← isOp ";") then pure none else pure (some (← basic g))
      if (← isOp ";") then
        next
        let second ← if (← isOp lbrace) then pure none else pure (some (← basic g))
        pure (first, second)
      else pure (none, first)
  let byType ← isTypeGuard tag
  let body ← clauses (caseClause g)
  if byType then
    match tag with
    | some t => return .typeSwitch p init t body
    | none => fail
  return .switchStmt p init (← asExpr tag) body

def communication (g : Grammar) : ParserM Node := do
  let lhs ← g.exprList
  let l ← cur
  match l.kind, lhs with
  | .op "<-", [x] =>
    next
    return .send x l.pos (← g.expr)
  | .op "<-", _ => failAt (Node.posList lhs)
  | .op s, _ =>
    if s = "=" || s = ":=" then
      if 2 < lhs.length then failAt (Node.posList lhs)
      next
      return .assign lhs l.pos s [← g.expr]
    match lhs with
    | [x] => return .exprStmt x
    | _ => failAt (Node.posList lhs)
  | _, [x] => return .exprStmt x
  | _, _ => failAt (Node.posList lhs)

def commClause (g : Grammar) : ParserM Node := do
  let p ← here
  let comm ← if (← isWord "case") then do next; pure (some (← communication g)) else do
    let _ ← word "default"
    pure none
  let colon ← op ":"
  return .commClause p comm colon (← g.stmtList)

structure LoopHeader where
  init : Option Node := none
  cond : Option Node := none
  post : Option Node := none
  range : Bool := false

def loopHeader (g : Grammar) : ParserM LoopHeader := do
  if (← isOp lbrace) then return {}
  inHeader do
    let first : Option (Node × Bool) ←
      if (← isOp ";") then pure none
      else if (← isWord "range") then
        let p ← here
        next
        pure (some (.assign [] 0 "" [.unary p "range" (← g.expr)], true))
      else pure (some (← simple g .rangeOk))
    match first with
    | some (s, true) => return { cond := some s, range := true }
    | _ =>
      let s := first.map Prod.fst
      if (← isOp ";") then
        next
        let cond ← if (← isOp ";") then pure none
          else if (← isOp lbrace) then fail
          else pure (some (← basic g))
        let _ ← semicolon
        let post ← if (← isOp lbrace) then pure none else pure (some (← basic g))
        return { init := s, cond, post }
      return { cond := s }

def forStmt (g : Grammar) : ParserM Node := do
  let p ← word "for"
  let h ← loopHeader g
  let body ← g.block
  let _ ← semicolon
  match h.range, h.cond with
  | true, some (.assign lhs opPos s [.unary rangePos _ x]) =>
    match lhs with
    | [] => return .rangeStmt p none none opPos s rangePos x body
    | [k] => return .rangeStmt p (some k) none opPos s rangePos x body
    | [k, v] => return .rangeStmt p (some k) (some v) opPos s rangePos x body
    | _ => failAt ((lhs.getLast?.map Node.pos).getD p)
  | _, _ => return .forStmt p h.init (← asExpr h.cond) h.post body

def startsExpr : Kind → Bool
  | .name | .literal _ => true
  | .op s => ["(", "[", "+", "-", "*", "&", "^", "~", "<-", "!"].contains s
  | .keyword w => ["func", "struct", "map", "chan", "interface"].contains w
  | _ => false

def stmt (g : Grammar) : ParserM Node := do
  let l ← cur
  match l.kind with
  | .keyword w =>
    if w = "const" || w = "type" || w = "var" then return .declStmt (← genDecl g w)
    else if startsExpr l.kind then
      let (s, _) ← simple g .labelOk
      let _ ← semicolon
      return s
    else if w = "go" || w = "defer" then spawn g w
    else if w = "return" then returnStmt g
    else if w = "break" || w = "continue" || w = "goto" || w = "fallthrough" then branchStmt w
    else if w = "if" then ifStmt g ((← get).rest.length + 2)
    else if w = "switch" then switchStmt g
    else if w = "select" then
      let p ← word "select"
      return .selectStmt p (← clauses (commClause g))
    else if w = "for" then forStmt g
    else fail
  | .op s =>
    if s = ";" then
      next
      return .emptyStmt l.pos (l.text = [0x0a])
    else if s = lbrace then
      let b ← g.block
      let _ ← semicolon
      return b
    else if s = rbrace then return .emptyStmt l.pos true
    else if startsExpr l.kind then
      let (s, _) ← simple g .labelOk
      let _ ← semicolon
      return s
    else fail
  | k =>
    if !startsExpr k then fail
    let (s, _) ← simple g .labelOk
    match s with
    | .labeled .. => return s
    | _ =>
      let _ ← semicolon
      return s

def deeper (g : Unit → Grammar) : Grammar where
  unary := fun c => unary (g ()) c
  binary := fun prec c => binary (g ()) prec c
  type? := fun c => type? (g ()) c
  stmt := fun c => stmt (g ()) c

/-- The parsers that nest at most `n` deep; beyond that they fail where they stand. -/
def grammar : Nat → Grammar
  | 0 => { unary := fail, binary := fun _ => fail, type? := fail, stmt := fail }
  | n + 1 => deeper fun _ => grammar n

end BridgeCall.Host.Parse
