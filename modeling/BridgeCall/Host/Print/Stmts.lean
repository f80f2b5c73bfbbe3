/-
  BridgeCall/Host/Print/Stmts.lean
  ================================
  **Statements on the sheet.**
-/
import BridgeCall.Host.Print.Decls
import BridgeCall.Host.Walk

namespace BridgeCall.Host.Print

open PrintM

/-! ### Parentheses around conditions -/

def isTypeName : Node → Bool
  | .name .. => true
  | .selector x _ => isTypeName x
  | _ => false

/-- Whether a node is a composite value that starts with a type's name. -/
def isBareComposite : Node → Bool
  | .composite (some t) _ _ _ => isTypeName t
  | _ => false

/-- Whether composite values inside a node stand open: parentheses and braces protect them. -/
def leavesOpen : Node → Bool
  | .paren .. | .composite .. => false
  | _ => true

/-- Whether an expression holds a composite value that starts with a type's name and stands in no
    parentheses. In a header its brace would open the block. -/
def hasBareComposite (x : Node) : Bool := x.occurs leavesOpen isBareComposite

/-- An expression without parentheses that its context does not need. -/
def stripParens : Node → Node
  | .paren l x r => if hasBareComposite x then .paren l x r else stripParens x
  | x => x

/-! ### Statements -/

def stmtOpt (k : Printers) : Option Node → PrintM Unit
  | some s => k.stmt false s
  | none => return

/-- Prints the header of a conditional, a switch or a loop. -/
def controlClause (k : Printers) (isLoop : Bool) (init cond post : Option Node) : PrintM Unit := do
  blank
  if init.isNone && post.isNone then
    if cond.isSome then
      exprOpt k (cond.map stripParens)
      blank
  else
    stmtOpt k init
    op ";"
    blank
    exprOpt k (cond.map stripParens)
    if isLoop then
      op ";"
      blank
      if post.isSome then
        stmtOpt k post
        blank
    else if cond.isSome then blank

/-- The number of items that span lines in a list, or `none` when an item starts on another line
    than the one before ends. -/
def longItems : Nat → List (Nat × Nat) → Option Nat
  | _, [] => some 0
  | line, (b, e) :: rest =>
    if line < b then none else (longItems e rest).map (· + if b < e then 1 else 0)

/-- Whether a list looks better when it is indented from its first item on. -/
def indentsWhole (list : List Node) : PrintM Bool := do
  if list.length < 2 then return false
  let b ← lineOf (Node.posList list)
  let e ← lineOf (Node.stopList list)
  if !(0 < b && b < e) then return false
  let t := (← get).lines
  match longItems b (list.map fun x => (t.line x.pos, t.line x.stop)) with
  | none => return true
  | some n => return 1 < n

def returnList (k : Printers) (xs : List Node) : PrintM Unit := do
  blank
  if (← indentsWhole xs) then
    space .indent
    exprList k 0 xs 1 { noIndent := true } 0
    space .unindent
  else exprList k 0 xs 1 {} 0

def labeledStmt (k : Printers) (last : Bool) (label : Node) (colon : Pos) (s : Node) :
    PrintM Unit := do
  space .unindent
  expr k label
  opAt colon ":"
  space .indent
  match s with
  | .emptyStmt p _ =>
    if last then k.stmt last s
    else
      space .newline
      opAt p ";"
  | _ =>
    let _ ← breakTo (← lineOf s.pos) 1 .ignore true
    k.stmt last s

/-- Prints a clause of a switch or select after its head. -/
def clauseBody (k : Printers) (last : Bool) (colon : Pos) (body : List Node) : PrintM Unit := do
  opAt colon ":"
  stmtList k body true last

def rangeClause (k : Printers) (key value : Option Node) (opPos : Pos) (o : String) (x : Node) :
    PrintM Unit := do
  blank
  if key.isSome then
    exprOpt k key
    match value with
    | some v =>
      opAt v.pos ","
      blank
      expr k v
    | none => pure ()
    blank
    opAt opPos o
    blank
  word "range"
  blank
  expr k (stripParens x)
  blank

/-- Prints a statement. `last` says whether a closing brace follows it. -/
def stmt (k : Printers) (last : Bool) (s : Node) : PrintM Unit := do
  moveTo s.pos
  match s with
  | .declStmt d => decl k d
  | .labeled label colon inner => labeledStmt k last label colon inner
  | .exprStmt x => expr k x
  | .send c arrow v =>
    expr k c
    blank
    opAt arrow "<-"
    blank
    expr k v
  | .step x p o =>
    k.expr 0 2 x
    opAt p o
  | .assign lhs p o rhs =>
    let depth := if 1 < lhs.length && 1 < rhs.length then 2 else 1
    exprList k s.pos lhs depth {} p
    blank
    opAt p o
    blank
    exprList k p rhs depth {} 0
  | .spawn _ w call =>
    word w
    blank
    expr k call
  | .ret _ xs =>
    word "return"
    if !xs.isEmpty then returnList k xs
  | .branch _ w label =>
    word w
    if label.isSome then
      blank
      exprOpt k label
  | .block .. => block k true s
  | .ifStmt _ init cond body orElse =>
    word "if"
    controlClause k false init (some cond) none
    block k true body
    match orElse with
    | some e =>
      blank
      word "else"
      blank
      k.stmt last e
    | none => pure ()
  | .caseClause p xs colon body =>
    if xs.isEmpty then word "default"
    else
      word "case"
      blank
      exprList k p xs 1 {} colon
    clauseBody k last colon body
  | .switchStmt _ init tag body =>
    word "switch"
    controlClause k false init tag none
    block k false body
  | .typeSwitch _ init guard body =>
    word "switch"
    if init.isSome then
      blank
      stmtOpt k init
      op ";"
    blank
    k.stmt false guard
    blank
    block k false body
  | .commClause _ comm colon body =>
    if comm.isNone then word "default"
    else
      word "case"
      blank
      stmtOpt k comm
    clauseBody k last colon body
  | .selectStmt _ body =>
    word "select"
    blank
    match body with
    | .block l [] r =>
      let sheet ← get
      if sheet.commentBefore (sheet.lines.spot r) then block k false body
      else
        opAt l lbrace
        opAt r rbrace
    | _ => block k false body
  | .forStmt _ init cond post body =>
    word "for"
    controlClause k true init cond post
    block k true body
  | .rangeStmt _ key value opPos o _ x body =>
    word "for"
    rangeClause k key value opPos o x
    block k true body
  | _ => pure ()

/-! ### Tying the printers together -/

def anyNode (k : Printers) (n : Node) : PrintM Unit := do
  match n with
  | .labeled .. =>
    modify fun s => { s with indent := 1 }
    stmt k false n
  | .declStmt .. | .emptyStmt .. | .exprStmt .. | .send .. | .step .. | .assign .. | .spawn ..
  | .ret .. | .branch .. | .block .. | .ifStmt .. | .caseClause .. | .switchStmt ..
  | .typeSwitch .. | .commClause .. | .selectStmt .. | .forStmt .. | .rangeStmt .. =>
    stmt k false n
  | .importSpec .. | .valueSpec .. | .typeSpec .. => spec k true false n
  | .genDecl .. | .funcDecl .. => decl k n
  | _ => exprIn k 0 1 n

def theEnd : Spot := { offset := farAway, line := farAway }

/-- Ends a sheet: the comments that are left and the white space that waits are written. -/
def Sheet.finish (s : Sheet) : Sheet :=
  ({ s with impliedSemi := false }.flush theEnd .eof).1

def measureWith (k : Printers) (t : Lines) (n : Node) : Option Nat :=
  match (anyNode k n).run { lines := t, measuring := true } with
  | none => none
  | some (_, sheet) =>
    let sheet := Sheet.finish sheet
    if 1 < sheet.out.line then none else some (Columns.trim sheet.output.toList).length

def deeper (k : Unit → Printers) : Printers where
  expr := fun prec depth x s => exprIn (k ()) prec depth x s
  stmt := fun last x s => stmt (k ()) last x s
  measure := fun t x => measureWith (k ()) t x

/-- The printers that nest at most `n` deep; beyond that they print nothing. -/
def printers : Nat → Printers
  | 0 => { expr := fun _ _ _ => pure (), stmt := fun _ _ => pure (), measure := fun _ _ => none }
  | n + 1 => deeper fun _ => printers n

end BridgeCall.Host.Print
