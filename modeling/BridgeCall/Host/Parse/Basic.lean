/-
  BridgeCall/Host/Parse/Basic.lean
  ================================
  **Reading lexemes.**  A cursor stands on one lexeme.  Comments never become the
  current lexeme: moving on collects them in groups and remembers the group that
  leads the current lexeme and the one that ends the line before it.

  A parser fails at the place of the first mistake.  The parsers for types,
  expressions and statements need each other; `Grammar` holds one of each, and
  `grammar n` allows them to nest `n` deep.
-/
import BridgeCall.Host.Tree

namespace BridgeCall.Host

/-- The state of a parser. `level` is negative in the header of a statement, where a brace opens
    the statement's block and no composite literal. -/
structure Cursor where
  cur : Lexeme
  rest : List Lexeme
  lead : CommentGroup := []
  line : CommentGroup := []
  comments : List CommentGroup := []
  imports : List Node := []
  level : Int := 0
  lines : Lines

/-- A parser; its failure is the place of the mistake. -/
abbrev ParserM := StateT Cursor (Except Pos)

namespace Cursor

/-- The number of line feeds in a block comment. -/
def breaks (text : Bytes) : Nat :=
  if text.getD 1 0 = 0x2a then text.count 0x0a else 0

/-- The comments that follow each other with at most `gap` line ends between them, the line on
    which they end, and what comes after. Lines count as the marks call them. -/
def takeGroup (t : Lines) (gap : Nat) : Int → List Lexeme → CommentGroup × Int × List Lexeme
  | endLine, [] => ([], endLine, [])
  | endLine, l :: ls =>
    if l.kind = .comment ∧ t.calledLine l.pos ≤ endLine + gap then
      let (g, e, r) := takeGroup t gap (t.calledLine l.pos + breaks l.text) ls
      (⟨l.pos, l.text⟩ :: g, e, r)
    else ([], endLine, l :: ls)

/-- All further groups, the line on which the last one ends, and what comes after. -/
def takeGroups (t : Lines) : Nat → List Lexeme → List CommentGroup × Option Int × List Lexeme
  | 0, ls => ([], none, ls)
  | _, [] => ([], none, [])
  | fuel + 1, l :: ls =>
    if l.kind = .comment then
      let (g, e, r) := takeGroup t 1 (t.calledLine l.pos) (l :: ls)
      let (gs, e', r') := takeGroups t fuel r
      (g :: gs, e'.or (some e), r')
    else ([], none, l :: ls)

/-- Moves to the next lexeme that is no comment. -/
def next (c : Cursor) : Cursor :=
  match c.rest with
  | [] => { c with lead := [], line := [] }
  | l :: ls =>
    let t := c.lines
    let sameLine := l.kind = .comment ∧ t.calledLine l.pos = t.calledLine c.cur.pos
    let (first, endLine, afterFirst) :=
      if sameLine then takeGroup t 0 (t.calledLine l.pos) (l :: ls) else ([], 0, l :: ls)
    let here := afterFirst.head?.getD c.cur
    let closesLine := sameLine
      ∧ (t.calledLine here.pos ≠ endLine ∨ here.kind = .op ";" ∨ here.kind = .eof)
    let (groups, lastEnd, after) := takeGroups t (afterFirst.length + 1) afterFirst
    let cur := after.head?.getD c.cur
    let leads := lastEnd.any fun e => e + 1 = t.calledLine cur.pos
    { c with
      cur
      rest := after.tail
      line := if closesLine then first else []
      lead := if leads then groups.getLast?.getD [] else []
      comments := groups.reverse ++ (if sameLine then [first] else []) ++ c.comments }

end Cursor

namespace ParserM

def cur : ParserM Lexeme := return (← get).cur

def here : ParserM Pos := return (← get).cur.pos

def kind : ParserM Kind := return (← get).cur.kind

def next : ParserM Unit := modify Cursor.next

def failAt {α : Type} (p : Pos) : ParserM α := throw p

def fail {α : Type} : ParserM α := do failAt (← here)

/-- Whether the current lexeme is the given operator. -/
def isOp (s : String) : ParserM Bool := return (← kind) = .op s

def isWord (s : String) : ParserM Bool := return (← kind) = .keyword s

def atEnd : ParserM Bool := return (← kind) = .eof

/-- Reads a lexeme of the given kind and gives its place. -/
def expect (k : Kind) : ParserM Pos := do
  let l ← cur
  if l.kind = k then next; return l.pos else failAt l.pos

/-- Reads an operator and gives its place. -/
def op (s : String) : ParserM Pos := expect (.op s)

/-- Reads a keyword and gives its place. -/
def word (s : String) : ParserM Pos := expect (.keyword s)

def name : ParserM Node := do
  let l ← cur
  let p ← expect .name
  return .name p l.text

/-- Reads the end of a statement or specification, which may be missing before a closing bracket,
    and gives the comment on its line. -/
def semicolon : ParserM CommentGroup := do
  if (← isOp ")") || (← isOp rbrace) then return []
  let l ← cur
  if l.kind ≠ .op ";" then failAt l.pos
  if l.text = [0x0a] then
    let comment := (← get).line
    next
    return comment
  else
    next
    return (← get).line

/-- Whether another item follows in a list that `closing` ends: a comma must stand here
    otherwise. -/
def atComma (closing : String) : ParserM Bool := do
  if (← isOp ",") then return true
  if (← isOp closing) then return false
  fail

/-- Runs a parser with a change of the nesting level. -/
def nested {α : Type} (p : ParserM α) : ParserM α := do
  modify fun c => { c with level := c.level + 1 }
  let a ← p
  modify fun c => { c with level := c.level - 1 }
  return a

def inHeader {α : Type} (p : ParserM α) : ParserM α := do
  let before := (← get).level
  modify fun c => { c with level := -1 }
  let a ← p
  modify fun c => { c with level := before }
  return a

/-- Collects what a parser yields until it yields nothing, at most `n` times. -/
def collect {α : Type} (step : ParserM (Option α)) : Nat → ParserM (List α)
  | 0 => return []
  | n + 1 => do
    match ← step with
    | none => return []
    | some a => return a :: (← collect step n)

/-- Collects what a parser yields. Every item reads a lexeme, so their number bounds the loop. -/
def many {α : Type} (step : ParserM (Option α)) : ParserM (List α) := do
  collect step ((← get).rest.length + 2)

/-- Extends a node until nothing extends it, at most `n` times. -/
def extendUpTo (step : Node → ParserM (Option Node)) : Nat → Node → ParserM Node
  | 0, x => return x
  | n + 1, x => do
    match ← step x with
    | none => return x
    | some y => extendUpTo step n y

def extend (step : Node → ParserM (Option Node)) (x : Node) : ParserM Node := do
  extendUpTo step ((← get).rest.length + 2) x

/-- At most `n` items of a list with commas between them, up to but without `closing`. -/
def commaItems {α : Type} (closing : String) (item : ParserM α) : Nat → ParserM (List α)
  | 0 => return []
  | n + 1 => do
    if (← isOp closing) || (← atEnd) then return []
    let x ← item
    if (← atComma closing) then
      next
      return x :: (← commaItems closing item n)
    return [x]

/-- The items of a list with commas between them, up to but without `closing`. A comma may follow
    the last item. -/
def commaList {α : Type} (closing : String) (item : ParserM α) : ParserM (List α) := do
  commaItems closing item ((← get).rest.length + 2)

end ParserM

/-- What a colon after a simple statement may mean. -/
inductive SimpleMode where
  | basic
  | labelOk
  | rangeOk
  deriving DecidableEq

structure Grammar where
  /-- An operand with its selectors, calls and prefix operators. -/
  unary : ParserM Node
  /-- An expression of operators that bind at least as strongly as given. -/
  binary : Nat → ParserM Node
  /-- A type, when one starts here. -/
  type? : ParserM (Option Node)
  stmt : ParserM Node

namespace Grammar

def expr (g : Grammar) : ParserM Node := g.binary 1

/-- A type, which must start here. -/
def type (g : Grammar) : ParserM Node := do
  match ← g.type? with
  | some t => return t
  | none => ParserM.fail

/-- One or more expressions with commas between them. -/
def exprList (g : Grammar) : ParserM (List Node) := do
  let x ← g.expr
  let more ← ParserM.many do
    if (← ParserM.isOp ",") then
      ParserM.next
      return some (← g.expr)
    return none
  return x :: more

/-- The statements up to a closing brace or the next clause. -/
def stmtList (g : Grammar) : ParserM (List Node) :=
  ParserM.many do
    if (← ParserM.isWord "case") || (← ParserM.isWord "default") || (← ParserM.isOp rbrace)
        || (← ParserM.atEnd) then
      return none
    return some (← g.stmt)

def block (g : Grammar) : ParserM Node := do
  let l ← ParserM.op lbrace
  let stmts ← g.stmtList
  let r ← ParserM.op rbrace
  return .block l stmts r

end Grammar
end BridgeCall.Host
