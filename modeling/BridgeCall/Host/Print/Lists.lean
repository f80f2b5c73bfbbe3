/-
  BridgeCall/Host/Print/Lists.lean
  ================================
  **Lists and blocks.**  The printers for expressions and statements need each
  other; `Printers` holds one of each, together with a measure for nodes that fit
  on one line.  A list that the source has on one line stays there; otherwise the
  line breaks of the source are kept, and neighbouring lines are aligned as long
  as their sizes are alike.
-/
import BridgeCall.Host.Print.Comments
import BridgeCall.Number.Rounded

namespace BridgeCall.Host

structure Printers where
  /-- Prints an expression in the context of a precedence and a depth of nesting. -/
  expr : Nat → Nat → Node → PrintM Unit
  /-- Prints a statement; the flag says whether a closing brace follows it. -/
  stmt : Bool → Node → PrintM Unit
  /-- The number of bytes of a node that prints on one line. -/
  measure : Lines → Node → Option Nat

namespace Print

open PrintM

/-- The size of a node, or one more than `max` when it does not fit on a line of that size. -/
def nodeSize (k : Printers) (n : Node) (max : Nat) : PrintM Nat := do
  match k.measure (← get).lines n with
  | some size => return if size ≤ max then size else max + 1
  | none => return max + 1

def expr (k : Printers) (x : Node) : PrintM Unit := k.expr 0 1 x

/-! ### Lists of expressions -/

structure ListMode where
  /-- Whether a comma ends the last line of a list whose closing bracket is on another line. -/
  commaTerm : Bool := false
  noIndent : Bool := false

/-- The line sizes of the aligned lines before: the sum of their logarithms and their number. -/
structure Sizes where
  logSum : Number.Rounded := 0
  count : Nat := 0

def Sizes.push (s : Sizes) (size : Nat) : Sizes :=
  { logSum := s.logSum + (Number.Rounded.ofNat size).log, count := s.count + 1 }

def Sizes.mean (s : Sizes) : Number.Rounded := (s.logSum / Number.Rounded.ofNat s.count).exp

def smallSize : Nat := 40

def alikeFactor : Number.Rounded := ⟨5, -1⟩

/-- Whether a size differs from the geometric mean of the sizes before by a factor of two and a
    half or more. The mean comes from logarithms, so that a factor of just two and a half may fall
    on either side. -/
def differs (s : Sizes) (size : Nat) : Bool :=
  let ratio := Number.Rounded.ofNat size / s.mean
  (alikeFactor * ratio).le 1 || alikeFactor.le ratio

/-- More than any source line. -/
def longLine : Nat := 1000000

/-- The state of printing a list: the indentation still to be added, the index of the last item
    that a line break came before, the size and line of the item before, and the sizes so far. -/
structure ListState where
  before : Space
  lastBreak : Int
  size : Nat := 0
  line : Nat
  sizes : Sizes := {}

def keyOf? : Node → Option (Node × Pos × Node)
  | .keyValue k colon v => some (k, colon, v)
  | _ => none

/-- Prints one item of a list that spans several lines. `known` says whether the places around the
    list are known. -/
def listItem (k : Printers) (depth : Nat) (known single : Bool) (i : Nat) (x : Node)
    (st : ListState) : PrintM ListState := do
  let line ← lineOf x.pos
  let whole ← nodeSize k x longLine
  -- a list is no shorter than its items
  if longLine < whole then giveUp
  let pair := keyOf? x
  let size ←
    if whole ≤ longLine && known then
      match pair with
      | some (key, _, _) => nodeSize k key longLine
      | none => pure whole
    else pure 0
  let useFF :=
    if 0 < st.size && 0 < size then
      if st.sizes.count = 0 || (st.size ≤ smallSize && size ≤ smallSize) then false
      else differs st.sizes size
    else true
  let needsBreak := 0 < st.line && st.line < line
  let mut st := st
  if 0 < i then
    if !needsBreak then moveTo x.pos
    op ","
    let mut needsBlank := true
    if needsBreak then
      let n ← breakTo line 0 st.before (useFF || st.lastBreak + 1 < i)
      if 0 < n then
        st := { st with before := .ignore, lastBreak := i }
        needsBlank := false
      if 1 < n then st := { st with sizes := {} }
    if needsBlank then blank
  match pair with
  | some (key, colon, value) =>
    if !single && 0 < size && needsBreak then
      expr k key
      opAt colon ":"
      space .vtab
      expr k value
    else k.expr 0 depth x
  | none => k.expr 0 depth x
  let sizes := if 0 < size then st.sizes.push size else st.sizes
  return { st with size, sizes, line }

/-- Prints the items of a list that spans several lines. -/
def listItems (k : Printers) (depth : Nat) (known single : Bool) :
    Nat → List Node → ListState → PrintM ListState
  | _, [], st => return st
  | i, x :: xs, st => do
    listItems k depth known single (i + 1) xs (← listItem k depth known single i x st)

def listOnLine (k : Printers) (depth : Nat) : Bool → List Node → PrintM Unit
  | _, [] => return
  | isFirst, x :: xs => do
    if !isFirst then
      moveTo x.pos
      op ","
      blank
    k.expr 0 depth x
    listOnLine k depth false xs

/-- Prints a list of expressions between two places, either of which may be nowhere. -/
def exprList (k : Printers) (prev0 : Pos) (list : List Node) (depth : Nat) (mode : ListMode)
    (next0 : Pos) : PrintM Unit := do
  if list.isEmpty then return
  let prev ← spotOf prev0
  let next ← spotOf next0
  let line ← lineOf (Node.posList list)
  let endLine ← lineOf (Node.stopList list)
  if prev.line ≠ 0 && prev.line = line && line = endLine then
    listOnLine k depth true list
  else
    let before : Space := if mode.noIndent then .ignore else .indent
    let breaks ←
      if prev.line ≠ 0 && prev.line < line then breakTo line 0 before true else pure 0
    let broke := 0 < breaks
    let start : ListState :=
      { before := if broke then .ignore else before
        lastBreak := if broke then 0 else -1
        line := prev.line }
    let st ← listItems k depth (prev.line ≠ 0 && next.line ≠ 0) (list.length = 1) 0 list start
    let indented := st.before = .ignore && !mode.noIndent
    if mode.commaTerm && next.line ≠ 0 && (← get).pos.line < next.line then
      op ","
      if indented then space .unindent
      space .formfeed
    else if indented then space .unindent

def nameList (k : Printers) (names : List Node) (indent : Bool) : PrintM Unit :=
  exprList k 0 names 1 { noIndent := !indent } 0

/-! ### Statements -/

def isEmptyStmt : Node → Bool
  | .emptyStmt .. => true
  | _ => false

/-- The number of labels in front of a statement. -/
def labels : Node → Nat
  | .labeled _ _ s => labels s + 1
  | _ => 0

/-- Prints statements from the `i`-th on, each on its own line. -/
def stmtItems (k : Printers) (nested lastInBlock : Bool) (total mark : Nat) :
    Nat → List Node → PrintM Unit
  | _, [] => return
  | i, s :: ss => do
    if isEmptyStmt s then stmtItems k nested lastInBlock total mark i ss
    else
      if !(← get).output.isEmpty then
        let newSection ← if i = 0 || !nested then pure true else movedOn mark
        let _ ← breakTo (← lineOf s.pos) 1 .ignore newSection
      markNext mark
      k.stmt (lastInBlock && i + 1 = total) s
      shiftMark mark (labels s)
      stmtItems k nested lastInBlock total mark (i + 1) ss

/-- Prints a list of statements, indented when it is nested. -/
def stmtList (k : Printers) (list : List Node) (nested lastInBlock : Bool) : PrintM Unit := do
  if nested then space .indent
  let mark ← newMark
  stmtItems k nested lastInBlock list.length mark 0 list
  if nested then space .unindent

/-- Prints a block, which spans at least two lines. The closing brace starts a new section, unless
    a comment comes before it that ends no statement. -/
def block (k : Printers) (nested : Bool) : Node → PrintM Unit
  | .block l stmts r => do
    opAt l lbrace
    stmtList k stmts nested true
    let newSection := !(← get).commentBefore (← spotOf r)
    let _ ← breakTo (← lineOf r) 1 .ignore newSection
    opAt r rbrace
  | _ => return

/-- A function body is printed on one line with the header when both together are no longer. -/
def maxOneLine : Nat := 100

/-- The size of a body's statements on one line, as far as the limit. -/
def stmtSizes (k : Printers) : Nat → List Node → PrintM Nat
  | size, [] => return size
  | size, s :: ss => do
    if maxOneLine < size then return size
    stmtSizes k (size + (← nodeSize k s maxOneLine) + (if ss.isEmpty then 0 else 2)) ss

/-- The size of a body on one line, more than the limit when it cannot be on one. -/
def bodySize (k : Printers) (l r : Pos) (stmts : List Node) : PrintM Nat := do
  if l ≠ 0 && r ≠ 0 && (← lineOf l) ≠ (← lineOf r) then return maxOneLine + 1
  if 5 < stmts.length then return maxOneLine + 1
  let s ← get
  stmtSizes k (s.commentSize (s.lines.spot r) s.comments) stmts

def stmtsOnLine (k : Printers) : List Node → PrintM Unit
  | [] => return
  | [s] => k.stmt true s
  | s :: ss => do
    k.stmt false s
    op ";"
    blank
    stmtsOnLine k ss

def funcBody (k : Printers) (headerSize : Nat) (sep : Space) : Node → PrintM Unit
  | .block l stmts r => do
    let level := (← get).level
    modify fun s => { s with level := 0 }
    if headerSize + (← bodySize k l r stmts) ≤ maxOneLine then
      space sep
      opAt l lbrace
      if !stmts.isEmpty then
        blank
        stmtsOnLine k stmts
        blank
      modify fun s => { s.noteOpened with noExtraBreak := !s.noExtraBreak }
      opAt r rbrace
      modify fun s => { s.noteOpened with noExtraBreak := !s.noExtraBreak }
    else
      if sep ≠ .ignore then blank
      block k true (.block l stmts r)
    modify fun s => { s with level }
  | _ => return

/-- The number of columns since a header's start, which must be on this line. -/
def distance (start : Pos) (column : Nat) : PrintM Nat := do
  let s ← get
  if start ≠ 0 && s.pos.line ≠ 0 && s.lines.line start = s.pos.line then
    return s.out.column - column
  return farAway

end Print
end BridgeCall.Host
