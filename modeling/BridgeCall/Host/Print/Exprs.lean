/-
  BridgeCall/Host/Print/Exprs.lean
  ================================
  **Expressions and types on the sheet.**  Blanks around an infix operator show how
  strongly it binds: in an expression of several strengths the stronger ones have
  none, and deeper inside a list only the weakest keep them.
-/
import BridgeCall.Host.Print.Lists
import BridgeCall.Host.Parse.Decls

namespace BridgeCall.Host.Print

open PrintM

/-! ### Literals -/

def lastIndex (b : UInt8) (bs : Bytes) : Option Nat :=
  (bs.reverse.findIdx? (· = b)).map fun i => bs.length - 1 - i

/-- The text with its last occurrence of a byte replaced. -/
def replaceLast (b c : UInt8) (bs : Bytes) : Bytes :=
  match lastIndex b bs with
  | some i => bs.set i c
  | none => bs

/-- The normal form of a number: base and exponent marks in lower case, no zeros in front of an
    imaginary integer. -/
def normalNumber (bs : Bytes) : Bytes :=
  match bs with
  | 0x30 :: m :: rest =>
    if m = 0x58 ∨ m = 0x78 then replaceLast 0x50 0x70 (0x30 :: 0x78 :: rest)
    else if m = 0x4f ∨ m = 0x6f then 0x30 :: 0x6f :: rest
    else if m = 0x42 ∨ m = 0x62 then 0x30 :: 0x62 :: rest
    else plain bs
  | [_] => bs
  | _ => plain bs
where
  /-- The normal form of a number without a base mark. -/
  plain (bs : Bytes) : Bytes :=
    if bs.contains 0x45 then replaceLast 0x45 0x65 bs
    else if bs.getLast? = some 0x69 && !bs.contains 0x2e && !bs.contains 0x65 then
      let rest := bs.dropWhile fun b => b = 0x30 || b = 0x5f
      if rest = [0x69] then [0x30, 0x69] else rest
    else bs

/-! ### Strength of operators -/

/-- Which strengths an expression has, and the strongest operator that must have blanks lest it
    merge with the operator after it. -/
structure Strengths where
  has4 : Bool := false
  has5 : Bool := false
  problem : Nat := 0

def Strengths.or (a b : Strengths) : Strengths :=
  { has4 := a.has4 || b.has4, has5 := a.has5 || b.has5, problem := max a.problem b.problem }

def precedence (op : String) : Nat := (Kind.op op).precedence

/-- The strengths of an operator between two operands. -/
def strengths : Node → Strengths
  | .binary x _ o y =>
    let p := precedence o
    let own : Strengths := { has4 := p = 4, has5 := p = 5 }
    let left : Strengths := match x with
      | .binary lx lp lo ly => if precedence lo < p then {} else strengths (.binary lx lp lo ly)
      | _ => {}
    let right : Strengths := match y with
      | .binary rx rp ro ry => if precedence ro ≤ p then {} else strengths (.binary rx rp ro ry)
      | .star _ _ => if o = "/" then { problem := 5 } else {}
      | .unary _ u _ =>
        if [("/", "*"), ("&", "&"), ("&", "^")].contains (o, u) then { problem := 5 }
        else if [("+", "+"), ("-", "-")].contains (o, u) then { problem := 4 }
        else {}
      | _ => {}
    (own.or left).or right
  | _ => {}

/-- Operators that bind weaker than this have blanks around them. -/
def cutoff (x : Node) (depth : Nat) : Nat :=
  let s := strengths x
  if 0 < s.problem then s.problem + 1
  else if s.has4 && s.has5 then if depth = 1 then 5 else 4
  else if depth = 1 then 6 else 4

/-- One when the operand is no operation of the given strength. -/
def strengthStep (x : Node) (prec : Nat) : Nat :=
  match x with
  | .binary _ _ o _ => if precedence o = prec then 0 else 1
  | _ => 1

/-- Parentheses undo one level of depth. -/
def reduceDepth (depth : Nat) : Nat := max (depth - 1) 1

/-- The strength of a prefix operator. -/
def unaryPrec : Nat := 6

def highestPrec : Nat := 7

/-! ### Parameters and fields -/

/-- A name followed by this type could be read as a product or a call. -/
def combinesWithName : Node → Bool
  | .star _ x => !Parse.isTypeElem x
  | .binary x _ _ y => combinesWithName x && !Parse.isTypeElem y
  | _ => false

/-- The names, type and comments of a field. -/
structure FieldParts where
  doc : CommentGroup
  comment : CommentGroup
  names : List Node
  type : Node
  tag : Option Node

def fieldParts : Node → FieldParts
  | .field doc comment names type tag => ⟨doc, comment, names, type, tag⟩
  | x => ⟨[], [], [], x, none⟩

/-- The number of names in a list of fields; a field without names counts as one. -/
def fieldCount (fields : List Node) : Nat :=
  fields.foldr (fun f n => max 1 (fieldParts f).names.length + n) 0

/-- Prints the parameters of a list from the `i`-th on; `prevLine` is where the one before ends. -/
def parameterItems (k : Printers) : Nat → Nat → Space → List Node → PrintM (Nat × Space)
  | _, prevLine, before, [] => return (prevLine, before)
  | i, prevLine, before, p :: ps => do
    let line ← lineOf p.pos
    let stopLine ← lineOf p.stop
    let needsBreak := 0 < prevLine && prevLine < line
    if 0 < i then
      if !needsBreak then moveTo p.pos
      op ","
    let n ← if needsBreak then breakTo line 0 before true else pure 0
    let before := if 0 < n then .ignore else before
    if n = 0 && 0 < i then blank
    let f := fieldParts p
    if !f.names.isEmpty then
      nameList k f.names (before = .indent)
      blank
    expr k f.type.unparen
    parameterItems k (i + 1) stopLine before ps

/-- Prints parameters between brackets of a kind. `ofType` is set for the parameters of a declared
    type, which must not be read as an array's length. -/
def parameters (k : Printers) (brackets ofType : Bool) : Node → PrintM Unit
  | .fieldList opening fields closing => do
    opAt opening (if brackets then "[" else "(")
    if !fields.isEmpty then
      let (prevLine, before) ← parameterItems k 0 (← lineOf opening) .indent fields
      let closeLine ← lineOf closing
      if 0 < prevLine && prevLine < closeLine then
        op ","
        let _ ← breakTo closeLine 0 .ignore true
      else if ofType && fieldCount fields = 1
          && fields.any fun f => combinesWithName (fieldParts f).type.unparen then
        op ","
      if before = .ignore then space .unindent
    opAt closing (if brackets then "]" else ")")
  | _ => return

/-- Prints the results of a function; a single one without a name has no parentheses. -/
def results (k : Printers) : Option Node → PrintM Unit
  | some (.fieldList opening fields closing) => do
    if fieldCount fields = 0 then return
    blank
    match fields with
    | [f] =>
      if (fieldParts f).names.isEmpty then expr k (fieldParts f).type.unparen
      else parameters k false false (.fieldList opening fields closing)
    | _ => parameters k false false (.fieldList opening fields closing)
  | _ => return

def signature (k : Printers) : Node → PrintM Unit
  | .funcType _ typeParams params rs => do
    match typeParams with
    | some t => parameters k true false t
    | none => pure ()
    parameters k false false params
    results k rs
  | _ => return

/-- The size of names with commas between them, in characters. -/
def namesSize (names : List Node) : Nat :=
  (names.flatMap fun n => Utf8.runes n.nameText).length + 2 * (names.length - 1)

/-- Whether a list of fields is short enough for one line. -/
def isShort (k : Printers) (fields : List Node) : PrintM Bool := do
  match fields with
  | [f] =>
    let p := fieldParts f
    if p.tag.isSome || !p.comment.isEmpty then return false
    let size ← nodeSize k p.type 30
    return (if namesSize p.names = 0 then 0 else 1) + size ≤ 30
  | _ => return false

/-- Prints names with commas between them on one line. -/
def plainNames (k : Printers) : List Node → PrintM Unit
  | [] => return
  | [n] => expr k n
  | n :: ns => do
    expr k n
    op ","
    blank
    plainNames k ns

/-- Prints the only field of a short list. -/
def shortField (k : Printers) (isStruct : Bool) (f : FieldParts) : PrintM Unit := do
  match isStruct, f.names with
  | true, names =>
    plainNames k names
    if !names.isEmpty then blank
    expr k f.type
  | false, n :: _ =>
    expr k n
    signature k f.type
  | false, [] => expr k f.type

/-- Adds the same white space several times. -/
def spaces (w : Space) (n : Nat) : PrintM Unit := do
  for _ in List.range n do space w

/-- Prints a field of a structure; `sep` divides its parts. -/
def structField (k : Printers) (sep : Space) (f : FieldParts) : PrintM Unit := do
  if f.names.isEmpty then expr k f.type
  else
    nameList k f.names false
    space sep
    expr k f.type
  let tabs := if f.names.isEmpty then 2 else 1
  let tabs ← match f.tag with
    | some t => do
      if !f.names.isEmpty && sep = .vtab then space sep
      space sep
      expr k t
      pure 0
    | none => pure tabs
  if !f.comment.isEmpty then
    spaces sep tabs
    nodeComment f.comment

/-- Prints a method or an embedded element of an interface. -/
def interfaceField (k : Printers) (f : FieldParts) : PrintM Unit := do
  match f.names with
  | n :: _ =>
    expr k n
    signature k f.type
  | [] => expr k f.type
  nodeComment f.comment

/-- Prints fields, each on its own line. -/
def fieldItems (print : FieldParts → PrintM Unit) (mark : Nat) : Bool → List Node → PrintM Unit
  | _, [] => return
  | isFirst, f :: fs => do
    if !isFirst then
      let _ ← breakTo (← lineOf f.pos) 1 .ignore (← movedOn mark)
    nodeComment (fieldParts f).doc
    markNext mark
    print (fieldParts f)
    fieldItems print mark false fs

def fieldList (k : Printers) (isStruct : Bool) : Node → PrintM Unit
  | .fieldList l fields r => do
    let s ← get
    let hasComments := s.commentBefore (s.lines.spot r)
    let oneLine := l ≠ 0 && r ≠ 0 && (← lineOf l) = (← lineOf r)
    if !hasComments && oneLine && fields.isEmpty then
      opAt l lbrace
      opAt r rbrace
    else if !hasComments && oneLine && (← isShort k fields) then
      opAt l lbrace
      blank
      match fields with
      | f :: _ => shortField k isStruct (fieldParts f)
      | [] => pure ()
      blank
      opAt r rbrace
    else
      blank
      opAt l lbrace
      space .indent
      if hasComments || !fields.isEmpty then space .formfeed
      let mark ← newMark
      let sep : Space := if fields.length = 1 then .blank else .vtab
      fieldItems (if isStruct then structField k sep else interfaceField k) mark true fields
      space .unindent
      space .formfeed
      opAt r rbrace
  | _ => return

/-! ### Expressions -/

/-- Prints an operation, in parentheses when the context binds stronger. -/
def binaryExpr (k : Printers) (prec1 depth : Nat) (x : Node) (opPos : Pos) (o : String) (y : Node) :
    PrintM Unit := do
  let prec := precedence o
  let cut := cutoff (.binary x opPos o y) depth
  if prec < prec1 then
    op "("
    k.expr 0 (reduceDepth depth) (.binary x opPos o y)
    op ")"
  else
    let blanks := prec < cut
    k.expr prec (depth + strengthStep x prec) x
    if blanks then blank
    let xline := (← get).pos.line
    let yline ← lineOf y.pos
    opAt opPos o
    let n ←
      if xline ≠ yline && 0 < xline && 0 < yline then breakTo yline 1 .indent true else pure 0
    if n = 0 && blanks then blank
    k.expr (prec + 1) (depth + 1) y
    if 0 < n then space .unindent

/-- Prints a selector. A selected name that the source has on another line stays there; the answer
    says whether the indentation for it is still to be undone. -/
def selectorExpr (k : Printers) (depth : Nat) (isMethod : Bool) (x sel : Node) : PrintM Bool := do
  k.expr highestPrec depth x
  op "."
  let line ← lineOf sel.pos
  let here := (← get).pos.line
  if 0 < here && here < line then
    space .indent
    space .newline
    moveTo sel.pos
    name sel.nameText
    if !isMethod then space .unindent
    return true
  moveTo sel.pos
  name sel.nameText
  return false

/-- Whether a node is an operation of two operands. -/
def isBinary : Node → Bool
  | .binary .. => true
  | _ => false

/-- Prints the bounds of a slice, with colons between them. -/
def bounds (k : Printers) (depth : Nat) (blanks : Bool) : List (Option Node) → PrintM Unit
  | [] => return
  | [x] => bound x
  | x :: y :: rest => do
    bound x
    if x.isSome && blanks then blank
    op ":"
    if y.isSome && blanks then blank
    bounds k depth blanks (y :: rest)
where
  bound : Option Node → PrintM Unit
    | some x => k.expr 0 (depth + 1) x
    | none => return

def sliceExpr (k : Printers) (depth : Nat) (x : Node) (l : Pos) (low high max : Option Node)
    (r : Pos) : PrintM Unit := do
  k.expr highestPrec 1 x
  opAt l "["
  let indices := [low, high] ++ (if max.isSome then [max] else [])
  let given := indices.filterMap id
  let blanks := depth ≤ 1 && 1 < given.length && given.any isBinary
  bounds k depth blanks indices
  opAt r "]"

def needsParens : Node → Bool
  | .funcType .. => true
  | .chanType _ _ dir _ => dir = .receive
  | _ => false

def callExpr (k : Printers) (depth : Nat) (fn : Node) (l : Pos) (args : List Node) (dots r : Pos) :
    PrintM Unit := do
  let depth := if 1 < args.length then depth + 1 else depth
  if needsParens fn then op "("
  let wasIndented ← match fn with
    | .selector x sel => selectorExpr k depth true x sel
    | _ => do
      k.expr highestPrec depth fn
      pure false
  if needsParens fn then op ")"
  opAt l "("
  if dots ≠ 0 then
    exprList k l args depth {} dots
    opAt dots "..."
    if r ≠ 0 && (← lineOf dots) < (← lineOf r) then
      op ","
      space .formfeed
  else exprList k l args depth { commaTerm := true } r
  opAt r ")"
  if wasIndented then space .unindent

def compositeExpr (k : Printers) (depth : Nat) (type : Option Node) (l : Pos) (elems : List Node)
    (r : Pos) : PrintM Unit := do
  match type with
  | some t => k.expr highestPrec depth t
  | none => pure ()
  modify fun s => { s with level := s.level + 1 }
  opAt l lbrace
  exprList k l elems 1 { commaTerm := true } r
  space .indent
  space .unindent
  let toggle : PrintM Unit := modify fun s =>
    { s.noteOpened with
      noExtraBreak := !s.noExtraBreak
      noExtraBlank := if elems.isEmpty then s.noExtraBlank else !s.noExtraBlank }
  toggle
  opAt r rbrace
  toggle
  modify fun s => { s with level := s.level - 1 }

def chanExpr (k : Printers) (arrow : Pos) (dir : Direction) (value : Node) : PrintM Unit := do
  match dir with
  | .both => word "chan"
  | .receive =>
    op "<-"
    word "chan"
  | .send =>
    word "chan"
    opAt arrow "<-"
  blank
  expr k value

/-- Prints an expression or type in the context of a precedence and a depth. -/
def exprIn (k : Printers) (prec1 depth : Nat) (x : Node) : PrintM Unit := do
  moveTo x.pos
  match x with
  | .name _ t => name t
  | .literal _ kind t =>
    let isNumber := kind ≠ .string && kind ≠ .char
    literal kind (if isNumber && !(← get).measuring then normalNumber t else t)
  | .binary a p o b => binaryExpr k prec1 depth a p o b
  | .keyValue key colon value =>
    expr k key
    opAt colon ":"
    blank
    expr k value
  | .star _ y =>
    if unaryPrec < prec1 then
      op "("
      op "*"
      expr k y
      op ")"
    else
      op "*"
      expr k y
  | .unary _ o y =>
    if unaryPrec < prec1 then
      op "("
      expr k x
      op ")"
    else
      if o = "range" then
        word o
        blank
      else op o
      k.expr unaryPrec depth y
  | .funcLit type body =>
    word "func"
    let column := (← get).out.column - 4
    signature k type
    funcBody k (← distance type.pos column) .blank body
  | .paren _ y r =>
    match y with
    | .paren .. => k.expr 0 depth y
    | _ =>
      op "("
      k.expr 0 (reduceDepth depth) y
      opAt r ")"
  | .selector a sel =>
    let _ ← selectorExpr k depth false a sel
  | .assertion a l type r =>
    k.expr highestPrec depth a
    op "."
    opAt l "("
    match type with
    | some t => expr k t
    | none => word "type"
    opAt r ")"
  | .index a l args r =>
    k.expr highestPrec 1 a
    opAt l "["
    match args with
    | [i] => k.expr 0 (depth + 1) i
    | _ => exprList k l args (depth + 1) { commaTerm := true } r
    opAt r "]"
  | .slice a l low high max _ r => sliceExpr k depth a l low high max r
  | .call fn l args dots r => callExpr k depth fn l args dots r
  | .composite type l elems r => compositeExpr k depth type l elems r
  | .ellipsis _ elem =>
    op "..."
    match elem with
    | some t => expr k t
    | none => pure ()
  | .arrayType _ len elem =>
    op "["
    match len with
    | some n => expr k n
    | none => pure ()
    op "]"
    expr k elem
  | .structType _ fields =>
    word "struct"
    fieldList k true fields
  | .funcType .. =>
    word "func"
    signature k x
  | .interfaceType _ methods =>
    word "interface"
    fieldList k false methods
  | .mapType _ key value =>
    word "map"
    op "["
    expr k key
    op "]"
    expr k value
  | .chanType _ arrow dir value => chanExpr k arrow dir value
  | _ => pure ()

end BridgeCall.Host.Print
