/-
  BridgeCall/Host/Print/Decls.lean
  ================================
  **Declarations on the sheet.**  In a group of constants or variables the types
  and the values stand in columns; the type column is kept only in runs of values
  of which one has a type.
-/
import BridgeCall.Host.Print.Exprs
import BridgeCall.Text.Quoted

namespace BridgeCall.Host.Print

open PrintM

/-- The characters that no import path has, besides blanks and characters without a shape. -/
def pathStops : List Nat := Utf8.codePoints "!\"#$%&'()*,:;<=>?[\\]^\x7b|\x7d`\uFFFD"

/-- An import path in double quotes, when it is a proper one. -/
def plainPath : Node → Node
  | .literal p .string t =>
    match Quoted.unquote? t with
    | some s =>
      let proper := !s.isEmpty && (Utf8.codePoints s).all fun c =>
        Unicode.isGraphic c && !Unicode.isSpace c && !pathStops.contains c
      .literal p .string (if proper then Quoted.quote s else t)
    | none => .literal p .string t
  | x => x

def exprOpt (k : Printers) : Option Node → PrintM Unit
  | some x => expr k x
  | none => return

/-- Prints one specification; `alone` holds for the only one of its declaration. -/
def spec (k : Printers) (alone indent : Bool) : Node → PrintM Unit
  | .importSpec doc comment localName path stop => do
    nodeComment doc
    if localName.isSome then
      exprOpt k localName
      blank
    expr k (plainPath path)
    nodeComment comment
    moveTo stop
  | .valueSpec doc comment names type values => do
    nodeComment doc
    nameList k names indent
    if type.isSome then
      blank
      exprOpt k type
    if !values.isEmpty then
      blank
      op "="
      blank
      exprList k 0 values 1 {} 0
    nodeComment comment
  | .typeSpec doc comment n typeParams eq type => do
    nodeComment doc
    expr k n
    match typeParams with
    | some t => parameters k true true t
    | none => pure ()
    space (if alone then .blank else .vtab)
    if eq ≠ 0 then
      op "="
      blank
    expr k type
    nodeComment comment
  | _ => return

def valueColumns (k : Printers) (keepType : Bool) : Node → PrintM Unit
  | .valueSpec doc comment names type values => do
    nodeComment doc
    nameList k names false
    let typed := type.isSome || keepType
    if typed then space .vtab
    exprOpt k type
    if !values.isEmpty then
      space .vtab
      op "="
      blank
      exprList k 0 values 1 {} 0
    if !comment.isEmpty then
      spaces .vtab (3 - typed.toNat - (!values.isEmpty).toNat)
      nodeComment comment
  | _ => return

def hasValuesType : Node → Bool × Bool
  | .valueSpec _ _ _ type values => (!values.isEmpty, type.isSome)
  | _ => (false, false)

/-- For each specification whether its type column is kept: it is in a run with values of which one
    has a type. -/
def keepTypes (specs : List Node) : List Bool :=
  ((specs.map hasValuesType).splitBy fun a b => a.1 == b.1).flatMap fun run =>
    let keep := run.any fun s => s.1 && s.2
    run.map fun _ => keep

/-- Prints specifications, each on its own line. -/
def specItems (mark : Nat) : Bool → List (Node × PrintM Unit) → PrintM Unit
  | _, [] => return
  | isFirst, (s, print) :: rest => do
    if !isFirst then
      let _ ← breakTo (← lineOf s.pos) 1 .ignore (← movedOn mark)
    markNext mark
    print
    specItems mark false rest

/-- Prints a declaration of imports, constants, variables or types. -/
def genDecl (k : Printers) (doc : CommentGroup) (p : Pos) (w : String) (l : Pos) (specs : List Node)
    (r : Pos) : PrintM Unit := do
  nodeComment doc
  moveTo p
  word w
  blank
  if l ≠ 0 || specs.length ≠ 1 then
    opAt l "("
    if !specs.isEmpty then
      space .indent
      space .formfeed
      let mark ← newMark
      let alone := specs.length = 1
      if !alone && (w = "const" || w = "var") then
        specItems mark true ((specs.zip (keepTypes specs)).map fun (s, keep) =>
          (s, valueColumns k keep s))
      else specItems mark true (specs.map fun s => (s, spec k alone false s))
      space .unindent
      space .formfeed
    opAt r ")"
  else
    for s in specs do spec k true true s

def funcDecl (k : Printers) (doc : CommentGroup) (recv : Option Node) (n type : Node)
    (body : Option Node) : PrintM Unit := do
  nodeComment doc
  moveTo type.pos
  word "func"
  blank
  let column := (← get).out.column - 5
  match recv with
  | some r =>
    parameters k false false r
    blank
  | none => pure ()
  expr k n
  signature k type
  match body with
  | some b => funcBody k (← distance type.pos column) .vtab b
  | none => pure ()

def decl (k : Printers) : Node → PrintM Unit
  | .genDecl doc p w l specs r => genDecl k doc p w l specs r
  | .funcDecl doc recv n type body => funcDecl k doc recv n type body
  | _ => return

def declWord : Node → String
  | .genDecl _ _ w _ _ _ => w
  | .funcDecl .. => "func"
  | _ => ""

def declDoc : Node → CommentGroup
  | .genDecl doc _ _ _ _ _ => doc
  | .funcDecl doc _ _ _ _ => doc
  | _ => []

/-- Prints declarations. An empty line stands between different kinds and before a doc comment. -/
def declItems (k : Printers) : String → List Node → PrintM Unit
  | _, [] => return
  | prev, d :: ds => do
    let w := declWord d
    if !(← get).output.isEmpty then
      let least := if prev ≠ w || !(declDoc d).isEmpty then 2 else 1
      let long := (← lineOf d.pos) < (← lineOf d.stop)
      let _ ← breakTo (← lineOf d.pos) least .ignore (w = "func" && long)
    decl k d
    declItems k w ds

def file (k : Printers) (f : File) : PrintM Unit := do
  moveTo f.package
  word "package"
  blank
  expr k f.name
  declItems k "" f.decls
  space .newline

end BridgeCall.Host.Print
