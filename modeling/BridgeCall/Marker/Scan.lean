/-
  BridgeCall/Marker/Scan.lean
  ===========================
  **Markers and directives in a host file.**  A marker is a call of the marker
  function with an environment and a call expression as a string literal.
  Directives are comments: one in front of a function exports it under a class, and
  one anywhere names the package.  A file is tagged when it is built only with the
  marker tag.

  `Scan.run` finds all of them; what is malformed becomes a problem of the file.
-/
import BridgeCall.Host.Constraint
import BridgeCall.Host.Imports.Basic
import BridgeCall.Host.Parse
import BridgeCall.Host.Walk
import BridgeCall.Marker.Diagnostic
import BridgeCall.Settings.Basic
import BridgeCall.Text.Space

namespace BridgeCall

/-- A marker: the stretch of the whole call, its environment and its call expression, where the
    expression starts, and what becomes of the value. -/
structure Marker where
  start : Nat
  stop : Nat
  env : Bytes
  expr : Bytes
  exprStart : Position
  span : Span
  use : Host.Use
  deriving DecidableEq, Repr

/-- A directive: the stretch of the comment, its argument, and the function it stands before. -/
structure Directive where
  start : Nat
  stop : Nat
  arg : Bytes
  fn : Bytes := []
  span : Span
  deriving DecidableEq, Repr

/-- What is found in a host file. `constraints` are the stretches of the build lines, and `imported`
    is the path of the marker package with the name it is imported as. -/
structure Scan where
  name : Bytes
  text : Bytes
  tagged : Bool := false
  markers : List Marker := []
  packages : List Directive := []
  exports : List Directive := []
  problems : List Diagnostic := []
  constraints : List (Nat × Nat) := []
  imported : Option (Bytes × Bytes) := none
  deriving Repr

namespace Scan

/-- The mark of the directive that names the package. -/
def packageMark : Bytes := "//jnicall:package"

/-- The mark of the directive that exports a function. -/
def exportMark : Bytes := "//jnicall:export"

/-- Looking through a file, with what is found so far. -/
abbrev ScanM := StateM Scan

def report (span : Span) (kind : DiagnosticKind) (message : Bytes) : ScanM Unit :=
  modify fun s => { s with problems := s.problems ++ [{ span, kind, message }] }

/-! ### Build lines -/

/-- Notes a comment in front of the package clause when it is a build line. The last one that can be
    read decides whether the file is tagged. -/
def noteConstraint (tag : Bytes) (c : Host.Comment) : ScanM Unit := do
  let build := Host.Constraint.buildText? c.text
  if build.isSome || (Host.Constraint.plusText? c.text).isSome then
    modify fun s => { s with constraints := s.constraints ++ [(c.pos - 1, c.stop - 1)] }
  match build.bind Host.Constraint.parse with
  | some x => modify fun s => { s with tagged := x.needs tag }
  | none => return

def noteConstraints (tag : Bytes) (f : Host.File) : ScanM Unit :=
  (f.comments.takeWhile fun g => g.pos < f.package).forM fun g => g.forM (noteConstraint tag)

/-! ### Directives -/

/-- The argument of a directive: what follows its mark, with a blank between them. -/
def argument? (mark text : Bytes) : Option Bytes := do
  let rest ← Bytes.stripLead mark text
  if rest.head?.all fun b => b = 0x20 || b = 0x09 then some (Unicode.trimSpace rest) else none

def directive (t : Host.Lines) (file : Bytes) (c : Host.Comment) (arg : Bytes) : Directive :=
  { start := c.pos - 1, stop := c.stop - 1, arg, span := t.span file c.pos c.stop }

def functionExports (t : Host.Lines) (doc : Host.CommentGroup) (isMethod : Bool) (fn : Bytes) :
    ScanM Unit :=
  doc.forM fun c => do
    match argument? exportMark c.text with
    | none => return
    | some arg =>
      let d := directive t (← get).name c arg
      if isMethod then
        report d.span .directive (exportMark ++ " cannot be applied to method " ++ fn)
      else if arg.isEmpty then report d.span .directive (exportMark ++ " needs a class name")
      else modify fun s => { s with exports := s.exports ++ [{ d with fn }] }

/-- Notes the package in a comment, and an export that stands before no function. -/
def looseDirective (t : Host.Lines) (attached : List Host.Pos) (c : Host.Comment) : ScanM Unit := do
  let file := (← get).name
  match argument? packageMark c.text with
  | some arg =>
    let d := directive t file c arg
    if arg.isEmpty then report d.span .directive (packageMark ++ " needs a package name")
    else modify fun s => { s with packages := s.packages ++ [d] }
  | none =>
    if (argument? exportMark c.text).isSome && !attached.contains c.pos then
      report (t.span file c.pos c.stop) .directive
        (exportMark ++ " must be in the doc comment of a function")

/-- The doc comments of functions, with whether the function is a method, and its name. -/
def functionDocs (f : Host.File) : List (Host.CommentGroup × Bool × Bytes) :=
  f.decls.filterMap fun
    | .funcDecl doc recv n _ _ => some (doc, recv.isSome, n.nameText)
    | _ => none

/-- Notes the directives of a file: first those before functions, then all others. -/
def noteDirectives (f : Host.File) : ScanM Unit := do
  let docs := functionDocs f
  docs.forM fun (doc, isMethod, fn) => functionExports f.lines doc isMethod fn
  let attached := (docs.flatMap (·.1)).map Host.Comment.pos
  f.comments.forM fun g => g.forM (looseDirective f.lines attached)

/-! ### Markers -/

/-- The path and the name of the import that markers are called from: the first one known by the
    name, or whose path ends in it. -/
def markerImport? (f : Host.File) (qualifier : Bytes) : Option (Bytes × Bytes) :=
  f.importList.findSome? fun i =>
    match i.path with
    | .literal _ _ t => do
      let path ← Quoted.unquote? t
      let base := Host.baseName path
      let name := if i.localName.isSome then i.name else base
      if name = qualifier || base = qualifier then some (path, name) else none
    | _ => none

def isMarkerName (qualifier fn : Bytes) : Host.Node → Bool
  | .selector (.name _ q) (.name _ n) => q = qualifier && n = fn
  | _ => false

def markerArgs? (qualifier fn : Bytes) : Host.Node → Option (List Host.Node)
  | .call f _ args _ _ => if isMarkerName qualifier fn f then some args else none
  | _ => none

/-- The nodes that call the marker function, in the order of the file, with their use. Calls inside
    of such a call are not looked for. -/
def markerCalls (qualifier fn : Bytes) (use : Host.Use) (n : Host.Node) :
    List (Host.Use × Host.Node × List Host.Node) :=
  match markerArgs? qualifier fn n with
  | some args => [(use, n, args)]
  | none => n.parts.attach.flatMap fun ⟨(u, c), _⟩ => markerCalls qualifier fn u c
termination_by sizeOf n
decreasing_by exact Host.Node.sizeOf_lt_of_mem_parts ‹_›

def noteMarker (t : Host.Lines) (use : Host.Use) (call : Host.Node) (args : List Host.Node) :
    ScanM Unit := do
  let s ← get
  let span (n : Host.Node) : Span := t.span s.name n.pos n.stop
  match args with
  | [env, .literal p .string lit] =>
    match Quoted.unquote? lit with
    | none =>
      report (t.span s.name p (p + lit.length)) .marker "invalid string literal: invalid syntax"
    | some expr =>
      let start := t.position s.name p
      let m : Marker :=
        { start := call.pos - 1
          stop := call.stop - 1
          env := Bytes.slice (env.pos - 1) (env.stop - 1) s.text
          expr
          exprStart := { start with offset := start.offset + 1, column := start.column + 1 }
          span := span call
          use }
      set { s with markers := s.markers ++ [m] }
  | [_, x] => report (span x) .marker "call expression must be a string literal"
  | _ =>
    report (span call) .marker
      ("marker takes an environment and a call expression, got " ++ Bytes.ofNat args.length
        ++ " arguments")

def noteMarkers (marker : Bytes) (f : Host.File) : ScanM Unit :=
  match Bytes.cut "." marker with
  | none => return
  | some (qualifier, fn) =>
    match markerImport? f qualifier with
    | none => return
    | some (path, name) => do
      modify fun s => { s with imported := some (path, name) }
      let calls := f.decls.flatMap (markerCalls name fn .operand)
      calls.forM fun (use, call, args) => noteMarker f.lines use call args

/-- What is found in a file, or the offset of its first mistake. -/
def run (settings : Settings) (name text : Bytes) : Except Nat Scan := do
  let f ← Host.File.parse text
  let scan : ScanM Unit := do
    noteConstraints settings.buildTag f
    noteDirectives f
    noteMarkers settings.marker f
  return (scan.run { name, text }).2

end Scan
end BridgeCall
