/-
  BridgeCall/Marker/Rewrite.lean
  ==============================
  **The generated twin of a host file.**  Every marker becomes the code of its call,
  every exported function gets the symbol that the machine looks up, and the build
  lines become one that is true without the marker tag.  A file with problems has
  no twin; all its problems are reported at once.
-/
import BridgeCall.Expr.Parse
import BridgeCall.Host.Imports.Sort
import BridgeCall.Machine.Symbol
import BridgeCall.Marker.Scan
import BridgeCall.Settings.Registry

namespace BridgeCall

/-- What rewriting a file gives: the plans of its markers, its problems, and the text of its twin
    when it has none. -/
structure Rewritten where
  plans : List Plan := []
  problems : List Diagnostic := []
  text : Option Bytes := none

/-- A stretch of a text and what takes its place. -/
structure Edit where
  start : Nat
  stop : Nat
  text : Bytes

/-- The text with its edits, which are in order. `i` is the offset of the text. -/
def Edit.spliceFrom (i : Nat) (text : Bytes) : List Edit → Bytes
  | [] => text
  | e :: es =>
    text.take (e.start - i) ++ e.text ++ spliceFrom (max i e.stop) (text.drop (e.stop - i)) es

def Edit.splice (text : Bytes) (edits : List Edit) : Bytes :=
  Edit.spliceFrom 0 text (edits.mergeSort fun a b => a.start ≤ b.start)

namespace Marker

/-- The problem of a value that is assigned to the wrong number of variables. -/
def arityProblem? (m : Marker) (p : Plan) : Option Diagnostic :=
  let arity := (Shape.of p.call.ret).arity
  match m.use with
  | .assigned n =>
    if n = 0 || n = arity then none
    else some {
      span := m.span
      kind := .arity
      message := "assignment mismatch: " ++ Bytes.ofNat n ++ " variables but " ++ p.call.method
        ++ " returns " ++ Bytes.ofNat arity ++ " values" }
  | _ => none

/-- The plan of a marker with its code, or its problem. -/
def expand (settings : Settings) (m : Marker) : Except Diagnostic (Plan × Bytes) := do
  match Call.parse (Source.at m.expr m.exprStart) with
  | .error f => throw (.ofFault f)
  | .ok call =>
    let plan := Plan.lower call
    match plan.expand (settings.options m.env) with
    | none => throw (.ofWording .marker (plan.unwritten (settings.options m.env)))
    | some code =>
      match m.arityProblem? plan with
      | some d => throw d
      | none => return (plan, code)

end Marker

namespace Scan

/-- Applies the package directives of a file to the registry. -/
def configure (s : Scan) (r : Registry) : List Diagnostic × Registry :=
  s.packages.foldl (fun (ds, r) d =>
    match r.set d.arg with
    | .ok r => (ds, r)
    | .error e => (ds ++ [{ span := d.span, kind := .directive, message := e.message }], r)) ([], r)

/-- The edit of an exported function, or its problem. -/
def exportEdit (r : Registry) (d : Directive) : Except Diagnostic Edit :=
  match r.get with
  | .ok pkg => .ok ⟨d.start, d.stop, "//export " ++ Symbol.ofNative pkg d.arg d.fn⟩
  | .error e => .error { span := d.span, kind := .directive, message := e.message }

/-- The lines in front of a twin. -/
def header (s : Scan) (settings : Settings) : Bytes :=
  "// Code generated by jnicall from " ++ Host.baseName s.name ++ ". DO NOT EDIT.\n\n//go:build !"
    ++ settings.buildTag ++ "\n\n"

/-- Takes the import of the marker package away when nothing uses it. -/
def dropMarkerImport (s : Scan) (f : Host.File) : Host.File :=
  match s.imported with
  | some (path, name) =>
    if path.isEmpty || f.usesImport path then f
    else f.removeImport (if name = Host.baseName path then [] else name) path
  | none => f

/-- Adds an import unless the file has it already, or does not use it. -/
def needImport (f : Host.File) (name path : Bytes) : Host.File :=
  if f.hasImport name path then f
  else
    let g := f.addImport name path
    if g.usesImport path then g else g.removeImport name path

/-- The imports that expanded code needs. -/
def addImports (settings : Settings) (f : Host.File) : Host.File :=
  let base := Host.baseName settings.bridge
  let name := if settings.bridgeName = base then [] else settings.bridgeName
  needImport (needImport f name settings.bridge) [] "fmt"

/-- The problem of a twin whose text is no host file, with its first mistake at offset `i`. -/
def unparsed (name text : Bytes) (i : Nat) : Diagnostic :=
  { kind := .hostSyntax
    message := "generated code does not parse: " ++ Host.citedPlace name text i
    cited := some { file := name, text } }

/-- The problem of a twin whose text is one no more once it is laid out. -/
def misprinted (text : Bytes) (i : Nat) : Diagnostic :=
  { kind := .hostSyntax
    message := "format.Node internal error (" ++ Host.citedPlace [] text i
    cited := some { text, after := ")" } }

/-- The twin in its normal layout, from the file with all its edits. -/
def finish (s : Scan) (settings : Settings) (body : Bytes) (expanded : Bool) :
    Except Diagnostic Bytes :=
  let text := s.header settings ++ Bytes.trimLeft (· = 0x0a) body
  match Host.File.parse text with
  | .error i => .error (unparsed s.name text i)
  | .ok f =>
    let f := s.dropMarkerImport f
    let f := if expanded then addImports settings f else f
    (f.render (Host.depthFor text)).mapError fun (t, i) => misprinted t i

def rewrite (s : Scan) (settings : Settings) (r : Registry) : Rewritten :=
  let expanded := s.markers.map fun m => (m, m.expand settings)
  let done := expanded.filterMap fun (m, e) => e.toOption.map fun (p, code) => (m, p, code)
  let exported := s.exports.map (exportEdit r)
  let failed {α : Type} : Except Diagnostic α → Option Diagnostic
    | .error d => some d
    | .ok _ => none
  let problems := s.problems ++ expanded.filterMap (fun (_, e) => failed e)
    ++ exported.filterMap failed
  let plans := done.map fun (_, p, _) => p
  if !problems.isEmpty then { plans, problems }
  else
    let edits := done.map (fun (m, _, code) => ⟨m.start, m.stop, code⟩)
      ++ exported.filterMap Except.toOption
      ++ s.constraints.map fun (a, b) => ⟨a, b, []⟩
    match s.finish settings (Edit.splice s.text edits) (!plans.isEmpty) with
    | .ok text => { plans, text := some text }
    | .error d => { plans, problems := [d] }

/-- Scans and rewrites a file on its own and gives all its problems. -/
def diagnose (settings : Settings) (name text : Bytes) : Except Nat (List Diagnostic × Scan) := do
  let s ← run settings name text
  let r : Registry := if settings.package.isEmpty then {} else ⟨some settings.package⟩
  let (configured, r) := s.configure r
  return (configured ++ (s.rewrite settings r).problems, s)

end Scan

/-- The name of the twin of a file: the suffix stands before the mark of a test file. -/
def twinName (name suffix : Bytes) : Bytes :=
  let strip (tail bs : Bytes) : Option Bytes :=
    if Bytes.endsWith tail bs then some (bs.take (bs.length - tail.length)) else none
  match strip "_test.go" name with
  | some base => base ++ (strip ".go" suffix).getD suffix ++ "_test.go"
  | none => (strip ".go" name).getD name ++ suffix

end BridgeCall
