/-
  BridgeCall/Editor/Server.lean
  =============================
  **The language server.**  It keeps the last scan of every open document, publishes
  the problems of a document when its text changes, shows what a marker calls, and
  offers the words of call expressions inside a marker.  Nothing is answered before
  the editor has started the work, nor after it has ended it.
-/
import BridgeCall.Editor.Request
import BridgeCall.Editor.Uri
import BridgeCall.Editor.Words
import BridgeCall.Machine.Descriptor
import BridgeCall.Marker.Rewrite
import BridgeCall.Program
import BridgeCall.Settings.Find

namespace BridgeCall.Editor

/-- The state of the server. Settings that are not given are looked up when the work starts. A
    document keeps its last scan, also while its text has mistakes; what these are the host's parser
    says. -/
structure Server where
  files : Files := {}
  settings : Option Settings := none
  parser : Host.Reporter := fun _ _ => {}
  running : Bool := false
  documents : List (Bytes × Scan) := []

/-- The problems of a document, for the editor to show. -/
structure Publication where
  uri : Bytes
  problems : List Diagnostic
  deriving DecidableEq, Repr

structure Response where
  result : Json := .null
  published : List Publication := []
  knownMethod : Bool := true
  readable : Bool := true
  failed : Bool := false

/-! ### Places -/

/-- A number of 32 bits without a sign. -/
def word (n : Int) : Json := .number (n % 0x100000000) 0

/-- A position as JSON, counted from zero; one without a line is the start of the document. -/
def positionJson (p : Position) : Json :=
  if p.line = 0 then .record [("line", .nat 0), ("character", .nat 0)]
  else .record [("line", word (p.line - 1)), ("character", word (p.column - 1))]

/-- A stretch as JSON; one without an end is empty. -/
def rangeJson (s : Span) : Json :=
  let stop := if s.stop.line = 0 then s.start else s.stop
  .record [("start", positionJson s.start), ("end", positionJson stop)]

/-- Whether a place lies in a stretch, its end left out. -/
def Place.isIn (p : Place) (s : Span) : Bool :=
  let line : Int := p.line + 1
  let column : Int := p.column + 1
  !(line < s.start.line || s.stop.line < line
    || (line = s.start.line && column < s.start.column)
    || (line = s.stop.line && s.stop.column ≤ column))

/-! ### Answers -/

def problemJson (d : Diagnostic) : Json :=
  .record [("range", rangeJson d.span), ("severity", .nat 1), ("code", .text d.kind.name),
    ("source", .text programName), ("message", .text d.message)]

def Publication.method : Bytes := "textDocument/publishDiagnostics"

def Publication.params (p : Publication) : Json :=
  .record [("uri", .text p.uri), ("diagnostics", .array (p.problems.map problemJson))]

def capabilities : Json :=
  .record [
    ("textDocumentSync", .record [
      ("openClose", .bool true),
      ("change", .nat 1),
      ("save", .record [("includeText", .bool true)])]),
    ("completionProvider", .record [
      ("triggerCharacters", .array (["(", "<", ",", ">"].map fun c => .string (Bytes.ofString c)))]),
    ("hoverProvider", .bool true)]

/-- The answer to the start of the work. -/
def greeting : Json :=
  .record [("capabilities", capabilities),
    ("serverInfo", .record [("name", .text programName), ("version", .text programVersion)])]

/-- A text in a block of its own. -/
def fenced (language body : Bytes) : Bytes := "```" ++ language ++ "\n" ++ body ++ "```\n"

/-- What a marker calls: the declaration of the method and the operations of the plan. -/
def hoverText (c : Call) : Bytes :=
  let plan := Plan.lower c
  let declaration := match MethodType.parse plan.signature with
    | .ok m => fenced "java" (m.declaration c.method ++ [0x0a]) ++ [0x0a]
    | .error _ => []
  declaration ++ fenced [] plan.text

def hoverJson (m : Marker) : Json :=
  match Call.parse (Source.at m.expr Position.origin) with
  | .error _ => .null
  | .ok c =>
    .record [("contents", .record [("kind", .text "markdown"), ("value", .text (hoverText c))]),
      ("range", rangeJson m.span)]

def wordsJson : Json :=
  .array (words.map fun w => .record [("label", .text w), ("kind", .nat 14)])

/-! ### The server at work -/

namespace Server

def markerAt? (s : Server) (uri : Bytes) (p : Place) : Option Marker := do
  let scan ← s.documents.lookup uri
  scan.markers.find? fun m => p.isIn m.span

/-- The directory that settings are looked up from. -/
def rootOf (rootPath rootUri : Bytes) : Bytes :=
  if !rootPath.isEmpty then rootPath
  else if rootUri.isEmpty then "."
  else (Uri.toPath rootUri).getD "."

/-- Starts the work. Settings that cannot be read are as good as none. -/
def start (s : Server) (rootPath rootUri : Bytes) : Server :=
  let found := match Settings.find s.files (rootOf rootPath rootUri) with
    | .ok (settings, _) => settings
    | .error _ => {}
  { s with settings := some (s.settings.getD found), running := true }

/-- Takes the new text of a document, and publishes its problems. Those of a text that is no host file
    are its mistakes. -/
def update (s : Server) (uri text : Bytes) : Response × Server :=
  match Uri.toPath uri with
  | none => ({}, s)
  | some path =>
    match Scan.diagnose (s.settings.getD {}) path text with
    | .error i =>
      let problems := (Host.mistakes s.parser path text i).map Diagnostic.ofMistake
      ({ published := [⟨uri, problems⟩] }, s)
    | .ok (problems, scan) =>
      let others := s.documents.filter fun d => d.1 ≠ uri
      ({ published := [⟨uri, problems.map (Diagnostic.worded s.parser)⟩] },
        { s with documents := (uri, scan) :: others })

def answer (s : Server) : Request → Response × Server
  | .start rootPath rootUri => ({ result := greeting }, s.start rootPath rootUri)
  | .started | .setTrace => ({}, s)
  | .shutdown => ({}, { s with running := false })
  | .opened uri text => s.update uri text
  | .changed uri changes =>
    match changes.getLast? with
    | some (.whole text) => s.update uri text
    | _ => ({}, s)
  | .saved uri (some text) => s.update uri text
  | .saved _ none => ({}, s)
  | .closed uri =>
    ({ published := [⟨uri, []⟩] }, { s with documents := s.documents.filter fun d => d.1 ≠ uri })
  | .hover uri p => ({ result := ((s.markerAt? uri p).map hoverJson).getD .null }, s)
  | .completion uri p => ({ result := ((s.markerAt? uri p).map fun _ => wordsJson).getD .null }, s)

def handle (s : Server) (method : Bytes) (params : Option Json) : Response × Server :=
  if !s.running && method ≠ ("initialize" : Bytes) then ({ failed := true }, s)
  else match Message.read method params with
    | .unknown => ({ knownMethod := false, readable := false }, s)
    | .malformed => ({ readable := false, failed := true }, s)
    | .request r => s.answer r

end Server
end BridgeCall.Editor
