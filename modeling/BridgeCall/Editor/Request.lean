/-
  BridgeCall/Editor/Request.lean
  ==============================
  **What an editor asks.**  A message has the name of a method and parameters.  Only
  what the server uses is kept of the parameters, but all of them are checked.
-/
import BridgeCall.Editor.Json

namespace BridgeCall.Editor

/-- A place in a document: line and byte in the line, counted from zero. -/
structure Place where
  line : Nat
  column : Nat
  deriving DecidableEq, Repr

/-- A change of a document: its whole text, or a part of it that is replaced. -/
inductive Change where
  | whole (text : Bytes)
  | part (start stop : Place) (text : Bytes)
  deriving DecidableEq, Repr

inductive Request where
  | start (rootPath rootUri : Bytes)
  | started
  | shutdown
  | setTrace
  | opened (uri text : Bytes)
  | changed (uri : Bytes) (changes : List Change)
  | closed (uri : Bytes)
  | saved (uri : Bytes) (text : Option Bytes)
  | hover (uri : Bytes) (place : Place)
  | completion (uri : Bytes) (place : Place)
  deriving DecidableEq, Repr

inductive Message where
  /-- The method is none of this server. -/
  | unknown
  /-- The parameters do not fit the method. -/
  | malformed
  | request (r : Request)
  deriving DecidableEq, Repr

namespace Request

abbrev Fields := List (Bytes × Json)

def part (name : String) (fs : Fields) : Option Fields := (Json.field name fs).fields?

def textOf (name : String) (fs : Fields) : Option Bytes := (Json.field name fs).text?

def numberOf (name : String) (fs : Fields) : Option Int := (Json.field name fs).signed?

/-- The name of the document that a message speaks of. -/
def document (fs : Fields) : Option Bytes := do textOf "uri" (← part "textDocument" fs)

def place (fs : Fields) : Option Place := do
  return ⟨← (Json.field "line" fs).unsigned?, ← (Json.field "character" fs).unsigned?⟩

def checkTokens (fs : Fields) : Option Unit := do
  (Json.field "workDoneToken" fs).checkToken
  (Json.field "partialResultToken" fs).checkToken

def checkFolder (j : Json) : Option Unit := do
  let fs ← j.fields?
  let _ ← textOf "uri" fs
  let _ ← textOf "name" fs

def starting (fs : Fields) : Option Request := do
  (Json.field "workDoneToken" fs).checkToken
  let _ ← numberOf "processId" fs
  let client ← part "clientInfo" fs
  let _ ← textOf "name" client
  let _ ← textOf "version" client
  let _ ← textOf "locale" fs
  let _ ← part "capabilities" fs
  let _ ← textOf "trace" fs
  (← (Json.field "workspaceFolders" fs).items?).forM checkFolder
  return .start (← textOf "rootPath" fs) (← textOf "rootUri" fs)

def opening (fs : Fields) : Option Request := do
  let d ← part "textDocument" fs
  let _ ← textOf "languageId" d
  let _ ← numberOf "version" d
  return .opened (← textOf "uri" d) (← textOf "text" d)

/-- A change without a range is one of the whole document. -/
def change (j : Json) : Option Change := do
  let fs ← j.fields?
  let range := Json.field "range" fs
  let bounds ← range.fields?
  let start ← place (← part "start" bounds)
  let stop ← place (← part "end" bounds)
  let _ ← (Json.field "rangeLength" fs).unsigned?
  let text ← textOf "text" fs
  return match range with
    | .null => .whole text
    | _ => .part start stop text

def changing (fs : Fields) : Option Request := do
  let _ ← numberOf "version" (← part "textDocument" fs)
  let changes ← (← (Json.field "contentChanges" fs).items?).mapM change
  return .changed (← document fs) changes

def saving (fs : Fields) : Option Request := do
  return .saved (← document fs) (← (Json.field "text" fs).maybeText?)

/-- A question about a place in a document. -/
def asking (fs : Fields) : Option (Bytes × Place) := do
  return (← document fs, ← place (← part "position" fs))

/-- A question about what a place means. -/
def hovering (fs : Fields) : Option Request := do
  (Json.field "workDoneToken" fs).checkToken
  let (uri, p) ← asking fs
  return .hover uri p

/-- A question about what could follow at a place. -/
def completing (fs : Fields) : Option Request := do
  checkTokens fs
  let context ← part "context" fs
  let _ ← numberOf "triggerKind" context
  let _ ← textOf "triggerCharacter" context
  let (uri, p) ← asking fs
  return .completion uri p

def readers : List (String × (Fields → Option Request)) :=
  [("initialize", starting),
    ("initialized", fun _ => some .started),
    ("$/setTrace", fun fs => do let _ ← textOf "value" fs; return .setTrace),
    ("textDocument/didOpen", opening),
    ("textDocument/didChange", changing),
    ("textDocument/didClose", fun fs => return .closed (← document fs)),
    ("textDocument/didSave", saving),
    ("textDocument/hover", hovering),
    ("textDocument/completion", completing)]

end Request

/-- Reads a message. The order to shut down needs no parameters; all others do. -/
def Message.read (method : Bytes) (params : Option Json) : Message :=
  if method = ("shutdown" : Bytes) then .request .shutdown
  else match Request.readers.find? fun (name, _) => Bytes.ofString name = method with
    | none => .unknown
    | some (_, reader) =>
      match params.bind Json.fields? |>.bind reader with
      | some r => .request r
      | none => .malformed

end BridgeCall.Editor
