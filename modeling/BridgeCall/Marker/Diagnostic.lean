/-
  BridgeCall/Marker/Diagnostic.lean
  =================================
  **Problems in a host file.**  Each problem has a place, a kind and a text, which may
  end in words of the host's parser.  A problem without a place is at line zero.
-/
import BridgeCall.Expr.Fault
import BridgeCall.Host.Report

namespace BridgeCall

inductive DiagnosticKind where
  | marker
  | directive
  | arity
  | hostSyntax
  | expression (k : FaultKind)
  deriving DecidableEq, Repr

def DiagnosticKind.name : DiagnosticKind → Bytes
  | .marker => "Marker"
  | .directive => "Directive"
  | .arity => "Arity"
  | .hostSyntax => "GoSyntax"
  | .expression k => k.name

structure Diagnostic where
  span : Span := ⟨{}, {}⟩
  kind : DiagnosticKind
  message : Bytes
  /-- What the parser's words behind the message are about. -/
  cited : Option Host.Citation := none
  deriving DecidableEq, Repr

namespace Diagnostic

/-- A problem as a line: place and text. -/
def line (d : Diagnostic) : Bytes := d.span.start.render ++ (": " : Bytes) ++ d.message

/-- The problem that a fault in a call expression is. -/
def ofFault (f : Fault) : Diagnostic :=
  { span := f.span, kind := .expression f.kind, message := f.detail }

/-- A problem without a place. -/
def ofWording (kind : DiagnosticKind) (w : Host.Wording) : Diagnostic :=
  { kind, message := w.known, cited := w.cited }

/-- A mistake of a text that is no host file. Only its line and column are shown. -/
def ofMistake (m : Host.Mistake) : Diagnostic :=
  let p : Position := { line := m.place.line, column := m.place.column }
  { span := ⟨p, p⟩, kind := .hostSyntax, message := m.message }

/-- The problem with the parser's words in its message. -/
def worded (say : Host.Reporter) (d : Diagnostic) : Diagnostic :=
  { d with message := (Host.Wording.mk d.message d.cited).text say, cited := none }

end Diagnostic

end BridgeCall
