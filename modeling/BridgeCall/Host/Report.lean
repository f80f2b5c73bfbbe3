/-
  BridgeCall/Host/Report.lean
  ===========================
  **What the host's parser says.**  A text that is no host file has mistakes, each with
  a place and a message.  Reading a text gives the offset of its first mistake
  (`File.parse`); the messages, and the mistakes behind the first one, are in the words
  of the host's own parser, which are a parameter here (`Reporter`).

  A message about code that cannot be read cites the parser.  It is kept as the part
  that is known and the text that the parser is asked about (`Citation`), and worded
  where it is shown.
-/
import BridgeCall.Expr.Position
import BridgeCall.Host.Parse

namespace BridgeCall.Host

/-- The position of a place in a host file, as its marks call it. -/
def Lines.position (t : Lines) (file : Bytes) (p : Pos) : Position :=
  let (line, column) := t.called p
  { file := t.fileAt file (p - 1), offset := p - 1, line, column }

/-- The stretch between two places in a host file. -/
def Lines.span (t : Lines) (file : Bytes) (p q : Pos) : Span := ⟨t.position file p, t.position file q⟩

/-- The place of a mistake, in a file of the given name. -/
def mistakeAt (file text : Bytes) (i : Nat) : Position :=
  (Lines.ofFile text).position file (i + 1)

structure Mistake where
  place : Position
  message : Bytes
  deriving DecidableEq, Repr

/-- What the parser says of a text besides the place of its first mistake: the message about it, and
    the mistakes behind it. -/
structure Report where
  message : Bytes := []
  further : List Mistake := []
  deriving DecidableEq, Repr

/-- What the parser says of the text in a file of the given name. -/
abbrev Reporter := Bytes → Bytes → Report

/-- The mistakes of a text whose first one is at offset `i`. -/
def mistakes (say : Reporter) (file text : Bytes) (i : Nat) : List Mistake :=
  let r := say file text
  ⟨mistakeAt file text i, r.message⟩ :: r.further

/-- The words about all mistakes of a text, behind the place of the first one. -/
def Report.words (r : Report) : Bytes :=
  let more : Bytes := " (and " ++ Bytes.ofNat r.further.length ++ " more errors)"
  r.message ++ if r.further.isEmpty then [] else more

/-- A text that the parser refuses, cited in a message, with what follows its words there. -/
structure Citation where
  file : Bytes := []
  text : Bytes
  after : Bytes := []
  deriving DecidableEq, Repr

def Citation.words (say : Reporter) (c : Citation) : Bytes := (say c.file c.text).words ++ c.after

/-- What a message says of the first mistake before the words of the parser: its place, without a
    column that is not known. -/
def citedPlace (file text : Bytes) (i : Nat) : Bytes :=
  let p := mistakeAt file text i
  let line : Bytes := (if p.file.isEmpty then [] else p.file ++ (":" : Bytes)) ++ Bytes.ofInt p.line
  (if p.column = 0 then line else p.render) ++ (": " : Bytes)

/-- A message whose end may be in the words of the parser. -/
structure Wording where
  known : Bytes
  cited : Option Citation := none
  deriving DecidableEq, Repr

def Wording.text (say : Reporter) (w : Wording) : Bytes :=
  w.known ++ (w.cited.map (Citation.words say)).getD []

end BridgeCall.Host
