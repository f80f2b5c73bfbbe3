/-
  BridgeCall/Host/Lexeme.lean
  ===========================
  **The words of a host file.**  A host file is cut into lexemes: names, keywords,
  literals, operators and comments.  A place in the file is its offset plus one,
  and zero stands for "nowhere"; the line table turns places into lines and
  columns.
-/
import BridgeCall.Host.LineMark

namespace BridgeCall.Host

inductive LiteralKind where
  | int
  | float
  | imaginary
  | char
  | string
  deriving DecidableEq, Repr

/-- The kinds of lexemes. Keywords and operators are told apart by their spelling. -/
inductive Kind where
  | eof
  | illegal
  | comment
  | name
  | literal (k : LiteralKind)
  | keyword (word : String)
  | op (sign : String)
  deriving DecidableEq, Repr, Inhabited

/-- A place in a host file: the offset plus one, or zero for nowhere. -/
abbrev Pos := Nat

/-- A lexeme with its place and text. The text of a semicolon that a line end stands for is the
    line feed. `faults` are the offsets of the mistakes in it. -/
structure Lexeme where
  pos : Pos
  kind : Kind
  text : Bytes
  faults : List Nat := []
  deriving DecidableEq, Repr, Inhabited

structure Comment where
  pos : Pos
  text : Bytes
  deriving DecidableEq, Repr, Inhabited

def Comment.stop (c : Comment) : Pos := c.pos + c.text.length

/-- Neighbouring comments without a blank line or code between them. -/
abbrev CommentGroup := List Comment

/-- The place of a group, nowhere for an empty one. -/
def CommentGroup.pos (g : CommentGroup) : Pos := (g.head?.map Comment.pos).getD 0

def CommentGroup.stop (g : CommentGroup) : Pos := (g.getLast?.map Comment.stop).getD 0

/-- The offsets at which lines start, in order, and the marks that rename places. -/
structure Lines where
  starts : List Nat
  marks : List LineMark := []
  deriving DecidableEq, Repr, Inhabited

namespace Lines

/-- The offsets after each line feed of a text that starts at offset `i`. No line starts at the end
    of the text. -/
def startsFrom : Nat → Bytes → List Nat
  | _, [] => []
  | i, b :: bs =>
    if b = 0x0a && !bs.isEmpty then (i + 1) :: startsFrom (i + 1) bs else startsFrom (i + 1) bs

def ofText (bs : Bytes) : Lines := { starts := 0 :: startsFrom 0 bs }

/-- The line of a place, from one; zero for nowhere. -/
def line (t : Lines) (p : Pos) : Nat :=
  if p = 0 then 0 else (t.starts.takeWhile (· < p)).length

/-- The column of a place in bytes, from one; zero for nowhere. -/
def column (t : Lines) (p : Pos) : Nat :=
  if p = 0 then 0 else p - ((t.starts.takeWhile (· < p)).getLast?.getD 0)

/-- The table in which the given line and the next are one. -/
def merge (t : Lines) (line : Nat) : Lines := { t with starts := t.starts.eraseIdx line }

def marksTo (t : Lines) (offset : Nat) : List LineMark := t.marks.takeWhile (·.offset ≤ offset)

/-- The name of the file at an offset, in the file with the given name. -/
def fileAt (t : Lines) (file : Bytes) (offset : Nat) : Bytes :=
  (t.marksTo offset).foldl (fun f m => (m.file.map (LineMark.resolve file)).getD f) file

/-- Line and column of a place as the marks call it. -/
def called (t : Lines) (p : Pos) : Int × Int :=
  match (t.marksTo (p - 1)).getLast? with
  | none => (t.line p, t.column p)
  | some m =>
    let down : Int := t.line p - t.line (m.offset + 1)
    (m.line + down,
      if m.column = 0 then 0
      else if down = 0 then m.column + ((p - 1 : Nat) - (m.offset : Int))
      else t.column p)

/-- The line of a place as the marks call it; zero for nowhere. -/
def calledLine (t : Lines) (p : Pos) : Int := if p = 0 then 0 else (t.called p).1

end Lines

/-- The reserved words of a host file. -/
def keywords : List String :=
  ["break", "case", "chan", "const", "continue", "default", "defer", "else", "fallthrough", "for",
    "func", "go", "goto", "if", "import", "interface", "map", "package", "range", "return",
    "select", "struct", "switch", "type", "var"]

/-- The operators and delimiters, longer ones before their beginnings. -/
def operators : List String :=
  ["<<=", ">>=", "&^=", "...", "&&", "||", "<-", "++", "--", "==", "!=", "<=", ">=", ":=", "+=",
    "-=", "*=", "/=", "%=", "&=", "|=", "^=", "<<", ">>", "&^", "+", "-", "*", "/", "%", "&", "|",
    "^", "<", ">", "=", "!", "(", ")", "[", "]", "\x7b", "\x7d", ",", ";", ".", ":", "~"]

/-- The spelling of the opening brace. -/
def lbrace : String := "\x7b"

/-- The spelling of the closing brace. -/
def rbrace : String := "\x7d"

/-- How strongly an operator binds between two operands; zero for anything else. -/
def Kind.precedence : Kind → Nat
  | .op s =>
    if s = "||" then 1
    else if s = "&&" then 2
    else if ["==", "!=", "<", "<=", ">", ">="].contains s then 3
    else if ["+", "-", "|", "^"].contains s then 4
    else if ["*", "/", "%", "<<", ">>", "&", "&^"].contains s then 5
    else 0
  | _ => 0

end BridgeCall.Host
