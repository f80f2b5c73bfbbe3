/-
  BridgeCall/Host/Print/Sheet.lean
  ================================
  **The sheet a file is printed on.**  White space is not written at once: it waits
  until the next word comes, because a comment may stand between the two.  The
  sheet keeps three places: where the printer is in the source, where it is on the
  sheet, and where the last word ended.
-/
import BridgeCall.Host.Columns
import BridgeCall.Host.Tree

namespace BridgeCall.Host

/-- A place with its line and column, both from one; line zero is nowhere. -/
structure Spot where
  offset : Nat := 0
  line : Nat := 0
  column : Nat := 0
  deriving DecidableEq, Repr, Inhabited

def Lines.spot (t : Lines) (p : Pos) : Spot :=
  if p = 0 then {} else { offset := p - 1, line := t.line p, column := t.column p }

/-- White space that waits to be written. -/
inductive Space where
  | ignore
  | blank
  | vtab
  | newline
  | formfeed
  | indent
  | unindent
  deriving DecidableEq, Repr

/-- More than any line or offset. -/
def farAway : Nat := 0x40000000

/-- The state of the printer. -/
structure Sheet where
  lines : Lines
  /-- Whether the sheet only measures a node: numbers stay as they are, and the comments come from
      the nodes. -/
  measuring : Bool := false
  output : Array UInt8 := #[]
  indent : Nat := 0
  /-- How many composite values are open. -/
  level : Nat := 0
  /-- Whether no blank follows a block comment. -/
  noExtraBlank : Bool := false
  /-- Whether no line break follows a block comment. -/
  noExtraBreak : Bool := false
  endAlignment : Bool := false
  /-- Whether a line break here would end the statement. -/
  impliedSemi : Bool := false
  /-- The last word; illegal after white space. -/
  last : Kind := .illegal
  /-- The opening parenthesis or bracket right before; illegal when there is none. -/
  opened : Kind := .illegal
  spaces : List Space := []
  /-- Where build lines start in the output. -/
  buildLines : List Nat := []
  /-- Where build lines of the older form start in the output. -/
  plusLines : List Nat := []
  pos : Spot := { line := 1, column := 1 }
  out : Spot := { line := 1, column := 1 }
  lastEnd : Spot := {}
  /-- The comments that have not been printed; the first one is next. -/
  comments : List CommentGroup := []
  /-- The number of the mark that wants the line of the next word. -/
  wanted : Option Nat := none
  /-- The lines recorded for the marks. -/
  marks : Array Nat := #[]

/-- A printer. It gives up only on a sheet that measures, once what it measures cannot fit on a
    line. -/
abbrev PrintM := StateT Sheet Option

namespace Sheet

/-- At most two line breaks stand together. -/
def atMostTwo (n : Nat) : Nat := min n 2

def writeIndent (s : Sheet) : Sheet :=
  let n := s.indent
  { s with
    output := s.output ++ Array.replicate n 0x09
    pos := { s.pos with offset := s.pos.offset + n, column := s.pos.column + n }
    out := { s.out with column := s.out.column + n } }

/-- Writes a formatting byte `n` times. When the alignment is to end with the line, tabs become
    blanks, and the line break ends all columns. -/
def writeByte (s : Sheet) (ch : UInt8) (n : Nat) : Sheet :=
  let isBreak := ch = 0x0a ∨ ch = 0x0c
  let ch' : UInt8 :=
    if s.endAlignment then
      if ch = 0x09 ∨ ch = 0x0b then 0x20 else if isBreak then 0x0c else ch
    else ch
  let s := if isBreak then { s with endAlignment := false } else s
  let s := if s.out.column = 1 then s.writeIndent else s
  let s := { s with output := s.output ++ Array.replicate n ch' }
  if isBreak then
    { s with
      pos := { offset := s.pos.offset + n, line := s.pos.line + n, column := 1 }
      out := { s.out with line := s.out.line + n, column := 1 } }
  else
    { s with
      pos := { s.pos with offset := s.pos.offset + n, column := s.pos.column + n }
      out := { s.out with column := s.out.column + n } }

/-- The column after a text that holds line breaks. -/
def columnAfter (text : Bytes) : Nat :=
  (text.reverse.takeWhile fun b => b ≠ 0x0a && b ≠ 0x0c).length + 1

/-- Writes a word that stands at `at'` in the source. A kept word is not touched by the
    alignment. -/
def writeText (s : Sheet) (at' : Spot) (text : Bytes) (kept : Bool) : Sheet :=
  let s := if s.out.column = 1 then s.writeIndent else s
  let s := if at'.line = 0 then s else { s with pos := at' }
  let mark : Array UInt8 := if kept then #[Columns.keepMark] else #[]
  let breaks := text.countP fun b => b = 0x0a || b = 0x0c
  let n := text.length
  let col (c : Nat) : Nat := if breaks = 0 then c + n else columnAfter text
  let pos : Spot :=
    { offset := s.pos.offset + n, line := s.pos.line + breaks, column := col s.pos.column }
  { s with
    output := s.output ++ mark ++ text.toArray ++ mark
    endAlignment := s.endAlignment || 0 < breaks
    pos
    out := { s.out with line := s.out.line + breaks, column := col s.out.column }
    lastEnd := pos }

/-- Writes waiting white space. A line break right before a correction of the indentation comes
    after it, and ends all columns. -/
def writeSpaces (s : Sheet) : List Space → Sheet
  | [] => s
  | .ignore :: rest => s.writeSpaces rest
  | .indent :: rest => { s with indent := s.indent + 1 }.writeSpaces rest
  | .unindent :: rest => { s with indent := s.indent - 1 }.writeSpaces rest
  | .blank :: rest => (s.writeByte 0x20 1).writeSpaces rest
  | .vtab :: rest => (s.writeByte 0x0b 1).writeSpaces rest
  | .newline :: .unindent :: rest | .formfeed :: .unindent :: rest =>
    { s with indent := s.indent - 1 }.writeSpaces (.formfeed :: rest)
  | .newline :: rest => (s.writeByte 0x0a 1).writeSpaces rest
  | .formfeed :: rest => (s.writeByte 0x0c 1).writeSpaces rest
termination_by l => l.length

/-- Writes the first `n` waiting spaces. -/
def flushSpaces (s : Sheet) (n : Nat) : Sheet :=
  let rest := s.spaces.drop n
  { s.writeSpaces (s.spaces.take n) with spaces := rest }

/-- Notes the opening parenthesis or bracket before the next item. -/
def noteOpened (s : Sheet) : Sheet :=
  match s.last with
  | .illegal => s
  | .op "(" => { s with opened := .op "(" }
  | .op "[" => { s with opened := .op "[" }
  | _ => { s with opened := .illegal }

def maxSpaces : Nat := 16

/-- Adds white space to what waits. A line break means that no semicolon is implied any more. -/
def addSpace (s : Sheet) (w : Space) : Sheet :=
  let s := s.noteOpened
  if w = .ignore then s
  else
    let s := if maxSpaces ≤ s.spaces.length then s.flushSpaces s.spaces.length else s
    { s with
      spaces := s.spaces ++ [w]
      impliedSemi := s.impliedSemi && w ≠ .newline && w ≠ .formfeed
      last := .illegal }

end Sheet

namespace PrintM

def giveUp : PrintM Unit := do
  if (← get).measuring then failure

/-- Writes on the sheet. A sheet that measures takes a single line. -/
def write (f : Sheet → Sheet) : PrintM Unit := do
  modify f
  if 1 < (← get).out.line then giveUp

def space (w : Space) : PrintM Unit := write fun s => s.addSpace w

def blank : PrintM Unit := space .blank

def spotOf (p : Pos) : PrintM Spot := return (← get).lines.spot p

def lineOf (p : Pos) : PrintM Nat := return (← get).lines.line p

/-- Moves to a place of the source, unless it is nowhere. -/
def moveTo (p : Pos) : PrintM Unit :=
  if p = 0 then pure () else modify fun s => { s with pos := s.lines.spot p }

def newMark : PrintM Nat := do
  let s ← get
  set { s with marks := s.marks.push 0 }
  return s.marks.size

/-- Asks for the line of the next word. -/
def markNext (m : Nat) : PrintM Unit := modify fun s => { s with wanted := some m }

/-- Whether the sheet has moved on from a mark's line. -/
def movedOn (m : Nat) : PrintM Bool := do
  let s ← get
  return s.marks.getD m 0 < s.out.line

/-- Moves a mark down by some lines. -/
def shiftMark (m n : Nat) : PrintM Unit :=
  modify fun s => { s with marks := s.marks.modify m (· + n) }

/-- Breaks the line as often as the source does up to the given line, but at least `least` and at
    most two times. `before` is added before the first break, which ends all columns for a new
    section. The answer is the number of breaks, one more for a new section. -/
def breakTo (line least : Nat) (before : Space) (newSection : Bool) : PrintM Nat := do
  let n := max (Sheet.atMostTwo (line - (← get).pos.line)) least
  if n = 0 then return 0
  space before
  if newSection then space .formfeed
  for _ in List.range (if newSection then n - 1 else n) do space .newline
  return if newSection then n + 1 else n

end PrintM
end BridgeCall.Host
