/-
  BridgeCall/Expr/Position.lean
  =============================
  **Places in a file.**  A position counts bytes: an offset from the start of the
  file, a line and a column, both from one.  A call expression may be embedded
  in a larger file, so it starts at any position.
-/
import BridgeCall.Text.Bytes

namespace BridgeCall

structure Position where
  file : Bytes := []
  offset : Int := 0
  line : Int := 0
  column : Int := 0
  deriving DecidableEq, Repr, Inhabited

/-- A stretch of a file, from `start` up to but without `stop`. -/
structure Span where
  start : Position
  stop : Position
  deriving DecidableEq, Repr, Inhabited

namespace Position

/-- Where an expression starts that is given without a place. -/
def origin : Position := { line := 1, column := 1 }

/-- Line and column, after the file's name when there is one. -/
def render (p : Position) : Bytes :=
  let place := Bytes.ofInt p.line ++ (":" : Bytes) ++ Bytes.ofInt p.column
  if p.file.isEmpty then place else p.file ++ (":" : Bytes) ++ place

/-- The place after one more byte: a line feed starts the next line. -/
def step (p : Position) (b : UInt8) : Position :=
  if b = 0x0a then { p with offset := p.offset + 1, line := p.line + 1, column := 1 }
  else { p with offset := p.offset + 1, column := p.column + 1 }

def advance (p : Position) (bs : Bytes) : Position := bs.foldl step p

/-- A line or column that was left out counts as the first. -/
def orFirst (p : Position) : Position :=
  { p with
    line := if p.line = 0 then 1 else p.line
    column := if p.column = 0 then 1 else p.column }

@[simp] theorem advance_nil (p : Position) : p.advance [] = p := rfl

@[simp] theorem advance_append (p : Position) (as bs : Bytes) :
    p.advance (as ++ bs) = (p.advance as).advance bs := by
  simp [advance]

end Position

def Span.to (a b : Span) : Span := ⟨a.start, b.stop⟩

/-- A text together with the place of its first byte. -/
structure Source where
  text : Bytes
  start : Position
  deriving DecidableEq, Repr

/-- The text between two places, empty when they are not in order or not inside. -/
def Source.cut (s : Source) (a b : Position) : Bytes :=
  let i := a.offset - s.start.offset
  let j := b.offset - s.start.offset
  if i < 0 ∨ (s.text.length : Int) < j ∨ j < i then []
  else Bytes.slice i.toNat j.toNat s.text

end BridgeCall
