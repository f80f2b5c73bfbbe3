/-
  BridgeCall/Host/Columns.lean
  ============================
  **Aligning cells in columns.**  A text is cut into lines and the lines into cells
  that tabs end.  A column is a run of neighbouring lines that have a cell at the
  same place; its cells are filled with blanks to one width, one blank wider than
  the widest cell.  A column of empty cells that no hard tab ends takes no room.
  Empty cells at the start of a line are filled with tabs.

  A form feed ends a line and all columns; so does the end of a line of a single
  cell.  Text between two marks counts as it stands, whatever it holds.

  `trim` removes the marks and the blanks at the ends of lines.
-/
import BridgeCall.Text.Utf8

namespace BridgeCall.Host.Columns

/-- The mark around text that is to be kept as it stands. -/
def keepMark : UInt8 := 0xFF

/-- A cell: its text, its width in characters, and whether a hard tab ends it. -/
structure Cell where
  text : Bytes
  width : Nat
  hard : Bool
  deriving DecidableEq, Repr

/-- The number of blanks between a column's widest cell and the next column. -/
def padding : Nat := 1

def tabWidth : Nat := 8

/-- The width of a cell's text, without its marks. -/
def widthOf (text : Bytes) : Nat :=
  (Utf8.runes (text.filter (· ≠ keepMark))).length

def fill (textWidth colWidth : Nat) (tabs : Bool) : Bytes :=
  if tabs then
    let whole := (colWidth + tabWidth - 1) / tabWidth * tabWidth
    List.replicate ((whole - textWidth + tabWidth - 1) / tabWidth) 0x09
  else List.replicate (colWidth - textWidth) 0x20

/-- A line with its cells filled to the widths of the columns; `tabs` holds until the first cell
    with text. -/
def writeCells (tabs : Bool) : List Nat → List Cell → Bytes
  | _, [] => []
  | [], c :: cs => c.text ++ writeCells (tabs && c.text.isEmpty) [] cs
  | w :: ws, c :: cs =>
    c.text ++ fill c.width w (tabs && c.text.isEmpty)
      ++ writeCells (tabs && c.text.isEmpty) ws cs

/-- Whether a line has a cell in the column. The last cell of a line belongs to no column. -/
def reaches (column : Nat) (line : List Cell) : Bool := column + 1 < line.length

def columnWidth (column : Nat) (lines : List (List Cell)) : Nat :=
  let cells := lines.filterMap (·[column]?)
  if cells.all fun c => c.width = 0 && !c.hard then 0
  else cells.foldl (fun w c => max w (c.width + padding)) 0

/-- Writes lines whose first columns have the given widths, each line with a line feed. The columns
    after them are laid out over the runs of lines that reach them. -/
def layout : Nat → List Nat → List (List Cell) → Bytes
  | 0, widths, lines => lines.flatMap fun l => writeCells true widths l ++ [0x0a]
  | depth + 1, widths, lines =>
    (lines.splitBy fun a b => reaches widths.length a == reaches widths.length b).flatMap fun run =>
      if run.any (reaches widths.length) then
        layout depth (widths ++ [columnWidth widths.length run]) run
      else run.flatMap fun l => writeCells true widths l ++ [0x0a]

def section' (lines : List (List Cell)) : Bytes :=
  layout (lines.foldl (fun n l => max n l.length) 0) [] lines

/-- What has been read: the section's lines and the line's cells, last first, and the text of the
    cell, last byte first. `kept` holds between two marks. -/
structure Reading where
  lines : List (List Cell) := []
  cells : List Cell := []
  cell : Bytes := []
  kept : Bool := false
  written : List Bytes := []

/-- The cell that has been read, ended by a hard tab or not. -/
def Reading.endCell (r : Reading) (hard : Bool) : List Cell :=
  let text := r.cell.reverse
  ⟨text, widthOf text, hard⟩ :: r.cells

def Reading.step (r : Reading) (b : UInt8) : Reading :=
  if r.kept then { r with cell := b :: r.cell, kept := b ≠ keepMark }
  else if b = keepMark then { r with cell := b :: r.cell, kept := true }
  else if b = 0x09 ∨ b = 0x0b then { r with cells := r.endCell (b = 0x09), cell := [] }
  else if b = 0x0a ∨ b = 0x0c then
    let cells := r.endCell false
    let lines := cells.reverse :: r.lines
    if b = 0x0c ∨ cells.length = 1 then
      { written := section' lines.reverse :: r.written }
    else { r with lines, cells := [], cell := [] }
  else { r with cell := b :: r.cell }

/-- The text with its cells aligned. The last line has no line feed of its own. -/
def align (text : Bytes) : Bytes :=
  let r := text.foldl Reading.step {}
  let last := if r.cell.isEmpty then r.cells else r.endCell false
  let rest :=
    if r.lines.isEmpty && last.isEmpty then []
    else (section' ((last.reverse :: r.lines).reverse)).dropLast
  (rest :: r.written).reverse.flatten

/-- Where the trimming of blanks stands: `spaces` are blanks not yet written, last first. -/
inductive Trimming where
  | text
  | kept
  | blank (spaces : Bytes)

/-- Removes the marks and the blanks before line ends. -/
def trimFrom : Trimming → Bytes → Bytes
  | _, [] => []
  | .kept, b :: rest =>
    if b = keepMark then trimFrom (.blank []) rest else b :: trimFrom .kept rest
  | .text, b :: rest =>
    if b = 0x09 ∨ b = 0x0b then trimFrom (.blank [0x09]) rest
    else if b = 0x20 then trimFrom (.blank [0x20]) rest
    else if b = 0x0a ∨ b = 0x0c then 0x0a :: trimFrom (.blank []) rest
    else if b = keepMark then trimFrom .kept rest
    else b :: trimFrom .text rest
  | .blank spaces, b :: rest =>
    if b = 0x09 ∨ b = 0x0b then trimFrom (.blank (0x09 :: spaces)) rest
    else if b = 0x20 then trimFrom (.blank (0x20 :: spaces)) rest
    else if b = 0x0a ∨ b = 0x0c then 0x0a :: trimFrom (.blank []) rest
    else if b = keepMark then spaces.reverse ++ trimFrom .kept rest
    else spaces.reverse ++ b :: trimFrom .text rest

/-- Removes the marks and the blanks at the ends of lines; every line end becomes a line feed. -/
def trim (text : Bytes) : Bytes := trimFrom (.blank []) text

end BridgeCall.Host.Columns
