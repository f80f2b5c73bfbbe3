/-
  BridgeCall/Host/DocInline.lean
  ==============================
  **Running text in doc comments.**  Two back quotes and two single quotes are
  written as typographic quotes.  Targets that stand open in the text are kept as
  they are, and so are three back quotes, the mark of code elsewhere.  A text in
  brackets that a definition names is a link, and is read on its own.
-/
import BridgeCall.Text.Space
import BridgeCall.Text.Letter

namespace BridgeCall.Host.DocInline

/-! ### Targets -/

def schemes : List Bytes := ["file", "ftp", "gopher", "http", "https", "mailto", "nntp"]

def isAlnum (b : UInt8) : Bool :=
  Bytes.isDigit b || (0x41 ≤ b && b ≤ 0x5a) || (0x61 ≤ b && b ≤ 0x7a)

def isHost (b : UInt8) : Bool := isAlnum b || ("_@-.[]:" : Bytes).contains b

/-- A sign that may stand inside a target and not at its end. -/
def isSign (b : UInt8) : Bool := (".,:;?!" : Bytes).contains b

def isPath (b : UInt8) : Bool := isAlnum b || ("$'()*+&#=@~_/-[]\x7b\x7d%" : Bytes).contains b

/-- The brackets that are open after a byte, by what closes them; none when it closes another one. -/
def nest (closers : Bytes) (b : UInt8) : Option Bytes :=
  match b with
  | 0x28 => some (0x29 :: closers)
  | 0x7b => some (0x7d :: closers)
  | 0x5b => some (0x5d :: closers)
  | _ =>
    if b = 0x29 || b = 0x7d || b = 0x5d then
      if closers.head? = some b then some closers.tail else none
    else some closers

/-- The size of the path that a text starts with: brackets in it match, and it ends in no sign. `n`
    bytes have been read, and `size` of them belong to it. -/
def pathSize (closers : Bytes) (n size : Nat) : Bytes → Nat
  | [] => size
  | b :: rest =>
    if isSign b then pathSize closers (n + 1) size rest
    else if !isPath b then size
    else match nest closers b with
      | none => size
      | some closers => pathSize closers (n + 1) (if closers.isEmpty then n + 1 else size) rest

def targetSize? (text : Bytes) : Option Nat := do
  let scheme ← schemes.find? fun s => Bytes.startsWith (s ++ "://") text
  let rest := text.drop (scheme.length + 3)
  let host := Bytes.trimRight isSign (rest.takeWhile isHost)
  if host.isEmpty || rest.head?.any isSign then none
  else
    let size := scheme.length + 3 + host.length
    some (size + pathSize [] 0 0 (text.drop size))

def wordSize (text : Bytes) : Nat :=
  let span := text.takeWhile fun b => isAlnum b || b = 0x5f || 0x80 ≤ b
  if span.head?.any Bytes.isDigit then 0
  else
    let word := (Utf8.runes span).takeWhile fun r => r.1 < 0x80 || Unicode.isLetter r.1
    (word.flatMap fun r => r.2).length

/-! ### Quotes -/

/-- How many bytes at the start of a text are kept; none for two quotes that are replaced. `i` is
    the place of the text: back quotes after the third are looked for that much further on. -/
def keptSize (isOpen : Bool) (i : Nat) (text : Bytes) : Nat :=
  match (if isOpen then targetSize? text else none) with
  | some n => n
  | none =>
    let word := if isOpen then wordSize text else 0
    if 0 < word then word
    else match text with
      | 0x60 :: 0x60 :: 0x60 :: _ => 3 + ((text.drop (i + 3)).takeWhile (· = 0x60)).length
      | 0x60 :: 0x60 :: _ | 0x27 :: 0x27 :: _ => 0
      | _ => 1

/-- Writes quotes from the `i`-th byte of a text on. -/
def quotesFrom (isOpen : Bool) (i : Nat) : Bytes → Bytes
  | [] => []
  | b :: rest =>
    match keptSize isOpen i (b :: rest) with
    | 0 => (if b = 0x60 then "“" else "”" : Bytes) ++ quotesFrom isOpen (i + 2) (rest.drop 1)
    | n + 1 => b :: rest.take n ++ quotesFrom isOpen (i + n + 1) (rest.drop n)
termination_by text => text.length
decreasing_by all_goals simp only [List.length_drop, List.length_cons]; omega

/-- A text with typographic quotes. Targets and words count only where the text stands open. -/
def quotes (isOpen : Bool) (text : Bytes) : Bytes := quotesFrom isOpen 0 text

/-! ### Links -/

/-- A running text being read: what is written, last piece first, the piece read since, the text of
    the open bracket, and the label that is looked up, all last byte first. -/
structure Reading where
  written : List Bytes := []
  piece : Bytes := []
  inner : Option Bytes := none
  label : Bytes := []
  used : List Bytes := []

/-- Reads one byte. A second opening bracket starts the text anew, but not the label. -/
def Reading.step (labels : List Bytes) (r : Reading) (b : UInt8) : Reading :=
  match b with
  | 0x5b => { r with piece := b :: r.piece, inner := some [] }
  | 0x5d =>
    match r.inner with
    | some inner =>
      let label := r.label.reverse
      if labels.contains label then
        let before := (r.piece.drop (inner.length + 1)).reverse
        let link : Bytes := "[" ++ quotes false inner.reverse ++ "]"
        { written := link :: quotes true before :: r.written, used := label :: r.used }
      else { r with piece := b :: r.piece, inner := none, label := [] }
    | none => { r with piece := b :: r.piece, label := [] }
  | _ =>
    let space : UInt8 := if b = 0x0a || b = 0x09 then 0x20 else b
    { r with
      piece := b :: r.piece
      inner := r.inner.map (b :: ·)
      label := if r.inner.isSome then space :: r.label else r.label }

/-- A running text in normal form, and the labels of its links. -/
def read (labels : List Bytes) (text : Bytes) : Bytes × List Bytes :=
  let r := text.foldl (Reading.step labels) {}
  ((quotes true r.piece.reverse :: r.written).reverse.flatten, r.used)

end BridgeCall.Host.DocInline
