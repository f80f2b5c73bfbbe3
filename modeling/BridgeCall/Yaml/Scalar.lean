/-
  BridgeCall/Yaml/Scalar.lean
  ===========================
  **The text of scalars.**  Plain and quoted scalars may go over several lines: a
  single line break becomes a space, and of more line breaks all but the first are
  kept.  Block scalars keep their lines, or fold them by a similar rule, and their
  header says what becomes of the line breaks at the end.

  Text that is being read is kept with its last character first.
-/
import BridgeCall.Yaml.Cursor

namespace BridgeCall.Yaml

/-- What stands between two words of a scalar: blanks, or line breaks with the blanks around them. -/
structure Gap where
  blanks : List Char := []
  first : List Char := []
  more : List Char := []
  broken : Bool := false

def Gap.fold (g : Gap) : List Char :=
  if !g.broken then g.blanks
  else if g.first.head? = some '\n' then (if g.more.isEmpty then [' '] else g.more)
  else g.more ++ g.first

namespace CursorM

/-- Reads on over blanks and line breaks. A tab left of `indent` at the start of a line is refused. -/
def readGap (indent : Nat) : Nat → Gap → CursorM Gap
  | 0, g => return g
  | fuel + 1, g => do
    let c ← get
    let ch := c.peek 0
    if isBlank ch then
      if g.broken && ch = '\t' && c.column < indent then fail
      skip
      need 1
      readGap indent fuel (if g.broken then g else { g with blanks := ch :: g.blanks })
    else if isBreak ch then
      let b ← takeBreak
      need 1
      readGap indent fuel
        (if g.broken then { g with more := b ++ g.more }
        else { g with blanks := [], first := b, broken := true })
    else return g

/-! ### Quoted scalars -/

def hexNumber? (cs : List Char) : Option Nat :=
  cs.foldlM (fun n c => (Bytes.hexValue? c.toNat.toUInt8).bind fun d =>
    if c.toNat < 0x80 then some (16 * n + d) else none) 0

def escapeTable : List (Char × Nat) :=
  [('0', 0), ('a', 7), ('b', 8), ('t', 9), ('\t', 9), ('n', 10), ('v', 11), ('f', 12), ('r', 13),
    ('e', 0x1b), (' ', 0x20), (doubleQuote, 0x22), (singleQuote, 0x27), (backslash, 0x5c),
    ('N', 0x85), ('_', 0xa0), ('L', 0x2028), ('P', 0x2029)]

/-- The number of digits of an escape by number. -/
def escapeSize? (c : Char) : Option Nat :=
  if c = 'x' then some 2 else if c = 'u' then some 4 else if c = 'U' then some 8 else none

def readEscape : CursorM Char := do
  let e := (← get).peek 1
  match escapeTable.lookup e with
  | some n =>
    skipMany 2
    return Char.ofNat n
  | none =>
    match escapeSize? e with
    | none => fail
    | some size =>
      skipMany 2
      need size
      match hexNumber? ((List.range size).map (← get).peek) with
      | none => fail
      | some n =>
        if !Utf8.isScalar n then fail
        skipMany size
        return Char.ofNat n

/-- Reads a quoted scalar up to a gap or its end; tells whether an escaped line break ended it. -/
def readQuotedWord (single : Bool) : Nat → List Char → CursorM (List Char × Bool)
  | 0, _ => fail
  | fuel + 1, acc => do
    let c ← get
    let ch := c.peek 0
    if c.isGap 0 then return (acc, false)
    else if single then
      if ch ≠ singleQuote then
        skip
        need 2
        readQuotedWord single fuel (ch :: acc)
      else if c.isAt 1 singleQuote then
        skipMany 2
        need 2
        readQuotedWord single fuel (singleQuote :: acc)
      else return (acc, false)
    else if ch = doubleQuote then return (acc, false)
    else if ch = backslash then
      if isBreak (c.peek 1) then
        need 3
        skip
        let _ ← takeBreak
        return (acc, true)
      else
        let e ← readEscape
        need 2
        readQuotedWord single fuel (e :: acc)
    else
      skip
      need 2
      readQuotedWord single fuel (ch :: acc)

def readQuotedFrom (single : Bool) : Nat → List Char → CursorM (List Char)
  | 0, _ => fail
  | fuel + 1, acc => do
    need 4
    let c ← get
    if c.isDocumentMark || c.isEnd then fail
    let (acc, broken) ← readQuotedWord single c.size acc
    need 1
    if (← char) = (if single then singleQuote else doubleQuote) then
      skip
      return acc
    else
      let g ← readGap 0 c.size { broken }
      readQuotedFrom single fuel (g.fold ++ acc)

def readQuoted (single : Bool) : CursorM (List Char) := do
  skip
  return (← readQuotedFrom single (← get).size []).reverse

/-! ### Plain scalars -/

/-- Whether a plain scalar ends before the character here; `inFlow` holds inside brackets. -/
def endsPlain (inFlow : Bool) (c : Cursor) : Bool :=
  c.isGap 0 || (c.isAt 0 ':' && c.isGap 1) ||
    (inFlow && [',', '?', '[', ']', openBrace, closeBrace].contains (c.peek 0))

def readPlainWord (inFlow : Bool) : Nat → List Char → CursorM (List Char)
  | 0, acc => return acc
  | fuel + 1, acc => do
    let c ← get
    if endsPlain inFlow c then return acc
    else
      skip
      need 2
      readPlainWord inFlow fuel (c.peek 0 :: acc)

/-- Reads a plain scalar, and tells whether it ended after a line break. `indent` is the least column
    of its further lines, and the gap stands before its next word. -/
def readPlainFrom (inFlow : Bool) (indent : Nat) :
    Nat → List Char → Gap → CursorM (List Char × Bool)
  | 0, acc, g => return (acc, g.broken)
  | fuel + 1, acc, g => do
    need 4
    let c ← get
    if c.isDocumentMark || c.isAt 0 '#' then return (acc, g.broken)
    else
      let word ← readPlainWord inFlow c.size []
      let acc := if word.isEmpty then acc else word ++ g.fold ++ acc
      let g := if word.isEmpty then g else {}
      let ch ← char
      if !(isBlank ch || isBreak ch) then return (acc, g.broken)
      else
        need 1
        let g ← readGap indent c.size g
        if !inFlow && (← get).column < indent then return (acc, g.broken)
        else readPlainFrom inFlow indent fuel acc g

def readPlain (inFlow : Bool) (indent : Nat) : CursorM (List Char × Bool) := do
  let (text, broken) ← readPlainFrom inFlow indent (← get).size [] {}
  return (text.reverse, broken)

/-! ### Block scalars -/

/-- What becomes of the line breaks at the end of a block scalar. -/
inductive Chomp where
  | clip
  | strip
  | keep
  deriving DecidableEq

/-- Reads the sign that gives the chomping, which may be missing. -/
def readChomp : CursorM Chomp := do
  need 1
  match ← char with
  | '+' =>
    skip
    return .keep
  | '-' =>
    skip
    return .strip
  | _ => return .clip

/-- Reads the digit that gives the indentation; zero when it is missing. -/
def readIndent : CursorM Nat := do
  need 1
  let d ← char
  if !d.isDigit then return 0
  else if d = '0' then fail
  else
    skip
    return d.toNat - 0x30

/-- Reads the header of a block scalar: the chomping and the indentation, in either order. -/
def readBlockHeader : CursorM (Chomp × Nat) := do
  let k ← readChomp
  let n ← readIndent
  if k = .clip && n ≠ 0 then return (← readChomp, n) else return (k, n)

/-- Moves over blanks and a comment to the next line; nothing else may follow on this one. -/
def skipToNextLine : CursorM Unit := do
  skipWhile isBlank
  if (← char) = '#' then skipRest
  if isInLine (← char) then fail
  if isBreak (← char) then
    let _ ← takeBreak

/-- Reads line breaks and indentation before a line of a block scalar; `indent` is zero while it is
    not known, and `widest` the widest indentation seen. A tab in the indentation is refused. -/
def readBlockBreaks (indent : Nat) : Nat → Nat → List Char → CursorM (Nat × List Char)
  | 0, widest, breaks => return (widest, breaks)
  | fuel + 1, widest, breaks => do
    need 1
    let c ← get
    let room := if indent = 0 then c.size else indent - c.column
    let _ ← readWhileFrom (· = ' ') room []
    let c ← get
    let widest := max widest c.column
    if (indent = 0 || c.column < indent) && c.isAt 0 '\t' then fail
    if isBreak (c.peek 0) then
      let b ← takeBreak
      readBlockBreaks indent fuel widest (b ++ breaks)
    else return (widest, breaks)

/-- The text of a block scalar with what follows its last line. -/
structure BlockText where
  text : List Char := []
  /-- The line break of the last line. -/
  first : List Char := []
  /-- The empty lines after it. -/
  more : List Char := []

/-- Reads the lines of a block scalar; `afterBlank` says whether the line before started with a
    blank. -/
def readBlockLines (literal : Bool) (indent : Nat) : Nat → BlockText → Bool → CursorM BlockText
  | 0, t, _ => return t
  | fuel + 1, t, afterBlank => do
    need 1
    let c ← get
    if c.column ≠ indent || c.isEnd then return t
    else
      let blank := isBlank (c.peek 0)
      let joint :=
        if !literal && !afterBlank && !blank && t.first.head? = some '\n' then
          (if t.more.isEmpty then [' '] else [])
        else t.first
      let line ← readWhileFrom isInLine c.size []
      let first ← takeBreak
      let (_, more) ← readBlockBreaks indent c.size 0 []
      readBlockLines literal indent fuel
        { text := line ++ t.more ++ joint ++ t.text, first, more } blank

/-- Reads a block scalar. `outer` is the indentation of the block around it. -/
def readBlock (literal : Bool) (outer : Int) : CursorM (List Char) := do
  skip
  let (chomp, given) ← readBlockHeader
  skipToNextLine
  let size := (← get).size
  let wanted := if given = 0 then 0 else (max outer 0).toNat + given
  let (widest, more) ← readBlockBreaks wanted size 0 []
  let indent := if wanted = 0 then max (max widest (outer + 1).toNat) 1 else wanted
  let t ← readBlockLines literal indent size { more } false
  let text := if chomp = .strip then t.text else t.first ++ t.text
  return (if chomp = .keep then t.more ++ text else text).reverse

end CursorM
end BridgeCall.Yaml
