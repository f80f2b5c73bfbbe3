/-
  BridgeCall/Yaml/Cursor.lean
  ===========================
  **The place in a settings file.**  A cursor looks ahead as far as characters were
  asked for, and moves on character by character or over a whole line break.  It
  also knows how to pass comments, on its line or on the lines after it.
-/
import BridgeCall.Yaml.Input

namespace BridgeCall.Yaml

/-- A place: what is to be read, the line and column of its first character, and the number of
    characters before it. -/
structure Cursor where
  input : Input
  line : Nat := 0
  column : Nat := 0
  index : Nat := 0
  /-- Whether only blanks are between the last line break and this place. -/
  isFresh : Bool := false
  /-- More than the number of characters in the file. -/
  size : Nat

namespace Cursor

def ofBytes (bytes : Bytes) : Cursor := { input := .ofBytes bytes, size := bytes.length + 16 }

/-- The character `n` places ahead; past the end it is the null character. -/
def peek (c : Cursor) (n : Nat) : Char := (c.input.ready[n]?).getD nul

/-- Whether the given character is `n` places ahead. -/
def isAt (c : Cursor) (n : Nat) (ch : Char) : Bool := c.peek n = ch

/-- Whether a blank, a line break or the end is `n` places ahead. -/
def isGap (c : Cursor) (n : Nat) : Bool := isBlank (c.peek n) || !isInLine (c.peek n)

def isEnd (c : Cursor) : Bool := c.isAt 0 nul

/-- Whether the line starts with the given mark three times. -/
def isTripleMark (c : Cursor) (ch : Char) : Bool :=
  c.column = 0 && c.isAt 0 ch && c.isAt 1 ch && c.isAt 2 ch && c.isGap 3

/-- Whether a document starts or ends here. -/
def isDocumentMark (c : Cursor) : Bool := c.isTripleMark '-' || c.isTripleMark '.'

/-- The place after one character of a line. -/
def skip (c : Cursor) : Cursor :=
  { c with
    input := { c.input with ready := c.input.ready.drop 1 }
    column := c.column + 1
    index := c.index + 1
    isFresh := c.isFresh && isBlank (c.peek 0) }

/-- The place after a line break of `n` characters. -/
def skipLine (c : Cursor) (n : Nat) : Cursor :=
  { c with
    input := { c.input with ready := c.input.ready.drop n }
    line := c.line + 1
    column := 0
    index := c.index + n
    isFresh := true }

/-- The characters that a line break stands for, and the place after it. Without a line break
    nothing is read. -/
def takeBreak (c : Cursor) : List Char × Cursor :=
  let b := c.peek 0
  if b = '\r' && c.isAt 1 '\n' then (['\n'], c.skipLine 2)
  else if b.toNat = 0x2028 || b.toNat = 0x2029 then ([b], c.skipLine 1)
  else if isBreak b then (['\n'], c.skipLine 1)
  else ([], c)

end Cursor

/-- Moving through a file. -/
abbrev CursorM := StateT Cursor (Except Fault)

namespace CursorM

def fail {α : Type} : CursorM α := throw .token

/-- Makes `n` characters ready. -/
def need (n : Nat) : CursorM Unit := do
  let c ← get
  let input ← c.input.need n
  set { c with input }

def char : CursorM Char := return (← get).peek 0

def skip : CursorM Unit := modify Cursor.skip

def skipMany : Nat → CursorM Unit
  | 0 => return
  | n + 1 => do
    skip
    skipMany n

/-- Moves over a line break and gives the characters it stands for. -/
def takeBreak : CursorM (List Char) := do
  need 2
  let (b, c) := (← get).takeBreak
  set c
  return b

/-- Reads characters that satisfy `p`, of which there are fewer than the fuel; the last one first, in
    front of `acc`. -/
def readWhileFrom (p : Char → Bool) : Nat → List Char → CursorM (List Char)
  | 0, acc => return acc
  | fuel + 1, acc => do
    let ch ← char
    if p ch then
      skip
      need 1
      readWhileFrom p fuel (ch :: acc)
    else return acc

/-- Reads the characters that satisfy `p`. -/
def readWhile (p : Char → Bool) : CursorM (List Char) := do
  need 1
  return (← readWhileFrom p (← get).size []).reverse

/-- Moves over the characters that satisfy `p`. -/
def skipWhile (p : Char → Bool) : CursorM Unit := do
  let _ ← readWhile p

/-! ### Comments -/

/-- The greatest distance at which a comment is looked for. -/
def commentReach : Nat := 512

def skipRest : CursorM Unit := skipWhile isInLine

/-- How far ahead the line has a comment, with blanks before it. -/
def commentOnLine : Nat → Nat → CursorM (Option Nat)
  | 0, _ => return none
  | fuel + 1, n => do
    need (n + 1)
    let ch := (← get).peek n
    if isBlank ch then commentOnLine fuel (n + 1)
    else return if ch = '#' then some n else none

/-- Moves over a comment after blanks on the line, unless the line has just started. -/
def skipLineComment : CursorM Unit := do
  if !(← get).isFresh then
    match ← commentOnLine commentReach 0 with
    | some n =>
      skipMany n
      skipRest
    | none => return

/-- How far ahead there is a comment, with blanks and line breaks before it. Line breaks of more than
    one byte end the search. -/
def commentAhead : Nat → Nat → CursorM (Option Nat)
  | 0, _ => return none
  | fuel + 1, n => do
    need (n + 1)
    let ch := (← get).peek n
    if isBlank ch || ch = '\n' || ch = '\r' then commentAhead fuel (n + 1)
    else if isBreak ch then
      if 0 < fuel then need (n + 2)
      return none
    else return if ch = '#' then some n else none

def skipTo (index : Nat) : Nat → CursorM Unit
  | 0 => fail
  | fuel + 1 => do
    need 1
    if (← get).index < index then
      if isBreak (← char) then
        let _ ← takeBreak
      else skip
      skipTo index fuel

/-- Moves over the comment here and over comments on the lines after it. -/
def skipComments : Nat → CursorM Unit
  | 0 => fail
  | fuel + 1 => do
    skipRest
    need 2
    match ← commentAhead commentReach 0 with
    | some n =>
      let c ← get
      skipTo (c.index + n) c.size
      skipComments fuel
    | none => return

end CursorM
end BridgeCall.Yaml
