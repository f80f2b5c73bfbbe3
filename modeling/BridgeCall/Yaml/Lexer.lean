/-
  BridgeCall/Yaml/Lexer.lean
  ==========================
  **From characters to tokens.**  The lexer keeps the indentations of the open blocks
  and, for each level of brackets, the place where a key may have started.  A key
  ends on its line.  Where a block mapping needs a key, text without a colon is a
  mistake.

  Tokens are read only as far as they are asked for.  A token is sure once two more
  are read after it and it does not start what may become a key.
-/
import Std.Data.HashMap
import BridgeCall.Yaml.Tag

namespace BridgeCall.Yaml

/-- A place where a key may have started, with the number of its token. -/
structure KeyStart where
  /-- Whether its colon may still come. -/
  possible : Bool := false
  required : Bool := false
  number : Nat := 0
  line : Nat := 0
  column : Nat := 0
  index : Nat := 0
  deriving Inhabited

/-- The state of the lexer. Tokens are numbered from the start of the file. -/
structure Lexer where
  cur : Cursor
  /-- The tokens that are read and not taken. -/
  queue : List Token := [.streamStart]
  /-- The number of tokens taken. -/
  taken : Nat := 0
  /-- Whether the first token of the queue is sure. -/
  isSure : Bool := false
  /-- The last key of each level of brackets, outermost first. -/
  keys : Array KeyStart := #[{}]
  /-- The levels of the keys whose colon is waited for, by the numbers of their tokens. -/
  waiting : Std.HashMap Nat Nat := {}
  indent : Int := -1
  /-- The indentations of the blocks around, innermost first. -/
  outer : List Int := []
  /-- The number of blocks around. -/
  depth : Nat := 0
  keyAllowed : Bool := true

abbrev LexM := StateT Lexer (Except Fault)

namespace LexM

def fail {α : Type} : LexM α := throw .token

def move {α : Type} (m : CursorM α) : LexM α := do
  let s ← get
  let (a, cur) ← m.run s.cur
  set { s with cur }
  return a

def cursor : LexM Cursor := return (← get).cur

def push (t : Token) : LexM Unit := modify fun s => { s with queue := s.queue ++ [t] }

/-- Puts a token in front of the one with the given number, or at the end when that is taken. -/
def pushAt (number : Nat) (t : Token) : LexM Unit :=
  modify fun s =>
    { s with
      queue := if number < s.taken then s.queue ++ [t] else s.queue.insertIdx (number - s.taken) t }

def inFlow : LexM Bool := return 1 < (← get).keys.size

/-- Says whether a key may start next. -/
def allowKey (b : Bool) : LexM Unit := modify fun s => { s with keyAllowed := b }

/-! ### Keys -/

/-- How deep blocks and brackets may nest. -/
def depthLimit : Nat := 10000

/-- The most characters between the start of a key and its colon. -/
def keyLimit : Nat := 1024

def lastKey : LexM KeyStart := return (← get).keys.back?.getD {}

def setKey (level : Nat) (k : KeyStart) : LexM Unit :=
  modify fun s => { s with keys := s.keys.setIfInBounds level k }

def level : LexM Nat := return (← get).keys.size - 1

/-- Waits no longer for the colon of the key with the given number. -/
def forget (number : Nat) : LexM Unit :=
  modify fun s => { s with waiting := s.waiting.erase number }

/-- Gives up the key of the innermost level, which must not be a required one. -/
def dropKey : LexM Unit := do
  let k ← lastKey
  if k.possible then
    if k.required then fail
    setKey (← level) { k with possible := false }
    forget k.number

def nextNumber : LexM Nat := return (← get).taken + (← get).queue.length

def noteKey : LexM Unit := do
  let s ← get
  if s.keyAllowed then
    let number ← nextNumber
    dropKey
    setKey (← level) {
      possible := true
      required := !(← inFlow) && s.indent = s.cur.column
      number
      line := s.cur.line
      column := s.cur.column
      index := s.cur.index }
    let at' ← level
    modify fun s => { s with waiting := s.waiting.insert number at' }

/-- Whether the colon of the key of a level may still come. -/
def keyIsLive (level : Nat) : LexM Bool := do
  let s ← get
  let k := s.keys.getD level {}
  if !k.possible then return false
  else if k.line < s.cur.line || k.index + keyLimit < s.cur.index then
    if k.required then fail
    setKey level { k with possible := false }
    return false
  else return true

/-! ### Blocks -/

/-- Opens a block at a column unless one is open there; its token goes in front of the one with the
    given number, or to the end. -/
def openBlock (column : Nat) (number : Option Nat) (t : Token) : LexM Unit := do
  let s ← get
  if !(← inFlow) && s.indent < column then
    if depthLimit ≤ s.depth then fail
    modify fun s =>
      { s with outer := s.indent :: s.outer, indent := column, depth := s.depth + 1 }
    match number with
    | some n => pushAt n t
    | none => push t

/-- Closes the blocks that are indented more than the column. -/
def closeBlocks (column : Int) : LexM Unit := do
  if !(← inFlow) then
    let s ← get
    let levels := s.indent :: s.outer
    let closed := (levels.takeWhile (column < ·)).length
    if 0 < closed then
      modify fun s =>
        { s with
          queue := s.queue ++ List.replicate closed Token.blockEnd
          indent := (levels.drop closed).headD (-1)
          outer := levels.drop (closed + 1)
          depth := s.depth - closed }

/-! ### Between tokens -/

/-- Moves to the next token. Outside brackets a key may start after a line break, and tabs before it
    are no blanks. -/
def skipBlanks : Nat → LexM Unit
  | 0 => fail
  | fuel + 1 => do
    move (.need 1)
    let c ← cursor
    if c.column = 0 && c.input.marked then move .skip
    let tabs := (← inFlow) || !(← get).keyAllowed
    move (.skipWhile fun ch => ch = ' ' || (tabs && ch = '\t'))
    let c ← cursor
    if c.isAt 0 '#' then move (.skipComments c.size)
    if isBreak ((← cursor).peek 0) then
      let _ ← move .takeBreak
      if !(← inFlow) then allowKey true
      skipBlanks fuel

/-! ### Tokens -/

/-- Closes all blocks before a token that ends a document. -/
def closeAll : LexM Unit := do
  closeBlocks (-1)
  dropKey
  allowKey false

/-- The end of the text, which ends its last line. -/
def fetchEnd : LexM Unit := do
  if (← cursor).column ≠ 0 then
    modify fun s => { s with cur := { s.cur with column := 0, line := s.cur.line + 1 } }
  closeAll
  push .streamEnd

def fetchDirective : LexM Unit := do
  closeAll
  push (← move .readDirective)

def fetchDocumentMark (t : Token) : LexM Unit := do
  closeAll
  move (.skipMany 3)
  push t

def fetchOpen (t : Token) : LexM Unit := do
  noteKey
  let number ← nextNumber
  if depthLimit < (← get).keys.size then fail
  modify fun s => { s with keys := s.keys.push { number } }
  allowKey true
  move .skip
  push t

def fetchClose (t : Token) : LexM Unit := do
  dropKey
  if ← inFlow then
    forget (← lastKey).number
    modify fun s => { s with keys := s.keys.pop }
  allowKey false
  move .skip
  push t

def fetchFlowEntry : LexM Unit := do
  dropKey
  allowKey true
  move .skip
  push .flowEntry

/-- The hyphen in front of an item. -/
def fetchBlockEntry : LexM Unit := do
  if !(← inFlow) then
    if !(← get).keyAllowed then fail
    openBlock (← cursor).column none .blockSequence
  dropKey
  allowKey true
  move .skip
  push .blockEntry

/-- The question mark in front of a key. -/
def fetchKey : LexM Unit := do
  if !(← inFlow) then
    if !(← get).keyAllowed then fail
    openBlock (← cursor).column none .blockMapping
  dropKey
  allowKey (!(← inFlow))
  move .skip
  push .key

def fetchValue : LexM Unit := do
  let at' ← level
  if ← keyIsLive at' then
    let k ← lastKey
    pushAt k.number .key
    openBlock k.column (some k.number) .blockMapping
    setKey at' { k with possible := false }
    forget k.number
    allowKey false
  else
    if !(← inFlow) then
      if !(← get).keyAllowed then fail
      openBlock (← cursor).column none .blockMapping
    allowKey (!(← inFlow))
  move .skip
  push .value

/-- Text that may be a key: a name, a tag or a scalar. -/
def fetchText (read : CursorM Token) : LexM Unit := do
  noteKey
  allowKey false
  push (← move read)

def fetchQuoted (single : Bool) : LexM Unit :=
  fetchText (return .scalar (ofChars (← CursorM.readQuoted single)) false)

def fetchBlockScalar (literal : Bool) : LexM Unit := do
  dropKey
  allowKey true
  let text ← move (.readBlock literal (← get).indent)
  push (.scalar (ofChars text) false)

/-- A plain scalar. A key may follow one that ends after a line break. -/
def fetchPlain : LexM Unit := do
  noteKey
  allowKey false
  let (text, broken) ← move (.readPlain (← inFlow) ((← get).indent + 1).toNat)
  if broken then allowKey true
  push (.scalar (ofChars text) true)

/-- The characters that start no plain scalar. -/
def indicators : List Char :=
  "-?:,[]\x7b\x7d#&*!|>%@`".toList ++ [singleQuote, doubleQuote]

def startsPlain (flow : Bool) (c : Cursor) : Bool :=
  (!c.isGap 0 && !indicators.contains (c.peek 0)) ||
  (c.isAt 0 '-' && !isBlank (c.peek 1)) ||
  (!flow && (c.isAt 0 '?' || c.isAt 0 ':') && !c.isGap 1)

/-- Reads a token inside a document. -/
def fetchInside (flow : Bool) (c : Cursor) : LexM Unit :=
  if c.isAt 0 '[' then fetchOpen .flowSequence
  else if c.isAt 0 openBrace then fetchOpen .flowMapping
  else if c.isAt 0 ']' then fetchClose .flowSequenceEnd
  else if c.isAt 0 closeBrace then fetchClose .flowMappingEnd
  else if c.isAt 0 ',' then fetchFlowEntry
  else if c.isAt 0 '-' && c.isGap 1 then fetchBlockEntry
  else if c.isAt 0 '?' && (flow || c.isGap 1) then fetchKey
  else if c.isAt 0 ':' && (flow || c.isGap 1) then fetchValue
  else if c.isAt 0 '*' then fetchText (return .reference (← CursorM.readName))
  else if c.isAt 0 '&' then fetchText (return .anchor (← CursorM.readName))
  else if c.isAt 0 '!' then fetchText .readTag
  else if c.isAt 0 '|' && !flow then fetchBlockScalar true
  else if c.isAt 0 '>' && !flow then fetchBlockScalar false
  else if c.isAt 0 singleQuote then fetchQuoted true
  else if c.isAt 0 doubleQuote then fetchQuoted false
  else if startsPlain flow c then fetchPlain
  else fail

/-- Reads the next token. A comment may follow one inside a document on its line; that after a hyphen
    belongs to what comes next. -/
def fetch : LexM Unit := do
  skipBlanks (← cursor).size
  closeBlocks (← cursor).column
  move (.need 4)
  let c ← cursor
  if c.isEnd then fetchEnd
  else if c.column = 0 && c.isAt 0 '%' then fetchDirective
  else if c.isTripleMark '-' then fetchDocumentMark .documentStart
  else if c.isTripleMark '.' then fetchDocumentMark .documentEnd
  else
    fetchInside (← inFlow) c
    if (← get).queue.getLast? ≠ some .blockEntry then move .skipLineComment

/-- How many tokens are read ahead of the one that is looked at. -/
def lookahead : Nat := 2

/-- Reads tokens until the first of the queue is sure. -/
def settle : Nat → LexM Unit
  | 0 => fail
  | fuel + 1 => do
    let s ← get
    if lookahead < s.queue.length then
      match s.waiting[s.taken]? with
      | none => return
      | some level =>
        if ← keyIsLive level then
          fetch
          settle fuel
    else
      fetch
      settle fuel

def peek : LexM Token := do
  if !(← get).isSure then
    settle (← cursor).size
    modify fun s => { s with isSure := true }
  return (← get).queue.headD .streamEnd

/-- Takes the next token. -/
def skip : LexM Unit :=
  modify fun s => { s with queue := s.queue.tail, taken := s.taken + 1, isSure := false }

end LexM
end BridgeCall.Yaml
