/-
  BridgeCall/Yaml/Tag.lean
  ========================
  **Tags, names and directives.**  A tag is a handle between exclamation marks and a
  suffix, or a full name in angle brackets.  Directives give the version of the
  notation and the meaning of handles.
-/
import BridgeCall.Yaml.Scalar

namespace BridgeCall.Yaml.CursorM

/-- Reads a tag handle: a word between exclamation marks. That of a directive must be complete. -/
def readHandle (directive : Bool) : CursorM (List Char) := do
  need 1
  if (← char) ≠ '!' then fail
  skip
  let word ← readWhile isWordChar
  if (← char) = '!' then
    skip
    return '!' :: word ++ ['!']
  else if directive && !word.isEmpty then fail
  else return '!' :: word

/-- The characters of a tag besides those of words. -/
def tagChars : List Char := ";/?:@&=+$,.!~*()[]".toList ++ [singleQuote]

/-- Reads a byte written as a percent sign and two digits. -/
def readPercentByte : CursorM UInt8 := do
  need 3
  let c ← get
  if !c.isAt 0 '%' then fail
  match hexNumber? [c.peek 1, c.peek 2] with
  | none => fail
  | some n =>
    skipMany 3
    return n.toUInt8

def readTrail : Nat → CursorM Bytes
  | 0 => return []
  | n + 1 => do
    let b ← readPercentByte
    if !isTrail b then fail
    return b :: (← readTrail n)

def readTagRest : Nat → Bytes → CursorM Bytes
  | 0, acc => return acc
  | fuel + 1, acc => do
    need 1
    let ch ← char
    if ch = '%' then
      let b ← readPercentByte
      if leadSize b = 0 then fail
      let trail ← readTrail (leadSize b - 1)
      readTagRest fuel (acc ++ b :: trail)
    else if isWordChar ch || tagChars.contains ch then
      skip
      readTagRest fuel (acc ++ Utf8.encode ch.toNat)
    else return acc

/-- Reads the rest of a tag that must not be empty. -/
def readSuffix : CursorM Bytes := do
  let suffix ← readTagRest (← get).size []
  if suffix.isEmpty then fail
  return suffix

/-- Reads a tag: handle and suffix. -/
def readTag : CursorM Token := do
  need 2
  let t ←
    if (← get).isAt 1 '<' then
      skipMany 2
      let suffix ← readSuffix
      if (← char) ≠ '>' then fail
      skip
      pure (Token.tag [] suffix)
    else
      let handle ← readHandle false
      if 1 < handle.length && handle.getLast? = some '!' then
        pure (Token.tag (ofChars handle) (← readSuffix))
      else
        let suffix ← readTagRest (← get).size (ofChars (handle.drop 1))
        pure (if suffix.isEmpty then Token.tag [] "!" else Token.tag "!" suffix)
  need 1
  if !(← get).isGap 0 then fail
  return t

/-- Reads the name of an anchor or of a reference after its mark. -/
def readName : CursorM Bytes := do
  skip
  let name ← readWhile isWordChar
  let c ← get
  if name.isEmpty || !(c.isGap 0 || ("?:,]\x7d%@`".toList).contains (c.peek 0)) then fail
  return ofChars name

/-- Reads a number of a version: one or two digits. -/
def readVersionNumber : CursorM Nat := do
  let ds ← readWhile Char.isDigit
  if ds.isEmpty || 2 < ds.length then fail
  return ds.foldl (fun n d => 10 * n + (d.toNat - 0x30)) 0

def readDirective : CursorM Token := do
  skip
  let name ← readWhile isWordChar
  if name.isEmpty || !(← get).isGap 0 then fail
  skipWhile isBlank
  let t ←
    if name = "YAML".toList then
      let major ← readVersionNumber
      if (← char) ≠ '.' then fail
      skip
      pure (Token.version major (← readVersionNumber))
    else if name = "TAG".toList then
      let handle ← readHandle true
      need 1
      if !isBlank (← char) then fail
      skipWhile isBlank
      let lead ← readSuffix
      if !(← get).isGap 0 then fail
      pure (Token.tagLead (ofChars handle) lead)
    else fail
  skipToNextLine
  return t

end BridgeCall.Yaml.CursorM
