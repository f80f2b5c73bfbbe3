/-
  BridgeCall/Yaml/Token.lean
  ==========================
  **The words of a settings file.**  A file in the block notation is cut into
  tokens.  Indentation becomes tokens too: one at the start of each block
  collection and one at its end.  A key without a mark of its own is found only
  when its colon is read, so its token is put in front of it afterwards.
-/
import BridgeCall.Text.Utf8

namespace BridgeCall.Yaml

/-- Why a file has no value. -/
inductive Fault where
  /-- The bytes are no text, or hold a control character. -/
  | encoding
  /-- The text forms no token. -/
  | token
  /-- The tokens form no document. -/
  | grammar
  /-- A reference refers to nothing, or to what it is part of. -/
  | reference
  /-- References stand for too much. -/
  | excess
  /-- A mapping has a key twice. -/
  | duplicate
  /-- A scalar does not have the form that its tag asks for. -/
  | tag
  /-- A collection is used as a key. -/
  | key
  /-- Something that is no mapping is merged into one. -/
  | merge
  deriving DecidableEq, Repr

inductive Token where
  | streamStart
  | streamEnd
  | version (major minor : Nat)
  | tagLead (handle lead : Bytes)
  | documentStart
  | documentEnd
  | blockSequence
  | blockMapping
  | blockEnd
  | flowSequence
  | flowSequenceEnd
  | flowMapping
  | flowMappingEnd
  | blockEntry
  | flowEntry
  | key
  | value
  | reference (name : Bytes)
  | anchor (name : Bytes)
  | tag (handle suffix : Bytes)
  | scalar (text : Bytes) (plain : Bool)
  deriving DecidableEq, Repr, Inhabited

def ofChars (cs : List Char) : Bytes := cs.flatMap fun c => Utf8.encode c.toNat

/-! ### Characters -/

/-- The null character, which stands for the end of the text. -/
def nul : Char := Char.ofNat 0

def isBreak (c : Char) : Bool :=
  c = '\n' || c = '\r' || c.toNat = 0x85 || c.toNat = 0x2028 || c.toNat = 0x2029

def isBlank (c : Char) : Bool := c = ' ' || c = '\t'

/-- A character of a name: an ASCII letter or digit, the underscore or the hyphen. -/
def isWordChar (c : Char) : Bool := c.isAlphanum || c = '_' || c = '-'

/-- A character of a line: no line break and not the end. -/
def isInLine (c : Char) : Bool := !isBreak c && c ≠ nul

def doubleQuote : Char := Char.ofNat 0x22

def singleQuote : Char := Char.ofNat 0x27

def backslash : Char := Char.ofNat 0x5c

def openBrace : Char := Char.ofNat 0x7b

def closeBrace : Char := Char.ofNat 0x7d

end BridgeCall.Yaml
