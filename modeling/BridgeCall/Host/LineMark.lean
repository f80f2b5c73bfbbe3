/-
  BridgeCall/Host/LineMark.lean
  =============================
  **Comments that rename places.**  A comment `//line file:line` at the start of a
  line, or `/*line file:line:column*/` anywhere, says how the place after it is
  called.  Generated files use such marks to speak of the files they come from.
  Without a column in the mark, the columns after it are not known.  A mark whose
  numbers cannot be read is a mistake.
-/
import BridgeCall.Files.Path
import BridgeCall.Number.Integer

namespace BridgeCall.Host

/-- A mark: the offset of the first place it names, the file when the mark gives one, and the line and
    column of that place. Column zero is one that is not known. -/
structure LineMark where
  offset : Nat
  file : Option Bytes
  line : Int
  column : Int
  deriving DecidableEq, Repr

namespace LineMark

def limit : Int := 0x40000000

/-- A number as a signed integer of 64 bits. -/
def wrap (n : Nat) : Int := if n < 0x8000000000000000 then n else (n : Int) - 0x10000000000000000

/-- A decimal number of at most 64 bits. -/
def number? (bs : Bytes) : Option Int :=
  if bs.isEmpty || !bs.all Bytes.isDigit then none
  else ((Number.readDigits 10 0xffffffffffffffff 0 bs).toOption).map wrap

def cutLast (bs : Bytes) : Option (Bytes × Bytes) :=
  let tail := (bs.reverse.takeWhile (· ≠ 0x3a)).reverse
  if tail.length = bs.length then none else some (bs.take (bs.length - tail.length - 1), tail)

def isUsable (n : Int) : Bool := n ≠ 0 && n ≤ limit

/-- The mark for the place `next` in the text of a comment after its first word, which starts at
    offset `i`; or the offset of a mistake. A text without a colon is no mark. -/
def ofBody (i next : Nat) (body : Bytes) : Option (Except Nat LineMark) :=
  match cutLast body with
  | none => none
  | some (before, last) =>
    let lastAt := i + before.length + 1
    match number? last with
    | none => some (.error lastAt)
    | some n =>
      match (cutLast before).bind fun (file, digits) => (number? digits).map fun l => (file, l) with
      | some (file, line) =>
        if !isUsable n then some (.error lastAt)
        else if !isUsable line then some (.error (i + file.length + 1))
        else some (.ok ⟨next, if file.isEmpty then none else some file, line, n⟩)
      | none =>
        if !isUsable n then some (.error lastAt) else some (.ok ⟨next, some before, n, 0⟩)

/-- The mark that a comment at offset `i` is, with its text as it stands in the file. `startsLine` says
    whether it stands at the start of a line, and `next` is the offset after the comment and its line
    end. -/
def ofComment (i next : Nat) (startsLine : Bool) (text : Bytes) : Option (Except Nat LineMark) :=
  match Bytes.stripLead "//line " text, Bytes.stripLead "/*line " text with
  | some body, _ =>
    let body := if body.getLast? = some 0x0d then body.dropLast else body
    if startsLine then ofBody (i + 7) next body else none
  | none, some body => ofBody (i + 7) next (body.take (body.length - 2))
  | none, none => none

/-- The directory of a file, with the slash at its end. -/
def directory (file : Bytes) : Bytes := (file.reverse.dropWhile (· ≠ 0x2f)).reverse

def resolve (file name : Bytes) : Bytes :=
  if name.isEmpty then []
  else
    let name := Path.clean name
    if Path.isAbsolute name then name else Path.join (directory file) name

end LineMark
end BridgeCall.Host
