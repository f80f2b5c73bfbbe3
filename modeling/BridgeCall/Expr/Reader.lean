/-
  BridgeCall/Expr/Reader.lean
  ===========================
  **Reading token lists.**  A reader consumes tokens from the front of a list
  whose last token is the end of the input, which is never consumed.  This
  module holds the primitives and the pieces that need a loop of their own:
  class-path segments, balanced groups and the elements of array literals.
-/
import BridgeCall.Expr.Call
import BridgeCall.Expr.Fault
import BridgeCall.Expr.Lexer

namespace BridgeCall

/-- Consumes tokens and gives a value or the first fault. -/
abbrev Reader := StateT (List Token) (Except Fault)

namespace Reader

def peek : Reader Token := do return (← get).headD (Lexer.endToken .origin)

def peekKind : Reader TokenKind := do return (← peek).kind

def advance : Reader Token := do
  let t ← peek
  modify List.tail
  return t

/-- Fails at the next token, naming what would have been accepted. -/
def fail {α : Type} (problem : Problem) (expected : List TokenKind) : Reader α := do
  let t ← peek
  throw { problem, span := t.span, expected, got := some t }

def expect (kind : TokenKind) (problem : Problem) (also : List TokenKind) : Reader Token := do
  if (← peekKind) = kind then advance else fail problem (kind :: also)

/-- The input must end here. -/
def expectEnd (after : Whole) : Reader Unit := do
  if (← peekKind) = .eof then return () else fail (.leftover after) [.eof]

/-- Whether the next token is the given word and does not start a dotted name. -/
def atKeyword (w : Bytes) : Reader Bool := do
  match ← get with
  | t :: u :: _ => return t.kind == .ident && t.literal == w && u.kind != .dot
  | _ => return false

/-! ### Segments -/

/-- A separator with no segment behind it; at the end of the input the separator is to blame. -/
def trailingSeparator (sep got : Token) : Fault :=
  { problem := .trailingSeparator sep.literal
    span := if got.kind = .eof then sep.span else got.span
    expected := [.ident]
    got := some got }

/-- The identifiers that follow, each after a separator of the given kind. -/
def segmentsOf (sep : TokenKind) : List Token → Except Fault (List Token × List Token)
  | s :: t :: rest =>
    if s.kind = sep then
      if t.kind = .ident then do
        let (more, rest) ← segmentsOf sep rest
        return (t :: more, rest)
      else throw (trailingSeparator s t)
    else return ([], s :: t :: rest)
  | ts => return ([], ts)

/-- The identifiers that follow, each after a separator of the given kind. -/
def segments (sep : TokenKind) : Reader (List Token) := segmentsOf sep

/-! ### Groups -/

/-- A balanced run of tokens between an opener and its closer. -/
structure Group where
  contents : List Token
  closer : Token
  deriving Repr

/-- The contents of a group up to the closer of the outermost opener. `openers` are the delimiters
    still open, the innermost first; `seen` are the contents so far, the last first. -/
def groupOf (openers seen : List Token) : List Token → Except Fault (Group × List Token)
  | [] => throw { problem := .unclosed [], span := default }
  | t :: rest =>
    match t.kind, openers with
    | .eof, o :: _ =>
      throw
        { problem := .unclosed o.literal
          span := o.span
          expected := o.kind.closer?.toList
          got := some t }
    | .error, _ => throw { problem := .invalidToken t.literal, span := t.span }
    | k, o :: below =>
      if k.closer?.isSome then groupOf (t :: o :: below) (t :: seen) rest
      else if k.isCloser then
        if o.kind.closer? = some k then
          match below with
          | [] => return (⟨seen.reverse, t⟩, rest)
          | _ => groupOf below (t :: seen) rest
        else
          throw
            { problem := .mismatchedCloser
              span := t.span
              expected := o.kind.closer?.toList
              got := some t }
      else groupOf (o :: below) (t :: seen) rest
    | _, [] => return (⟨seen.reverse, t⟩, rest)

/-- Consumes a group, whose opener is the next token. -/
def group : Reader Group := do
  let o ← advance
  fun ts => groupOf [o] [] ts

/-- The text from the first to the last of the tokens. -/
def textOf (src : Source) (ts : List Token) : Bytes :=
  match ts.head?, ts.getLast? with
  | some a, some b => src.cut a.span.start b.span.stop
  | _, _ => []

/-! ### Array literals -/

def depthAfter (depth : Nat) (t : Token) : Nat :=
  if t.kind.closer?.isSome then depth + 1 else if t.kind.isCloser then depth - 1 else depth

/-- Whether the closer of an opener already consumed is the last of the tokens. -/
def closesAtEnd (depth : Nat) : List Token → Bool
  | [] => false
  | t :: rest =>
    if t.kind.isCloser && depth == 0 then rest.isEmpty else closesAtEnd (depthAfter depth t) rest

/-- Splits tokens at the commas outside all delimiters. A comma may end the list, but no element is
    empty. `seen` is the current element, its last token first. -/
def elementsOf (depth : Nat) (seen : List Token) : List Token → Except Fault (List (List Token))
  | [] => return if seen.isEmpty then [] else [seen.reverse]
  | t :: rest =>
    if t.kind = .comma ∧ depth = 0 then
      if seen.isEmpty then throw { problem := .emptyElement, span := t.span }
      else do
        let more ← elementsOf 0 [] rest
        return seen.reverse :: more
    else elementsOf (depthAfter depth t) (t :: seen) rest

/-- The elements, when the tokens are exactly one bracketed list. -/
def arrayElements? (ts : List Token) : Except Fault (Option (List (List Token))) :=
  match ts with
  | t :: rest =>
    if t.kind = .lbracket ∧ closesAtEnd 0 rest then do
      let es ← elementsOf 0 [] rest.dropLast
      return some es
    else return none
  | [] => return none

end Reader
end BridgeCall
