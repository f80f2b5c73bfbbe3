/-
  BridgeCall/Expr/Lexer.lean
  ==========================
  **From bytes to tokens.**  The lexer is a chain of size functions: `triviaSize`
  says how many bytes of blanks and comments come first, and `lexeme` gives the
  kind and the size of the token after them.  Literals and positions are then
  cut from the input by these sizes alone.

  A NUL byte ends a comment or a quoted literal as the end of the input does.
-/
import BridgeCall.Expr.Token
import BridgeCall.Text.Utf8
import BridgeCall.Text.Letter

namespace BridgeCall.Lexer

/-! ### Blanks and comments -/

/-- Blanks between tokens: space, tab, carriage return, line feed. -/
def isTrivia (b : UInt8) : Bool := b = 0x20 || b = 0x09 || b = 0x0d || b = 0x0a

/-- The number of leading bytes that satisfy `p`. -/
def runSize (p : UInt8 → Bool) (bs : Bytes) : Nat := (bs.takeWhile p).length

/-- The size of a line comment, without its line feed. -/
def lineCommentSize (bs : Bytes) : Nat := runSize (fun b => b ≠ 0 && b ≠ 0x0a) bs

/-- The size of what follows the opening of a block comment, with its closing mark. -/
def blockTailSize : Bytes → Nat
  | [] => 0
  | 0 :: rest => 1 + min 1 rest.length
  | 0x2a :: 0x2f :: _ => 2
  | _ :: rest => 1 + blockTailSize rest

/-- The number of bytes of blanks and comments at the start. -/
def triviaSize (bs : Bytes) : Nat :=
  match bs with
  | [] => 0
  | b :: rest =>
    if isTrivia b then 1 + triviaSize rest
    else if b = 0x2f then
      match rest with
      | 0x2f :: more =>
        let n := 2 + lineCommentSize more
        n + triviaSize ((b :: 0x2f :: more).drop n)
      | 0x2a :: more =>
        let n := 2 + blockTailSize more
        n + triviaSize ((b :: 0x2a :: more).drop n)
      | _ => 0
    else 0
termination_by bs.length
decreasing_by
  all_goals simp_all <;> omega

/-! ### Words -/

/-- A character that starts a word: a letter of any script or the underscore. -/
def isWordStart (c : Nat) : Bool := c = 0x5f || Unicode.isLetter c

def isWordPart (c : Nat) : Bool := isWordStart c || Unicode.isDigit c

/-- The number of bytes of word characters at the start. -/
def wordSize (bs : Bytes) : Nat :=
  match bs with
  | [] => 0
  | b :: rest =>
    let r := Utf8.decode (b :: rest)
    if isWordPart r.1 then r.2 + wordSize ((b :: rest).drop r.2) else 0
termination_by bs.length
decreasing_by
  have := Utf8.decode_width_pos b rest
  simp only [List.length_drop, List.length_cons]
  omega

/-! ### Numbers -/

/-- The byte at an index, with NUL after the end. -/
def at' (bs : Bytes) (i : Nat) : UInt8 := bs.getD i 0

def isDigitPart (b : UInt8) : Bool := Bytes.isDigit b || b = 0x5f

/-- Whether a number has a base mark for hexadecimal. -/
def isHexMarked : Bytes → Bool
  | 0x30 :: m :: _ => m = 0x78 || m = 0x58
  | _ => false

/-- The size of the fraction part: a point counts only before a digit. -/
def fractionSize : Bytes → Nat
  | 0x2e :: d :: rest =>
    if Bytes.isDigit d then 1 + runSize isDigitPart (d :: rest) else 0
  | _ => 0

/-- The size of the exponent part, whose digits may be missing. -/
def exponentSize : Bytes → Nat
  | 0x65 :: rest | 0x45 :: rest =>
    let s := if at' rest 0 = 0x2b ∨ at' rest 0 = 0x2d then 1 else 0
    1 + s + runSize Bytes.isDigit (rest.drop s)
  | _ => 0

/-- The kind and size of a number. Letters and digits right after it stay part of it. -/
def number (bs : Bytes) : TokenKind × Nat :=
  let (kind, n) : TokenKind × Nat :=
    if isHexMarked bs then
      (.intLiteral, 2 + runSize (fun b => Bytes.isHexDigit b || b = 0x5f) (bs.drop 2))
    else
      let whole := runSize isDigitPart bs
      let frac := fractionSize (bs.drop whole)
      let exp := exponentSize (bs.drop (whole + frac))
      (if frac + exp = 0 then .intLiteral else .floatLiteral, whole + frac + exp)
  (kind, n + runSize (fun b => Bytes.isWordStart b || Bytes.isDigit b) (bs.drop n))

/-! ### Quoted literals -/

/-- The size of a quoted literal after its opening quote, and whether it is closed. A backslash
    takes the next byte with it. -/
def quotedTail (quote : UInt8) : Bytes → Nat × Bool
  | [] => (0, false)
  | b :: rest =>
    if b = quote then (1, true)
    else if b = 0 ∨ b = 0x0a then (0, false)
    else if b = 0x5c then
      match rest with
      | [] => (1, false)
      | _ :: more => let (n, ok) := quotedTail quote more; (2 + n, ok)
    else let (n, ok) := quotedTail quote rest; (1 + n, ok)

/-- The size of a raw literal after its opening quote, and whether it is closed. -/
def rawTail : Bytes → Nat × Bool
  | [] => (0, false)
  | b :: rest =>
    if b = 0x60 then (1, true)
    else if b = 0 then (0, false)
    else let (n, ok) := rawTail rest; (1 + n, ok)

/-- A quoted literal's kind and size; an error token when it is not closed. -/
def quotedToken (kind : TokenKind) : Nat × Bool → TokenKind × Nat
  | (n, true) => (kind, 1 + n)
  | (n, false) => (.error, 1 + n)

/-! ### Operators -/

/-- The kind and size of an operator or delimiter; a character that is none is an error token. -/
def operator (bs : Bytes) : TokenKind × Nat :=
  let next := at' bs 1
  match at' bs 0 with
  | 0x28 => (.lparen, 1)
  | 0x29 => (.rparen, 1)
  | 0x7b => (.lbrace, 1)
  | 0x7d => (.rbrace, 1)
  | 0x5b => (.lbracket, 1)
  | 0x5d => (.rbracket, 1)
  | 0x2c => (.comma, 1)
  | 0x2e => if next = 0x2e ∧ at' bs 2 = 0x2e then (.operator, 3) else (.dot, 1)
  | 0x24 => (.dollar, 1)
  | 0x3a =>
    if next = 0x3a then (.colonColon, 2)
    else if next = 0x3d then (.operator, 2)
    else (.operator, 1)
  | 0x2d => if next = 0x3e then (.arrow, 2) else (.operator, 1)
  | 0x3c => if next = 0x2d then (.operator, 2) else (.lt, 1)
  | 0x3e => (.gt, 1)
  | b =>
    if b ∈ ("+*/%&|^!=~;?#@" : Bytes) then (.operator, 1)
    else (.error, max 1 (Utf8.decode bs).2)

/-- The kind and size of the token at the start of a non-empty text without leading trivia. -/
def lexeme (bs : Bytes) : TokenKind × Nat :=
  let b := at' bs 0
  let r := Utf8.decode bs
  if isWordStart r.1 then
    let n := r.2 + wordSize (bs.drop r.2)
    (TokenKind.ofWord (bs.take n), n)
  else if Bytes.isDigit b then number bs
  else if b = 0x27 then quotedToken .charLiteral (quotedTail 0x27 (bs.drop 1))
  else if b = 0x22 then quotedToken .stringLiteral (quotedTail 0x22 (bs.drop 1))
  else if b = 0x60 then quotedToken .stringLiteral (rawTail (bs.drop 1))
  else operator bs

/-! ### The token list -/

def endToken (pos : Position) : Token := ⟨.eof, [], ⟨pos, pos⟩⟩

/-- Reads tokens until the end of the input, whose token comes last. -/
def tokensFrom (pos : Position) (bs : Bytes) : List Token :=
  let t := triviaSize bs
  let start := pos.advance (bs.take t)
  let rest := bs.drop t
  if _ : rest = [] then [endToken start]
  else
    let (kind, size) := lexeme rest
    -- every token has at least one byte
    let n := max 1 size
    let stop := start.advance (rest.take n)
    ⟨kind, rest.take n, ⟨start, stop⟩⟩ :: tokensFrom stop (rest.drop n)
termination_by bs.length
decreasing_by
  have h1 : 0 < rest.length := List.length_pos_iff.mpr ‹rest ≠ []›
  simp only [rest, t, List.length_drop] at h1 ⊢
  omega

end Lexer

/-- The tokens of a text whose first byte stands at `start`. -/
def Source.tokens (s : Source) : List Token := Lexer.tokensFrom s.start s.text

/-- A text placed at a position, whose missing line and column count as the first. -/
def Source.at (text : Bytes) (start : Position) : Source := ⟨text, start.orFirst⟩

end BridgeCall
