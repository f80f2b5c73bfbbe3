/-
  BridgeCall/Host/Lexer.lean
  ==========================
  **From bytes to lexemes.**  Blanks separate lexemes.  A line end stands for a
  semicolon after a name, a literal, a closing bracket, `++`, `--`, and the
  keywords that can end a statement.  A comment that holds such a line end comes
  before its semicolon.  Mistakes never stop the lexer: each lexeme lists the
  offsets of its own.
-/
import BridgeCall.Host.Lexeme
import BridgeCall.Text.Utf8
import BridgeCall.Text.Letter

namespace BridgeCall.Host.Lexer

/-! ### Names -/

/-- A letter of any script or the underscore. -/
def isNameStart (c : Nat) : Bool := c = 0x5f || Unicode.isLetter c

def isNamePart (c : Nat) : Bool := isNameStart c || Unicode.isDigit c

/-- The number of bytes of name characters at the start. -/
def nameSize (bs : Bytes) : Nat :=
  match bs with
  | [] => 0
  | b :: rest =>
    let r := Utf8.decode (b :: rest)
    if isNamePart r.1 then r.2 + nameSize ((b :: rest).drop r.2) else 0
termination_by bs.length
decreasing_by
  have := Utf8.decode_width_pos b rest
  simp only [List.length_drop, List.length_cons]
  omega

def startsName (bs : Bytes) : Bool :=
  match bs with
  | [] => false
  | _ => isNameStart (Utf8.decode bs).1

/-! ### Numbers -/

/-- A run of digits and underscores: its size, whether it has a digit, whether it has an
    underscore, and the index of the first digit that is too large for the base. -/
structure Digits where
  size : Nat := 0
  digit : Bool := false
  underscore : Bool := false
  tooLarge : Option Nat := none

/-- The run of digits of the given base that starts at index `i`. Decimal digits belong to the run
    of any smaller base, too. -/
def digits (base : Nat) (i : Nat) : Bytes → Digits
  | [] => {}
  | b :: rest =>
    let inBase := if base ≤ 10 then Bytes.isDigit b else Bytes.isHexDigit b
    if b = 0x5f then
      let d := digits base (i + 1) rest
      { d with size := d.size + 1, underscore := true }
    else if inBase then
      let d := digits base (i + 1) rest
      let big := base ≤ 10 && base ≤ b.toNat - 0x30
      { d with size := d.size + 1, digit := true, tooLarge := if big then some i else d.tooLarge }
    else {}

/-- What stands before a character of a number, as far as underscores care. -/
inductive Before where
  | digit
  | underscore
  | other
  deriving DecidableEq

/-- The index of the first underscore that does not stand between digits. -/
def strayUnderscore (hex : Bool) : Before → Nat → Bytes → Option Nat
  | .underscore, i, [] => some (i - 1)
  | _, _, [] => none
  | before, i, b :: rest =>
    if b = 0x5f then
      if before = .digit then strayUnderscore hex .underscore (i + 1) rest else some i
    else if Bytes.isDigit b || (hex && Bytes.isHexDigit b) then
      strayUnderscore hex .digit (i + 1) rest
    else if before = .underscore then some (i - 1)
    else strayUnderscore hex .other (i + 1) rest

inductive BaseMark where
  | none
  | zero
  | hex
  | octal
  | binary
  deriving DecidableEq

def BaseMark.base : BaseMark → Nat
  | .none => 10
  | .zero => 8
  | .hex => 16
  | .octal => 8
  | .binary => 2

/-- The size of a mark; a leading zero belongs to the digits. -/
def BaseMark.size : BaseMark → Nat
  | .none | .zero => 0
  | .hex | .octal | .binary => 2

def baseMark : Bytes → BaseMark
  | 0x30 :: m :: _ =>
    let m := if 0x41 ≤ m && m ≤ 0x5a then m + 0x20 else m
    if m = 0x78 then .hex else if m = 0x6f then .octal else if m = 0x62 then .binary else .zero
  | [0x30] => .zero
  | _ => .none

/-- The byte at an index, zero after the end. -/
def byteAt (bs : Bytes) (i : Nat) : UInt8 := bs.getD i 0

/-- Lower case of an ASCII letter. -/
def lower (b : UInt8) : UInt8 := if 0x41 ≤ b && b ≤ 0x5a then b + 0x20 else b

/-- A number: its kind, its size, and the indices of its mistakes. -/
def number (bs : Bytes) : LiteralKind × Nat × List Nat :=
  let mark := if byteAt bs 0 = 0x2e then BaseMark.none else baseMark bs
  let whole := digits mark.base mark.size (bs.drop mark.size)
  let i := mark.size + whole.size
  let point := byteAt bs i = 0x2e
  let frac := if point then digits mark.base (i + 1) (bs.drop (i + 1)) else {}
  let j := if point then i + 1 + frac.size else i
  let noPoint := if point && (mark = .octal || mark = .binary) then [i] else []
  let noDigits := if whole.digit || frac.digit then [] else [j]
  let e := lower (byteAt bs j)
  let hasExp := e = 0x65 || e = 0x70
  let wrongExp :=
    if e = 0x65 && (mark = .hex || mark = .octal || mark = .binary) then [j]
    else if e = 0x70 && mark ≠ .hex then [j]
    else []
  let sign := if byteAt bs (j + 1) = 0x2b || byteAt bs (j + 1) = 0x2d then 1 else 0
  let expDigits := if hasExp then digits 10 (j + 1 + sign) (bs.drop (j + 1 + sign)) else {}
  let k := if hasExp then j + 1 + sign + expDigits.size else j
  let badExp :=
    if hasExp then if expDigits.digit then [] else [k]
    else if mark = .hex && point then [j] else []
  let imag := byteAt bs k = 0x69
  let n := if imag then k + 1 else k
  let kind : LiteralKind := if imag then .imaginary else if hasExp || point then .float else .int
  let tooLarge := if kind = .int then whole.tooLarge.toList else []
  let stray :=
    if whole.underscore || frac.underscore || expDigits.underscore then
      let marked := mark.size = 2
      let from' := if marked then 2 else 0
      (strayUnderscore (mark = .hex) (if marked then .digit else .other) from'
        ((bs.take n).drop from')).toList
    else []
  (kind, n, noPoint ++ noDigits ++ wrongExp ++ badExp ++ tooLarge ++ stray)

/-! ### Quoted literals -/

/-- Exactly `n` digits of an escape from index `i` on: the index after them and the mistakes. -/
def escapeDigits (base max : Nat) : Nat → Nat → Nat → Bytes → Nat × List Nat
  | 0, i, x, _ => (i, if max < x || (0xD800 ≤ x && x < 0xE000) then [0] else [])
  | _ + 1, i, _, [] => (i, [i])
  | n + 1, i, x, b :: rest =>
    match Bytes.hexValue? b with
    | some d => if d < base then escapeDigits base max n (i + 1) (x * base + d) rest else (i, [i])
    | none => (i, [i])

/-- What follows a backslash inside quotes of the kind `q`: its size and the mistakes. -/
def escape (q : UInt8) : Bytes → Nat × List Nat
  | [] => (0, [0])
  | b :: rest =>
    if b = q ∨ b = 0x5c ∨ [0x61, 0x62, 0x66, 0x6e, 0x72, 0x74, 0x76].contains b then (1, [])
    else if 0x30 ≤ b ∧ b ≤ 0x37 then escapeDigits 8 255 3 0 0 (b :: rest)
    else if b = 0x78 then escapeDigits 16 255 2 1 0 rest
    else if b = 0x75 then escapeDigits 16 0x10FFFF 4 1 0 rest
    else if b = 0x55 then escapeDigits 16 0x10FFFF 8 1 0 rest
    else (0, [0])

/-- The body of a quoted literal: where it ends, how many characters it has, whether the closing
    quote was found, and the mistakes. -/
structure QuotedBody where
  stop : Nat
  chars : Nat := 0
  closed : Bool := false
  faults : List Nat := []

/-- Reads the body of a literal in quotes of the kind `q` from index `i` on. -/
def quotedBody (q : UInt8) (i : Nat) (bs : Bytes) : QuotedBody :=
  match bs with
  | [] => ⟨i, 0, false, []⟩
  | b :: rest =>
    if b = 0x0a then ⟨i, 0, false, []⟩
    else if b = q then ⟨i + 1, 0, true, []⟩
    else if b = 0x5c then
      let e := escape q rest
      let r := quotedBody q (i + 1 + e.1) (rest.drop e.1)
      { r with chars := r.chars + 1, faults := e.2.map (· + i + 1) ++ r.faults }
    else
      let w := (Utf8.decode (b :: rest)).2
      let r := quotedBody q (i + w) ((b :: rest).drop w)
      { r with chars := r.chars + 1 }
termination_by bs.length
decreasing_by
  · simp only [List.length_drop, List.length_cons]; omega
  · have := Utf8.decode_width_pos b rest
    simp only [List.length_drop, List.length_cons]; omega

/-- A double-quoted literal: size and mistakes. -/
def stringLiteral (bs : Bytes) : Nat × List Nat :=
  let r := quotedBody 0x22 1 (bs.drop 1)
  (r.stop, (if r.closed then [] else [0]) ++ r.faults)

/-- A character literal: size and mistakes. -/
def charLiteral (bs : Bytes) : Nat × List Nat :=
  let r := quotedBody 0x27 1 (bs.drop 1)
  let wrong := if r.faults.isEmpty && (!r.closed || r.chars ≠ 1) then [0] else []
  (r.stop, wrong ++ r.faults)

/-- The size of a raw literal from its opening quote on; without a closing one it is a mistake. -/
def rawLiteral (bs : Bytes) : Nat × List Nat :=
  let body := (bs.drop 1).takeWhile (· ≠ 0x60)
  if body.length + 1 < bs.length then (body.length + 2, []) else (bs.length, [0])

/-! ### Comments -/

/-- The size of a block comment after its opening mark, and whether it is closed. -/
def blockTail : Bytes → Nat × Bool
  | [] => (0, false)
  | 0x2a :: 0x2f :: _ => (2, true)
  | _ :: rest => let r := blockTail rest; (r.1 + 1, r.2)

/-- Drops carriage returns, but not one that keeps a star and a slash apart. `before` is the text
    kept so far, last byte first. -/
def dropReturns (block : Bool) (before : Bytes) : Bytes → Bytes
  | [] => before.reverse
  | 0x0d :: rest =>
    if block && 2 < before.length && before.head? = some 0x2a && rest.head? = some 0x2f then
      dropReturns block (0x0d :: before) rest
    else dropReturns block before rest
  | b :: rest => dropReturns block (b :: before) rest

/-! ### Lexemes -/

def operatorTable : List (Bytes × String) := operators.map fun s => (Bytes.ofString s, s)

def keywordTable : List (Bytes × String) := keywords.map fun s => (Bytes.ofString s, s)

def wordKind (w : Bytes) : Kind :=
  match keywordTable.find? fun e => e.1 == w with
  | some e => .keyword e.2
  | none => .name

/-- Whether a line end after this lexeme stands for a semicolon. -/
def endsStatement : Kind → Bool
  | .name | .literal _ => true
  | .keyword w => ["break", "continue", "fallthrough", "return"].contains w
  | .op s => [")", "]", rbrace, "++", "--"].contains s
  | _ => false

/-- What one step of the lexer finds: the kind, the size, the text and the mistakes. -/
structure Found where
  kind : Kind
  size : Nat
  text : Bytes
  faults : List Nat := []

/-- The lexeme at the start of a text that starts with no blank and no comment. -/
def found (bs : Bytes) : Found :=
  if startsName bs then
    let w := bs.take (nameSize bs)
    ⟨wordKind w, w.length, w, []⟩
  else
    let b := byteAt bs 0
    if Bytes.isDigit b || (b = 0x2e && Bytes.isDigit (byteAt bs 1)) then
      let (k, n, fs) := number bs
      ⟨.literal k, n, bs.take n, fs⟩
    else if b = 0x22 then
      let (n, fs) := stringLiteral bs
      ⟨.literal .string, n, bs.take n, fs⟩
    else if b = 0x27 then
      let (n, fs) := charLiteral bs
      ⟨.literal .char, n, bs.take n, fs⟩
    else if b = 0x60 then
      let (n, fs) := rawLiteral bs
      ⟨.literal .string, n, (bs.take n).filter (· ≠ 0x0d), fs⟩
    else
      match operatorTable.find? fun e => e.1.isPrefixOf bs with
      | some e => ⟨.op e.2, e.1.length, e.1, []⟩
      | none => let n := (Utf8.decode bs).2; ⟨.illegal, n, bs.take n, [0]⟩

/-- The comment at the start of a text: its size, its text, and its mistakes. -/
def comment? : Bytes → Option Found
  | 0x2f :: 0x2f :: rest =>
    let body := rest.takeWhile (· ≠ 0x0a)
    some ⟨.comment, body.length + 2, 0x2f :: 0x2f :: dropReturns false [] body, []⟩
  | 0x2f :: 0x2a :: rest =>
    let (n, closed) := blockTail rest
    let text := 0x2f :: 0x2a :: rest.take n
    some ⟨.comment, n + 2, dropReturns true [] text, if closed then [] else [0]⟩
  | _ => none

/-- The offset of the first line feed in a block comment. -/
def firstBreak? (bs : Bytes) : Option Nat :=
  if bs.getD 1 0 = 0x2a then bs.findIdx? (· = 0x0a) else none

/-- The lexemes of a text that starts at offset `i`. `semi` says whether a line end stands for a
    semicolon here. -/
def lexemesFrom (i : Nat) (semi : Bool) (bs : Bytes) : List Lexeme :=
  match bs with
  | [] =>
    (if semi then [⟨i + 1, .op ";", [0x0a], []⟩] else []) ++ [⟨i + 1, .eof, [], []⟩]
  | b :: rest =>
    if b = 0x0a then
      (if semi then [⟨i + 1, .op ";", [0x0a], []⟩] else []) ++ lexemesFrom (i + 1) false rest
    else if b = 0x20 ∨ b = 0x09 ∨ b = 0x0d then lexemesFrom (i + 1) semi rest
    else match comment? (b :: rest) with
      | some f =>
        let n := max 1 f.size
        let whole := (b :: rest).take n
        let lex : Lexeme := ⟨i + 1, .comment, f.text, f.faults.map (· + i)⟩
        match (if semi then firstBreak? whole else none) with
        | some j =>
          lex :: ⟨i + j + 1, .op ";", [0x0a], []⟩ :: lexemesFrom (i + n) false ((b :: rest).drop n)
        | none => lex :: lexemesFrom (i + n) semi ((b :: rest).drop n)
      | none =>
        let f := found (b :: rest)
        let n := max 1 f.size
        ⟨i + 1, f.kind, f.text, f.faults.map (· + i)⟩ ::
          lexemesFrom (i + n) (if f.kind = .illegal then semi else endsStatement f.kind)
            ((b :: rest).drop n)
termination_by bs.length
decreasing_by
  all_goals simp only [List.length_drop, List.length_cons]; omega

/-- The mark of byte order, which only the very start of a file may have. -/
def byteOrderMark : Nat := 0xFEFF

/-- The offsets of bytes that no host file may have: NUL, bytes that are no UTF-8, and a byte order
    mark after the start. -/
def encodingFaults (bs : Bytes) : List Nat :=
  (Utf8.runes bs).foldl
    (fun (acc : List Nat × Nat) (r : Nat × Bytes) =>
      let (faults, i) := acc
      let wrong := r.1 = 0 ∨ (r.1 = Utf8.replacement ∧ r.2.length = 1)
        ∨ (r.1 = byteOrderMark ∧ 0 < i)
      (if wrong then faults ++ [i] else faults, i + r.2.length)) ([], 0) |>.1

/-- The lexemes of a host file, the end included. -/
def lexemes (bs : Bytes) : List Lexeme :=
  match bs with
  | 0xEF :: 0xBB :: 0xBF :: rest => lexemesFrom 3 false rest
  | _ => lexemesFrom 0 false bs

/-- The mark in a comment, or the offset of a mistake in it, in a file with the given lines. -/
def lineMark? (text : Bytes) (t : Lines) (l : Lexeme) : Option (Except Nat LineMark) :=
  if l.kind ≠ .comment ∨ !(Bytes.startsWith "line " (l.text.drop 2)) then none
  else
    let i := l.pos - 1
    let rest := text.drop i
    match comment? rest with
    | none => none
    | some f =>
      let next := if rest.getD f.size 0 = 0x0a && rest.getD 1 0 = 0x2f then i + f.size + 1
        else i + f.size
      if !f.faults.isEmpty then none
      else LineMark.ofComment i next (t.starts.contains i) (rest.take f.size)

def markFaults (text : Bytes) (t : Lines) (ls : List Lexeme) : List Nat :=
  ls.filterMap fun l => (lineMark? text t l).bind fun
    | .error i => some i
    | .ok _ => none

/-- The line table of a file with its marks. A mark at the end names nothing. -/
def markedLines (text : Bytes) (ls : List Lexeme) : Lines :=
  let t := Lines.ofText text
  let marks := ls.filterMap fun l => (lineMark? text t l).bind fun
    | .error _ => none
    | .ok m => if m.offset < text.length then some m else none
  { t with marks }

end BridgeCall.Host.Lexer
