/-
  BridgeCall/Host/DocText.lean
  ============================
  **The text of doc comments.**  The comment in front of a declaration is a small
  document: paragraphs, headings, lists, indented code and definitions of links.
  `format` writes it in its normal form: blank lines between blocks, code behind a
  tab, list items behind a dash or a number, definitions of links last, used ones
  before unused ones.  Directives, lines for tools, come after the text.
-/
import BridgeCall.Host.DocInline
import BridgeCall.Text.Capital
import BridgeCall.Host.Lexeme

namespace BridgeCall.Host.DocText

/-! ### Lines -/

/-- Whether a line starts with a blank or a tab. -/
def isIndented (l : Bytes) : Bool := l.head? = some 0x20 || l.head? = some 0x09

/-- The blanks and tabs at the start of a line. -/
def leadingBlanks (l : Bytes) : Bytes := l.takeWhile fun b => b = 0x20 || b = 0x09

/-- The longest common start of two texts. -/
def commonLead : Bytes → Bytes → Bytes
  | a :: as, b :: bs => if a = b then a :: commonLead as bs else []
  | _, _ => []

/-- The lines without the empty ones at both ends. -/
def dropEmpty (ls : List Bytes) : List Bytes :=
  ((ls.dropWhile List.isEmpty).reverse.dropWhile List.isEmpty).reverse

/-- The lines without empty ones at both ends and without the blanks that all of them start with.
    A line of blanks becomes empty. -/
def unindent (ls : List Bytes) : List Bytes :=
  match dropEmpty ls with
  | [] => []
  | first :: more =>
    let lead := more.foldl
      (fun acc l => if l.isEmpty then acc else commonLead acc (leadingBlanks l))
      (leadingBlanks first)
    dropEmpty ((first :: more).map fun l =>
      let l := (Bytes.stripLead lead l).getD l
      if (Unicode.trimSpace l).isEmpty then [] else l)

/-! ### Recognising lines -/

/-- The number and the text of a list item; bullets have no number. -/
def listItem? (line : Bytes) : Option (Bytes × Bytes) := do
  let line := Unicode.trimSpace line
  let c := (Utf8.decode line).1
  let (num, rest) ←
    if c = 0x2022 || c = 0x2a || c = 0x2b || c = 0x2d then
      some (([] : Bytes), line.drop (Utf8.decode line).2)
    else
      let num := line.takeWhile Bytes.isDigit
      let after := line.drop num.length
      if !num.isEmpty && (after.head? = some 0x2e || after.head? = some 0x29) then
        some (num, after.drop 1)
      else none
  if isIndented rest && !(Unicode.trimSpace rest).isEmpty then some (num, rest) else none

def isListItem (line : Bytes) : Bool := (listItem? line).isSome

/-- A heading behind a number sign. -/
def isHeading (l : Bytes) : Bool :=
  match l with
  | 0x23 :: b :: _ => (b = 0x20 || b = 0x09) && Unicode.trimSpace l ≠ [0x23]
  | _ => false

def headingStops : List Nat := Utf8.codePoints ";:!?+*/=[]\x7b\x7d_^°&§~%#@<\">\\"

/-- Whether every apostrophe begins a possessive ending. -/
def apostrophesFit : Bytes → Bool
  | [] => true
  | 0x27 :: rest =>
    (rest = [0x73] || Bytes.startsWith [0x73, 0x20] rest) && apostrophesFit rest
  | _ :: rest => apostrophesFit rest

/-- Whether every point stands before something other than a blank. -/
def pointsFit : Bytes → Bool
  | [] => true
  | 0x2e :: rest => !rest.isEmpty && rest.head? ≠ some 0x20 && pointsFit rest
  | _ :: rest => pointsFit rest

/-- Whether a line reads as a heading: a single line with blank lines around it that starts with a
    capital, ends in a letter or digit and has no signs of a sentence. -/
def isPlainHeading (before after : List Bytes) (line : Bytes) : Bool :=
  let line := Unicode.trimSpace line
  let points := Utf8.codePoints line
  let first := points.head?.getD 0
  let last := points.getLast?.getD 0
  before.getLast? = some [] &&
  (match after with
    | [] :: next :: _ => (leadingBlanks next).isEmpty
    | _ => false) &&
  (Unicode.isLetter first && Unicode.isUpper first) &&
  (Unicode.isLetter last || Unicode.isDigit last) &&
  !(points.any headingStops.contains) && apostrophesFit line && pointsFit line

/-! ### Blocks -/

inductive SpanKind where
  | code
  | heading
  | plainHeading
  | list
  | paragraph
  deriving DecidableEq

structure Stretch where
  start : Nat
  stop : Nat
  kind : SpanKind

def lineAt (ls : Array Bytes) (i : Nat) : Bytes := ls.getD i []

/-- The first index from `i` on that does not satisfy `p`, at most `n` further. -/
def skipWhile (p : Nat → Bool) : Nat → Nat → Nat
  | 0, i => i
  | n + 1, i => if p i then skipWhile p n (i + 1) else i

/-- The last index before `i`, not below `start`, whose predecessor does not satisfy `p`. -/
def backWhile (p : Nat → Bool) (start : Nat) : Nat → Nat
  | 0 => 0
  | i + 1 => if start < i + 1 && p i then backWhile p start i else i + 1

/-- The end of a stretch of indented lines: blank lines belong to it, and so do further items of a
    list that should have been indented, up to a blank line. -/
def indentedEnd (ls : Array Bytes) (force : Nat) : Nat → Bool → Nat → Nat
  | 0, _, i => i
  | n + 1, items, i =>
    if ls.size ≤ i then i
    else
      let l := lineAt ls i
      if l.isEmpty || i < force || isIndented l || (items && isListItem l) then
        indentedEnd ls force n (items && !l.isEmpty) (i + 1)
      else i

/-- The stretches of a document from line `i` on. Lines before `force` count as indented. -/
def stretches (ls : Array Bytes) : Nat → Nat → Nat → List Stretch
  | 0, _, _ => []
  | fuel + 1, force, i =>
    let n := ls.size
    let start := skipWhile (fun j => j < n && (lineAt ls j).isEmpty) n i
    if n ≤ start then []
    else if start < force || isIndented (lineAt ls start) then
      let items := isListItem (lineAt ls start) && start < force
      let stop := indentedEnd ls force n items (start + 1)
      let stop := backWhile (fun j => (lineAt ls j).isEmpty) start stop
      let stop := if stop < n && Bytes.startsWith "\x7d" (lineAt ls stop) then stop + 1 else stop
      let kind := if isListItem (lineAt ls start) then .list else .code
      ⟨start, stop, kind⟩ :: stretches ls fuel force stop
    else
      let i := skipWhile (fun j => j < n && !(lineAt ls j).isEmpty && !isIndented (lineAt ls j)) n
        (start + 1)
      let codeFollows := i < n && !(lineAt ls i).isEmpty && !isListItem (lineAt ls i)
      let lastLine := lineAt ls (i - 1)
      let (force', stop) :=
        if codeFollows && isListItem lastLine then
          (i, backWhile (fun j => isListItem (lineAt ls j)) start (i - 1))
        else if codeFollows && (Bytes.endsWith "\x7b" lastLine || Bytes.endsWith "\\" lastLine) then
          (i, i - 1)
        else (force, i)
      if codeFollows && start = stop && start < force' then stretches ls fuel force' start
      else
        let only := stop - start = 1
        let l := lineAt ls start
        let kind : SpanKind :=
          if only && isHeading l then .heading
          else if only && isPlainHeading (ls.toList.take start) (ls.toList.drop (start + 1)) l then
            .plainHeading
          else .paragraph
        ⟨start, stop, kind⟩ :: stretches ls fuel force' stop

/-- A definition of a link: its text and its target. -/
structure LinkDef where
  text : Bytes
  target : Bytes
  deriving DecidableEq

/-- An item of a list: its number and its paragraphs. -/
structure Item where
  num : Bytes
  paragraphs : List Bytes

inductive Block where
  | code (lines : List Bytes)
  | heading (text : Bytes)
  | paragraph (text : Bytes)
  | list (items : List Item) (blankBefore blankBetween : Bool)

def linkDef? (line : Bytes) : Option LinkDef := do
  let rest ← Bytes.stripLead "[" line
  let (text, after) ← Bytes.cut "]:" rest
  if 2 ≤ after.length && isIndented after then
    let target := Unicode.trimSpace (after.drop 1)
    let (scheme, _) ← Bytes.cut "://" target
    if DocInline.schemes.contains scheme then some ⟨text, target⟩ else none
  else none

/-- The paragraph of some lines; lines that all define links define them instead. -/
def paragraph (lines : List Bytes) : List LinkDef × Option Bytes :=
  match lines.mapM linkDef? with
  | some defs => (defs, none)
  | none => ([], some (Bytes.join "\n" lines))

/-- A list being read: its items, last first, with their paragraphs, last first, and the lines of
    the paragraph, last first. -/
structure ListReading where
  items : List Item := []
  text : List Bytes := []
  defs : List LinkDef := []
  blank : Bool := false

/-- Ends the paragraph that has been read. -/
def ListReading.flush (r : ListReading) : ListReading :=
  match r.items with
  | [] => { r with text := [] }
  | item :: more =>
    if r.text.isEmpty then r
    else
      let (defs, para) := paragraph r.text.reverse
      let item := { item with paragraphs := para.toList ++ item.paragraphs }
      { r with items := item :: more, text := [], defs := r.defs ++ defs }

def ListReading.step (numbered : Bool) (r : ListReading) (line : Bytes) : ListReading :=
  let (r, line) := match listItem? line with
    | some (num, rest) =>
      if (!num.isEmpty) = numbered then
        let r := r.flush
        ({ r with items := ⟨num, []⟩ :: r.items }, rest)
      else (r, line)
    | none => (r, line)
  let line := Unicode.trimSpace line
  if line.isEmpty then { r.flush with blank := true }
  else { r with text := line :: r.text }

def listBlock (lines : List Bytes) (blankBefore : Bool) : List LinkDef × Block :=
  let numbered := match lines.head?.bind listItem? with
    | some (num, _) => !num.isEmpty
    | none => false
  let r := (lines.foldl (ListReading.step numbered) {}).flush
  let items := r.items.reverse.map fun i => { i with paragraphs := i.paragraphs.reverse }
  let between := r.blank || items.any fun i => i.paragraphs.length ≠ 1
  (r.defs, .list items (blankBefore || between) between)

def block (ls : Array Bytes) (prevStop : Nat) (s : Stretch) : List LinkDef × List Block :=
  let lines := (ls.toList.drop s.start).take (s.stop - s.start)
  match s.kind with
  | .code => ([], [.code (unindent lines)])
  | .heading => ([], [.heading (Unicode.trimSpace ((lineAt ls s.start).drop 1))])
  | .plainHeading => ([], [.heading (Unicode.trimSpace (lineAt ls s.start))])
  | .paragraph =>
    let (defs, para) := paragraph lines
    (defs, para.toList.map Block.paragraph)
  | .list =>
    let (defs, b) := listBlock lines (prevStop < s.start)
    (defs, [b])

def blocks (ls : Array Bytes) : Nat → List Stretch → List LinkDef × List Block
  | _, [] => ([], [])
  | prevStop, s :: ss =>
    let (defs, bs) := block ls prevStop s
    let (defs', bs') := blocks ls s.stop ss
    (defs ++ defs', bs ++ bs')

/-! ### Writing -/

/-- A text with `indent` after each line feed. -/
def hang (indent : Bytes) (text : Bytes) : Bytes :=
  text.flatMap fun b => if b = 0x0a then 0x0a :: indent else [b]

/-- The item of a list; `labels` name the links. An item without a paragraph ends no line. -/
def Item.write (labels : List Bytes) (i : Item) : Bytes :=
  let mark : Bytes := if i.num.isEmpty then " - " else i.num ++ ". "
  " " ++ mark
    ++ Bytes.join "\n    " (i.paragraphs.map fun p => hang "    " (DocInline.read labels p).1 ++ "\n")

/-- A block, with a line feed at its end. Headings stay as they are. -/
def Block.write (labels : List Bytes) : Block → Bytes
  | .code lines => lines.flatMap fun l => (if l.isEmpty then [] else 0x09 :: l) ++ [0x0a]
  | .heading t => "# " ++ t ++ "\n"
  | .paragraph t => (DocInline.read labels t).1 ++ "\n"
  | .list items _ between =>
    Bytes.join (if between then "\n" else []) (items.map (Item.write labels))

/-- Whether a blank line comes before a block that is not the first. -/
def Block.blankBefore : Block → Bool
  | .list _ before _ => before
  | _ => true

def Block.used (labels : List Bytes) : Block → List Bytes
  | .paragraph t => (DocInline.read labels t).2
  | .list items _ _ => items.flatMap fun i => i.paragraphs.flatMap fun p => (DocInline.read labels p).2
  | _ => []

/-- The definitions of links, with a blank line before them. -/
def writeDefs (defs : List LinkDef) : Bytes :=
  if defs.isEmpty then []
  else 0x0a :: defs.flatMap fun d => ("[" : Bytes) ++ d.text ++ "]: " ++ d.target ++ "\n"

/-- Whether each definition is used: it is the first for its text, and a link has that text. `seen`
    are the texts of the definitions before. -/
def areUsed (used : List Bytes) : List Bytes → List LinkDef → List (LinkDef × Bool)
  | _, [] => []
  | seen, d :: ds =>
    (d, used.contains d.text && !seen.contains d.text) :: areUsed used (d.text :: seen) ds

def format (text : Bytes) : Bytes :=
  let ls := (unindent (Bytes.splitOn 0x0a text)).toArray
  let (defs, bs) := blocks ls 0 (stretches ls (2 * ls.size + 1) 0 0)
  let labels := defs.map LinkDef.text
  let marked := areUsed (bs.flatMap (Block.used labels)) [] defs
  let body := bs.mapIdx fun i b =>
    (if 0 < i && b.blankBefore then [0x0a] else []) ++ b.write labels
  body.flatten ++ writeDefs ((marked.filter (·.2)).map (·.1))
    ++ writeDefs ((marked.filter (!·.2)).map (·.1))

/-! ### Comments -/

/-- A lower-case letter or a digit. -/
def isDirectiveChar (b : UInt8) : Bool := (0x61 ≤ b && b ≤ 0x7a) || Bytes.isDigit b

/-- Whether a comment line, without its mark, is a line for a tool. -/
def isDirective (c : Bytes) : Bool :=
  Bytes.startsWith "line " c || Bytes.startsWith "extern " c || Bytes.startsWith "export " c ||
  match Bytes.cut ":" c with
  | some (tool, rest) => !tool.isEmpty && tool.all isDirectiveChar && rest.head?.any isDirectiveChar
  | none => false

/-- Whether every line after the first starts with a star. -/
def allStars (text : Bytes) : Bool :=
  (Bytes.splitOn 0x0a text).tail.all fun l =>
    (l.dropWhile fun b => b = 0x20 || b = 0x09).head? = some 0x2a

def commentLine (l : Bytes) : Bytes :=
  if l.isEmpty then "//" else if l.head? = some 0x09 then "//" ++ l else "// " ++ l

def textLines (text : Bytes) : List Bytes :=
  match text with
  | [] => []
  | _ => (Bytes.splitOn 0x0a (if text.getLast? = some 0x0a then text.dropLast else text))

def formatLines (pos : Pos) (bodies : List Bytes) : CommentGroup :=
  let (directives, lines) := bodies.partition isDirective
  let text := lines.flatMap fun l => (Bytes.stripLead " " l).getD l ++ [0x0a]
  let out := (textLines (format text)).map fun l => (⟨pos, commentLine l⟩ : Comment)
  let tools := directives.map fun d => (⟨pos, "//" ++ d⟩ : Comment)
  out ++ (if out.isEmpty || tools.isEmpty then [] else [⟨pos, "//"⟩]) ++ tools

/-- A comment group in front of a declaration in normal form. All its comments stand where the
    first one stood. -/
def formatGroup (g : CommentGroup) : CommentGroup :=
  match g with
  | [] => []
  | first :: more =>
    if Bytes.startsWith "/*" first.text then
      if !more.isEmpty || !first.text.contains 0x0a || allStars first.text then g
      else
        let body := Bytes.slice 2 (first.text.length - 2) first.text
        [⟨first.pos, "/*\n" ++ format body ++ "*/"⟩]
    else
      match g.mapM fun c => Bytes.stripLead "//" c.text with
      | none => g
      | some bodies => if bodies.all isDirective then g else formatLines first.pos bodies

end BridgeCall.Host.DocText
