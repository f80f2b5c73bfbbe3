/-
  BridgeCall/Host/Print/Comments.lean
  ===================================
  **Comments and words on the sheet.**  Before a word is written, the comments
  that stand before it in the source are; the white space that waits is divided
  between what comes before and what comes after them.
-/
import BridgeCall.Host.Print.Sheet
import BridgeCall.Host.DocText
import BridgeCall.Host.Constraint

namespace BridgeCall.Host

/-! ### Block comments -/

namespace BlockComment

/-- Whether a line has only blanks and control characters. -/
def isBlank (l : Bytes) : Bool := l.all (· ≤ 0x20)

/-- The common start of two lines that consists of blanks and stars. -/
def commonLead : Bytes → Bytes → Bytes
  | a :: as, b :: bs =>
    if a = b && (a ≤ 0x20 || a = 0x2a) then a :: commonLead as bs else []
  | _, _ => []

/-- The inner lines, with blank ones emptied, and their common start, when one is not blank. -/
def innerLines : List Bytes → List Bytes × Option Bytes
  | [] => ([], none)
  | l :: ls =>
    let (rest, lead) := innerLines ls
    if isBlank l then ([] :: rest, lead)
    else (l :: rest, some (match lead with
      | some p => commonLead l p
      | none => commonLead l l))

/-- What is left of a common start after up to three blanks or a tab at its end are dropped. -/
def dropStep (lead : Bytes) : Bytes :=
  let rev := lead.reverse
  let blanks := (rev.takeWhile (· = 0x20)).length
  if 0 < blanks then (rev.drop (min blanks 3)).reverse
  else if rev.head? = some 0x09 then (rev.drop 1).reverse
  else lead

def dropEnd (tail bs : Bytes) : Bytes :=
  if Bytes.endsWith tail bs then bs.take (bs.length - tail.length) else bs

/-- The blanks that the first line has in front of its text, with two blanks for the mark unless a
    tab follows it. -/
def firstLead (first : Bytes) : Bytes :=
  let blanks := (first.drop 2).takeWhile (· ≤ 0x20)
  if blanks.head? = some 0x09 then blanks else 0x20 :: 0x20 :: blanks

/-- The lines of a block comment without the start that they have in common. -/
def stripCommon (lines : List Bytes) : List Bytes :=
  match lines with
  | [] => []
  | [l] => [l]
  | first :: more =>
    let lastLine := more.getLast?.getD []
    let (inner, innerLead) := innerLines more.dropLast
    let lead := innerLead.getD (commonLead lastLine lastLine)
    let (stars, lead) := match Bytes.cut "*" lead with
      | some (p, _) => (true, dropEnd " " p)
      | none =>
        (false,
          if isBlank (first.drop 2) then dropStep lead else dropEnd (firstLead first) lead)
    let beforeClose := ((Bytes.cut "*/" lastLine).map (·.1)).getD lastLine
    let (lastLine, lead) :=
      if isBlank beforeClose then (lead ++ (if stars then " */" else "*/" : Bytes), lead)
      else (lastLine, commonLead lead lastLine)
    first :: (inner ++ [lastLine]).map fun l => if l.isEmpty then l else l.drop lead.length

end BlockComment

namespace Sheet

/-! ### Which comment comes next -/

/-- Whether a group cannot stand on one line with what follows. -/
def groupBreaks (t : Lines) (g : CommentGroup) : Bool :=
  let line := t.line g.pos
  g.any fun c => t.line c.pos ≠ line || c.text.getD 1 0 = 0x2f || c.text.contains 0x0a

/-- Whether the next comment group stands before an offset, and printing it there ends no
    statement. -/
def commentBefore (s : Sheet) (next : Spot) : Bool :=
  match s.comments with
  | [] => false
  | g :: _ => g.pos - 1 < next.offset && (!s.impliedSemi || !groupBreaks s.lines g)

def commentSize (s : Sheet) (next : Spot) : List CommentGroup → Nat
  | [] => 0
  | g :: gs =>
    if { s with comments := g :: gs }.commentBefore next then
      (g.flatMap fun c => c.text).length + s.commentSize next gs
    else 0

/-! ### White space around comments -/

/-- The waiting white space before a comment on the line of the last word: blanks are dropped, and
    the answer says how much of it comes first and whether it has a tab. -/
def sameLineSpaces : List Space → List Space × Nat × Bool
  | [] => ([], 0, false)
  | w :: ws =>
    match w with
    | .blank | .vtab | .indent =>
      let (rest, n, sep) := sameLineSpaces ws
      let n := if sameLineStops ws then n + 1 else 0
      (if w = .blank then .ignore :: rest else w :: rest, n, sep || w = .vtab)
    | _ => (w :: ws, 0, false)
where
  /-- Whether something other than blanks, tabs and indentation waits. -/
  sameLineStops : List Space → Bool
    | [] => false
    | .blank :: ws | .vtab :: ws | .indent :: ws => sameLineStops ws
    | _ => true

/-- The waiting white space before a comment on another line: how it changes, how much of it comes
    before the comment, and whether a line break was dropped. `applies` says whether a last
    correction of the indentation comes before the comment. -/
def otherLineSpaces (applies : Bool) : List Space → List Space × Option Nat × Bool
  | [] => ([], none, false)
  | w :: ws =>
    let pass (w : Space) : List Space × Option Nat × Bool :=
      let (rest, n, dropped) := otherLineSpaces applies ws
      (w :: rest, n.map (· + 1), dropped)
    match w with
    | .blank | .vtab => pass .ignore
    | .indent => pass .indent
    | .unindent =>
      if ws.head? = some .unindent || applies then pass .unindent
      else (w :: ws, some 0, false)
    | .newline | .formfeed => (.ignore :: ws, some 0, true)
    | .ignore => (w :: ws, some 0, false)

/-- Writes the white space before a comment at `at'`. `next` is where the next word stands, `prev`
    the comment before in the same run, and `tok` the next word. -/
def commentLead (s : Sheet) (at' next : Spot) (prev : Option Comment) (tok : Kind) : Sheet :=
  let afterLine := prev.any fun c => c.text.getD 1 0 = 0x2f
  if s.output.isEmpty then s
  else if at'.line ≠ 0 ∧ at'.line = s.lastEnd.line ∧ !afterLine then
    let (s, sep) :=
      if prev.isNone then
        let (ws, n, sep) := sameLineSpaces s.spaces
        ({ s with spaces := ws }.flushSpaces n, sep)
      else (s, false)
    if sep then s else s.writeByte (if at'.line = next.line then 0x20 else 0x09) 1
  else
    let applies := tok ≠ .op rbrace && at'.column = next.column
    let (ws, n, dropped) := otherLineSpaces applies s.spaces
    let s := { s with spaces := ws }.flushSpaces (n.getD 0)
    let n := if at'.line ≠ 0 ∧ s.lastEnd.line ≠ 0 then at'.line - s.lastEnd.line else 0
    let n := if s.indent = 0 && dropped && prev.isNone then n + 1 else n
    let n := if n = 0 && afterLine then 1 else n
    if 0 < n then s.writeByte 0x0c (atMostTwo n) else s

def writeBlockLines (s : Sheet) (at' : Spot) : List Bytes → Sheet
  | [] => s
  | l :: ls =>
    let s := if l.isEmpty then s else s.writeText at' (Unicode.trimSpaceRight l) true
    match ls with
    | [] => s
    | _ =>
      let s := s.writeByte 0x0c 1
      s.writeBlockLines s.pos ls

def writeComment (s : Sheet) (c : Comment) : Sheet :=
  let at' := s.lines.spot c.pos
  let lineMark := Bytes.startsWith "//line " c.text && (at'.line = 0 || at'.column = 1)
  let saved := s.indent
  let s := if lineMark then { s with indent := 0 } else s
  let s :=
    if c.text.getD 1 0 = 0x2f then
      let here := s.output.size
      let s :=
        if (Constraint.buildText? c.text).isSome then { s with buildLines := s.buildLines ++ [here] }
        else if (Constraint.plusText? c.text).isSome then
          { s with plusLines := s.plusLines ++ [here] }
        else s
      s.writeText at' (Unicode.trimSpaceRight c.text) true
    else
      let lines := Bytes.splitOn 0x0a c.text
      let lines :=
        if at'.line ≠ 0 && at'.column = 1 && 0 < s.indent then
          lines.take 1 ++ (lines.drop 1).map ([0x20, 0x20, 0x20] ++ ·)
        else lines
      s.writeBlockLines at' (BlockComment.stripCommon lines)
  if lineMark then { s with indent := saved } else s

/-- The waiting white space after a comment: blanks are dropped, of the line breaks one is kept when
    one is needed. The answer also says whether a break was kept and whether a section's end was
    dropped. -/
def afterComment (needsBreak : Bool) : List Space → List Space × Bool × Bool
  | [] => ([], false, false)
  | w :: ws =>
    match w with
    | .blank | .vtab =>
      let (rest, kept, ff) := afterComment needsBreak ws
      (.ignore :: rest, kept, ff)
    | .newline | .formfeed =>
      if needsBreak then
        let (rest, _, ff) := afterComment false ws
        (w :: rest, true, ff)
      else
        let (rest, kept, ff) := afterComment false ws
        (.ignore :: rest, kept, ff || w = .formfeed)
    | _ =>
      let (rest, kept, ff) := afterComment needsBreak ws
      (w :: rest, kept, ff)

/-- Writes the white space after a comment. The answer says whether a line break was written and
    whether a section's end was dropped. -/
def commentTail (s : Sheet) (needsBreak : Bool) : Sheet × Bool × Bool :=
  let (ws, kept, ff) := afterComment needsBreak s.spaces
  let s := { s with spaces := ws }.flushSpaces ws.length
  if needsBreak && !kept then (s.writeByte 0x0a 1, true, ff) else (s, kept, ff)

def writeGroup (s : Sheet) (next : Spot) (tok : Kind) : Option Comment → CommentGroup → Sheet
  | _, [] => s
  | prev, c :: cs =>
    let s := s.commentLead (s.lines.spot c.pos) next prev tok
    (s.writeComment c).writeGroup next tok (some c) cs

/-- Whether a group is the doc comment of the declaration that the next word starts. -/
def isDocComment (s : Sheet) (g : CommentGroup) (next : Spot) : Bool :=
  s.last ≠ .keyword "import" && (s.lines.spot g.pos).column = 1
    && s.lines.spot (g.stop + 1) = next

/-- Writes the comments before the next word. The answer is the last comment, or the final state
    when a doc comment vanished. -/
def writeComments (s : Sheet) (next : Spot) (tok : Kind) :
    Nat → Option Comment → Sheet × Option Comment × Bool
  | 0, prev => (s, prev, false)
  | fuel + 1, prev =>
    if !s.commentBefore next then (s, prev, false)
    else match s.comments with
      | [] => (s, prev, false)
      | g :: gs =>
        if s.isDocComment g next then
          let list := DocText.formatGroup g
          if list.isEmpty then
            let s := s.commentLead (s.lines.spot g.pos) next prev tok
            ({ s with pos := next, lastEnd := next, comments := gs }, prev, true)
          else
            let s := s.writeGroup next tok prev list
            let stop := s.lines.spot g.stop
            let s := { s with pos := stop, lastEnd := stop, comments := gs }
            s.writeComments next tok fuel g.getLast?
        else
          let s := s.writeGroup next tok prev g
          { s with comments := gs }.writeComments next tok fuel (g.getLast?.or prev)

def breakWaits (s : Sheet) : Bool := s.spaces.any fun w => w = .newline || w = .formfeed

/-- Writes the comments before the next word and the white space that waits. The answer says
    whether a line break was written and whether a section's end was dropped. -/
def flush (s : Sheet) (next : Spot) (tok : Kind) : Sheet × Bool × Bool :=
  if !s.commentBefore next then (s.flushSpaces s.spaces.length, false, false)
  else
    match s.writeComments next tok (s.comments.length + 1) none with
    | (s, _, true) => s.commentTail false
    | (s, none, false) => s.commentTail false
    | (s, some c, false) =>
      let block := c.text.getD 1 0 = 0x2a
      let apart := !s.noExtraBlank && block && s.lines.line c.pos = next.line && tok ≠ .op ","
        && (tok ≠ .op ")" || s.opened = .op "(") && (tok ≠ .op "]" || s.opened = .op "[")
      let breakHere := apart && s.breakWaits && !s.noExtraBreak && s.level = 0
      let s := if apart && !breakHere then s.writeByte 0x20 1 else s
      let needsBreak := breakHere || !block || tok = .eof || (tok = .op rbrace && !s.noExtraBreak)
      s.commentTail needsBreak

/-! ### Words -/

/-- Whether two words would read as another one without a blank between them. -/
def combines (before : Kind) (first : UInt8) : Bool :=
  match before with
  | .literal .int => first = 0x2e
  | .op "+" => first = 0x2b
  | .op "-" => first = 0x2d
  | .op "/" => first = 0x2a
  | .op "<" => first = 0x2d || first = 0x3c
  | .op "&" => first = 0x26 || first = 0x5e
  | _ => false

/-- Writes a word after the comments and the white space before it. Empty lines of the source after
    a comment are kept. -/
def writeWord (s : Sheet) (kind : Kind) (text : Bytes) (kept ends : Bool) : Sheet :=
  let s := { s with last := kind }
  let next := s.pos
  let (s, wrote, dropped) := s.flush next kind
  let n := if s.impliedSemi then 0 else atMostTwo (next.line - s.pos.line)
  let n := if wrote && n = 2 then 1 else n
  let s := if 0 < n then s.writeByte (if dropped then 0x0c else 0x0a) n else s
  let s := match s.wanted with
    | some m => { s with marks := s.marks.setIfInBounds m s.out.line, wanted := none }
    | none => s
  let s := s.writeText next text kept
  { s with impliedSemi := ends && n = 0 }

end Sheet

namespace PrintM

def token (kind : Kind) (text : String) : PrintM Unit :=
  write fun s =>
    let s := s.noteOpened
    let bytes := Bytes.ofString text
    let s := if Sheet.combines s.last (bytes.getD 0 0) then { s with spaces := [.blank] } else s
    let ends := ["break", "continue", "fallthrough", "return", "++", "--", ")", "]", rbrace].contains
      text
    s.writeWord kind bytes false ends

def op (s : String) : PrintM Unit := token (.op s) s

def word (s : String) : PrintM Unit := token (.keyword s) s

def name (text : Bytes) : PrintM Unit :=
  write fun s => s.noteOpened.writeWord .name text false true

def literal (k : LiteralKind) (text : Bytes) : PrintM Unit :=
  write fun s => s.noteOpened.writeWord (.literal k) text true true

def opAt (p : Pos) (s : String) : PrintM Unit := do
  moveTo p
  op s

/-- Makes the comment of a node the next one to print, on a sheet that measures. -/
def nodeComment (g : CommentGroup) : PrintM Unit :=
  modify fun s => if s.measuring && !g.isEmpty then { s with comments := s.comments ++ [g] } else s

end PrintM
end BridgeCall.Host
