/-
  BridgeCall/Host/Constraint.lean
  ===============================
  **Build constraints.**  A comment before the package clause can say under which
  tags a file is built, as a boolean expression over the tags.  An older form
  lists alternatives on one line, separated by blanks, and the lines must all
  hold.

  `Constraint.needs` says whether a file that speaks of a tag is left out when
  every tag but this one is set.
-/
import BridgeCall.Text.Space

namespace BridgeCall.Host

/-- A boolean expression over tags. -/
inductive Constraint where
  | tag (name : Bytes)
  | not (x : Constraint)
  | and (x y : Constraint)
  | or (x y : Constraint)
  deriving DecidableEq, Repr

namespace Constraint

/-- The value of an expression when the tags have the given values. -/
def eval (on : Bytes → Bool) : Constraint → Bool
  | .tag t => on t
  | .not x => !x.eval on
  | .and x y => x.eval on && y.eval on
  | .or x y => x.eval on || y.eval on

def mentions (t : Bytes) : Constraint → Bool
  | .tag s => s = t
  | .not x => x.mentions t
  | .and x y | .or x y => x.mentions t || y.mentions t

/-- Whether the expression speaks of the tag and is false when all tags but this one are set. -/
def needs (t : Bytes) (x : Constraint) : Bool :=
  x.mentions t && !x.eval (fun s => s ≠ t)

/-! ### Writing -/

/-- A text in parentheses when `wrap` holds. -/
def wrapIf (wrap : Bool) (s : Bytes) : Bytes := if wrap then "(" ++ s ++ ")" else s

def isAnd : Constraint → Bool
  | .and .. => true
  | _ => false

def isOr : Constraint → Bool
  | .or .. => true
  | _ => false

/-- The expression as text, with parentheses only where two operators meet. -/
def text : Constraint → Bytes
  | .tag t => t
  | .not x => "!" ++ wrapIf (x.isAnd || x.isOr) x.text
  | .and x y => wrapIf x.isOr x.text ++ " && " ++ wrapIf y.isOr y.text
  | .or x y => wrapIf x.isAnd x.text ++ " || " ++ wrapIf y.isAnd y.text

/-! ### Reading -/

inductive Word where
  | tag (name : Bytes)
  | sign (s : Bytes)
  deriving DecidableEq

def isTagChar (c : Nat) : Bool :=
  Unicode.isLetter c || Unicode.isDigit c || c = 0x5f || c = 0x2e

/-- The bytes of tag characters at the start of a text. -/
def tagLead (bs : Bytes) : Bytes :=
  ((Utf8.runes bs).takeWhile fun r => isTagChar r.1).flatMap (·.2)

/-- The words of a text; `none` when something else stands in it. -/
def words : Nat → Bytes → Option (List Word)
  | 0, _ => none
  | _, [] => some []
  | fuel + 1, b :: rest =>
    if b = 0x20 ∨ b = 0x09 then words fuel rest
    else if b = 0x28 ∨ b = 0x29 ∨ b = 0x21 then (words fuel rest).map (.sign [b] :: ·)
    else if b = 0x26 ∨ b = 0x7c then
      if rest.head? = some b then (words fuel (rest.drop 1)).map (.sign [b, b] :: ·) else none
    else
      let t := tagLead (b :: rest)
      if t.isEmpty then none
      else (words fuel ((b :: rest).drop t.length)).map (.tag t :: ·)

mutual

/-- A disjunction, with what follows it. -/
def readOr : Nat → List Word → Option (Constraint × List Word)
  | 0, _ => none
  | fuel + 1, ws => do
    let (x, rest) ← readAnd fuel ws
    moreOr fuel x rest

def moreOr : Nat → Constraint → List Word → Option (Constraint × List Word)
  | 0, _, _ => none
  | fuel + 1, x, .sign [0x7c, 0x7c] :: ws => do
    let (y, rest) ← readAnd fuel ws
    moreOr fuel (.or x y) rest
  | _ + 1, x, ws => some (x, ws)

/-- A conjunction, with what follows it. -/
def readAnd : Nat → List Word → Option (Constraint × List Word)
  | 0, _ => none
  | fuel + 1, ws => do
    let (x, rest) ← readNot fuel ws
    moreAnd fuel x rest

def moreAnd : Nat → Constraint → List Word → Option (Constraint × List Word)
  | 0, _, _ => none
  | fuel + 1, x, .sign [0x26, 0x26] :: ws => do
    let (y, rest) ← readNot fuel ws
    moreAnd fuel (.and x y) rest
  | _ + 1, x, ws => some (x, ws)

/-- A negation, of which there is at most one, or an atom. -/
def readNot : Nat → List Word → Option (Constraint × List Word)
  | 0, _ => none
  | fuel + 1, .sign [0x21] :: ws => do
    let (x, rest) ← readAtom fuel ws
    return (.not x, rest)
  | fuel + 1, ws => readAtom fuel ws

def readAtom : Nat → List Word → Option (Constraint × List Word)
  | 0, _ => none
  | _ + 1, .tag t :: ws => some (.tag t, ws)
  | fuel + 1, .sign [0x28] :: ws => do
    match ← readOr fuel ws with
    | (x, .sign [0x29] :: rest) => some (x, rest)
    | _ => none
  | _ + 1, _ => none

end

def operandLimit : Nat := 1000

def Word.startsOperand : Word → Bool
  | .tag _ => true
  | .sign s => s = [0x28]

/-- The expression a text stands for; none when it has too many operands. -/
def parse (text : Bytes) : Option Constraint := do
  let ws ← words (text.length + 1) text
  if operandLimit < ws.countP Word.startsOperand then none
  else match ← readOr (6 * ws.length + 6) ws with
    | (x, []) => some x
    | _ => none

/-! ### The older form -/

/-- The tag that stands for anything that cannot be read. -/
def ignored : Constraint := .tag "ignore"

def plusLiteral (s : Bytes) : Constraint :=
  let isTag (s : Bytes) : Bool := !s.isEmpty && (Utf8.runes s).all fun r => isTagChar r.1
  let literal (s : Bytes) : Constraint := if isTag s then .tag s else ignored
  if Bytes.startsWith "!!" s || s = ("!" : Bytes) then ignored
  else match Bytes.stripLead "!" s with
    | some rest => .not (literal rest)
    | none => literal s

/-- Joins expressions from left to right; `ignored` when there is none. -/
def joinWith (f : Constraint → Constraint → Constraint) : List Constraint → Constraint
  | [] => ignored
  | x :: xs => xs.foldl f x

/-- The most literals of the older form. -/
def literalLimit : Nat := 101

/-- The expression of the older form: alternatives between blanks, conditions between commas; none
    when it has too many literals. -/
def parsePlus (text : Bytes) : Option Constraint :=
  let clauses := (Unicode.fields text).map (Bytes.splitOn 0x2c)
  if literalLimit < clauses.flatten.length then none
  else some (joinWith .or (clauses.map fun ls => joinWith .and (ls.map plusLiteral)))

/-- What follows a mark in a comment line; blanks must divide the two. -/
def afterMark (mark line : Bytes) : Option Bytes := do
  let rest ← Bytes.stripLead mark line
  let trimmed := Unicode.trimSpace rest
  if rest.length = trimmed.length && !rest.isEmpty then none else some trimmed

/-- A comment without the line feed it may end in, when it is a single line. -/
def singleLine (line : Bytes) : Option Bytes :=
  let line := if line.getLast? = some 0x0a then line.dropLast else line
  if line.contains 0x0a then none else some line

def buildText? (comment : Bytes) : Option Bytes := do
  let line ← singleLine comment
  if Bytes.startsWith "//go:build" line then afterMark "//go:build" (Unicode.trimSpace line) else none

/-- The text of a build line of the older form. -/
def plusText? (comment : Bytes) : Option Bytes := do
  let line ← singleLine comment
  afterMark "+build" (Unicode.trimSpace (← Bytes.stripLead "//" line))

/-- The expression of a comment in either form. -/
def ofComment? (comment : Bytes) : Option Constraint :=
  match buildText? comment with
  | some t => parse t
  | none => (plusText? comment).bind parsePlus

/-! ### Lines of the older form -/

/-- Moves negations to the tags; `neg` says whether the expression itself is negated. -/
def pushNot (neg : Bool) : Constraint → Constraint
  | .tag t => if neg then .not (.tag t) else .tag t
  | .not x => pushNot (!neg) x
  | .and x y => if neg then .or (pushNot neg x) (pushNot neg y) else .and (pushNot neg x) (pushNot neg y)
  | .or x y => if neg then .and (pushNot neg x) (pushNot neg y) else .or (pushNot neg x) (pushNot neg y)

def conditions : Constraint → List Constraint
  | .and x y => x.conditions ++ y.conditions
  | x => [x]

def alternatives : Constraint → List Constraint
  | .or x y => x.alternatives ++ y.alternatives
  | x => [x]

/-- The lines of the older form that say the same; one line of complaint when there are none. -/
def plusLines (x : Constraint) : List Bytes :=
  let split := (pushNot false x).conditions.map fun o => o.alternatives.map conditions
  if split.any fun o => o.any fun a => a.any fun l => l.isAnd || l.isOr then
    ["// +build error: expression too complex for // +build lines"]
  else
    let split := if split.all fun o => o.length ≤ 1 then [[split.flatten.flatten]] else split
    split.map fun o => "// +build" ++ o.flatMap fun a => " " ++ Bytes.join "," (a.map text)

end Constraint
end BridgeCall.Host
