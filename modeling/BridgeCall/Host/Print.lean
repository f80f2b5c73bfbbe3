/-
  BridgeCall/Host/Print.lean
  ==========================
  **A host file in its normal layout.**  The file is printed on a sheet, its build
  lines are brought together, its columns are aligned, and the blanks at the ends
  of lines are dropped.
-/
import BridgeCall.Host.Print.Stmts

namespace BridgeCall.Host

namespace BuildLines

def isBreak (b : UInt8) : Bool := b = 0x0a || b = 0x0c

/-- The size of the line at the start of a text, with its end. -/
def lineSize (bs : Bytes) : Nat :=
  let n := (bs.takeWhile fun b => !isBreak b).length
  if n < bs.length then n + 1 else n

/-- The latest place for build lines: after the last blank line before anything but line comments.
    `i` is the offset of the text and `best` the place found so far. -/
def latestPlace : Nat → Nat → Nat → Bytes → Nat
  | 0, _, best, _ => best
  | fuel + 1, i, best, bs =>
    let blanks := (bs.takeWhile fun b => b = 0x20 || b = 0x09).length
    let rest := bs.drop blanks
    let isComment := Bytes.startsWith [Columns.keepMark, 0x2f, 0x2f] rest && 3 < rest.length
    let skipped := if isComment then (rest.takeWhile fun b => !isBreak b).length else 0
    let rest := rest.drop skipped
    match rest with
    | [] => best
    | b :: rest =>
      if isBreak b then
        let j := i + blanks + skipped + 1
        latestPlace fuel j (if isComment then best else j) rest
      else best

/-- Joins stretches of lines without doubling an empty line. -/
def joinLines (x y : Bytes) : Bytes :=
  let startsEmpty := y.head?.any isBreak
  let endsEmpty := match x.reverse with
    | [] => true
    | a :: b :: _ => isBreak a && isBreak b
    | _ => false
  if startsEmpty && endsEmpty then x ++ y.drop 1 else x ++ y

def commentAt (out : Bytes) (i : Nat) : Bytes :=
  let bs := out.drop i
  let bs := if bs.head? = some Columns.keepMark then bs.drop 1 else bs
  bs.takeWhile fun b => b ≠ Columns.keepMark && !isBreak b

def keptLine (l : Bytes) : Bytes := Columns.keepMark :: l ++ [Columns.keepMark, 0x0a]

/-- The build expression of a file: that of its only build line, or of its lines in the older form
    when it has no other. -/
def expression (out : Bytes) (build plus : List Nat) : Option Constraint :=
  match build with
  | [] => do
    match ← plus.mapM fun i => Constraint.ofComment? (commentAt out i) with
    | [] => none
    | x :: xs => some (xs.foldl Constraint.and x)
  | [i] => Constraint.ofComment? (commentAt out i)
  | _ => none

/-- The build lines, brought together: written anew when they are one expression, and as they stand
    otherwise. -/
def block (out : Bytes) (build plus : List Nat) : Bytes :=
  match expression out build plus with
  | some x =>
    keptLine ("//go:build " ++ x.text)
      ++ (if plus.isEmpty then [] else x.plusLines.flatMap keptLine) ++ [0x0a]
  | none =>
    (build ++ plus).flatMap (fun i => let r := out.drop i; r.take (lineSize r)) ++ [0x0a]

/-- What follows the place of the build lines, without the lines at the given offsets. -/
def remainder (out : Bytes) : Nat → Bytes → List Nat → Bytes
  | start, acc, [] => joinLines acc (out.drop start)
  | start, acc, i :: is =>
    if i < start then remainder out start acc is
    else remainder out (i + lineSize (out.drop i)) (joinLines acc (Bytes.slice start i out)) is

/-- Brings the build lines of a file together at their place before the package clause. -/
def arrange (out : Bytes) (build plus : List Nat) : Bytes :=
  if build.isEmpty && plus.isEmpty then out
  else
    let latest := latestPlace (out.length + 1) 0 0 out
    let place := match build, plus with
      | i :: _, p :: _ => if i < latest then i else if p < latest then p else latest
      | i :: _, [] => if i < latest then i else latest
      | [], p :: _ => if p < latest then p else latest
      | [], [] => latest
    let after := remainder out place [] ((build ++ plus).mergeSort (· ≤ ·))
    let after := match after.reverse with
      | a :: b :: rest => if isBreak a && isBreak b then (b :: rest).reverse else after
      | _ => after
    out.take place ++ block out build plus ++ after

end BuildLines

/-- The text of a file in its normal layout. `depth` bounds how deep its nodes nest. -/
def File.print (f : File) (depth : Nat) : Bytes :=
  match (Print.file (Print.printers depth) f).run { lines := f.lines, comments := f.comments } with
  | none => []
  | some (_, sheet) =>
    let sheet := Print.Sheet.finish sheet
    let out := BuildLines.arrange sheet.output.toList sheet.buildLines sheet.plusLines
    Columns.trim (Columns.align out)

/-- The printing depth that is enough for a file of the given text. -/
def depthFor (text : Bytes) : Nat := 8 * text.length + 64

end BridgeCall.Host
