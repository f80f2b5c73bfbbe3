/-
  BridgeCall/Host/Parse.lean
  ==========================
  **From a host file to its syntax tree.**  A file is a package clause, imports
  and other declarations, in this order.  A file with a mistake has no tree; the
  answer is then the offset of the first mistake.
-/
import BridgeCall.Host.Lexer
import BridgeCall.Host.Parse.Stmts

namespace BridgeCall.Host

open ParserM

/-- A file from behind the word of its package clause, which stands at `package`. -/
def Parse.fileFrom (g : Grammar) (package : Pos) : ParserM File := do
  let n ← name
  let _ ← semicolon
  let imports ← many do
    if (← isWord "import") then return some (← Parse.genDecl g "import")
    return none
  let decls ← many do
    if (← atEnd) then return none
    return some (← Parse.decl g)
  let c ← get
  return {
    package
    name := n
    decls := imports ++ decls
    imports := c.imports.reverse
    comments := c.comments.reverse
    lines := c.lines }

/-- The whole file, with parsers that nest deep enough for it. -/
def Parse.file (g : Grammar) : ParserM File := do Parse.fileFrom g (← word "package")

def leastOffset : List Nat → Option Nat
  | [] => none
  | x :: xs => some (xs.foldl min x)

/-- The line table of a file, also of one with a mistake. -/
def Lines.ofFile (text : Bytes) : Lines := Lexer.markedLines text (Lexer.lexemes text)

/-- The syntax tree of a file, or the offset of its first mistake. -/
def File.parse (text : Bytes) : Except Nat File :=
  let lexemes := Lexer.lexemes text
  let lines := Lexer.markedLines text lexemes
  let faults := lexemes.flatMap Lexeme.faults ++ Lexer.encodingFaults text
    ++ Lexer.markFaults text lines lexemes
  let start : Cursor :=
    { cur := { pos := 0, kind := .eof, text := [] }, rest := lexemes, lines }
  let g := Parse.grammar (6 * lexemes.length + 16)
  match ((Parse.file g).run start.next), leastOffset faults with
  | .ok (f, _), none => .ok f
  | .ok _, some i => .error i
  | .error p, none => .error (p - 1)
  | .error p, some i => .error (min (p - 1) i)

end BridgeCall.Host
