/-
  BridgeCall/Expr/ClassPath.lean
  ==============================
  **Class paths.**  The fully qualified name of a Java class: packages, the
  outermost class, and the classes nested in it.  The machine writes it with
  slashes and dollar signs, people with dots.
-/
import BridgeCall.Expr.Position

namespace BridgeCall

/-- A class by its packages, its outermost class and the nested classes below that. -/
structure ClassPath where
  packages : List Bytes
  outer : Bytes
  nested : List Bytes
  span : Span
  deriving DecidableEq, Repr, Inhabited

namespace ClassPath

/-- The path with `sep` after every package and `inner` before every nested class. -/
def write (sep inner : Bytes) (c : ClassPath) : Bytes :=
  c.packages.flatMap (· ++ sep) ++ c.outer ++ c.nested.flatMap (inner ++ ·)

/-- The name the machine uses: `me/author/Outer$Inner`. -/
def internalName (c : ClassPath) : Bytes := c.write "/" "$"

/-- The name for people: `me.author.Outer.Inner`. -/
def display (c : ClassPath) : Bytes := c.write "." "."

/-- The type signature: the internal name between `L` and a semicolon. -/
def signature (c : ClassPath) : Bytes := "L" ++ c.internalName ++ ";"

end ClassPath
end BridgeCall
