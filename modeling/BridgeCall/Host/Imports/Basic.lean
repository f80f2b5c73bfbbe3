/-
  BridgeCall/Host/Imports/Basic.lean
  ==================================
  **Imports and their use.**  An import gives a path and perhaps a name.  Without
  a name it is known by the last part of its path.  It is used when the file
  selects something from that name.
-/
import BridgeCall.Host.Scope
import BridgeCall.Text.Quoted

namespace BridgeCall.Host

namespace Import

def node (i : Import) : Node := .importSpec i.doc i.comment i.localName i.path i.stop

/-- The name an import gives, empty when it gives none. -/
def name (i : Import) : Bytes := (i.localName.map Node.nameText).getD []

/-- The text of the path without its quotes, empty when it cannot be read. -/
def target (i : Import) : Bytes :=
  match i.path with
  | .literal _ _ t => (Quoted.unquote? t).getD []
  | _ => []

def isOf (name path : Bytes) (i : Import) : Bool := i.name == name && i.target == path

/-- The import with its name and path moved to a place; `stop` is the place after it. -/
def moveTo (i : Import) (p stop : Pos) : Import :=
  { i with
    localName := i.localName.map fun a => .name p a.nameText
    path := match i.path with
      | .literal _ k t => .literal p k t
      | x => x
    stop }

def new (name path : Bytes) (p : Pos) : Import :=
  { doc := []
    comment := []
    localName := if name.isEmpty then none else some (.name p name)
    path := .literal p .string (Quoted.quote path)
    stop := p }

end Import

def lastPart (path : Bytes) : Bytes := (path.reverse.takeWhile (· ≠ 0x2f)).reverse

/-- The last element of a path: slashes at its end do not count, an empty path is a dot, and a path
    of slashes is a slash. -/
def baseName (path : Bytes) : Bytes :=
  if path.isEmpty then "."
  else
    let base := lastPart (Bytes.trimRight (· = 0x2f) path)
    if base.isEmpty then "/" else base

/-- The declaration of imports in a node: place of its word, of the parentheses, and its imports. -/
structure ImportDecl where
  doc : CommentGroup
  pos : Pos
  lparen : Pos
  imports : List Import
  rparen : Pos

def Node.importDecl? : Node → Option ImportDecl
  | .genDecl doc pos word lparen specs rparen =>
    if word = "import" then some ⟨doc, pos, lparen, specs.filterMap Node.import?, rparen⟩ else none
  | _ => none

namespace ImportDecl

def node (d : ImportDecl) : Node :=
  .genDecl d.doc d.pos "import" d.lparen (d.imports.map Import.node) d.rparen

def mentions (path : Bytes) (d : ImportDecl) : Bool := d.imports.any fun i => i.target == path

end ImportDecl

namespace File

def importList (f : File) : List Import := f.imports.filterMap Node.import?

/-- Whether a file imports a path under exactly this name, which may be empty. -/
def hasImport (f : File) (name path : Bytes) : Bool := f.importList.any (Import.isOf name path)

/-- Whether the first import of a path is used. One without selections of its own counts as used. -/
def usesImport (f : File) (path : Bytes) : Bool :=
  match f.importList.find? fun i => i.target == path with
  | none => false
  | some i =>
    match i.localName with
    | none => f.selectsFrom (lastPart path)
    | some a =>
      a.nameText == ("_" : Bytes) || a.nameText == ("." : Bytes) || f.selectsFrom a.nameText

end File
end BridgeCall.Host
