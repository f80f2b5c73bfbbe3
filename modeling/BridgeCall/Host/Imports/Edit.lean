/-
  BridgeCall/Host/Imports/Edit.lean
  =================================
  **Taking imports away and adding them.**  An import that goes takes its comments
  with it when only one other is left in its declaration, and the hole it leaves
  is closed.  A new import stands after the one whose path shares the most leading
  parts with its own; then all declarations of imports become one.  A declaration
  that imports the path `C` is left alone, because its comment has a meaning.
-/
import BridgeCall.Host.Imports.Basic

namespace BridgeCall.Host

namespace Lines

/-- Merges lines after that of `p` until the line of `q` is the next one, at most `n` of them. Lines
    count as the marks call them. -/
def closeUpTo (p q : Pos) : Nat → Lines → Lines
  | 0, t => t
  | n + 1, t =>
    if t.calledLine p + 1 < t.calledLine q then closeUpTo p q n (t.merge (t.calledLine p).toNat)
    else t

/-- Merges lines after that of `p` until the line of `q` is the next one. -/
def closeUp (t : Lines) (p q : Pos) : Lines := closeUpTo p q t.starts.length t

end Lines

/-! ### Taking away -/

/-- What taking imports away changes besides the declarations: the line table, and the comments
    that go with them. -/
structure Removal where
  lines : Lines
  dropped : List CommentGroup := []

namespace Removal

/-- The first comment that ends before a place on its line. -/
def commentLeftOf (comments : List CommentGroup) (t : Lines) (p : Pos) : Option CommentGroup :=
  comments.find? fun g => g.stop < p && t.calledLine g.stop = t.calledLine p

/-- An import goes and leaves a single one: its comments go, and the other one moves up to the word
    of the declaration. -/
def leaveSingle (comments : List CommentGroup) (d : ImportDecl) (gone kept : Import) (r : Removal) :
    Removal :=
  let left := (commentLeftOf comments r.lines gone.node.pos).toList
  let dropped := [gone.doc, gone.comment].filter (!·.isEmpty) ++ left
  let lines := if kept.doc.isEmpty then r.lines else r.lines.closeUp d.pos kept.doc.pos
  let lines :=
    if (commentLeftOf comments lines kept.node.pos).isSome then lines.closeUp d.pos kept.node.pos
    else lines
  { lines, dropped := r.dropped ++ dropped }

/-- Closes the hole that an import leaves below the one before it. -/
def closeHole (d : ImportDecl) (prev gone : Import) (r : Removal) : Removal :=
  let last := r.lines.line prev.path.pos
  let line := r.lines.line gone.path.pos
  if last + 1 < line || d.rparen = 0 || line = r.lines.starts.length then r
  else { r with lines := r.lines.merge line }

/-- The imports of a declaration that stay; `kept` are those seen so far, last first. -/
def specs (comments : List CommentGroup) (goes : Import → Bool) (d : ImportDecl) :
    List Import → List Import → Removal → List Import × Removal
  | kept, [], r => (kept.reverse, r)
  | kept, i :: rest, r =>
    if !goes i then specs comments goes d (i :: kept) rest r
    else
      let r := match kept.reverse ++ rest with
        | [one] => leaveSingle comments d i one r
        | _ => r
      let r := match kept with
        | prev :: _ => closeHole d prev i r
        | [] => r
      specs comments goes d kept rest r

def decls (comments : List CommentGroup) (goes : Import → Bool) :
    List Node → Removal → List Node × Removal
  | [], r => ([], r)
  | n :: ns, r =>
    match n.importDecl? with
    | none =>
      let (ns, r) := decls comments goes ns r
      (n :: ns, r)
    | some d =>
      let (kept, r) := specs comments goes d [] d.imports r
      let (ns, r) := decls comments goes ns r
      if kept.isEmpty && !d.imports.isEmpty then (ns, r)
      else (({ d with imports := kept } : ImportDecl).node :: ns, r)

end Removal

def File.removeImport (f : File) (name path : Bytes) : File :=
  let goes := Import.isOf name path
  let (decls, r) := Removal.decls f.comments goes f.decls { lines := f.lines }
  { f with
    decls
    lines := r.lines
    comments := f.comments.filter fun g => !r.dropped.contains g
    imports := f.imports.filter fun n => !(n.import?.any goes) }

/-! ### Adding -/

/-- The number of slashes that two paths share before they differ. -/
def sharedParts : Bytes → Bytes → Nat
  | a :: as, b :: bs => if a = b then (if a = 0x2f then 1 else 0) + sharedParts as bs else 0
  | _, _ => 0

def isRemote (path : Bytes) : Bool := path.contains 0x2e

/-- The best place for a new import: the number of shared parts, the declaration and the import in
    it after which it stands. -/
structure BestPlace where
  shared : Option Nat := none
  decl : Option Nat := none
  spec : Option Nat := none

namespace BestPlace

/-- Looks at the imports of declaration `k`, from the `j`th on. While nothing is shared, a path with
    a host name goes on to the first one of its kind; `seen` says whether there was one. -/
def specs (path : Bytes) (k : Nat) : Nat → Bool → List Import → BestPlace → BestPlace
  | _, _, [], b => b
  | j, seen, i :: rest, b =>
    let n := sharedParts i.target path
    let better := match b.shared with
      | none => true
      | some m => m < n || (m = 0 && !seen && isRemote path)
    let b := if better then { shared := some n, decl := some k, spec := some j } else b
    specs path k (j + 1) (seen || isRemote i.target) rest b

/-- Looks at the declarations from the `k`th on. -/
def decls (path : Bytes) : Nat → List Node → BestPlace → BestPlace
  | _, [], b => b
  | k, n :: ns, b =>
    let b := match n.importDecl? with
      | none => b
      | some d =>
        if d.mentions "C" then b
        else
          let b := if d.imports.isEmpty && b.shared.isNone then { b with decl := some k } else b
          specs path k 0 false d.imports b
    decls path (k + 1) ns b

end BestPlace

namespace ImportDecl

/-- Adds an import after the one with the given index, or in front. -/
def insert (d : ImportDecl) (after : Option Nat) (name path : Bytes) : ImportDecl :=
  let at' := match after with
    | some j => j + 1
    | none => 0
  let pos := match after.bind fun j => d.imports[j]? with
    | none => d.pos
    | some prev => if prev.comment.isEmpty then prev.node.pos else prev.comment.stop
  let imports := d.imports.insertIdx at' (Import.new name path pos)
  let lparen :=
    if imports.length = 1 then 0
    else if d.lparen = 0 then (imports.head?.map fun i => i.node.pos).getD 0
    else d.lparen
  { d with imports, lparen }

/-- The declaration with the imports of another one behind its own. -/
def absorb (d e : ImportDecl) : ImportDecl :=
  let move (i : Import) : Import :=
    { i with path := match i.path with
        | .literal _ k t => .literal d.pos k t
        | x => x }
  { d with lparen := d.pos, imports := d.imports ++ e.imports.map move }

end ImportDecl

/-- The place of a new declaration in a file without imports: an empty line after the comments that
    start no later than the line of the package clause. -/
def File.freshImportPos (f : File) : Pos :=
  match (f.comments.takeWhile fun g => f.lines.calledLine g.pos ≤ f.lines.calledLine f.package).getLast? with
  | some g => g.stop + 2
  | none => f.package

/-- Moves the imports of all declarations into the first. -/
def mergeImports (decls : List Node) : List Node :=
  let mergeable (n : Node) : Option ImportDecl := n.importDecl?.filter fun d => !d.mentions "C"
  match decls.findIdx? fun n => (mergeable n).isSome with
  | none => decls
  | some k =>
    let rest := decls.drop (k + 1)
    let others := rest.filterMap mergeable
    let first := (decls[k]?.bind mergeable).toList.map fun d =>
      (others.foldl ImportDecl.absorb d).node
    decls.take k ++ first ++ rest.filter fun n => (mergeable n).isNone

/-- The file with an import of a path under a name, which may be empty. -/
def File.addImport (f : File) (name path : Bytes) : File :=
  let best := BestPlace.decls path 0 f.decls {}
  let decls := match best.decl with
    | some k => f.decls.modify k fun n =>
      match n.importDecl? with
      | some d => (d.insert best.spec name path).node
      | none => n
    | none =>
      let indices := (List.range f.decls.length).filter fun i =>
        (f.decls[i]?.bind Node.importDecl?).isSome
      let (at', pos) := match indices.getLast? with
        | some i => (i + 1, (f.decls[i]?.map Node.stop).getD 0)
        | none => (0, f.freshImportPos)
      let d : ImportDecl := { doc := [], pos, lparen := 0, imports := [], rparen := 0 }
      f.decls.insertIdx at' (d.insert none name path).node
  { f with
    decls := mergeImports decls
    imports := f.imports ++ [(Import.new name path 0).node] }

end BridgeCall.Host
