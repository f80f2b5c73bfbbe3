/-
  BridgeCall/Host/Imports/Sort.lean
  =================================
  **Imports in order.**  In a declaration with parentheses, each run of imports
  without an empty line between them is sorted by path, name and comment, and one
  that says nothing new is dropped.  The places stay where they were: the first
  one of the sorted run stands where the first one stood, and each comment moves
  with its import.
-/
import BridgeCall.Host.Imports.Edit
import BridgeCall.Host.Parse
import BridgeCall.Host.Print

namespace BridgeCall.Host

/-- The lines of a comment without its marks; a line for a tool has none. -/
def Comment.bodyLines (c : Comment) : List Bytes :=
  match c.text with
  | 0x2f :: 0x2f :: 0x20 :: body => [body]
  | 0x2f :: 0x2f :: body => if DocText.isDirective body then [] else [body]
  | 0x2f :: 0x2a :: body => Bytes.splitOn 0x0a (body.take (body.length - 2))
  | t => [t]

/-- Empty lines at the start are dropped, and of neighbouring empty lines all but one. -/
def squeezeEmpty : Bool → List Bytes → List Bytes
  | _, [] => []
  | afterEmpty, l :: ls =>
    if l.isEmpty && afterEmpty then squeezeEmpty true ls else l :: squeezeEmpty l.isEmpty ls

def CommentGroup.plainText (g : CommentGroup) : Bytes :=
  let trimmed := g.flatMap fun c =>
    c.bodyLines.map (Bytes.trimRight fun b => b = 0x20 || b = 0x09 || b = 0x0a || b = 0x0d)
  let lines := squeezeEmpty true trimmed
  let ended := match lines.getLast? with
    | some l => if l.isEmpty then lines else lines ++ [[]]
    | none => []
  Bytes.join [0x0a] ended

namespace Import

/-- By path, then by name, then by comment; equal ones are in order. -/
def le (i j : Import) : Bool :=
  if i.target ≠ j.target then Bytes.lt i.target j.target
  else if i.name ≠ j.name then Bytes.lt i.name j.name
  else !Bytes.lt j.comment.plainText i.comment.plainText

/-- Whether an import says nothing that the next one does not say. -/
def isIdle (i next : Import) : Bool :=
  i.target == next.target && i.name == next.name && i.comment.isEmpty

end Import

/-- What sorting changes besides the declarations. -/
structure Sorting where
  lines : Lines
  comments : List CommentGroup

namespace Sorting

/-- The place of the first byte of a line. -/
def lineStart (t : Lines) (line : Nat) : Pos := (t.starts[line - 1]?).getD 0 + 1

/-- Drops the imports that say nothing new and merges their lines. -/
def dropIdle : List (Import × Nat) → Lines → List (Import × Nat) × Lines
  | [], t => ([], t)
  | [i], t => ([i], t)
  | i :: j :: rest, t =>
    if i.1.isIdle j.1 then dropIdle (j :: rest) (t.merge (t.line i.1.node.pos))
    else
      let (kept, t) := dropIdle (j :: rest) t
      (i :: kept, t)

/-- The index of the import that a comment belongs to, with whether it stands left of it. `k` is the
    index found for the comment before. -/
def owner (t : Lines) (spans : Array (Pos × Pos)) (k : Nat) (g : CommentGroup) : Nat × Bool :=
  let started := ((spans.toList.drop (k + 1)).takeWhile fun s => s.1 ≤ g.pos).length
  let k := k + started
  let start := (spans[k]?.map (·.1)).getD 0
  if k = 0 && g.pos < start then (0, true)
  else if k + 1 < spans.size && t.line start + 1 = t.line g.pos then (k + 1, true)
  else (k, false)

def owners (t : Lines) (spans : Array (Pos × Pos)) :
    Nat → List CommentGroup → List (Nat × Bool × CommentGroup)
  | _, [] => []
  | k, g :: gs =>
    let (k, left) := owner t spans k g
    (k, left, g) :: owners t spans k gs

def run (s : Sorting) (imports : List Import) : List Import × Sorting :=
  match imports, imports.getLast? with
  | first :: _ :: _, some last =>
    let spans := (imports.map fun i => (i.node.pos, i.node.stop)).toArray
    let lo := lineStart s.lines (s.lines.line first.node.pos)
    let endLine := s.lines.line last.node.stop
    let hi :=
      if endLine = s.lines.starts.length then last.node.stop else lineStart s.lines (endLine + 1)
    let before := s.comments.takeWhile fun g => g.stop < hi && g.pos < lo
    let inside := (s.comments.drop before.length).takeWhile fun g => g.stop < hi
    let after := s.comments.drop (before.length + inside.length)
    let owned := owners s.lines spans 0 inside
    let (kept, lines) := dropIdle (imports.zipIdx.mergeSort fun a b => a.1.le b.1) s.lines
    let placed := kept.zip spans.toList
    let moved := owned.map fun (k, left, g) =>
      match placed.find? fun p => p.1.2 = k with
      | some (_, start, stop) =>
        let p := if left then start - 1 else stop
        g.map fun c => { c with pos := p }
      | none => g
    let sorted := moved.mergeSort fun a b => CommentGroup.pos a ≤ CommentGroup.pos b
    (placed.map fun ((i, _), start, stop) => i.moveTo start stop,
      { lines, comments := before ++ sorted ++ after })
  | _, _ => (imports, s)

/-- Sorts imports run by run; `open'` is the run begun, last import first. -/
def runs (s : Sorting) (open' : List Import) : List Import → List Import × Sorting
  | [] => run s open'.reverse
  | i :: rest =>
    match open' with
    | prev :: _ =>
      if s.lines.line prev.node.stop + 1 < s.lines.line i.node.pos then
        let (done, s) := run s open'.reverse
        let (more, s) := runs s [i] rest
        (done ++ more, s)
      else runs s (i :: open') rest
    | [] => runs s [i] rest

def decl (s : Sorting) (d : ImportDecl) : ImportDecl × Sorting :=
  if d.lparen = 0 then (d, s)
  else
    let (imports, s) := runs s [] d.imports
    let lines := match imports.getLast? with
      | some last =>
        let gap := s.lines.line d.rparen - (s.lines.line last.node.pos + 1)
        (List.range gap).foldl (fun t _ => t.merge (t.line d.rparen - 1)) s.lines
      | none => s.lines
    ({ d with imports }, { s with lines })

/-- Sorts the import declarations at the start of a file. -/
def decls (s : Sorting) : List Node → List Node × Sorting
  | [] => ([], s)
  | n :: ns =>
    match n.importDecl? with
    | none => (n :: ns, s)
    | some d =>
      let (d, s) := decl s d
      let (ns, s) := decls s ns
      (d.node :: ns, s)

end Sorting

namespace File

def sortImports (f : File) : File :=
  let (decls, s) := Sorting.decls ⟨f.lines, f.comments⟩ f.decls
  { f with decls, lines := s.lines, comments := s.comments }

/-- Whether a file starts with imports of which one declaration has parentheses. -/
def hasImportGroup (f : File) : Bool :=
  (f.decls.takeWhile fun n => n.importDecl?.isSome).any fun n =>
    n.importDecl?.any fun d => d.lparen ≠ 0

/-- The text of a file in its normal layout with sorted imports. Sorting reads the text again; where
    that fails, the text before sorting and the offset of the mistake in it are given. -/
def render (f : File) (depth : Nat) : Except (Bytes × Nat) Bytes :=
  let text := f.print depth
  if !f.hasImportGroup then .ok text
  else match File.parse text with
    | .ok f => .ok (f.sortImports.print depth)
    | .error i => .error (text, i)

end File
end BridgeCall.Host
