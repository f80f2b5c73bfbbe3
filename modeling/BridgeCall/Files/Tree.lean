/-
  BridgeCall/Files/Tree.lean
  ==========================
  **A tree of files.**  Files and directories are found by the elements of their
  absolute path.  A path is followed element by element, so each element before the
  last must be a directory.
-/
import BridgeCall.Files.Path

namespace BridgeCall

inductive FileProblem where
  | missing
  | notDirectory
  | isDirectory
  deriving DecidableEq, Repr

def FileProblem.message : FileProblem → Bytes
  | .missing => "no such file or directory"
  | .notDirectory => "not a directory"
  | .isDirectory => "is a directory"

/-- A problem with what was tried on which path. -/
structure FileError where
  verb : Bytes
  path : Bytes
  problem : FileProblem
  deriving DecidableEq, Repr

def FileError.message (e : FileError) : Bytes :=
  e.verb ++ (" " : Bytes) ++ e.path ++ ": " ++ e.problem.message

/-- A file with its content, or a directory. -/
inductive Entry where
  | file (content : Bytes)
  | directory
  deriving DecidableEq, Repr

/-- The files below the root, and the current directory. -/
structure Files where
  cwd : List Bytes := []
  entries : List (List Bytes × Entry) := []
  deriving DecidableEq, Repr, Inhabited

namespace Files

/-- What stands at a place; the root is a directory. -/
def at? (f : Files) (place : List Bytes) : Option Entry :=
  if place.isEmpty then some .directory else f.entries.lookup place

/-- Follows elements from a place, which must be a directory while there are more. -/
def follow (f : Files) (place : List Bytes) : List Bytes → Except FileProblem (List Bytes)
  | [] => .ok place
  | e :: es =>
    match f.at? place with
    | none => .error .missing
    | some (.file _) => .error .notDirectory
    | some .directory =>
      if e.isEmpty || e = ("." : Bytes) then follow f place es
      else if e = (".." : Bytes) then follow f place.dropLast es
      else follow f (place ++ [e]) es

def locate (f : Files) (path : Bytes) : Except FileProblem (List Bytes) :=
  if path.isEmpty then .error .missing
  else if Path.isAbsolute path then f.follow [] (Path.elements path)
  else f.follow f.cwd (Path.elements path)

def find (f : Files) (path : Bytes) : Except FileProblem Entry := do
  match f.at? (← f.locate path) with
  | some e => return e
  | none => throw .missing

/-- What stands at the end of a path, for a caller that only looks. -/
def stat (f : Files) (path : Bytes) : Except FileError Entry :=
  match f.find path with
  | .ok e => .ok e
  | .error p => .error ⟨"stat", path, p⟩

def read (f : Files) (path : Bytes) : Except FileError Bytes :=
  match f.find path with
  | .ok (.file content) => .ok content
  | .ok .directory => .error ⟨"read", path, .isDirectory⟩
  | .error p => .error ⟨"open", path, p⟩

def put (f : Files) (place : List Bytes) (e : Entry) : Files :=
  { f with entries := f.entries.filter (fun x => x.1 ≠ place) ++ [(place, e)] }

/-- Puts an entry at a place and directories at all places above it. -/
def create (f : Files) (place : List Bytes) (e : Entry) : Files :=
  let above := (List.range place.length).map fun n => place.take n
  (above.foldl (fun f p => if (f.at? p).isSome then f else f.put p .directory) f).put place e

/-- Writes a file, new or old, in a directory that exists. -/
def write (f : Files) (path content : Bytes) : Except FileError Files :=
  let fail (p : FileProblem) : Except FileError Files := .error ⟨"open", path, p⟩
  match f.locate path with
  | .error p => fail p
  | .ok place =>
    match f.at? place, f.at? place.dropLast with
    | some .directory, _ => fail .isDirectory
    | _, some .directory => .ok (f.put place (.file content))
    | _, some (.file _) => fail .notDirectory
    | _, none => fail .missing

/-- Takes away what stands at a place and below it. -/
def remove (f : Files) (place : List Bytes) : Files :=
  { f with entries := f.entries.filter fun x => !place.isPrefixOf x.1 }

/-- The names right below a place, in order, with what stands there. -/
def list (f : Files) (place : List Bytes) : List (Bytes × Entry) :=
  let below := f.entries.filterMap fun (p, e) =>
    if p.length = place.length + 1 && place.isPrefixOf p then p.getLast?.map fun n => (n, e)
    else none
  below.mergeSort fun a b => !Bytes.lt b.1 a.1

/-- The files below the current directory, with their paths from there, in the order of the
    paths. -/
def contents (f : Files) : List (Bytes × Bytes) :=
  let files := f.entries.filterMap fun
    | (p, .file content) =>
      if f.cwd.isPrefixOf p then some (Bytes.join [0x2f] (p.drop f.cwd.length), content) else none
    | _ => none
  files.mergeSort fun a b => !Bytes.lt b.1 a.1

end Files
end BridgeCall
