/-
  BridgeCall/Marker/Generate.lean
  ===============================
  **Generating all twins.**  Directories are searched for host files; hidden ones
  and those kept for other purposes are left out, and so are files that were
  generated.  All package directives are read before the first file is rewritten.
  A twin is stale when it is missing or its text is another one; only stale twins
  are written, and none in a dry run or a check.
-/
import BridgeCall.Marker.Rewrite
import BridgeCall.Settings.Find

namespace BridgeCall

structure Mode where
  dryRun : Bool := false
  check : Bool := false
  deriving DecidableEq, Repr

/-- A marked file with its twin. -/
structure Output where
  source : Bytes
  target : Bytes
  data : Option Bytes := none
  stale : Bool := false
  problems : List Diagnostic := []
  deriving Repr

inductive GenerateError where
  | file (e : FileError)
  | write (target : Bytes) (e : FileError)
  | registry (e : RegistryError)
  | hostSyntax (w : Host.Wording)
  deriving DecidableEq, Repr

def GenerateError.message : GenerateError → Bytes
  | .file e => e.message
  | .write target e => "writing " ++ target ++ ": " ++ e.message
  | .registry e => e.message
  | .hostSyntax w => w.known

def GenerateError.wording : GenerateError → Host.Wording
  | .hostSyntax w => w
  | e => { known := e.message }

namespace Generate

/-! ### Finding host files -/

def isSkipped (name : Bytes) : Bool :=
  name.head? = some 0x2e || name.head? = some 0x5f || name = ("testdata" : Bytes)
    || name = ("vendor" : Bytes)

/-- Whether a file is a host file that was not generated. -/
def isSource (suffix name : Bytes) : Bool :=
  Bytes.endsWith ".go" name && !Bytes.endsWith suffix name

/-- The host files below a directory. `depth` bounds how deep directories nest. -/
def walk (f : Files) (suffix : Bytes) : Nat → List Bytes → Bytes → List Bytes
  | 0, _, _ => []
  | depth + 1, place, path =>
    (f.list place).flatMap fun
      | (name, .directory) =>
        if isSkipped name then [] else walk f suffix depth (place ++ [name]) (Path.join path name)
      | (name, .file _) => if isSource suffix name then [Path.join path name] else []

/-- The host files of a path: the file itself, or those below the directory. -/
def collectPath (f : Files) (suffix path : Bytes) : Except FileError (List Bytes) := do
  match ← f.stat path with
  | .file _ => return [path]
  | .directory =>
    match f.locate path with
    | .ok place => return walk f suffix (f.entries.length + 1) place path
    | .error p => throw ⟨"stat", path, p⟩

/-- The host files of all paths, sorted. -/
def collect (f : Files) (suffix : Bytes) (paths : List Bytes) : Except FileError (List Bytes) := do
  let found ← paths.mapM (collectPath f suffix)
  return found.flatten.mergeSort fun a b => !Bytes.lt b a

/-! ### Scanning and rewriting -/

def scanFile (f : Files) (settings : Settings) (path : Bytes) : Except GenerateError Scan :=
  match f.read path with
  | .error e => .error (.file e)
  | .ok text =>
    match Scan.run settings path text with
    | .ok s => .ok s
    | .error i =>
      .error (.hostSyntax
        { known := Host.citedPlace path text i, cited := some { file := path, text } })

/-- Scans files and applies the package directives of tagged ones; gives the tagged files with the
    problems of their directives. What was set before an error stays set. -/
def scanAll (f : Files) (settings : Settings) (r : Registry) :
    List Bytes → Except GenerateError (List (Scan × List Diagnostic)) × Registry
  | [] => (.ok [], r)
  | path :: rest =>
    match scanFile f settings path with
    | .error e => (.error e, r)
    | .ok s =>
      if !s.tagged then scanAll f settings r rest
      else
        let (ds, r) := s.configure r
        match scanAll f settings r rest with
        | (.ok more, r) => (.ok ((s, ds) :: more), r)
        | (.error e, r) => (.error e, r)

/-- Compares a twin with the file that is there, and writes it when it is stale. -/
def emit (mode : Mode) (f : Files) (target data : Bytes) : Except GenerateError (Bool × Files) := do
  let stale ← match f.read target with
    | .ok old => pure (old != data)
    | .error e => if e.problem = .missing then pure true else throw (.file e)
  if mode.dryRun || mode.check || !stale then return (stale, f)
  match f.write target data with
  | .ok f => return (true, f)
  | .error e => throw (.write target e)

/-- Rewrites a scanned file and takes care of its twin. -/
def output (settings : Settings) (mode : Mode) (r : Registry) (f : Files) (s : Scan)
    (configured : List Diagnostic) : Except GenerateError Output × Files :=
  let w := s.rewrite settings r
  let out : Output :=
    { source := s.name
      target := twinName s.name settings.suffix
      problems := configured ++ w.problems }
  match w.text with
  | none => (.ok out, f)
  | some data =>
    if !out.problems.isEmpty then (.ok out, f)
    else match emit mode f out.target data with
      | .ok (stale, f) => (.ok { out with data := some data, stale }, f)
      | .error e => (.error e, f)

/-- Rewrites all scanned files. An error does not keep the others from being written. -/
def outputs (settings : Settings) (mode : Mode) (r : Registry) (f : Files) :
    List (Scan × List Diagnostic) → Except GenerateError (List Output) × Files
  | [] => (.ok [], f)
  | (s, ds) :: rest =>
    let (out, f) := output settings mode r f s ds
    let (more, f) := outputs settings mode r f rest
    (do return (← out) :: (← more), f)

/-- Generates the twins of all tagged files of some paths. -/
def run (settings : Settings) (mode : Mode) (r : Registry) (f : Files) (paths : List Bytes) :
    Except GenerateError (List Output) × Registry × Files :=
  match collect f settings.suffix paths with
  | .error e => (.error (.file e), r, f)
  | .ok files =>
    match if settings.package.isEmpty then .ok r else r.set settings.package with
    | .error e => (.error (.registry e), r, f)
    | .ok r =>
      match scanAll f settings r files with
      | (.error e, r) => (.error e, r, f)
      | (.ok scans, r) =>
        let (result, f) := outputs settings mode r f scans
        (result, r, f)

end Generate
end BridgeCall
