/-
  BridgeCall/Settings/Find.lean
  =============================
  **Finding the settings of a project.**  The settings file is looked for in a
  directory and in all directories above it; the nearest one counts.  A file that
  is there but cannot be used stops the search.
-/
import BridgeCall.Files.Tree
import BridgeCall.Settings.Basic

namespace BridgeCall

inductive LoadError where
  | file (e : FileError)
  | settings (path : Bytes) (e : SettingsError)
  deriving DecidableEq, Repr

def Yaml.Fault.message : Yaml.Fault → Bytes
  | .encoding => "the file is no text"
  | .token => "unexpected text"
  | .grammar => "unexpected structure"
  | .reference => "unknown anchor"
  | .excess => "too many references"
  | .duplicate => "a key is given twice"
  | .tag => "a value does not fit its tag"
  | .key => "a collection is used as a key"
  | .merge => "only mappings can be merged"

def SettingsError.message : SettingsError → Bytes
  | .yaml f => "schema validation: parsing YAML: " ++ f.message
  | .schema => "schema validation: validation failed"
  | .decode => "parsing configuration: a setting is given twice"

def LoadError.message : LoadError → Bytes
  | .file e => "reading configuration: " ++ e.message
  | .settings path e => path ++ (": " : Bytes) ++ e.message

def LoadError.isMissing : LoadError → Bool
  | .file e => e.problem = .missing
  | .settings .. => false

namespace Settings

def fileName : Bytes := "jnicall.yaml"

def load (f : Files) (path : Bytes) : Except LoadError Settings :=
  match f.read path with
  | .error e => .error (.file e)
  | .ok text =>
    match parse text with
    | .ok s => .ok s
    | .error e => .error (.settings path e)

/-- Looks for the settings file in directories, the nearest first; gives its path, too. -/
def search (f : Files) : List (List Bytes) → Except LoadError (Settings × Option Bytes)
  | [] => .ok ({}, none)
  | dir :: above =>
    let path := Path.ofElements (dir ++ [fileName])
    match load f path with
    | .ok s => .ok (s, some path)
    | .error e => if e.isMissing then search f above else .error e

/-- The settings for a directory, with the path of their file; the defaults when there is none. -/
def find (f : Files) (dir : Bytes) : Except LoadError (Settings × Option Bytes) :=
  let place := Path.absolute f.cwd dir
  search f ((List.range (place.length + 1)).reverse.map fun n => place.take n)

end Settings
end BridgeCall
