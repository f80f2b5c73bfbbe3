/-
  BridgeCall/Settings/Basic.lean
  ==============================
  **Settings.**  A project says in a settings file which bridge package its code
  uses, how its markers are written and how generated files are named.  Every
  setting has a default.
-/
import BridgeCall.Plan.Expand
import BridgeCall.Settings.Pattern
import BridgeCall.Yaml.Value

namespace BridgeCall

structure Settings where
  package : Bytes := []
  bridge : Bytes := "github.com/dhamidi/jnicall/jni"
  bridgeName : Bytes := "jni"
  marker : Bytes := "jnicall.Call"
  buildTag : Bytes := "jnicall"
  suffix : Bytes := "_gen.go"
  deriving DecidableEq, Repr, Inhabited

/-- Why a settings file is refused. -/
inductive SettingsError where
  /-- The file is not well-formed. -/
  | yaml (why : Yaml.Fault)
  /-- It says something that is no setting, or a setting has the wrong form. -/
  | schema
  /-- It gives a setting twice. -/
  | decode
  deriving DecidableEq, Repr

namespace Settings

/-- The names of the settings with the test of their form. -/
def forms : List (Bytes × (Bytes → Bool)) :=
  [("package", Pattern.isPackage), ("bridge", Pattern.isPath), ("bridge_name", Pattern.isName),
    ("marker", Pattern.isMarker), ("build_tag", Pattern.isTag), ("suffix", Pattern.isSuffix)]

/-- The settings with one of them changed; a name that is none changes nothing. -/
def put (s : Settings) (name value : Bytes) : Settings :=
  if name = ("package" : Bytes) then { s with package := value }
  else if name = ("bridge" : Bytes) then { s with bridge := value }
  else if name = ("bridge_name" : Bytes) then { s with bridgeName := value }
  else if name = ("marker" : Bytes) then { s with marker := value }
  else if name = ("build_tag" : Bytes) then { s with buildTag := value }
  else if name = ("suffix" : Bytes) then { s with suffix := value }
  else s

/-- A setting in a file, when it is one and has the right form. -/
def entry? (e : Bytes × Yaml.Value) : Option (Bytes × Bytes) :=
  match e.2, forms.lookup e.1 with
  | .atom (.text v), some ok => if ok v then some (e.1, v) else none
  | _, _ => none

/-- The entries that count: of several for one key, the last. -/
def lastEntries : Yaml.Entries → Yaml.Entries
  | [] => []
  | e :: es => if es.any fun f => f.1 == e.1 then lastEntries es else e :: lastEntries es

def ofValue : Yaml.Value → Except SettingsError Settings
  | .atom .null => .ok {}
  | .table entries =>
    match (lastEntries entries).mapM entry? with
    | none => .error .schema
    | some given =>
      if given.length < entries.length then .error .decode
      else .ok (given.foldl (fun s e => s.put e.1 e.2) {})
  | _ => .error .schema

def parse (text : Bytes) : Except SettingsError Settings :=
  match Yaml.Value.ofText text with
  | .ok v => ofValue v
  | .error f => .error (.yaml f)

/-- What expanded code speaks of, with the expression of its environment. -/
def options (s : Settings) (env : Bytes) : ExpandOptions :=
  { bridge := s.bridge, bridgeName := s.bridgeName, env }

end Settings
end BridgeCall
