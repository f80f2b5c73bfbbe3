/-
  BridgeCall/Command/Run.lean
  ===========================
  **Carrying a command line out.**  An action reads the files and the input of a
  console, and leaves its output, its messages and changed files there.  What was
  printed before an action fails stays printed.
-/
import BridgeCall.Command.Line
import BridgeCall.Editor.Session
import BridgeCall.Expr.Grammar
import BridgeCall.Machine.Symbol

namespace BridgeCall.Command

/-- What a command works on: files, the home directory, the input, what the host's parser says, and
    what was printed so far. -/
structure Console where
  files : Files := {}
  home : Bytes := []
  input : Bytes := []
  parser : Host.Reporter := fun _ _ => {}
  out : Bytes := []
  err : Bytes := []

inductive Failure where
  | settings (e : LoadError)
  | line (e : Editor.LineError)
  | descriptor (desc : Bytes) (e : DescriptorError)
  | file (e : FileError)
  | classFile (path : Bytes) (e : ClassFileError)
  | registry (e : RegistryError)
  | generate (e : GenerateError)
  | problems (n : Nat)
  | stale (n : Nat)
  | noScript (shell : Bytes)

/-- The wording of a failure. A class file that is a directory can be opened, but not read. -/
def Failure.message : Failure → Bytes
  | .settings e => e.message
  | .line e => e.message
  | .descriptor desc e => e.message desc
  | .file e =>
    if e.problem = .isDirectory then e.path ++ (": read magic: " : Bytes) ++ e.message
    else "open class file: " ++ e.message
  | .classFile path e => path ++ (": " : Bytes) ++ e.message
  | .registry e => e.message
  | .generate e => e.message
  | .problems n => Bytes.ofNat n ++ (" problems" : Bytes)
  | .stale n => Bytes.ofNat n ++ (" generated files out of date" : Bytes)
  | .noScript s => "no completion script for " ++ s

def Failure.wording : Failure → Host.Wording
  | .line e => e.wording
  | .generate e => e.wording
  | e => { known := e.message }

abbrev CommandM := ExceptT Failure (StateM Console)

def put (bs : Bytes) : CommandM Unit := modify fun c => { c with out := c.out ++ bs }

def say (bs : Bytes) : CommandM Unit := put (bs ++ [0x0a])

/-- Prints a line for messages. -/
def complain (bs : Bytes) : CommandM Unit := modify fun c => { c with err := c.err ++ bs ++ [0x0a] }

/-- A result, or a failure with its cause. -/
def orFail {ε α : Type} (f : ε → Failure) : Except ε α → CommandM α
  | .ok a => pure a
  | .error e => throw (f e)

/-- The settings: those of the given file, or those that are found from a directory on. -/
def settings (file dir : Bytes) : CommandM Settings := do
  let c ← get
  if file.isEmpty then return (← orFail .settings (Settings.find c.files dir)).1
  else orFail .settings (Settings.load c.files file)

/-- The expression that is given, or the one in the input. -/
def sourceText : Option Bytes → CommandM Bytes
  | some src => pure src
  | none => do
    let c ← get
    set { c with input := [] }
    return Unicode.trimSpace c.input

def call (src : Bytes) : CommandM Call :=
  orFail (fun f => .line (.fault f)) (Call.parse (Source.at src Position.origin))

/-! ### Expressions and symbols -/

/-- Prints the code of a call expression, or its plan. -/
def runExpand (file : Bytes) (source : Option Bytes) (env : Bytes) (planOnly : Bool) :
    CommandM Unit := do
  let src ← sourceText source
  let s ← settings file "."
  let c ← call src
  let plan := Plan.lower c
  match plan.expand (s.options env) with
  | none => throw (.line (.render (plan.unwritten (s.options env))))
  | some code => if planOnly then put plan.text else say code

/-- Explains a descriptor, or the signature of a call expression. -/
def runSignature (source : Option Bytes) : CommandM Unit := do
  let src ← sourceText source
  match MethodType.parse src with
  | .ok m => say (m.declaration [])
  | .error e =>
    if src.head? = some 0x28 && !Bytes.includes "->" src then throw (.descriptor src e)
    let c ← call src
    let m ← orFail (.descriptor c.signature) (MethodType.parse c.signature)
    say c.signature
    say (m.declaration c.method)

/-- Prints the symbol of a native method. -/
def runMangle (file : Bytes) (package : Option Bytes) (cls fn : Bytes) : CommandM Unit := do
  match package with
  | some p => say (Symbol.ofNative p cls fn)
  | none => say (Symbol.ofNative (← settings file ".").package cls fn)

/-- Prints the native methods of class files. -/
def runNatives (paths : List Bytes) : CommandM Unit :=
  paths.forM fun path => do
    let text ← orFail .file ((← get).files.read path)
    let c ← orFail (.classFile path) (ClassFile.parse text)
    c.natives.forM fun m => say (c.symbol m ++ "\t" ++ m.declaration)

def runGrammar (namesOnly : Bool) : CommandM Unit :=
  if namesOnly then Grammar.names.forM say else put Grammar.text

/-! ### Generating -/

/-- Tells about an output; gives how many problems it has, and whether it is out of date. -/
def report (mode : Mode) (o : Output) : CommandM (Nat × Nat) := do
  let c ← get
  o.problems.forM fun d => complain (d.worded c.parser).line
  if !o.problems.isEmpty then return (o.problems.length, 0)
  if mode.check && o.stale then
    complain (o.target ++ " is out of date")
    return (0, 1)
  if mode.dryRun then say ("// " ++ o.target ++ "\n" ++ o.data.getD [])
  return (0, 0)

def runGenerate (file : Bytes) (paths : List Bytes) (mode : Mode) : CommandM Unit := do
  let s ← settings file (paths.headD ".")
  let c ← get
  let (result, _, files) := Generate.run s mode {} c.files paths
  set { c with files }
  let counts ← (← orFail .generate result).mapM (report mode)
  let problems : Nat := counts.foldr (fun c n => c.1 + n) 0
  let stale : Nat := counts.foldr (fun c n => c.2 + n) 0
  if 0 < problems then throw (.problems problems)
  if 0 < stale then throw (.stale stale)

/-! ### Lines of input -/

/-- The most bytes of a line that are read at once. -/
def lineLimit : Nat := 4096

/-- Cuts a line that is not shorter than the limit into pieces. A carriage return never ends a
    piece but the last. -/
def pieces (line : Bytes) : List Bytes :=
  if line.length < lineLimit then [line]
  else if (line.take lineLimit).getLast? = some 0x0d then
    line.take (lineLimit - 1) :: pieces (line.drop (lineLimit - 1))
  else line.take lineLimit :: pieces (line.drop lineLimit)
termination_by line.length
decreasing_by all_goals simp only [lineLimit, List.length_drop] at *; omega

/-- A line of a text, and whether a line feed ends it. -/
abbrev RawLine := Bytes × Bool

/-- The lines of a text; what follows the last line feed is one, too, unless it is empty. -/
def rawLines (text : Bytes) : List RawLine :=
  let ls := Bytes.splitOn 0x0a text
  ls.dropLast.map (·, true) ++ (ls.drop (ls.length - 1)).filterMap fun l =>
    if l.isEmpty then none else some (l, false)

/-- The line without the carriage return that belongs to its end. -/
def lineText : RawLine → Bytes
  | (l, ended) => if ended && l.getLast? = some 0x0d then l.dropLast else l

/-- The lines of the input as they are read, piece by piece. -/
def inputLines (text : Bytes) : List Bytes :=
  (rawLines text).flatMap fun (l, ended) =>
    let ps := pieces l
    ps.dropLast ++ (ps.drop (ps.length - 1)).filterMap fun p =>
      if p.isEmpty && !ended then none else some (lineText (p, ended))

/-- The most lines that are remembered. -/
def historyLimit : Nat := 1000

/-- The last lines of a history, as many as are remembered. -/
def latest (history : List Bytes) : List Bytes := history.drop (history.length - historyLimit)

/-- Remembers a line, unless it is the last one again. -/
def remember (history : List Bytes) (line : Bytes) : List Bytes :=
  if history.getLast? = some line then history else latest (history ++ [line])

/-- The history in a file: its lines up to one that is too long or no text. -/
def readHistory (text : Bytes) : List Bytes :=
  let short := (rawLines text).takeWhile fun (l, _) => l.length < lineLimit
  latest ((short.map lineText).takeWhile Utf8.isValid)

def prompt : Bytes := programName ++ "> "

/-- Answers lines until one says to quit; gives the history. At the end of the input the line of the
    prompt is ended. -/
def answerLines (options : ExpandOptions) : List Bytes → List Bytes → CommandM (List Bytes)
  | history, [] => do
    say prompt
    return history
  | history, l :: ls => do
    put prompt
    let line := Unicode.trimSpace l
    if line.isEmpty then answerLines options history ls
    else
      let history := remember history line
      match Editor.evalLine options line with
      | .quit => return history
      | .text out => do
        say out
        answerLines options history ls
      | .failed e => do
        complain (e.wording.text (← get).parser)
        answerLines options history ls

def historyName : Bytes := ".jnicall_history"

/-- Answers the lines of the input and keeps their history in a file, when it can be written. -/
def runRepl (file env : Bytes) : CommandM Unit := do
  let s ← settings file "."
  let c ← get
  let path := Path.join c.home historyName
  let old := match c.files.read path with
    | .ok text => readHistory text
    | .error _ => []
  let history ← answerLines (s.options env) old (inputLines c.input)
  let text := history.flatMap fun l => l ++ [0x0a]
  modify fun c => match c.files.write path text with
    | .ok files => { c with files, input := [] }
    | .error _ => { c with input := [] }

/-! ### Everything -/

/-- A text between back quotes when it can stand there, and else between double quotes. -/
def shownTopic (bs : Bytes) : Bytes :=
  let fits (r : Nat × Bytes) : Bool :=
    r.1 ≠ 0xFEFF && r.1 ≠ 0x60 && r.1 ≠ 0x7f && (0x20 ≤ r.1 || r.1 = 0x09)
  if Utf8.isValid bs && (Utf8.runes bs).all fits then 0x60 :: bs ++ [0x60] else Quoted.quote bs

/-- Explains a command; for one that does not exist the usage of the program is a message. -/
def runHelp (topic : List Bytes) : CommandM Unit :=
  match select topic with
  | .ok (s, _) => put s.helpText
  | .error _ => do
    complain ("Unknown help topic [" ++ Bytes.join " " (topic.map shownTopic) ++ "]")
    modify fun c => { c with err := c.err ++ (⟨[], table⟩ : Selected).usage [] }

/-- Carries an action out. The server for editors ends with its input. -/
def runAction (file : Bytes) : Action → CommandM Unit
  | .expand source env plan => runExpand file source env plan
  | .generate paths mode => runGenerate file paths mode
  | .signature source => runSignature source
  | .mangle package cls fn => runMangle file package cls fn
  | .natives paths => runNatives paths
  | .grammar namesOnly => runGrammar namesOnly
  | .repl env => runRepl file env
  | .serve => return
  | .help topic => runHelp topic
  | .script shell => throw (.noScript shell)

def runOrder : Order → CommandM Unit
  | .version => say (programName ++ " version " ++ programVersion)
  | .help s => put s.helpText
  | .act file a => runAction file a

/-- Carries a command line out; gives whether it succeeds. -/
def run (words : List Bytes) (c : Console) : Bool × Console :=
  match Order.ofWords words with
  | .error r => (false, { c with err := c.err ++ r.text })
  | .ok o =>
    match (runOrder o).run c with
    | (.ok (), c) => (true, c)
    | (.error e, c) =>
      (false, { c with err := c.err ++ "Error: " ++ e.wording.text c.parser ++ "\n" })

end BridgeCall.Command
