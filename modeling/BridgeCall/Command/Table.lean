/-
  BridgeCall/Command/Table.lean
  =============================
  **The commands of the program.**  Every command has a name, texts that explain it,
  flags, a rule for the number of its operands, and, unless it only has commands
  below it, an action that is made of its flags and operands.
-/
import BridgeCall.Command.Flag
import BridgeCall.Marker.Generate
import BridgeCall.Program

namespace BridgeCall.Command

/-- What the program can be asked to do. An expression that is not given is read from the input. -/
inductive Action where
  | expand (source : Option Bytes) (env : Bytes) (plan : Bool)
  | generate (paths : List Bytes) (mode : Mode)
  | signature (source : Option Bytes)
  | mangle (package : Option Bytes) (cls fn : Bytes)
  | natives (paths : List Bytes)
  | grammar (namesOnly : Bool)
  | repl (env : Bytes)
  | serve
  | help (topic : List Bytes)
  | script (shell : Bytes)
  deriving DecidableEq, Repr

def Action.readsInput : Action → Bool
  | .expand source _ _ => source.isNone
  | .signature source => source.isNone
  | .repl _ => true
  | _ => false

/-- How many operands a command takes. -/
inductive Arity where
  | any
  | none
  | atMost (n : Nat)
  | exactly (n : Nat)
  | atLeast (n : Nat)
  deriving DecidableEq, Repr

/-- A command on its own. `operands` is how its operands are shown, `quiet` keeps its mistakes from
    being shown, and `flagsShown` says whether its line mentions flags. -/
structure Info where
  name : Bytes
  operands : Bytes := []
  short : Bytes
  long : Bytes := []
  flags : List Flag := []
  arity : Arity := .any
  quiet : Bool := false
  flagsShown : Bool := true
  action : Option (Parsed → Action) := .none

inductive Tree where
  | node (info : Info) (below : List Tree)

namespace Tree

def info : Tree → Info
  | .node i _ => i

def children : Tree → List Tree
  | .node _ ts => ts

theorem sizeOf_lt_of_mem_children {t c : Tree} (h : c ∈ t.children) : sizeOf c < sizeOf t := by
  cases t with
  | node i ts =>
    have := List.sizeOf_lt_of_mem (show c ∈ ts from h)
    simp only [Tree.node.sizeOf_spec]
    omega

end Tree

/-! ### Texts and flags -/

def paragraphs (lines : List String) : Bytes := Bytes.join [0x0a] (lines.map Bytes.ofString)

def envFlag : Flag :=
  { name := "env", kind := .text "env", usage := "Go expression for the bridge environment" }

def envOf (p : Parsed) : Bytes := (p.value? "env").getD "env"

def globalFlags : List Flag :=
  [{ name := "verbose", letter := some 0x76, kind := .count, usage := "Increase log verbosity" },
    { name := "log", kind := .text [], usage := "Write logs to this file instead of stderr" },
    { name := "config", kind := .text [], usage := "Path to jnicall.yaml" }]

def helpFlag (command : Bytes) : Flag :=
  { name := "help", letter := some 0x68, kind := .switch, usage := "help for " ++ command }

def versionFlag : Flag :=
  { name := "version", kind := .switch, usage := "version for " ++ programName }

/-! ### The commands -/

def expand : Info :=
  { name := "expand"
    operands := "[expression]"
    short := "Print the Go code a call expression expands to"
    long := paragraphs [
      "Print the Go code a call expression expands to.",
      "",
      "If no expression is provided, reads it from stdin. The bridge package is",
      "taken from the nearest jnicall.yaml.",
      "",
      "Use --plan to list the bridge operations instead of the code."]
    flags := [envFlag,
      { name := "plan", kind := .switch, usage := "print the lowered operations" }]
    arity := .atMost 1
    action := some fun p => .expand p.operands.head? (envOf p) (p.isOn "plan") }

/-- Generates the twins of marked files. -/
def generate : Info :=
  { name := "generate"
    operands := "[path...]"
    short := "Expand the markers of every tagged Go file"
    long := paragraphs [
      "Expand the markers of every Go file built only with the jnicall tag.",
      "",
      "Each file foo.go is rendered to foo_gen.go, built without the tag.",
      "Directories are walked recursively; the default path is \".\".",
      "",
      "Use --dry-run to print generated files instead of writing them and",
      "--check to fail when a generated file is missing or out of date."]
    flags := [
      { name := "dry-run", letter := some 0x6e, kind := .switch,
        usage := "print generated files instead of writing them" },
      { name := "check", kind := .switch,
        usage := "fail if a generated file is missing or out of date" }]
    action := some fun p =>
      .generate (if p.operands.isEmpty then [Bytes.ofString "."] else p.operands)
        { dryRun := p.isOn "dry-run", check := p.isOn "check" } }

/-- Explains a method descriptor. -/
def signature : Info :=
  { name := "signature"
    operands := "[descriptor | expression]"
    short := "Decode a JNI method descriptor into its Java form"
    long := paragraphs [
      "Decode a JNI method descriptor such as (Z[I)V into the Java declaration",
      "it describes.",
      "",
      "Given a call expression instead, print the signature it is invoked with",
      "before decoding it. Reads from stdin when no argument is provided."]
    arity := .atMost 1
    action := some fun p => .signature p.operands.head? }

/-- Shows the symbol of a native method. -/
def mangle : Info :=
  { name := "mangle"
    operands := "<class> <function>"
    short := "Print the JNI symbol name of a native method"
    long := paragraphs [
      "Print the symbol the JVM looks up for a native method.",
      "",
      "The package defaults to the one configured in the nearest jnicall.yaml."]
    flags := [
      { name := "package", letter := some 0x70, kind := .text [],
        usage := "Java package of the class" }]
    arity := .exactly 2
    action := some fun p =>
      .mangle (p.value? "package") (p.operands.headD []) (p.operands.tail.headD []) }

/-- Lists the native methods of class files. -/
def natives : Info :=
  { name := "natives"
    operands := "<file.class>..."
    short := "List the native methods of compiled classes and their JNI symbols"
    long := paragraphs [
      "List every native method declared by the given class files together",
      "with the symbol the JVM resolves it to. Overloaded natives get the long",
      "symbol that includes the argument descriptor."]
    arity := .atLeast 1
    action := some fun p => .natives p.operands }

/-- Shows the grammar of call expressions. -/
def grammar : Info :=
  { name := "grammar"
    short := "Print the call-expression grammar"
    long := paragraphs [
      "Print the EBNF grammar of call expressions after verifying it.",
      "",
      "With --productions, print only the production names."]
    flags := [{ name := "productions", kind := .switch, usage := "list production names only" }]
    arity := .none
    quiet := true
    action := some fun p => .grammar (p.isOn "productions") }

/-- Answers lines of input. -/
def repl : Info :=
  { name := "repl"
    short := "Expand call expressions interactively"
    long := paragraphs [
      "Read call expressions and print their expansion.",
      "",
      "Commands:",
      "  :plan <expr>    list the bridge operations",
      "  :sig <expr>     print the JNI signature",
      "  :trace <expr>   run the expansion against a recording bridge",
      "  :null <expr>    as :trace, with the method returning null",
      "  :throw <expr>   as :trace, with the method throwing",
      "  :quit"]
    flags := [envFlag]
    arity := .none
    action := some fun p => .repl (envOf p) }

def lsp : Info :=
  { name := "lsp"
    short := "Start the Language Server Protocol server"
    action := some fun _ => .serve }

def help : Info :=
  { name := "help"
    operands := "[command]"
    short := "Help about any command"
    long := paragraphs [
      "Help provides help for any command in the application.",
      "Simply type jnicall help [path to command] for full details."]
    action := some fun p => .help p.operands }

def shell (name : String) (flagsShown : Bool) (long : List String) : Info :=
  { name := name
    short := "Generate the autocompletion script for " ++ Bytes.ofString name
    long := paragraphs long
    flags := [
      { name := "no-descriptions", kind := .switch, usage := "disable completion descriptions" }]
    arity := .none
    flagsShown
    action := some fun _ => .script name }

def shells : List Info :=
  [shell "bash" false [
      "Generate the autocompletion script for the bash shell.",
      "",
      "This script depends on the 'bash-completion' package.",
      "If it is not installed already, you can install it via your OS's package manager.",
      "",
      "To load completions in your current shell session:",
      "",
      "\tsource <(jnicall completion bash)",
      "",
      "To load completions for every new session, execute once:",
      "",
      "#### Linux:",
      "",
      "\tjnicall completion bash > /etc/bash_completion.d/jnicall",
      "",
      "#### macOS:",
      "",
      "\tjnicall completion bash > $(brew --prefix)/etc/bash_completion.d/jnicall",
      "",
      "You will need to start a new shell for this setup to take effect."],
    shell "zsh" true [
      "Generate the autocompletion script for the zsh shell.",
      "",
      "If shell completion is not already enabled in your environment you will need",
      "to enable it.  You can execute the following once:",
      "",
      "\techo \"autoload -U compinit; compinit\" >> ~/.zshrc",
      "",
      "To load completions in your current shell session:",
      "",
      "\tsource <(jnicall completion zsh)",
      "",
      "To load completions for every new session, execute once:",
      "",
      "#### Linux:",
      "",
      "\tjnicall completion zsh > \"$\x7bfpath[1]\x7d/_jnicall\"",
      "",
      "#### macOS:",
      "",
      "\tjnicall completion zsh > $(brew --prefix)/share/zsh/site-functions/_jnicall",
      "",
      "You will need to start a new shell for this setup to take effect."],
    shell "fish" true [
      "Generate the autocompletion script for the fish shell.",
      "",
      "To load completions in your current shell session:",
      "",
      "\tjnicall completion fish | source",
      "",
      "To load completions for every new session, execute once:",
      "",
      "\tjnicall completion fish > ~/.config/fish/completions/jnicall.fish",
      "",
      "You will need to start a new shell for this setup to take effect."],
    shell "powershell" true [
      "Generate the autocompletion script for powershell.",
      "",
      "To load completions in your current shell session:",
      "",
      "\tjnicall completion powershell | Out-String | Invoke-Expression",
      "",
      "To load completions for every new session, add the output of the above command",
      "to your powershell profile."]]

def completion : Info :=
  { name := "completion"
    short := "Generate the autocompletion script for the specified shell"
    long := paragraphs [
      "Generate the autocompletion script for jnicall for the specified shell.",
      "See each sub-command's help for details on how to use the generated script."]
    arity := .none }

def program : Info :=
  { name := programName, short := "Expand JNI call expressions into Go" }

/-- All commands, in the order in which one that is asked for is looked up. -/
def table : Tree :=
  let leaf (i : Info) : Tree := .node i []
  .node program ([expand, generate, signature, mangle, natives, grammar, repl, lsp, help].map leaf
    ++ [Tree.node completion (shells.map leaf)])

end BridgeCall.Command
