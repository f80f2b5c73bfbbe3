/-
  BridgeCall/Command/Line.lean
  ============================
  **From the words of a command line to what is asked.**  A command is looked for
  among the words that are no flags and no values of flags; the words that name it
  are then taken away, and the others are read with its flags.  A command that does
  not exist is answered with those of similar names.
-/
import BridgeCall.Command.Usage
import BridgeCall.Text.Distance

namespace BridgeCall.Command

inductive UsageError where
  | unknown (name : Bytes) (similar : List Bytes)
  | flag (e : FlagError)
  | surplus (name path : Bytes)
  | tooMany (most got : Nat)
  | wrongNumber (wanted got : Nat)
  | tooFew (least got : Nat)
  deriving DecidableEq, Repr

def UsageError.message : UsageError → Bytes
  | .unknown name similar =>
    let line (n : Bytes) : Bytes := "\t" ++ n ++ "\n"
    "unknown command " ++ Quoted.quote name ++ " for " ++ Quoted.quote programName
      ++ shownIf (!similar.isEmpty) ("\n\nDid you mean this?\n" ++ similar.flatMap line)
  | .flag e => e.message
  | .surplus name path => "unknown command " ++ Quoted.quote name ++ " for " ++ Quoted.quote path
  | .tooMany most got =>
    "accepts at most " ++ Bytes.ofNat most ++ " arg(s), received " ++ Bytes.ofNat got
  | .wrongNumber wanted got =>
    "accepts " ++ Bytes.ofNat wanted ++ " arg(s), received " ++ Bytes.ofNat got
  | .tooFew least got =>
    "requires at least " ++ Bytes.ofNat least ++ " arg(s), only received " ++ Bytes.ofNat got

/-- A command line that is not carried out; a quiet one is not explained. -/
structure Refusal where
  error : UsageError
  quiet : Bool := false
  deriving DecidableEq, Repr

/-- What the program says to a command line that it refuses. -/
def Refusal.text (r : Refusal) : Bytes :=
  if r.quiet then []
  else
    let said : Bytes := "Error: " ++ r.error.message ++ "\n"
    match r.error with
    | .unknown .. => said ++ "Run '" ++ programName ++ " --help' for usage.\n"
    | _ => said

/-! ### Looking commands up -/

/-- Whether a word is a flag that takes the next word as its value, as far as the flags are known. -/
def takesNext (flags : List Flag) (word : Bytes) : Bool :=
  let isBare (f : Option Flag) : Bool := (f.bind Flag.bareValue?).isSome
  !word.contains 0x3d && match word with
    | 0x2d :: 0x2d :: name => !isBare (Flag.named? flags name)
    | [0x2d, l] => !isBare (Flag.lettered? flags l)
    | _ => false

/-- The words that are neither flags nor their values. A flag that takes the last word ends them. -/
def plainWords (flags : List Flag) : List Bytes → List Bytes
  | [] => []
  | w :: ws =>
    if w = ("--" : Bytes) then []
    else if takesNext flags w then
      match ws with
      | _ :: v :: rest => plainWords flags (v :: rest)
      | _ => []
    else if w.isEmpty || w.head? = some 0x2d then plainWords flags ws
    else w :: plainWords flags ws

/-- The words without the first one that names a command. -/
def dropName (flags : List Flag) (name : Bytes) : List Bytes → List Bytes
  | [] => []
  | w :: ws =>
    if w = ("--" : Bytes) then w :: ws
    else if takesNext flags w then
      match ws with
      | v :: rest => w :: v :: dropName flags name rest
      | [] => [w]
    else if w.head? ≠ some 0x2d && w = name then ws
    else w :: dropName flags name ws

/-- Looks for a command below another one, and for one below that, as long as words name some; gives
    the command with the words that are left. -/
def descend (above : List Info) (t : Tree) (words : List Bytes) : Selected × List Bytes :=
  let flags := t.info.flags ++ globalFlags
  match (plainWords flags words).head? with
  | none => (⟨above, t⟩, words)
  | some w =>
    match t.children.attach.find? fun c => c.1.info.name = w with
    | none => (⟨above, t⟩, words)
    | some c => descend (above ++ [t.info]) c.1 (dropName flags w words)
termination_by sizeOf t
decreasing_by exact Tree.sizeOf_lt_of_mem_children c.2

/-- The commands whose names are like a word: it starts them, or is at most two letters off. -/
def similar (word : Bytes) : List Bytes :=
  (table.children.filter isOffered).map (fun t => t.info.name) |>.filter fun n =>
    Bytes.distance (Bytes.toLower word) n ≤ 2 || Bytes.startsWith (Bytes.toLower word) n

/-- Looks a command up. The first plain word must name one. -/
def select (words : List Bytes) : Except UsageError (Selected × List Bytes) :=
  let (s, rest) := descend [] table words
  match s.isProgram, (plainWords globalFlags rest).head? with
  | true, some w => .error (.unknown w (similar w))
  | _, _ => .ok (s, rest)

/-! ### Reading the rest -/

inductive Order where
  | version
  | help (s : Selected)
  /-- An action, with the path of a settings file when one is given. -/
  | act (settings : Bytes) (a : Action)

def checkArity (s : Selected) (operands : List Bytes) : Except UsageError Unit :=
  let got := operands.length
  match s.info.arity, operands with
  | .none, w :: _ => .error (.surplus w s.path)
  | .atMost n, _ => if n < got then .error (.tooMany n got) else .ok ()
  | .exactly n, _ => if got ≠ n then .error (.wrongNumber n got) else .ok ()
  | .atLeast n, _ => if got < n then .error (.tooFew n got) else .ok ()
  | _, _ => .ok ()

/-- Reads the flags and operands of a command. A command without an action shows its help. -/
def Selected.order (s : Selected) (words : List Bytes) : Except UsageError Order :=
  match Flag.parse (s.info.flags ++ s.ownHelp ++ globalFlags) words with
  | .error e => .error (.flag e)
  | .ok p =>
    if p.isOn "help" then .ok (.help s)
    else if s.isProgram && p.isOn "version" then .ok .version
    else match s.info.action with
      | none => .ok (.help s)
      | some action => do
        checkArity s p.operands
        return .act ((p.value? "config").getD []) (action p)

def Order.ofWords (words : List Bytes) : Except Refusal Order :=
  match select words with
  | .error e => .error { error := e }
  | .ok (s, rest) =>
    match s.order rest with
    | .error e => .error { error := e, quiet := s.info.quiet }
    | .ok o => .ok o

end BridgeCall.Command
