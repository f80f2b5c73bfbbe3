/-
  BridgeCall/Command/Usage.lean
  =============================
  **What the program says about its commands.**  The usage of a command shows its
  line, the commands below it and its flags, all sorted by name; its help says first
  what the command is for.
-/
import BridgeCall.Command.Table
import BridgeCall.Text.Space

namespace BridgeCall.Command

/-- A command that was looked up, with the commands above it, from the program down. -/
structure Selected where
  above : List Info
  tree : Tree

namespace Selected

def info (s : Selected) : Info := s.tree.info

def isProgram (s : Selected) : Bool := s.above.isEmpty

def path (s : Selected) : Bytes := Bytes.join [0x20] ((s.above ++ [s.info]).map Info.name)

def ownHelp (s : Selected) : List Flag :=
  helpFlag s.info.name :: if s.isProgram then [versionFlag] else []

end Selected

/-! ### Flags -/

/-- How a flag is shown: its letter and its name, and what it takes. -/
def flagHead (f : Flag) : Bytes :=
  let names : Bytes := match f.letter with
    | some l => "  -" ++ [l] ++ ", --" ++ f.name
    | none => "      --" ++ f.name
  match f.kind with
  | .switch => names
  | .count => names ++ " count"
  | .text _ => names ++ " string"

def flagTail (f : Flag) : Bytes :=
  match f.kind with
  | .text d => if d.isEmpty then f.usage else f.usage ++ " (default " ++ Quoted.quote d ++ ")"
  | _ => f.usage

/-- A text filled with blanks to a width. -/
def padded (width : Nat) (bs : Bytes) : Bytes := bs ++ List.replicate (width - bs.length) 0x20

/-- Flags under a title, one a line; nothing when there are none. -/
def flagSection (title : Bytes) (flags : List Flag) : Bytes :=
  if flags.isEmpty then []
  else
    let sorted := flags.mergeSort fun f g => !Bytes.lt g.name f.name
    let width := sorted.foldl (fun w f => max w (flagHead f).length) 0
    let line (f : Flag) : Bytes := padded (width + 3) (flagHead f) ++ flagTail f
    "\n\n" ++ title ++ ":\n" ++ Bytes.join [0x0a] (sorted.map line)

/-! ### Commands -/

/-- Whether a command is offered: the command for help is not, as it is always there. -/
def isOffered (t : Tree) : Bool :=
  t.info.name ≠ help.name && (t.info.action.isSome || !t.children.isEmpty)

def shownIf (c : Bool) (bs : Bytes) : Bytes := if c then bs else []

def commandSection (below : List Tree) : Bytes :=
  let sorted := (below.map Tree.info).mergeSort fun a b => !Bytes.lt b.name a.name
  let width := sorted.foldl (fun w i => max w i.name.length) 11
  let line (i : Info) : Bytes := "\n  " ++ padded width i.name ++ " " ++ i.short
  shownIf (!below.isEmpty) ("\n\nAvailable Commands:" ++ sorted.flatMap line)

namespace Selected

def useLine (s : Selected) : Bytes :=
  s.path ++ shownIf (!s.info.operands.isEmpty) (" " ++ s.info.operands)
    ++ shownIf s.info.flagsShown " [flags]"

/-- The usage of a command. `own` are the flags it has besides those of the table. -/
def usage (s : Selected) (own : List Flag) : Bytes :=
  let below := s.tree.children
  let here := s.info.flags ++ own ++ if s.isProgram then globalFlags else []
  ("Usage:" : Bytes)
    ++ shownIf s.info.action.isSome ("\n  " ++ s.useLine)
    ++ shownIf (!below.isEmpty) ("\n  " ++ s.path ++ " [command]")
    ++ commandSection below
    ++ flagSection "Flags" here
    ++ flagSection "Global Flags" (if s.isProgram then [] else globalFlags)
    ++ shownIf (!below.isEmpty)
        ("\n\nUse \"" ++ s.path ++ " [command] --help\" for more information about a command.")
    ++ [0x0a]

def helpText (s : Selected) : Bytes :=
  let about := if s.info.long.isEmpty then s.info.short else s.info.long
  Unicode.trimSpaceRight about ++ "\n\n" ++ s.usage s.ownHelp

end Selected
end BridgeCall.Command
