/-
  BridgeCall/Command/Flag.lean
  ============================
  **Flags on a command line.**  A flag has a name, given after two dashes, and maybe
  a letter, given after one dash; letters can be grouped.  A flag that takes a text
  finds it after an equals sign or in the next word.  All other words are operands,
  and so is everything after two dashes alone.

  `Flag.parse` reads the words of a command line; the first mistake wins.
-/
import BridgeCall.Number.Integer
import BridgeCall.Text.Quoted

namespace BridgeCall

inductive FlagKind where
  | switch
  | count
  | text (default : Bytes)
  deriving DecidableEq, Repr

structure Flag where
  name : Bytes
  letter : Option UInt8 := none
  kind : FlagKind
  usage : Bytes
  deriving DecidableEq, Repr

/-- A mistake in the flags of a command line. -/
inductive FlagError where
  | malformed (word : Bytes)
  | unknown (name : Bytes)
  | unknownLetter (letter : UInt8) (group : Bytes)
  | noValue (name : Bytes)
  | noLetterValue (letter : UInt8) (group : Bytes)
  | badValue (flag : Flag) (value : Bytes) (trouble : Number.Trouble)
  deriving DecidableEq, Repr

/-- What the words of a command line give: values for flags, and operands, both in order. -/
structure Parsed where
  given : List (Bytes × Bytes) := []
  operands : List Bytes := []
  deriving DecidableEq, Repr

namespace Flag

/-! ### Values -/

/-- The value of a flag that is given without one; a flag for a text has none. -/
def bareValue? (f : Flag) : Option Bytes :=
  match f.kind with
  | .switch => some "true"
  | .count => some "+1"
  | .text _ => none

def trouble? (f : Flag) (value : Bytes) : Option Number.Trouble :=
  let failure {α : Type} : Except Number.Trouble α → Option Number.Trouble
    | .error t => some t
    | .ok _ => none
  match f.kind with
  | .switch => failure (Number.readBool value)
  | .count => failure (Number.readSigned 64 value)
  | .text _ => none

def label (f : Flag) : Bytes :=
  match f.letter with
  | some l => "-" ++ [l] ++ ", --" ++ f.name
  | none => "--" ++ f.name

end Flag

/-- The first byte of the UTF-8 code of the character with a byte's number. -/
def shownLetter (b : UInt8) : Nat := ((Utf8.encode b.toNat).headD 0).toNat

def FlagError.message : FlagError → Bytes
  | .malformed w => "bad flag syntax: " ++ w
  | .unknown n => "unknown flag: --" ++ n
  | .unknownLetter l g =>
    "unknown shorthand flag: " ++ Quoted.quoteChar (shownLetter l) ++ " in -" ++ g
  | .noValue n => "flag needs an argument: --" ++ n
  | .noLetterValue l g =>
    "flag needs an argument: " ++ Quoted.quoteChar (shownLetter l) ++ " in -" ++ g
  | .badValue f v t =>
    let reader : Bytes := if f.kind = .count then "strconv.ParseInt" else "strconv.ParseBool"
    "invalid argument " ++ Quoted.quote v ++ " for " ++ Quoted.quote f.label ++ " flag: " ++ reader
      ++ ": parsing " ++ Quoted.quote v ++ ": " ++ t.message

namespace Flag

/-! ### Words -/

inductive Word where
  | operand
  /-- Two dashes alone: only operands follow. -/
  | last
  | flags (given : List (Flag × Bytes))
  /-- A flag that takes the next word as its value; `missing` is the mistake when there is none. -/
  | pending (given : List (Flag × Bytes)) (flag : Flag) (missing : FlagError)

def named? (flags : List Flag) (name : Bytes) : Option Flag := flags.find? fun f => f.name = name

def lettered? (flags : List Flag) (l : UInt8) : Option Flag := flags.find? fun f => f.letter = some l

/-- A word that gives flags, unless a value is refused. -/
def checked (given : List (Flag × Bytes)) : Except FlagError Word :=
  match given.findSome? fun (f, v) => (f.trouble? v).map fun t => FlagError.badValue f v t with
  | some e => .error e
  | none => .ok (.flags given)

/-- What follows two dashes. -/
def long (flags : List Flag) (word : Bytes) : Except FlagError Word :=
  let body := word.drop 2
  if body.head?.all fun b => b = 0x2d || b = 0x3d then .error (.malformed word)
  else
    let (name, value) := match Bytes.cut "=" body with
      | some (n, v) => (n, some v)
      | none => (body, none)
    match named? flags name with
    | none => .error (.unknown name)
    | some f =>
      match value <|> f.bareValue? with
      | some v => checked [(f, v)]
      | none => .ok (.pending [] f (.noValue name))

/-- What follows one dash: letters, the last of them maybe with a value. -/
def group (flags : List Flag) (given : List (Flag × Bytes)) : Bytes → Except FlagError Word
  | [] => checked given
  | l :: rest =>
    if Bytes.startsWith "test." (l :: rest) then checked given
    else match lettered? flags l with
      | none => .error (.unknownLetter l (l :: rest))
      | some f =>
        match rest, f.bareValue? with
        | 0x3d :: c :: cs, _ => checked (given ++ [(f, c :: cs)])
        | _, some v => group flags (given ++ [(f, v)]) rest
        | [], none => .ok (.pending given f (.noLetterValue l [l]))
        | _, none => checked (given ++ [(f, rest)])

def readWord (flags : List Flag) (word : Bytes) : Except FlagError Word :=
  match word with
  | [0x2d, 0x2d] => .ok .last
  | 0x2d :: 0x2d :: _ => long flags word
  | 0x2d :: l :: rest => group flags [] (l :: rest)
  | _ => .ok .operand

/-- Reads the words of a command line. -/
def parse (flags : List Flag) : List Bytes → Except FlagError Parsed
  | [] => .ok {}
  | w :: ws => do
    let with' (given : List (Flag × Bytes)) (p : Parsed) : Parsed :=
      { p with given := given.map (fun (f, v) => (f.name, v)) ++ p.given }
    match ← readWord flags w with
    | .operand =>
      let p ← parse flags ws
      return { p with operands := w :: p.operands }
    | .last => return { operands := ws }
    | .flags given => return with' given (← parse flags ws)
    | .pending given f missing =>
      match ws with
      | [] => throw missing
      | v :: ws => return with' (given ++ [(f, v)]) (← parse flags ws)

end Flag

namespace Parsed

def value? (p : Parsed) (name : Bytes) : Option Bytes := p.given.reverse.lookup name

def isOn (p : Parsed) (name : Bytes) : Bool :=
  match p.value? name with
  | some v => match Number.readBool v with
    | .ok b => b
    | .error _ => false
  | none => false

end Parsed
end BridgeCall
