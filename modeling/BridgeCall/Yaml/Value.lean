/-
  BridgeCall/Yaml/Value.lean
  ==========================
  **The value of a document.**  A mapping whose keys are all text is a table.  The
  merge key `<<` brings in the entries of other mappings: an entry of the mapping
  itself wins, and of several merged ones the first.  What is not needed is not
  evaluated, so a mistake in it does not count.

  References make it easy to write a small file with a huge value.  The nodes that
  are evaluated are counted, and a file is refused when too large a part of them
  comes from references.
-/
import BridgeCall.Yaml.Atom
import BridgeCall.Yaml.Node

namespace BridgeCall.Yaml

/-- A value. Mappings with other keys than text are not told apart. -/
inductive Value where
  | atom (a : Atom)
  | list (items : List Value)
  | table (entries : List (Bytes × Value))
  | other
  deriving Inhabited, Repr

abbrev Entries := List (Bytes × Value)

/-! ### Counting -/

/-- How many nodes were evaluated, and how many of them behind references. -/
structure Effort where
  nodes : Nat
  referred : Nat
  deriving DecidableEq, Repr

namespace Effort

/-- The number of nodes up to which 99 of 100 may be behind references. -/
def small : Nat := 400000

/-- The number of nodes from which on only 10 of 100 may be behind references. -/
def large : Nat := 4000000

/-- Whether too large a part of the nodes is behind references. Few nodes are never too many, and
    between the two bounds the part that is admitted falls steadily. -/
def isExcessive (e : Effort) : Bool :=
  let part : Nat :=
    if e.nodes ≤ small then 99 * (large - small)
    else if large ≤ e.nodes then 10 * (large - small)
    else 99 * (large - small) - 89 * (e.nodes - small)
  100 < e.referred && 1000 < e.nodes && e.nodes * part < 100 * (large - small) * e.referred

end Effort

abbrev EvalM := StateT Effort (Except Fault)

/-! ### Keys -/

namespace Node

def isMerge : Node → Bool
  | .scalar tag plain text =>
    text = ("<<" : Bytes) &&
      (shortTag tag = ("!!merge" : Bytes) || ((tag.isEmpty || tag = ("!" : Bytes)) && plain))
  | _ => false

/-- Whether a key is text, as far as the form of a table goes: a scalar with a tag of its own is
    not. -/
def isTextScalar : Node → Bool
  | .scalar tag plain text =>
    let tag := shortTag tag
    tag = ("!!str" : Bytes) || tag = ("!!merge" : Bytes) ||
      ((tag.isEmpty || tag = ("!" : Bytes)) &&
        (!plain || (Atom.ofLooks true text).family = .text))
  | _ => false

/-- What tells keys apart: the kind of node and its text, which collections do not have. -/
def keyIdentity : Node → Nat × Bytes
  | .scalar _ _ t => (0, t)
  | .sequence _ => (1, [])
  | .mapping _ => (2, [])
  | .reference _ a _ => (3, a)

def isMapping : Node → Bool
  | .mapping _ => true
  | _ => false

end Node

/-- Whether an element occurs twice in a list. -/
def repeats {α : Type} [BEq α] : List α → Bool
  | [] => false
  | a :: as => as.contains a || repeats as

namespace Document

def target (d : Document) : Node → Node
  | .reference _ _ n => d.named.getD n Node.empty
  | n => n

def hasTextKeys (d : Document) (entries : List (Node × Node)) : Bool :=
  entries.all fun e => e.1.isMerge || (d.target e.1).isTextScalar

/-- Counts a node; `follows` are the references that lead to it. -/
def count (follows : List Nat) : EvalM Unit := do
  let e ← get
  let e : Effort :=
    { nodes := e.nodes + 1, referred := if follows.isEmpty then e.referred else e.referred + 1 }
  if e.isExcessive then throw .excess
  set e

/-- Refuses a reference to something that is part of what it leads to. -/
def follow (follows : List Nat) (number : Nat) : EvalM (List Nat) := do
  if follows.contains number then throw .reference
  return number :: follows

/-- The text of a key in a table; none for a key that stands for nothing. -/
def keyText (d : Document) : Nat → List Nat → Node → EvalM (Option Atom)
  | 0, _, _ => throw .excess
  | fuel + 1, follows, n => do
    count follows
    match n with
    | .reference number _ _ => keyText d fuel (← follow follows number) (d.target n)
    | .scalar tag plain text =>
      match ← Atom.ofScalar (shortTag tag) plain text with
      | .null => return none
      | .text t => return some (.text t)
      | _ => return some (.text text)
    | _ => throw .key

/-- The atom that a value is; a collection is no key. -/
def keyAtom (v : Value) : EvalM Atom :=
  match v with
  | .atom a => return a
  | _ => throw .key

/-! ### Mappings -/

/-- The entries of a mapping, and the keys that must not come again, if any. -/
abbrev Gathered := Option (List Atom) × List (Atom × Value)

/-- The entries that a mapping has itself; `taken` are the keys that are skipped when it is merged. -/
def ownEntries (key : Node → EvalM (Option Atom)) (value : Node → EvalM Value) :
    Option (List Atom) → List (Node × Node) → EvalM Gathered
  | taken, [] => return (taken, [])
  | taken, (k, v) :: rest => do
    if k.isMerge then ownEntries key value taken rest
    else match ← key k with
      | none => ownEntries key value taken rest
      | some a =>
        if (taken.getD []).any a.isSame then ownEntries key value taken rest
        else
          let v ← value v
          let (taken, more) ← ownEntries key value (taken.map (a :: ·)) rest
          return (taken, (a, v) :: more)

/-- The entries of nodes that are merged one after the other. -/
def mergeAll (merge : List Atom → Node → EvalM (List Atom × List (Atom × Value))) :
    List Atom → List Node → EvalM (List Atom × List (Atom × Value))
  | taken, [] => return (taken, [])
  | taken, n :: ns => do
    let (taken, here) ← merge taken n
    let (taken, more) ← mergeAll merge taken ns
    return (taken, here ++ more)

def mergedNodes (d : Document) : Node → Except Fault (List Node)
  | .sequence items => if items.all fun n => (d.target n).isMapping then .ok items else .error .merge
  | n => if (d.target n).isMapping then .ok [n] else .error .merge

/-- All entries of a mapping: its own, then those it merges. -/
def allEntries (d : Document) (key : Node → EvalM (Option Atom)) (value : Node → EvalM Value)
    (merge : List Atom → Node → EvalM (List Atom × List (Atom × Value)))
    (taken : Option (List Atom)) (entries : List (Node × Node)) : EvalM Gathered := do
  if repeats (entries.map fun e => e.1.keyIdentity) then throw .duplicate
  let (taken, own) ← ownEntries key value taken entries
  match entries.find? fun e => e.1.isMerge with
  | none => return (taken, own)
  | some (_, source) =>
    let keys ← match taken with
      | some keys => pure keys
      | none => entries.mapM fun e => do keyAtom (← value e.1)
    let (keys, merged) ← mergeAll merge keys (← d.mergedNodes source)
    return (taken.map fun _ => keys, own ++ merged)

mutual

def value (d : Document) : Nat → List Nat → Node → EvalM Value
  | 0, _, _ => throw .excess
  | fuel + 1, follows, n => do
    count follows
    match n with
    | .scalar tag plain text => return .atom (← Atom.ofScalar (shortTag tag) plain text)
    | .reference number _ _ => value d fuel (← follow follows number) (d.target n)
    | .sequence items => return .list (← items.mapM (value d fuel follows))
    | .mapping entries =>
      let isTable := d.hasTextKeys entries
      let key (k : Node) : EvalM (Option Atom) :=
        if isTable then d.keyText fuel follows k
        else return some (← keyAtom (← value d fuel follows k))
      let (_, all) ←
        d.allEntries key (value d fuel follows) (merged d fuel follows isTable) none entries
      let table := all.filterMap fun
        | (.text t, v) => some (t, v)
        | _ => none
      return if isTable then .table table else .other

/-- The entries of a node that is merged into a mapping, without those with a key that is taken. -/
def merged (d : Document) :
    Nat → List Nat → Bool → List Atom → Node → EvalM (List Atom × List (Atom × Value))
  | 0, _, _, _, _ => throw .excess
  | fuel + 1, follows, isTable, taken, n => do
    count follows
    match n with
    | .reference number _ _ =>
      merged d fuel (← follow follows number) isTable taken (d.target n)
    | .mapping entries =>
      let key (k : Node) : EvalM (Option Atom) :=
        if isTable then d.keyText fuel follows k
        else return some (← keyAtom (← value d fuel follows k))
      let (taken, all) ←
        d.allEntries key (value d fuel follows) (merged d fuel follows isTable) (some taken) entries
      return (taken.getD [], all)
    | _ => throw .merge

end

end Document

/-- The value of the first document of a file; nothing for a file that holds none. -/
def Value.ofText (bytes : Bytes) : Except Fault Value := do
  match ← Document.ofText bytes with
  | some d =>
    -- every reference is followed once at most on the way to a node
    let size := 4 * bytes.length + 16
    let (v, _) ← (d.value (size * size) [] d.root).run { nodes := 1, referred := 0 }
    return v
  | none => return .atom .null

end BridgeCall.Yaml
