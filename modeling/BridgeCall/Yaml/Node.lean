/-
  BridgeCall/Yaml/Node.lean
  =========================
  **From tokens to the tree of a document.**  Only the first document of a file
  counts, and the file is read no further than its end takes.  A node that is left
  out is an empty plain scalar.  A reference names a node that has started before
  it; of several with one name the latest counts.
-/
import BridgeCall.Yaml.Lexer

namespace BridgeCall.Yaml

/-- A node of a document. The tag is empty when the file gives none. A reference has a number of its
    own and the number of the node it refers to. -/
inductive Node where
  | scalar (tag : Bytes) (plain : Bool) (text : Bytes)
  | sequence (items : List Node)
  | mapping (entries : List (Node × Node))
  | reference (number : Nat) (name : Bytes) (target : Nat)
  deriving Inhabited, Repr

def Node.empty : Node := .scalar [] true []

/-- A document: its tree and the nodes with names, by their numbers. -/
structure Document where
  root : Node
  named : Array Node
  deriving Inhabited, Repr

/-- The state of reading: the lexer, the names with the numbers of their nodes, the nodes with names
    as far as they are complete, the number of references, and the tag handles. -/
structure Reading where
  lexer : Lexer
  anchors : List (Bytes × Nat) := []
  named : Array Node := #[]
  references : Nat := 0
  handles : List (Bytes × Bytes) := []

abbrev ReadM := StateT Reading (Except Fault)

namespace ReadM

def lex {α : Type} (m : LexM α) : ReadM α := do
  let s ← get
  let (a, lexer) ← m.run s.lexer
  set { s with lexer }
  return a

def peek : ReadM Token := lex .peek

def skip : ReadM Unit := lex .skip

def next : ReadM Token := do
  skip
  peek

def fail {α : Type} : ReadM α := throw .grammar

/-! ### Properties of nodes -/

def fullTag (handle suffix : Bytes) : ReadM Bytes := do
  if handle.isEmpty then return suffix
  match (← get).handles.lookup handle with
  | some lead => return lead ++ suffix
  | none => fail

/-- The anchor and the tag in front of a node, in either order. -/
def properties : ReadM (Option Bytes × Option Bytes) := do
  match ← peek with
  | .anchor a =>
    match ← next with
    | .tag h s =>
      skip
      return (some a, some (← fullTag h s))
    | _ => return (some a, none)
  | .tag h s =>
    match ← next with
    | .anchor a =>
      skip
      return (some a, some (← fullTag h s))
    | _ => return (none, some (← fullTag h s))
  | _ => return (none, none)

/-- Reads a node under a name, which stands for it from its start on. -/
def named (anchor : Option Bytes) (content : ReadM Node) : ReadM Node := do
  match anchor with
  | none => content
  | some a =>
    let number := (← get).named.size
    modify fun s =>
      { s with anchors := (a, number) :: s.anchors, named := s.named.push Node.empty }
    let n ← content
    modify fun s => { s with named := s.named.setIfInBounds number n }
    return n

def refer (a : Bytes) : ReadM Node := do
  let s ← get
  match s.anchors.lookup a with
  | none => throw .reference
  | some target =>
    set { s with references := s.references + 1 }
    return .reference s.references a target

/-! ### Collections -/

/-- Where a node stands: among blocks, as key or value of a block mapping, where a sequence needs no
    indentation, or inside brackets. -/
inductive Context where
  | block
  | entry
  | flow
  deriving DecidableEq

/-- Reads a node, unless the token here is one of those that show it was left out. -/
def orEmpty (node : ReadM Node) (stops : List Token) : ReadM Node := do
  if stops.contains (← peek) then return Node.empty else node

def blockItems (node : ReadM Node) : Nat → ReadM (List Node)
  | 0 => fail
  | fuel + 1 => do
    match ← peek with
    | .blockEntry =>
      skip
      let n ← orEmpty node [.blockEntry, .blockEnd]
      return n :: (← blockItems node fuel)
    | .blockEnd =>
      skip
      return []
    | _ => fail

/-- The items of a sequence at the indentation of its key. -/
def looseItems (node : ReadM Node) : Nat → ReadM (List Node)
  | 0 => fail
  | fuel + 1 => do
    match ← peek with
    | .blockEntry =>
      skip
      let n ← orEmpty node [.blockEntry, .key, .value, .blockEnd]
      return n :: (← looseItems node fuel)
    | _ => return []

def blockEntries (node : ReadM Node) : Nat → ReadM (List (Node × Node))
  | 0 => fail
  | fuel + 1 => do
    match ← peek with
    | .key =>
      skip
      let k ← orEmpty node [.key, .value, .blockEnd]
      let v ← match ← peek with
        | .value =>
          skip
          orEmpty node [.key, .value, .blockEnd]
        | _ => pure Node.empty
      return (k, v) :: (← blockEntries node fuel)
    | .blockEnd =>
      skip
      return []
    | _ => fail

/-- A mapping of one entry inside a sequence in brackets, after its mark. -/
def singleEntry (node : ReadM Node) : ReadM Node := do
  let k ← match ← peek with
    | .value | .flowEntry | .flowSequenceEnd =>
      skip
      pure Node.empty
    | _ => node
  let v ← match ← peek with
    | .value =>
      skip
      orEmpty node [.flowEntry, .flowSequenceEnd]
    | _ => pure Node.empty
  return .mapping [(k, v)]

def flowItems (node : ReadM Node) : Nat → Bool → ReadM (List Node)
  | 0, _ => fail
  | fuel + 1, isFirst => do
    if (← peek) = .flowSequenceEnd then
      skip
      return []
    if !isFirst then
      if (← peek) ≠ .flowEntry then fail
      skip
    match ← peek with
    | .flowSequenceEnd =>
      skip
      return []
    | .key =>
      skip
      let n ← singleEntry node
      return n :: (← flowItems node fuel false)
    | _ =>
      let n ← node
      return n :: (← flowItems node fuel false)

def flowEntries (node : ReadM Node) : Nat → Bool → ReadM (List (Node × Node))
  | 0, _ => fail
  | fuel + 1, isFirst => do
    if (← peek) = .flowMappingEnd then
      skip
      return []
    if !isFirst then
      if (← peek) ≠ .flowEntry then fail
      skip
    match ← peek with
    | .flowMappingEnd =>
      skip
      return []
    | .key =>
      skip
      let k ← orEmpty node [.value, .flowEntry, .flowMappingEnd]
      let v ← match ← peek with
        | .value =>
          skip
          orEmpty node [.flowEntry, .flowMappingEnd]
        | _ => pure Node.empty
      return (k, v) :: (← flowEntries node fuel false)
    | _ =>
      let k ← node
      return (k, Node.empty) :: (← flowEntries node fuel false)

/-! ### Nodes and documents -/

/-- The content of a node after its properties. `node` reads the nodes in it. -/
def content (node : Context → ReadM Node) (size : Nat) (ctx : Context) (tag : Option Bytes)
    (anchored : Bool) : ReadM Node := do
  match ← peek with
  | .scalar text plain =>
    skip
    return .scalar (tag.getD []) plain text
  | .flowSequence =>
    skip
    return .sequence (← flowItems (node .flow) size true)
  | .flowMapping =>
    skip
    return .mapping (← flowEntries (node .flow) size true)
  | .blockEntry =>
    if ctx = .entry then return .sequence (← looseItems (node .block) size)
    else orNothing
  | .blockSequence =>
    if ctx = .flow then orNothing
    else
      skip
      return .sequence (← blockItems (node .block) size)
  | .blockMapping =>
    if ctx = .flow then orNothing
    else
      skip
      return .mapping (← blockEntries (node .entry) size)
  | _ => orNothing
where
  /-- A node without content needs an anchor or a tag. -/
  orNothing : ReadM Node :=
    if anchored || tag.any (!·.isEmpty) then return .scalar (tag.getD []) true [] else fail

/-- A node. `size` bounds the nodes in a collection and how deep they nest. -/
def node (size : Nat) : Nat → Context → ReadM Node
  | 0, _ => fail
  | fuel + 1, ctx => do
    match ← peek with
    | .reference a =>
      let n ← refer a
      skip
      return n
    | _ =>
      let (anchor, tag) ← properties
      named anchor (content (node size fuel) size ctx tag anchor.isSome)

def usualHandles : List (Bytes × Bytes) := [("!", "!"), ("!!", "tag:yaml.org,2002:")]

/-- The directives before a document; only version 1.1 is known, and nothing is said twice. -/
def directives : Nat → Bool → ReadM Unit
  | 0, _ => fail
  | fuel + 1, versionSeen => do
    match ← peek with
    | .version major minor =>
      if versionSeen || major ≠ 1 || minor ≠ 1 then fail
      skip
      directives fuel true
    | .tagLead h lead =>
      if ((← get).handles.lookup h).isSome then fail
      modify fun s => { s with handles := (h, lead) :: s.handles }
      skip
      directives fuel versionSeen
    | _ => return

/-- The first document; none when the file holds nothing. -/
def document (size : Nat) : ReadM (Option Document) := do
  skip
  match ← peek with
  | .streamEnd => return none
  | .version .. | .tagLead .. | .documentStart =>
    directives size false
    modify fun s => { s with handles := s.handles ++ usualHandles }
    if (← peek) ≠ .documentStart then fail
    match ← next with
    | .version .. | .tagLead .. | .documentStart | .documentEnd | .streamEnd => finish Node.empty
    | _ => finish (← node size size .block)
  | _ =>
    modify fun s => { s with handles := usualHandles }
    finish (← node size size .block)
where
  /-- The token after a document is looked at, too. -/
  finish (root : Node) : ReadM (Option Document) := do
    let _ ← peek
    return some { root, named := (← get).named }

end ReadM

/-- The first document of a file; none when it holds nothing. -/
def Document.ofText (bytes : Bytes) : Except Fault (Option Document) := do
  -- a character brings at most four tokens with it
  let size := 4 * bytes.length + 16
  let (d, _) ← (ReadM.document size).run { lexer := { cur := .ofBytes bytes } }
  return d

end BridgeCall.Yaml
