/-
  BridgeCall/Files/Path.lean
  ==========================
  **Paths as text.**  A path is a list of elements with slashes between them.  It
  is cleaned by its letters alone: a dot is dropped, and two dots take the element
  before them away.
-/
import BridgeCall.Text.Bytes

namespace BridgeCall.Path

def elements (path : Bytes) : List Bytes := Bytes.splitOn 0x2f path

def isAbsolute (path : Bytes) : Bool := path.head? = some 0x2f

/-- The elements that are left of a path; `kept` are those so far, last first. Above the root there
    is nothing, and above the start of a relative path two dots stay. -/
def simplify (absolute : Bool) (kept : List Bytes) : List Bytes → List Bytes
  | [] => kept.reverse
  | e :: es =>
    if e.isEmpty || e = (".": Bytes) then simplify absolute kept es
    else if e = (".." : Bytes) then
      match kept with
      | k :: ks =>
        if k = (".." : Bytes) then simplify absolute (e :: kept) es else simplify absolute ks es
      | [] => simplify absolute (if absolute then [] else [e]) es
    else simplify absolute (e :: kept) es

/-- The text of an absolute path with the given elements. -/
def ofElements (es : List Bytes) : Bytes := 0x2f :: Bytes.join [0x2f] es

/-- The shortest path that reads the same. -/
def clean (path : Bytes) : Bytes :=
  let es := simplify (isAbsolute path) [] (elements path)
  if isAbsolute path then ofElements es
  else if es.isEmpty then "."
  else Bytes.join [0x2f] es

def join (dir name : Bytes) : Bytes :=
  if dir.isEmpty then (if name.isEmpty then [] else clean name) else clean (dir ++ [0x2f] ++ name)

/-- The elements of the absolute path that a path stands for, in the directory `cwd`. -/
def absolute (cwd : List Bytes) (path : Bytes) : List Bytes :=
  simplify true [] ((if isAbsolute path then [] else cwd) ++ elements path)

end BridgeCall.Path
