/-
  BridgeCall/Plan/Expand.lean
  ===========================
  **Expanded code as text.**  The function is written as the value of a blank
  variable in a file of its own, the file is brought into its normal layout, and
  the function is cut out again.  Code that is no proper host file has no text.

  A package gets its wanted name at its first use; a name that is reserved or
  taken gets the first free number behind it.
-/
import BridgeCall.Plan.Code
import BridgeCall.Host.Parse
import BridgeCall.Host.Print
import BridgeCall.Host.Report

namespace BridgeCall

/-- What expanded code speaks of: the import path of the bridge package, the name it is imported
    as, and the expression of the environment. -/
structure ExpandOptions where
  bridge : Bytes := []
  bridgeName : Bytes := []
  env : Bytes := []
  deriving DecidableEq, Repr, Inhabited

namespace ExpandOptions

def orElse (t default : Bytes) : Bytes := if t.isEmpty then default else t

def withDefaults (o : ExpandOptions) : ExpandOptions :=
  { bridge := orElse o.bridge "github.com/dhamidi/jnicall/jni"
    bridgeName := orElse o.bridgeName "jni"
    env := orElse o.env "env" }

end ExpandOptions

namespace Code

/-- The names that no package can have: keywords, what every file knows without an import, and the
    usual name of an error. -/
def reserved : List Bytes :=
  (Host.keywords ++
    ["bool", "byte", "complex64", "complex128", "error", "float32", "float64", "int", "int8",
      "int16", "int32", "int64", "rune", "string", "uint", "uint8", "uint16", "uint32", "uint64",
      "uintptr", "true", "false", "iota", "nil", "append", "cap", "close", "complex", "copy",
      "delete", "imag", "len", "make", "new", "panic", "print", "println", "real", "recover", "err",
      "_"]).map Bytes.ofString

/-- The names given to packages, by import path. -/
abbrev Names := List (Bytes × Bytes)

/-- Writing code, with the names given so far. -/
abbrev TextM := StateM Names

/-- The first name from `base` on that is free, with numbers from `i` on. -/
def freeName (used : List Bytes) (base : Bytes) : Nat → Nat → Bytes
  | 0, i => base ++ Bytes.ofNat i
  | fuel + 1, i =>
    let name := if i = 0 then base else base ++ Bytes.ofNat i
    if reserved.contains name || used.contains name then freeName used base fuel (i + 1) else name

/-- The import path of a package and the name it should have. -/
def wanted (o : ExpandOptions) : Package → Bytes × Bytes
  | .format => ("fmt", "fmt")
  | .bridge => (o.bridge, if o.bridge = ("fmt" : Bytes) then "fmt" else o.bridgeName)

/-- The name of a package, given at its first use. -/
def packageName (o : ExpandOptions) (p : Package) : TextM Bytes := do
  let (path, base) := wanted o p
  let names ← get
  match names.lookup path with
  | some n => return n
  | none =>
    let n :=
      if path = ("C" : Bytes) then path
      else freeName (names.map (·.2)) base (reserved.length + names.length + 1) 0
    set (names ++ [(path, n)])
    return n

mutual

def Expr.write (o : ExpandOptions) : Expr → TextM Bytes
  | .text t | .copied t | .environment t => return t
  | .str s => return Quoted.quote s
  | .num n => return Bytes.ofNat n
  | .qual p n => return (← packageName o p) ++ "." ++ n
  | .method x n args => do
    let x ← x.write o
    return x ++ " . " ++ n ++ " (" ++ (← writeList o args) ++ ")"
  | .apply fn args => do
    let fn ← fn.write o
    return fn ++ " (" ++ (← writeList o args) ++ ")"
  | .slice elem values => do
    let elem ← elem.write o
    return "[] " ++ elem ++ " \x7b" ++ (← writeList o values) ++ "\x7d"
  | .not x => return "! " ++ (← x.write o)

/-- The text of expressions with commas between them. -/
def writeList (o : ExpandOptions) : List Expr → TextM Bytes
  | [] => return []
  | [x] => x.write o
  | x :: y :: rest => do
    let x ← x.write o
    return x ++ "," ++ (← writeList o (y :: rest))

end

/-- A conditional statement with a single statement in its block. -/
def writeIf (header body : Bytes) : Bytes := "if " ++ header ++ " \x7b\n" ++ body ++ "\n\x7d"

def errorTest : Bytes := errorVar ++ " != nil"

def writePanic (o : ExpandOptions) (message : Bytes) (args : List Expr) : TextM Bytes := do
  return "panic(" ++ (← (Expr.apply (.qual .format "Errorf") (.str message :: args)).write o) ++ ")"

def writeReturn (o : ExpandOptions) (results : List Expr) : TextM Bytes := do
  return "return " ++ (← writeList o results)

def Stmt.write (o : ExpandOptions) : Stmt → TextM Bytes
  | .define vars x => return Bytes.join "," vars ++ " := " ++ (← x.write o)
  | .panicIfError m => return writeIf errorTest (← writePanic o m [.text errorVar])
  | .panicIfErrorOf x m => do
    let x ← x.write o
    return writeIf (errorVar ++ " := " ++ x ++ ";" ++ errorTest)
      (← writePanic o m [.text errorVar])
  | .panicIf c m => do
    let c ← c.write o
    return writeIf c (← writePanic o m [])
  | .returnIfErrorOf x rs => do
    let x ← x.write o
    return writeIf (errorVar ++ " := " ++ x ++ ";" ++ errorTest) (← writeReturn o rs)
  | .returnIf c rs => do
    let c ← c.write o
    return writeIf c (← writeReturn o rs)
  | .ret rs => writeReturn o rs

def Function.write (o : ExpandOptions) (f : Function) : TextM Bytes := do
  let results ← writeList o f.results
  let body ← f.body.mapM (Stmt.write o)
  let header : Bytes := match f.results with
    | [] => "func ()"
    | [_] => "func () " ++ results
    | _ => "func () (" ++ results ++ ")"
  return header ++ " \x7b" ++ body.flatMap (0x0a :: ·) ++ "\n\x7d ()"

/-- The import lines of a file, sorted by path. A name that is not the wanted one is written. -/
def writeImports (o : ExpandOptions) (names : Names) : Bytes :=
  let line (e : Bytes × Bytes) : Bytes :=
    let given := e.2 ≠ (wanted o .bridge).2 && e.2 ≠ (wanted o .format).2 && e.1 ≠ ("C" : Bytes)
    (if given then e.2 ++ " " else []) ++ Quoted.quote e.1
  match names.mergeSort (fun a b => !Bytes.lt b.1 a.1) with
  | [] => []
  | [e] => "import " ++ line e ++ "\n\n"
  | es => "import (" ++ es.flatMap (fun e => 0x0a :: line e) ++ "\n)\n\n"

/-- The mark in front of the function in its file. -/
def mark : Bytes := "\nvar _ = "

def Function.file (o : ExpandOptions) (f : Function) : Bytes :=
  let (text, names) := (f.write o).run []
  "package expansion\n\n" ++ writeImports o names ++ mark ++ text

end Code

/-- The text of a host file in its normal layout; none when it is no proper file. -/
def Host.normalLayout (text : Bytes) : Option Bytes :=
  match File.parse text with
  | .ok f => some (f.print (depthFor text))
  | .error _ => none

/-- The file with the expanded code of a plan, before it is laid out. -/
def Plan.draft (p : Plan) (options : ExpandOptions) : Bytes :=
  let o := options.withDefaults
  (p.code o.env).file o

/-- The expanded code of a plan; none when a copied expression makes it no proper code. -/
def Plan.expand (p : Plan) (options : ExpandOptions) : Option Bytes := do
  let text ← Host.normalLayout (p.draft options)
  let (_, code) ← Bytes.cut Code.mark text
  return Unicode.trimSpace code

/-- The message about a plan that has no code. -/
def Plan.unwritten (p : Plan) (options : ExpandOptions) : Host.Wording :=
  let draft := p.draft options
  let subject : Bytes := "render " ++ p.call.method ++ ": "
  match Host.File.parse draft with
  | .error i =>
    { known := subject ++ "Error " ++ Host.citedPlace [] draft i
      cited := some { text := draft, after := " while formatting source:\n" ++ draft } }
  | .ok _ => { known := subject ++ "expansion not found in rendered file" }

end BridgeCall
