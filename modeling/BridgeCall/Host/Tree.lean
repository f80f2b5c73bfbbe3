/-
  BridgeCall/Host/Tree.lean
  =========================
  **The syntax tree of a host file.**  Expressions, types, fields, statements,
  specifications and declarations are one type of nodes, because every walk over
  the tree treats them alike.  A comment group that is absent is empty, and a
  place that is absent is zero.

  `Node.pos` and `Node.stop` give the stretch of text a node covers.
-/
import BridgeCall.Host.Lexeme

namespace BridgeCall.Host

/-- Which ways a channel type can be used. -/
inductive Direction where
  | both
  | send
  | receive
  deriving DecidableEq, Repr

inductive Node where
  /- Expressions and types. -/
  | name (pos : Pos) (text : Bytes)
  | literal (pos : Pos) (kind : LiteralKind) (text : Bytes)
  | ellipsis (pos : Pos) (elem : Option Node)
  | funcLit (type body : Node)
  | composite (type : Option Node) (lbrace : Pos) (elems : List Node) (rbrace : Pos)
  | paren (lparen : Pos) (x : Node) (rparen : Pos)
  | selector (x sel : Node)
  | index (x : Node) (lbrack : Pos) (args : List Node) (rbrack : Pos)
  | slice (x : Node) (lbrack : Pos) (low high max : Option Node) (three : Bool) (rbrack : Pos)
  | assertion (x : Node) (lparen : Pos) (type : Option Node) (rparen : Pos)
  | call (fn : Node) (lparen : Pos) (args : List Node) (dots : Pos) (rparen : Pos)
  | star (pos : Pos) (x : Node)
  | unary (pos : Pos) (op : String) (x : Node)
  | binary (x : Node) (pos : Pos) (op : String) (y : Node)
  | keyValue (key : Node) (colon : Pos) (value : Node)
  | arrayType (lbrack : Pos) (len : Option Node) (elem : Node)
  | structType (pos : Pos) (fields : Node)
  | funcType (pos : Pos) (typeParams : Option Node) (params : Node) (results : Option Node)
  | interfaceType (pos : Pos) (methods : Node)
  | mapType (pos : Pos) (key value : Node)
  | chanType (pos arrow : Pos) (dir : Direction) (value : Node)
  | field (doc comment : CommentGroup) (names : List Node) (type : Node) (tag : Option Node)
  | fieldList (opening : Pos) (fields : List Node) (closing : Pos)
  /- Statements. -/
  | declStmt (decl : Node)
  | emptyStmt (pos : Pos) (implicit : Bool)
  | labeled (label : Node) (colon : Pos) (stmt : Node)
  | exprStmt (x : Node)
  | send (chan : Node) (arrow : Pos) (value : Node)
  | step (x : Node) (pos : Pos) (op : String)
  | assign (lhs : List Node) (pos : Pos) (op : String) (rhs : List Node)
  | spawn (pos : Pos) (word : String) (call : Node)
  | ret (pos : Pos) (results : List Node)
  | branch (pos : Pos) (word : String) (label : Option Node)
  | block (lbrace : Pos) (stmts : List Node) (rbrace : Pos)
  | ifStmt (pos : Pos) (init : Option Node) (cond body : Node) (orElse : Option Node)
  | caseClause (pos : Pos) (exprs : List Node) (colon : Pos) (body : List Node)
  | switchStmt (pos : Pos) (init tag : Option Node) (body : Node)
  | typeSwitch (pos : Pos) (init : Option Node) (guard body : Node)
  | commClause (pos : Pos) (comm : Option Node) (colon : Pos) (body : List Node)
  | selectStmt (pos : Pos) (body : Node)
  | forStmt (pos : Pos) (init cond post : Option Node) (body : Node)
  | rangeStmt (pos : Pos) (key value : Option Node) (opPos : Pos) (op : String) (rangePos : Pos)
      (x body : Node)
  /- Specifications and declarations. -/
  | importSpec (doc comment : CommentGroup) (localName : Option Node) (path : Node) (stop : Pos)
  | valueSpec (doc comment : CommentGroup) (names : List Node) (type : Option Node)
      (values : List Node)
  | typeSpec (doc comment : CommentGroup) (name : Node) (typeParams : Option Node) (eq : Pos)
      (type : Node)
  | genDecl (doc : CommentGroup) (pos : Pos) (word : String) (lparen : Pos) (specs : List Node)
      (rparen : Pos)
  | funcDecl (doc : CommentGroup) (recv : Option Node) (name : Node) (type : Node)
      (body : Option Node)
  deriving Inhabited, Repr

namespace Node

/-- The first place, or the second when there is none. -/
def orPos (p q : Pos) : Pos := if p = 0 then q else p

mutual

/-- The place of the first byte of a node. -/
def pos : Node → Pos
  | .name p _ | .literal p _ _ | .ellipsis p _ | .paren p _ _ | .star p _ | .unary p _ _
  | .arrayType p _ _ | .structType p _ | .interfaceType p _ | .mapType p _ _ | .chanType p _ _ _
  | .emptyStmt p _ | .spawn p _ _ | .ret p _ | .branch p _ _ | .block p _ _ | .ifStmt p _ _ _ _
  | .caseClause p _ _ _ | .switchStmt p _ _ _ | .typeSwitch p _ _ _ | .commClause p _ _ _
  | .selectStmt p _ | .forStmt p _ _ _ _ | .rangeStmt p _ _ _ _ _ _ _ | .genDecl _ p _ _ _ _ => p
  | .funcLit x _ | .selector x _ | .index x _ _ _ | .slice x _ _ _ _ _ _ | .assertion x _ _ _
  | .call x _ _ _ _ | .binary x _ _ _ | .keyValue x _ _ | .declStmt x | .labeled x _ _
  | .exprStmt x | .send x _ _ | .step x _ _ | .typeSpec _ _ x _ _ _ | .funcDecl _ _ _ x _ => x.pos
  | .composite type lbrace _ _ => orPos (posOpt type) lbrace
  | .funcType p _ params _ => orPos p params.pos
  | .field _ _ names type _ => orPos (posList names) type.pos
  | .fieldList opening fields _ => orPos opening (posList fields)
  | .assign lhs _ _ _ => posList lhs
  | .importSpec _ _ localName path _ => orPos (posOpt localName) path.pos
  | .valueSpec _ _ names _ _ => posList names

def posOpt : Option Node → Pos
  | none => 0
  | some x => x.pos

def posList : List Node → Pos
  | [] => 0
  | x :: _ => x.pos

end

mutual

/-- The place after the last byte of a node. -/
def stop : Node → Pos
  | .name p t | .literal p _ t => p + t.length
  | .ellipsis p elem => orPos (stopOpt elem) (p + 3)
  | .funcLit _ x | .selector _ x | .star _ x | .unary _ _ x | .binary _ _ _ x | .keyValue _ _ x
  | .arrayType _ _ x | .structType _ x | .interfaceType _ x | .mapType _ _ x | .chanType _ _ _ x
  | .declStmt x | .labeled _ _ x | .exprStmt x | .send _ _ x | .spawn _ _ x | .switchStmt _ _ _ x
  | .typeSwitch _ _ _ x | .selectStmt _ x | .forStmt _ _ _ _ x | .rangeStmt _ _ _ _ _ _ _ x
  | .typeSpec _ _ _ _ _ x => x.stop
  | .composite _ _ _ p | .paren _ _ p | .index _ _ _ p | .slice _ _ _ _ _ _ p
  | .assertion _ _ _ p | .call _ _ _ _ p => p + 1
  | .funcType _ _ params results => orPos (stopOpt results) params.stop
  | .field _ _ _ type tag => orPos (stopOpt tag) type.stop
  | .fieldList _ fields closing => if closing = 0 then stopList fields else closing + 1
  | .emptyStmt p implicit => if implicit then p else p + 1
  | .step _ p _ => p + 2
  | .assign _ _ _ rhs => stopList rhs
  | .ret p results => orPos (stopList results) (p + 6)
  | .branch p word label => orPos (stopOpt label) (p + word.utf8ByteSize)
  | .block lbrace stmts rbrace =>
    if rbrace = 0 then orPos (stopList stmts) (lbrace + 1) else rbrace + 1
  | .ifStmt _ _ _ body orElse => orPos (stopOpt orElse) body.stop
  | .caseClause _ _ colon body | .commClause _ _ colon body => orPos (stopList body) (colon + 1)
  | .importSpec _ _ _ path p => orPos p path.stop
  | .valueSpec _ _ names type values =>
    orPos (stopList values) (orPos (stopOpt type) (stopList names))
  | .genDecl _ _ _ _ specs rparen => if rparen = 0 then stopFirst specs else rparen + 1
  | .funcDecl _ _ _ type body => orPos (stopOpt body) type.stop

def stopOpt : Option Node → Pos
  | none => 0
  | some x => x.stop

def stopList : List Node → Pos
  | [] => 0
  | [x] => x.stop
  | _ :: y :: rest => stopList (y :: rest)

def stopFirst : List Node → Pos
  | [] => 0
  | x :: _ => x.stop

end

def unparen : Node → Node
  | .paren _ x _ => x.unparen
  | x => x

/-- The spelling of a name, nothing for other nodes. -/
def nameText : Node → Bytes
  | .name _ t => t
  | _ => []

def isName : Node → Bool
  | .name .. => true
  | _ => false

end Node

/-- A host file. `imports` are the import specifications in the order of their appearance. -/
structure File where
  package : Pos
  name : Node
  decls : List Node
  imports : List Node
  comments : List CommentGroup
  lines : Lines
  deriving Repr, Inhabited

structure Import where
  doc : CommentGroup
  comment : CommentGroup
  localName : Option Node
  path : Node
  stop : Pos

def Node.import? : Node → Option Import
  | .importSpec doc comment localName path stop => some ⟨doc, comment, localName, path, stop⟩
  | _ => none

end BridgeCall.Host
