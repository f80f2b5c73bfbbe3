/-
  BridgeCall/Host/Parse/Types.lean
  ================================
  **Types, fields and parameters.**  A parameter list names all its parameters or
  none.  Names that share a type are collected in one field.
-/
import BridgeCall.Host.Parse.Basic

namespace BridgeCall.Host.Parse

open ParserM

/-- A name, qualified when a point follows it. -/
def typeName (first : Node) : ParserM Node := do
  if (← isOp ".") then
    next
    return .selector first (← name)
  return first

/-- The arguments of a generic type, in brackets. -/
def typeInstance (g : Grammar) (t : Node) : ParserM Node := do
  let l ← op "["
  let args ← nested (commaList "]" g.type)
  let r ← op "]"
  if args.isEmpty then failAt r
  return .index t l args r

def qualifiedName (g : Grammar) (first : Node) : ParserM Node := do
  let t ← typeName first
  if (← isOp "[") then typeInstance g t else return t

/-- An array or slice type after its opening bracket; `len` is the length when it was read
    already. -/
def arrayType (g : Grammar) (lbrack : Pos) (len : Option Node) : ParserM Node := do
  let len ← match len with
    | some n => pure (some n)
    | none => nested do
      if (← isOp "...") then
        let p ← here
        next
        return some (.ellipsis p none)
      else if (← isOp "]") then return none
      else return some (← g.expr)
  let _ ← op "]"
  return .arrayType lbrack len (← g.type)

/-- After a name, a bracket opens either an array type, and the name is that of a field, or the
    arguments of the generic type with that name. -/
def arrayOrInstance (g : Grammar) (x : Node) : ParserM (Option Node × Node) := do
  let l ← op "["
  let (args, trailing) ← nested do
    if (← isOp "]") then return ([], none)
    let first ← g.expr
    let rec loop : Nat → ParserM (List Node × Option Pos)
      | 0 => return ([], none)
      | n + 1 => do
        if !(← isOp ",") then return ([], none)
        let comma ← here
        next
        if (← isOp "]") then return ([], some comma)
        let y ← g.expr
        let (ys, t) ← loop n
        return (y :: ys, t)
    let (more, t) ← loop ((← get).rest.length + 2)
    return (first :: more, t)
  let r ← op "]"
  match args with
  | [] => return (some x, .arrayType l none (← g.type))
  | [len] =>
    match ← g.type? with
    | some elem =>
      match trailing with
      | some p => failAt p
      | none => return (some x, .arrayType l (some len) elem)
    | none => return (none, .index x l args r)
  | _ => return (none, .index x l args r)

/-! ### Fields of structures -/

def fieldTag : ParserM (Option Node) := do
  let l ← cur
  if l.kind = .literal .string then
    next
    return some (.literal l.pos .string l.text)
  return none

/-- Whether a name before this lexeme is an embedded type. -/
def embeds : ParserM Bool := do
  return (← isOp ".") || (← kind) = .literal .string || (← isOp ";") || (← isOp rbrace)

def fieldDecl (g : Grammar) : ParserM Node := do
  let doc := (← get).lead
  let (names, type) ←
    if (← isOp "*") then
      let p ← here
      next
      let t ← qualifiedName g (← name)
      pure (([] : List Node), Node.star p t)
    else do
      let first ← name
      if (← embeds) then
        let t ← if (← isOp ".") then qualifiedName g first else pure first
        pure ([], t)
      else
        let more ← many do
          if (← isOp ",") then
            next
            return some (← name)
          return none
        if more.isEmpty && (← isOp "[") then
          let (x, t) ← arrayOrInstance g first
          pure (x.toList, t)
        else
          pure (first :: more, ← g.type)
  let tag ← fieldTag
  let comment ← semicolon
  return .field doc comment names type tag

def structType (g : Grammar) : ParserM Node := do
  let p ← word "struct"
  let l ← op lbrace
  let fields ← many do
    if (← kind) = .name || (← isOp "*") || (← isOp "(") then return some (← fieldDecl g)
    return none
  let r ← op rbrace
  return .structType p (.fieldList l fields r)

/-! ### Elements of interfaces and constraints -/

def embeddedTerm (g : Grammar) : ParserM Node := do
  if (← isOp "~") then
    let p ← here
    next
    return .unary p "~" (← g.type)
  g.type

/-- A union of terms, of which the first may have been read already. -/
def embeddedElem (g : Grammar) (first : Option Node) : ParserM Node := do
  let x ← match first with
    | some x => pure x
    | none => embeddedTerm g
  extend (fun x => do
    if (← isOp "|") then
      let p ← here
      next
      return some (.binary x p "|" (← embeddedTerm g))
    return none) x

/-! ### Parameters -/

/-- A parameter as written: a name, a type, or both. -/
structure Param where
  name : Option Node
  type : Option Node

/-- Whether a type that is no plain name starts here. -/
def startsType : ParserM Bool := do
  match ← kind with
  | .op s => return ["*", "<-", "["].contains s || s = "("
  | .keyword w => return ["func", "chan", "map", "struct", "interface"].contains w
  | _ => return false

/-- The type of a parameter that stands for any number of arguments. -/
def dotsType (g : Grammar) : ParserM Node := do
  let p ← op "..."
  return .ellipsis p (some (← g.type))

/-- Extends a parameter by the union that follows its type. -/
def withUnion (g : Grammar) (sets : Bool) (f : Param) : ParserM Param := do
  match f.type with
  | some t => if sets && (← isOp "|") then return { f with type := some (← embeddedElem g (some t)) }
              else return f
  | none => return f

def afterParamName (g : Grammar) (sets : Bool) (n : Node) : ParserM Param := do
  if (← isOp "[") then
    let (x, t) ← arrayOrInstance g n
    withUnion g sets ⟨x, some t⟩
  else if (← kind) = .name || (← startsType) then
    withUnion g sets ⟨some n, some (← g.type)⟩
  else if (← isOp "...") then
    return ⟨some n, some (← dotsType g)⟩
  else if (← isOp ".") then
    withUnion g sets ⟨none, some (← qualifiedName g n)⟩
  else if sets && (← isOp "~") then
    return ⟨some n, some (← embeddedElem g none)⟩
  else if sets && (← isOp "|") then
    return ⟨none, some (← embeddedElem g (some n))⟩
  else
    return ⟨some n, none⟩

/-- One parameter, whose name may have been read already. `sets` allows unions of types. -/
def paramDecl (g : Grammar) (sets : Bool) (known : Option Node) : ParserM Param := do
  match known with
  | some n => afterParamName g sets n
  | none =>
    if sets && (← isOp "~") then return ⟨none, some (← embeddedElem g none)⟩
    else if (← kind) = .name then afterParamName g sets (← name)
    else if (← startsType) then withUnion g sets ⟨none, some (← g.type)⟩
    else if (← isOp "...") then return ⟨none, some (← dotsType g)⟩
    else fail

/-- Named parameters as fields: names without a type share that of the next parameter with one. -/
def groupParams : List Node → List Param → List Node
  | _, [] => []
  | names, p :: ps =>
    let names := names ++ p.name.toList
    match p.type with
    | some t => .field [] [] names t none :: groupParams [] ps
    | none => groupParams names ps

/-- The mistake in a list that names some of its parameters: the first type without a name. When
    each type has one, names at the end lack a type, and the mistake is at the end of the list. -/
def unnamed? (ps : List Param) (stop : Pos) : Option Pos :=
  match ps.findSome? fun p => if p.name.isNone then p.type.map Node.pos else none with
  | some p => some p
  | none => if ps.getLast?.any fun p => p.type.isNone then some stop else none

/-- The fields of a parameter list. A list of type parameters must name them. -/
def paramFields (types : Bool) (start : Pos) (ps : List Param) : ParserM (List Node) := do
  if ps.isEmpty then return []
  if !(ps.any fun p => p.name.isSome && p.type.isSome) then
    if types then
      if ps.any fun p => p.type.isSome then failAt start else fail
    return ps.filterMap fun p => (p.type.or p.name).map fun t => .field [] [] [] t none
  match unnamed? ps (← here) with
  | some p => failAt p
  | none => return groupParams [] ps

/-- The fields of a parameter list up to `closing`; the first name or the first name and type may
    have been read already. -/
def parameterList (g : Grammar) (closing : String) (first : Option Param) : ParserM (List Node) := do
  let types := closing = "]"
  let start ← match first with
    | some p => pure (Node.posOpt p.name)
    | none => here
  let head ← match first with
    | none => pure none
    | some ⟨n, none⟩ => pure (some (← paramDecl g types n))
    | some ⟨n, some t⟩ => pure (some ⟨n, some (← if types then embeddedElem g (some t) else pure t)⟩)
  let rest ← match head with
    | none => commaList closing (paramDecl g types none)
    | some _ =>
      if (← atComma closing) then
        next
        commaList closing (paramDecl g types none)
      else pure []
  paramFields types start (head.toList ++ rest)

/-- The type parameters in brackets, when there are some. -/
def typeParameters (g : Grammar) : ParserM (Option Node) := do
  if (← isOp "[") then
    let l ← op "["
    let fields ← parameterList g "]" none
    let r ← op "]"
    if fields.isEmpty then failAt r
    return some (.fieldList l fields r)
  return none

def parameters (g : Grammar) : ParserM Node := do
  let l ← op "("
  let fields ← if (← isOp ")") then pure [] else parameterList g ")" none
  let r ← op ")"
  return .fieldList l fields r

/-- The results of a function: a list in parentheses, a single type, or nothing. -/
def results (g : Grammar) : ParserM (Option Node) := do
  if (← isOp "(") then return some (← parameters g)
  match ← g.type? with
  | some t => return some (.fieldList 0 [.field [] [] [] t none] 0)
  | none => return none

def funcType (g : Grammar) : ParserM Node := do
  let p ← word "func"
  match ← typeParameters g with
  | some t => failAt t.pos
  | none =>
    let ps ← parameters g
    return .funcType p none ps (← results g)

/-! ### Interfaces -/

/-- A method of an interface, or an embedded element that starts with a name. -/
def methodSpec (g : Grammar) : ParserM Node := do
  let doc := (← get).lead
  let x ← typeName (← name)
  if !x.isName then
    let t ← if (← isOp "[") then typeInstance g x else pure x
    let t ← embeddedElem g (some t)
    return .field doc (← semicolon) [] t none
  else if (← isOp "[") then
    let l ← op "["
    let first ← nested g.expr
    let isMethod := first.isName && !(← isOp ",") && !(← isOp "]")
    if isMethod then
      let _ ← parameterList g "]" (some ⟨some first, none⟩)
      failAt l
    let more ← if (← atComma "]") then nested (do next; commaList "]" g.type) else pure []
    let r ← op "]"
    let t ← embeddedElem g (some (.index x l (first :: more) r))
    return .field doc (← semicolon) [] t none
  else if (← isOp "(") then
    let ps ← parameters g
    let rs ← results g
    return .field doc (← semicolon) [x] (.funcType 0 none ps rs) none
  else
    let t ← embeddedElem g (some x)
    return .field doc (← semicolon) [] t none

def interfaceType (g : Grammar) : ParserM Node := do
  let p ← word "interface"
  let l ← op lbrace
  let methods ← many do
    if (← kind) = .name then return some (← methodSpec g)
    else if (← isOp "~") then
      let t ← embeddedElem g none
      return some (.field [] (← semicolon) [] t none)
    else match ← g.type? with
      | some t =>
        let t ← embeddedElem g (some t)
        return some (.field [] (← semicolon) [] t none)
      | none => return none
  let r ← op rbrace
  return .interfaceType p (.fieldList l methods r)

def mapType (g : Grammar) : ParserM Node := do
  let p ← word "map"
  let _ ← op "["
  let key ← g.type
  let _ ← op "]"
  return .mapType p key (← g.type)

def chanType (g : Grammar) : ParserM Node := do
  let p ← here
  if (← isWord "chan") then
    next
    if (← isOp "<-") then
      let arrow ← here
      next
      return .chanType p arrow .send (← g.type)
    return .chanType p 0 .both (← g.type)
  else
    let arrow ← op "<-"
    let _ ← word "chan"
    return .chanType p arrow .receive (← g.type)

/-- A type, when one starts here. -/
def type? (g : Grammar) : ParserM (Option Node) := do
  match ← kind with
  | .name =>
    return some (← qualifiedName g (← name))
  | .op "[" =>
    let l ← op "["
    return some (← arrayType g l none)
  | .op "*" =>
    let p ← op "*"
    return some (.star p (← g.type))
  | .op "<-" => return some (← chanType g)
  | .op "(" =>
    let l ← op "("
    let t ← g.type
    let r ← op ")"
    return some (.paren l t r)
  | .keyword "struct" => return some (← structType g)
  | .keyword "func" => return some (← funcType g)
  | .keyword "interface" => return some (← interfaceType g)
  | .keyword "map" => return some (← mapType g)
  | .keyword "chan" => return some (← chanType g)
  | _ => return none

end BridgeCall.Host.Parse
