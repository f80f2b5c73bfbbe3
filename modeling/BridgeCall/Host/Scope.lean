/-
  BridgeCall/Host/Scope.lean
  ==========================
  **Which names are free.**  A name that nothing in the file declares is that of an
  imported package.  Each node is a sequence of steps: scopes open and close, names
  are declared, and parts are visited; a name is visible from its declaration to
  the end of its scope.  Declarations at the top of the file are visible in all of
  it.
-/
import BridgeCall.Host.Walk

namespace BridgeCall.Host

/-- A step on the way through a node. -/
inductive ScopeStep where
  | enter
  | leave
  | declare (names : List Node)
  | visit (n : Node)

namespace Node

def fieldNames : Node → List Node
  | .fieldList _ fields _ => fields.flatMap fun
    | .field _ _ names _ _ => names
    | _ => []
  | _ => []

def fieldNamesOpt : Option Node → List Node
  | some l => l.fieldNames
  | none => []

/-- The parameters and results that a function's type declares in its body. -/
def declaredByType : Node → List Node
  | .funcType _ _ ps rs => ps.fieldNames ++ fieldNamesOpt rs
  | _ => []

def typeParamNames : Node → List Node
  | .funcType _ ts _ _ => fieldNamesOpt ts
  | _ => []

def visits (ns : List Node) : List ScopeStep := ns.map .visit

def inScope (steps : List ScopeStep) : List ScopeStep := .enter :: (steps ++ [ScopeStep.leave])

/-- The type parameters that a receiver gives names to: those in brackets after its type. -/
def receiverTypeParams : Option Node → List Node
  | some (.fieldList _ (.field _ _ _ (.star _ (.index _ _ args _)) _ :: _) _)
  | some (.fieldList _ (.field _ _ _ (.index _ _ args _) _ :: _) _) => args
  | _ => []

/-- The steps of the types of one declaration. The scope of type parameters lasts to the end of the
    declaration. -/
def typeSteps : List Node → List ScopeStep
  | [] => []
  | .typeSpec _ _ n none _ t :: rest => .declare [n] :: .visit t :: typeSteps rest
  | .typeSpec _ _ n (some ts) _ t :: rest =>
    .declare [n] :: inScope (.declare ts.fieldNames :: .visit ts :: .visit t :: typeSteps rest)
  | n :: rest => .visit n :: typeSteps rest

def scopeSteps (n : Node) : List ScopeStep :=
  match n with
  | .selector x _ => [.visit x]
  | .funcLit t b => inScope [.visit t, .declare t.declaredByType, .visit b]
  | .structType _ fs | .interfaceType _ fs => inScope [.visit fs]
  | .assign lhs _ op rhs =>
    visits rhs ++ if op = ":=" then [.declare lhs] else visits lhs
  | .block _ ss _ => inScope (visits ss)
  | .ifStmt _ i c b e => inScope (visits (i.toList ++ c :: b :: e.toList))
  | .caseClause _ xs _ b => visits xs ++ inScope (visits b)
  | .switchStmt _ i t b => inScope (visits (i.toList ++ t.toList ++ [b]))
  | .typeSwitch _ i g b => inScope (visits (i.toList ++ [g, b]))
  | .commClause _ c _ b => inScope (visits (c.toList ++ b))
  | .forStmt _ i c p b => inScope (visits (i.toList ++ c.toList ++ p.toList ++ [b]))
  | .rangeStmt _ k v _ op _ x b =>
    inScope (.visit x :: visits (k.toList ++ v.toList)
      ++ (if op = ":=" then [.declare (k.toList ++ v.toList)] else []) ++ [.visit b])
  | .importSpec .. => []
  | .valueSpec _ _ ns t vs => visits (vs ++ t.toList) ++ [.declare ns]
  | .genDecl _ _ _ _ specs _ => typeSteps specs
  | .funcDecl _ r _ t b =>
    inScope (.declare (receiverTypeParams r) :: visits r.toList
      ++ [.declare t.typeParamNames, .visit t, .declare (fieldNamesOpt r ++ t.declaredByType)]
      ++ visits b.toList)
  | _ => visits n.children

theorem mem_visits {c : Node} {ns : List Node} : .visit c ∈ visits ns ↔ c ∈ ns := by
  simp only [visits, List.mem_map, ScopeStep.visit.injEq, exists_eq_right]

theorem mem_inScope {c : Node} {steps : List ScopeStep} :
    .visit c ∈ inScope steps ↔ .visit c ∈ steps := by
  simp [inScope]

theorem sizeOf_lt_of_mem_typeSteps {c : Node} {ns : List Node} (h : .visit c ∈ typeSteps ns) :
    sizeOf c < sizeOf ns := by
  fun_induction typeSteps ns with
  | case1 => simp at h
  | case2 =>
    simp only [List.mem_cons, reduceCtorEq, ScopeStep.visit.injEq, false_or] at h
    grind
  | case3 =>
    simp only [List.mem_cons, reduceCtorEq, ScopeStep.visit.injEq, false_or, mem_inScope] at h
    grind
  | case4 =>
    simp only [List.mem_cons, ScopeStep.visit.injEq] at h
    grind

theorem sizeOf_lt_of_visit {c n : Node} (h : .visit c ∈ n.scopeSteps) : sizeOf c < sizeOf n := by
  have hl : ∀ ns : List Node, c ∈ ns → sizeOf c < sizeOf ns := fun _ => List.sizeOf_lt_of_mem
  have ho : ∀ o : Option Node, c ∈ o.toList → sizeOf c < sizeOf o :=
    fun _ => sizeOf_lt_of_mem_toList
  have hc : ∀ m : Node, c ∈ m.children → sizeOf c < sizeOf m :=
    fun _ => sizeOf_lt_of_mem_children
  unfold scopeSteps at h
  split at h
  case h_16 =>
    have := sizeOf_lt_of_mem_typeSteps h
    grind
  case h_18 => exact hc _ (mem_visits.1 h)
  all_goals
    simp only [mem_inScope, List.mem_append, List.mem_cons, mem_visits, List.not_mem_nil, or_false,
      ScopeStep.visit.injEq, reduceCtorEq, false_or] at h
  all_goals grind [mem_visits]

end Node

/-- Where the walk stands: whether the name is declared, what held outside the open scopes, and
    whether the name was found free in front of a point. -/
structure ScopeState where
  declared : Bool := false
  outer : List Bool := []
  found : Bool := false

namespace ScopeState

def step (name : Bytes) (s : ScopeState) : ScopeStep → ScopeState
  | .enter => { s with outer := s.declared :: s.outer }
  | .leave => { s with declared := s.outer.headD false, outer := s.outer.tail }
  | .declare ns => { s with declared := s.declared || ns.any fun n => n.nameText == name }
  | .visit _ => s

def selects (name : Bytes) (n : Node) : Bool :=
  n.occurs (fun _ => true) fun
    | .selector (.name _ t) _ => t == name
    | _ => false

/-- Walks a node. The left side of a short variable declaration only declares: a name in front of a
    point there is free whatever is declared. -/
def walk (name : Bytes) (n : Node) (s : ScopeState) : ScopeState :=
  let s := match n with
    | .selector (.name _ t) _ => { s with found := s.found || (t == name && !s.declared) }
    | .assign lhs _ ":=" _ => { s with found := s.found || lhs.any (selects name) }
    | _ => s
  n.scopeSteps.attach.foldl
    (fun s ⟨st, h⟩ =>
      match st, h with
      | .visit c, _ => walk name c s
      | st, _ => s.step name st) s
termination_by sizeOf n
decreasing_by
  rename_i h
  exact Node.sizeOf_lt_of_visit h

end ScopeState

/-- The names that the specifications of one declaration declare in the scope around it: types after
    one with type parameters are in the scope of those. -/
def Node.declaredAround : List Node → List Node
  | [] => []
  | .valueSpec _ _ ns _ _ :: rest => ns ++ declaredAround rest
  | .typeSpec _ _ n none _ _ :: rest => n :: declaredAround rest
  | .typeSpec _ _ n (some _) _ _ :: _ => [n]
  | _ :: rest => declaredAround rest

def Node.declaredAtTop : Node → List Node
  | .genDecl _ _ _ _ specs _ => declaredAround specs
  | .funcDecl _ none n _ _ => if n.nameText == ("init" : Bytes) then [] else [n]
  | _ => []

/-- Whether a file selects from a name that nothing in it declares. -/
def File.selectsFrom (f : File) (name : Bytes) : Bool :=
  let atTop := f.decls.any fun d => d.declaredAtTop.any fun n => n.nameText == name
  f.decls.any fun d => (ScopeState.walk name d { declared := atTop }).found

end BridgeCall.Host
