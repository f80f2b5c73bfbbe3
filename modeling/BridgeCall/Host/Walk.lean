/-
  BridgeCall/Host/Walk.lean
  =========================
  **Walking the syntax tree.**  The parts of a node are the nodes right below it, in
  the order of the source, each with the use the node makes of its value.  Every
  part is smaller than the whole, so a walk over all parts ends.
-/
import BridgeCall.Host.Tree

namespace BridgeCall.Host

/-- What becomes of the value of an expression. -/
inductive Use where
  /-- It is dropped: the expression is a statement. -/
  | statement
  /-- It alone is assigned to this many variables. -/
  | assigned (n : Nat)
  /-- It is used in another way. -/
  | operand
  deriving DecidableEq, Repr

namespace Node

def operands (ns : List Node) : List (Use × Node) := ns.map fun n => (.operand, n)

/-- The values of an assignment to `n` variables: a single one is assigned to all of them. -/
def assignedTo (n : Nat) : List Node → List (Use × Node)
  | [x] => [(.assigned n, x)]
  | xs => operands xs

/-- The nodes right below a node, in the order of the source, with their use. -/
def parts : Node → List (Use × Node)
  | .name .. | .literal .. | .emptyStmt .. => []
  | .ellipsis _ e => operands e.toList
  | .funcLit t b => operands [t, b]
  | .composite t _ es _ => operands (t.toList ++ es)
  | .paren _ x _ => operands [x]
  | .selector x s => operands [x, s]
  | .index x _ args _ => operands (x :: args)
  | .slice x _ l h m _ _ => operands (x :: (l.toList ++ h.toList ++ m.toList))
  | .assertion x _ t _ => operands (x :: t.toList)
  | .call f _ args _ _ => operands (f :: args)
  | .star _ x | .unary _ _ x => operands [x]
  | .binary x _ _ y => operands [x, y]
  | .keyValue k _ v => operands [k, v]
  | .arrayType _ n e => operands (n.toList ++ [e])
  | .structType _ fs => operands [fs]
  | .funcType _ ts ps rs => operands (ts.toList ++ ps :: rs.toList)
  | .interfaceType _ ms => operands [ms]
  | .mapType _ k v => operands [k, v]
  | .chanType _ _ _ v => operands [v]
  | .field _ _ ns t tag => operands (ns ++ t :: tag.toList)
  | .fieldList _ fs _ => operands fs
  | .declStmt d => operands [d]
  | .labeled l _ s => operands [l, s]
  | .exprStmt x => [(.statement, x)]
  | .send c _ v => operands [c, v]
  | .step x _ _ => operands [x]
  | .assign lhs _ _ rhs => operands lhs ++ assignedTo lhs.length rhs
  | .spawn _ _ c => operands [c]
  | .ret _ xs => operands xs
  | .branch _ _ l => operands l.toList
  | .block _ ss _ => operands ss
  | .ifStmt _ i c b e => operands (i.toList ++ c :: b :: e.toList)
  | .caseClause _ xs _ b => operands (xs ++ b)
  | .switchStmt _ i t b => operands (i.toList ++ t.toList ++ [b])
  | .typeSwitch _ i g b => operands (i.toList ++ [g, b])
  | .commClause _ c _ b => operands (c.toList ++ b)
  | .selectStmt _ b => operands [b]
  | .forStmt _ i c p b => operands (i.toList ++ c.toList ++ p.toList ++ [b])
  | .rangeStmt _ k v _ _ _ x b => operands (k.toList ++ v.toList ++ [x, b])
  | .importSpec _ _ a p _ => operands (a.toList ++ [p])
  | .valueSpec _ _ ns t vs => operands (ns ++ t.toList) ++ assignedTo ns.length vs
  | .typeSpec _ _ n ts _ t => operands (n :: (ts.toList ++ [t]))
  | .genDecl _ _ _ _ ss _ => operands ss
  | .funcDecl _ r n t b => operands (r.toList ++ n :: t :: b.toList)

@[simp] theorem mem_operands {u : Use} {c : Node} {ns : List Node} :
    (u, c) ∈ operands ns ↔ u = .operand ∧ c ∈ ns := by
  simp only [operands, List.mem_map, Prod.mk.injEq]
  exact ⟨fun ⟨_, h, hu, hc⟩ => ⟨hu.symm, hc ▸ h⟩, fun ⟨hu, h⟩ => ⟨c, h, hu.symm, rfl⟩⟩

theorem mem_of_assignedTo {u : Use} {c : Node} {n : Nat} {ns : List Node}
    (h : (u, c) ∈ assignedTo n ns) : c ∈ ns := by
  unfold assignedTo at h
  split at h
  · simp at h
    simp [h.2]
  · exact (mem_operands.1 h).2

theorem sizeOf_lt_of_mem_toList {c : Node} {o : Option Node} (h : c ∈ o.toList) :
    sizeOf c < sizeOf o := by
  cases o with
  | none => simp at h
  | some x =>
    simp at h
    subst h
    simp

theorem sizeOf_lt_of_mem_parts {u : Use} {c n : Node} (h : (u, c) ∈ n.parts) :
    sizeOf c < sizeOf n := by
  have hl : ∀ ns : List Node, c ∈ ns → sizeOf c < sizeOf ns := fun _ => List.sizeOf_lt_of_mem
  have ho : ∀ o : Option Node, c ∈ o.toList → sizeOf c < sizeOf o :=
    fun _ => sizeOf_lt_of_mem_toList
  cases n <;>
    simp only [parts, mem_operands, List.mem_append, List.mem_cons, List.not_mem_nil, or_false,
      Prod.mk.injEq] at h <;>
    grind [mem_of_assignedTo]

/-- The nodes right below a node, in the order of the source. -/
def children (n : Node) : List Node := n.parts.map (·.2)

theorem sizeOf_lt_of_mem_children {c n : Node} (h : c ∈ n.children) : sizeOf c < sizeOf n := by
  simp only [children, List.mem_map] at h
  obtain ⟨⟨u, c'⟩, h, rfl⟩ := h
  exact sizeOf_lt_of_mem_parts h

/-- Whether `p` holds of the node or of one below it; the nodes below one that `enter` refuses are
    not looked at. -/
def occurs (enter p : Node → Bool) (n : Node) : Bool :=
  p n || (enter n && n.children.attach.any fun ⟨c, _⟩ => c.occurs enter p)
termination_by sizeOf n
decreasing_by
  exact sizeOf_lt_of_mem_children ‹_›

end Node
end BridgeCall.Host
