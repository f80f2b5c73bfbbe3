/-
  BridgeCall/Proofs/Host/Literals.lean
  ====================================
  **The literals of a syntax tree.**  A parser takes the string literals of its nodes from
  the lexemes it reads, each with its place and its text, and never changes the line
  table.  The comments in front of a function are lexemes, too, and so are those it adds
  to the comments of the file.  It reads the lexemes in their order, so a call ends at a
  closing parenthesis that no literal among its arguments is behind (`Node.Encloses`).
  `Keeps e r` says so of one parser, of all that is known of the lexemes ahead (`Ahead`).
  Every parser keeps it when the grammar below does (`Grammar.Literals`), so all of them
  do (`Parse.literals_grammar`), and a file has no string literal that is no lexeme
  (`File.exists_isRead`).
-/
import Mathlib
import BridgeCall.Host.Walk
import BridgeCall.Proofs.Host.Leads

open Std.Do

set_option mvcgen.warning false

namespace BridgeCall.Host

/-! ### Literals of nodes -/

/-- A lexeme as a comment of the tree. -/
def Lexeme.toComment (l : Lexeme) : Comment := ⟨l.pos, l.text⟩

/-- A comment of the tree is a lexeme that satisfies `P`. -/
def Comment.IsLexeme (P : Lexeme → Prop) (c : Comment) : Prop :=
  ∃ l, P l ∧ l.kind = .comment ∧ c = l.toComment

namespace Node

/-- A node that is a literal, a name or a qualified name is a lexeme that satisfies `P`, and stands in
    the file up to a place. -/
abbrev Before (P : Lexeme → Prop) (p : Pos) (x : Node) : Prop :=
  x.Led fun q => (∃ l, P l ∧ l.pos = q) ∧ 0 < q ∧ q ≤ p

/-- The parenthesis that closes a call is a lexeme that satisfies `P`, and each literal among the
    arguments stands between the function, when that is a name, and the parenthesis. -/
def Encloses (P : Lexeme → Prop) (fn : Node) (args : List Node) (rparen : Pos) : Prop :=
  ∃ l, P l ∧ l.kind = .op ")" ∧ l.pos = rparen
    ∧ ∀ p k text, .literal p k text ∈ args → fn.Before P p ∧ p ≤ rparen

mutual

/-- All literals of a node are lexemes that satisfy `P`, and so are the comments in front of a function;
    its calls enclose their literals. -/
def Literals (P : Lexeme → Prop) : Node → Prop
  | .literal p k text => ∃ l, P l ∧ l.pos = p ∧ l.kind = .literal k ∧ l.text = text
  | .name .. | .emptyStmt .. => True
  | .paren _ x _ | .star _ x | .unary _ _ x | .structType _ x | .interfaceType _ x
  | .chanType _ _ _ x | .declStmt x | .exprStmt x | .step x _ _ | .spawn _ _ x
  | .selectStmt _ x => x.Literals P
  | .funcLit x y | .selector x y | .binary x _ _ y | .keyValue x _ y | .mapType _ x y
  | .labeled x _ y | .send x _ y => x.Literals P ∧ y.Literals P
  | .ellipsis _ x | .branch _ _ x => OptLiterals P x
  | .fieldList _ xs _ | .ret _ xs | .block _ xs _ | .genDecl _ _ _ _ xs _ => ListLiterals P xs
  | .composite x _ ys _ | .commClause _ x _ ys => OptLiterals P x ∧ ListLiterals P ys
  | .index x _ ys _ => x.Literals P ∧ ListLiterals P ys
  | .call x _ ys _ r => x.Literals P ∧ ListLiterals P ys ∧ Encloses P x ys r
  | .slice x _ l h m _ _ =>
    x.Literals P ∧ OptLiterals P l ∧ OptLiterals P h ∧ OptLiterals P m
  | .assertion x _ y _ => x.Literals P ∧ OptLiterals P y
  | .arrayType _ x y | .importSpec _ _ x y _ => OptLiterals P x ∧ y.Literals P
  | .funcType _ x y z => OptLiterals P x ∧ y.Literals P ∧ OptLiterals P z
  | .field _ _ xs y z => ListLiterals P xs ∧ y.Literals P ∧ OptLiterals P z
  | .assign xs _ _ ys | .caseClause _ xs _ ys => ListLiterals P xs ∧ ListLiterals P ys
  | .ifStmt _ x y z w => OptLiterals P x ∧ y.Literals P ∧ z.Literals P ∧ OptLiterals P w
  | .switchStmt _ x y z => OptLiterals P x ∧ OptLiterals P y ∧ z.Literals P
  | .typeSwitch _ x y z => OptLiterals P x ∧ y.Literals P ∧ z.Literals P
  | .forStmt _ x y z w => OptLiterals P x ∧ OptLiterals P y ∧ OptLiterals P z ∧ w.Literals P
  | .rangeStmt _ x y _ _ _ z w =>
    OptLiterals P x ∧ OptLiterals P y ∧ z.Literals P ∧ w.Literals P
  | .valueSpec _ _ xs y zs => ListLiterals P xs ∧ OptLiterals P y ∧ ListLiterals P zs
  | .typeSpec _ _ x y _ z => x.Literals P ∧ OptLiterals P y ∧ z.Literals P
  | .funcDecl doc x y z w =>
    (∀ c ∈ doc, c.IsLexeme P) ∧ OptLiterals P x ∧ y.Literals P ∧ z.Literals P ∧ OptLiterals P w

def OptLiterals (P : Lexeme → Prop) : Option Node → Prop
  | none => True
  | some x => x.Literals P

def ListLiterals (P : Lexeme → Prop) : List Node → Prop
  | [] => True
  | x :: xs => x.Literals P ∧ ListLiterals P xs

end

variable {P : Lexeme → Prop}

theorem OptLiterals.of_mem {o : Option Node} (h : OptLiterals P o) {x : Node}
    (hx : x ∈ o.toList) : x.Literals P := by
  cases o <;> grind [OptLiterals]

theorem listLiterals_iff {xs : List Node} : ListLiterals P xs ↔ ∀ x ∈ xs, x.Literals P := by
  induction xs <;> grind [ListLiterals]

attribute [grind =] Literals OptLiterals ListLiterals listLiterals_iff
attribute [grind →] OptLiterals.of_mem

theorem Literals.of_mem_parts {n c : Node} {u : Use} (h : n.Literals P) (hc : (u, c) ∈ n.parts) :
    c.Literals P := by
  cases n <;>
    simp only [parts, mem_operands, List.mem_append, List.mem_cons, List.not_mem_nil, or_false,
      Prod.mk.injEq] at hc <;>
    grind [mem_of_assignedTo]

end Node

variable {P : Lexeme → Prop} {t : Lines}

/-! ### What a parser keeps -/

/-- Results of parsers whose string literals and comments all satisfy a predicate. -/
class HasLiterals (α : Type) where
  Literals : (Lexeme → Prop) → α → Prop

export HasLiterals (Literals)

instance : HasLiterals Node := ⟨Node.Literals⟩

instance : HasLiterals Lexeme := ⟨fun P l => P l⟩

instance {α : Type} [HasLiterals α] : HasLiterals (Option α) := ⟨fun P o => ∀ x ∈ o, Literals P x⟩

instance {α : Type} [HasLiterals α] : HasLiterals (List α) := ⟨fun P xs => ∀ x ∈ xs, Literals P x⟩

instance {α β : Type} [HasLiterals α] [HasLiterals β] : HasLiterals (α × β) :=
  ⟨fun P x => Literals P x.1 ∧ Literals P x.2⟩

instance : HasLiterals Pos := ⟨fun _ _ => True⟩
instance : HasLiterals Bool := ⟨fun _ _ => True⟩
instance : HasLiterals Unit := ⟨fun _ _ => True⟩
instance : HasLiterals Kind := ⟨fun _ _ => True⟩
instance : HasLiterals Comment := ⟨fun P c => c.IsLexeme P⟩

@[grind =] theorem literals_node {x : Node} : Literals P x ↔ x.Literals P := Iff.rfl

@[grind =] theorem literals_lexeme {l : Lexeme} :
    Literals P l ↔ P l := Iff.rfl

@[grind =] theorem literals_none {α : Type} [HasLiterals α] : Literals P (none : Option α) ↔ True := by
  simp [Literals]

@[grind =] theorem literals_some {α : Type} [HasLiterals α] {x : α} :
    Literals P (some x) ↔ Literals P x := by
  simp [Literals]

@[grind =] theorem literals_optNode {x : Option Node} : Literals P x ↔ Node.OptLiterals P x := by
  cases x <;> simp [Literals, Node.OptLiterals]

@[grind =] theorem literals_list {α : Type} [HasLiterals α] {xs : List α} :
    Literals P xs ↔ ∀ x ∈ xs, Literals P x := Iff.rfl

@[grind =] theorem literals_nodes {xs : List Node} : Literals P xs ↔ ∀ x ∈ xs, x.Literals P := Iff.rfl

@[grind =] theorem literals_nil {α : Type} [HasLiterals α] : Literals P ([] : List α) ↔ True := by
  simp [Literals]

@[grind =] theorem literals_cons {α : Type} [HasLiterals α] {x : α} {xs : List α} :
    Literals P (x :: xs) ↔ Literals P x ∧ Literals P xs :=
  List.forall_mem_cons

@[grind =] theorem literals_prod {α β : Type} [HasLiterals α] [HasLiterals β] {x : α × β} :
    Literals P x ↔ Literals P x.1 ∧ Literals P x.2 := Iff.rfl

@[grind =] theorem literals_pos {p : Pos} : Literals P p ↔ True := Iff.rfl
@[grind =] theorem literals_bool {b : Bool} : Literals P b ↔ True := Iff.rfl
@[grind =] theorem literals_unit {u : Unit} : Literals P u ↔ True := Iff.rfl
@[grind =] theorem literals_kind {k : Kind} : Literals P k ↔ True := Iff.rfl
@[grind =] theorem literals_comment {c : Comment} : Literals P c ↔ c.IsLexeme P := Iff.rfl

/-- What is known of the lexemes ahead of a parser: they satisfy `ok` and start at `first` or behind
    it, in a file with the given line table, of which the comment groups `past` are collected. -/
structure Ahead where
  ok : Lexeme → Prop
  first : Pos
  lines : Lines
  past : List CommentGroup

/-- Lexemes in the order of their places. -/
def InOrder (l : Lexeme) (ls : List Lexeme) : Prop := (l :: ls).Pairwise (·.pos ≤ ·.pos)

/-- The lexemes from the cursor on stand in order and are as known. -/
structure Cursor.Literals (e : Ahead) (c : Cursor) : Prop where
  cur : e.ok c.cur
  rest : ∀ l ∈ c.rest, e.ok l
  ordered : InOrder c.cur c.rest
  somewhere : 0 < c.cur.pos
  start : e.first ≤ c.cur.pos
  lead : ∀ x ∈ c.lead, x.IsLexeme e.ok
  line : ∀ x ∈ c.line, x.IsLexeme e.ok
  comments : ∃ later, c.comments = later ++ e.past ∧ ∀ g ∈ later, ∀ x ∈ g, x.IsLexeme e.ok
  imports : ∀ n ∈ c.imports, n.Literals e.ok
  lines : c.lines = e.lines

/-- The same, known from another place on. -/
def Ahead.from (e : Ahead) (p : Pos) : Ahead := { e with first := p }

namespace Cursor.Literals

attribute [grind →] cur lead line lines

variable {e : Ahead} {c : Cursor}

theorem here (h : c.Literals e) : c.Literals (e.from c.cur.pos) :=
  { h with start := Nat.le_refl _ }

theorem back {p : Pos} (h : c.Literals (e.from p)) (hp : e.first ≤ p) : c.Literals e :=
  { h with start := hp.trans h.start }

@[grind ←]
theorem leveled (h : c.Literals e) (n : Int) : Cursor.Literals e { c with level := n } := { h with }

@[grind ←]
theorem imported {x : Node} (h : c.Literals e) (hx : x.Literals e.ok) :
    Cursor.Literals e { c with imports := x :: c.imports } :=
  { h with imports := List.forall_mem_cons.mpr ⟨hx, h.imports⟩ }

end Cursor.Literals

/-- What is known of the lexemes ahead of a parser is known of those that it leaves, and all literals
    of its result are such lexemes. -/
abbrev Keeps {α : Type} [HasLiterals α] (e : Ahead) (r : ParserM α) : Prop :=
  ⦃fun c => ⌜c.Literals e⌝⦄ r ⦃⇓? x c => ⌜c.Literals e ∧ Literals e.ok x⌝⦄

/-! ### Moving on -/

namespace Cursor

/-- The comments `cs` stand in front of what is left of a list of lexemes. -/
def Skips (cs : List Comment) (after ls : List Lexeme) : Prop :=
  ∃ front, ls = front ++ after ∧ (∀ l ∈ front, l.kind = .comment) ∧ cs = front.map Lexeme.toComment

theorem skips_nil (ls : List Lexeme) : Skips [] ls ls := ⟨[], rfl, nofun, rfl⟩

theorem Skips.cons {l : Lexeme} {cs : List Comment} {after ls : List Lexeme} (hl : l.kind = .comment)
    (h : Skips cs after ls) : Skips (l.toComment :: cs) after (l :: ls) := by
  obtain ⟨front, rfl, hfront, rfl⟩ := h
  exact ⟨l :: front, rfl, List.forall_mem_cons.mpr ⟨hl, hfront⟩, rfl⟩

theorem Skips.trans {cs ds : List Comment} {ls ms ns : List Lexeme} (h : Skips cs ms ls)
    (h' : Skips ds ns ms) : Skips (cs ++ ds) ns ls := by
  obtain ⟨front, rfl, hfront, rfl⟩ := h
  obtain ⟨front', rfl, hfront', rfl⟩ := h'
  exact ⟨front ++ front', (List.append_assoc ..).symm, List.forall_mem_append.mpr ⟨hfront, hfront'⟩,
    List.map_append.symm⟩

theorem Skips.suffix {cs : List Comment} {after ls : List Lexeme} (h : Skips cs after ls) :
    after <:+ ls := by
  obtain ⟨front, rfl, -⟩ := h
  exact List.suffix_append front after

/-- What is no comment is left. -/
theorem Skips.mem {cs : List Comment} {after ls : List Lexeme} (h : Skips cs after ls) {l : Lexeme}
    (hl : l ∈ ls) (hkind : l.kind ≠ .comment) : l ∈ after := by
  obtain ⟨front, rfl, hfront, -⟩ := h
  rcases List.mem_append.mp hl with hl | hl
  · exact absurd (hfront l hl) hkind
  · exact hl

theorem Skips.isLexeme {cs : List Comment} {after ls : List Lexeme} (h : Skips cs after ls)
    (hls : ∀ l ∈ ls, P l) : ∀ x ∈ cs, x.IsLexeme P := by
  obtain ⟨front, rfl, hfront, rfl⟩ := h
  intro x hx
  obtain ⟨l, hl, rfl⟩ := List.mem_map.mp hx
  exact ⟨l, hls l (List.mem_append_left _ hl), hfront l hl, rfl⟩

theorem skips_takeGroup {gap : Nat} {e : Int} {ls : List Lexeme} :
    Skips (takeGroup t gap e ls).1 (takeGroup t gap e ls).2.2 ls := by
  fun_induction takeGroup t gap e ls with
  | case1 e => exact skips_nil []
  | case2 e l' ls hnext g e' r hgroup ih =>
    rw [hgroup] at ih
    exact ih.cons hnext.1
  | case3 e l' ls hnext => exact skips_nil _

theorem skips_takeGroups {fuel : Nat} {ls : List Lexeme} :
    Skips (takeGroups t fuel ls).1.flatten (takeGroups t fuel ls).2.2 ls := by
  fun_induction takeGroups t fuel ls with
  | case1 ls => exact skips_nil ls
  | case2 fuel => exact skips_nil []
  | case3 fuel l' ls hcomment g e r hgroup gs e' r' hgroups ih =>
    have hfirst := @skips_takeGroup t 1 (t.calledLine l'.pos) (l' :: ls)
    rw [hgroup] at hfirst
    rw [hgroups] at ih
    exact hfirst.trans ih
  | case4 fuel l' ls hcomment => exact skips_nil _

/-- With enough fuel all comments are taken. -/
theorem head_takeGroups {fuel : Nat} {ls : List Lexeme} (h : ls.length < fuel) :
    ∀ l ∈ (takeGroups t fuel ls).2.2.head?, l.kind ≠ .comment := by
  fun_induction takeGroups t fuel ls with
  | case1 ls => exact absurd h (Nat.not_lt_zero _)
  | case2 fuel => nofun
  | case3 fuel l' ls hcomment g e r hgroup gs e' r' hgroups ih =>
    have hrest := congrArg (fun x => x.2.2) hgroup
    rw [takeGroup, if_pos ⟨hcomment, by omega⟩] at hrest
    have hshorter := (@skips_takeGroup t 1 (t.calledLine l'.pos + breaks l'.text) ls).suffix.length_le
    dsimp only at hrest
    rw [hrest] at hshorter
    rw [hgroups] at ih
    exact ih (by rw [List.length_cons] at h; omega)
  | case4 fuel l' ls hcomment =>
    rintro l ⟨⟩
    exact hcomment

theorem mem_of_mem_ite {q : Prop} [Decidable q] {xs : List Comment} {x : Comment}
    (h : x ∈ if q then xs else []) : x ∈ xs := by
  split at h
  · exact h
  · cases h

theorem mem_flatten_of_getLast? {gs : List CommentGroup} {x : Comment}
    (h : x ∈ gs.getLast?.getD []) : x ∈ gs.flatten := by
  cases hlast : gs.getLast? with
  | none =>
    rw [hlast] at h
    cases h
  | some g =>
    rw [hlast] at h
    exact List.mem_flatten.mpr ⟨g, List.mem_of_getLast? hlast, h⟩

/-- Moving on takes all comments that follow, and then one lexeme, and keeps the line table. -/
theorem exists_next (c : Cursor) :
    ∃ (groups : List CommentGroup) (after : List Lexeme), Skips groups.flatten after c.rest ∧ (∀ l ∈ after.head?, l.kind ≠ .comment)
      ∧ c.next.cur = after.head?.getD c.cur ∧ c.next.rest = after.tail
      ∧ c.next.comments = groups.reverse ++ c.comments
      ∧ (∀ x ∈ c.next.lead, x ∈ groups.flatten) ∧ (∀ x ∈ c.next.line, x ∈ groups.flatten)
      ∧ c.next.imports = c.imports ∧ c.next.lines = c.lines := by
  cases hrest : c.rest with
  | nil =>
    refine ⟨[], [], skips_nil [], ?_⟩
    simp [Cursor.next, hrest]
  | cons l ls =>
    let same : Prop := l.kind = .comment ∧ c.lines.calledLine l.pos = c.lines.calledLine c.cur.pos
    let first : CommentGroup × Int × List Lexeme :=
      if same then takeGroup c.lines 0 (c.lines.calledLine l.pos) (l :: ls) else ([], 0, l :: ls)
    let more := takeGroups c.lines (first.2.2.length + 1) first.2.2
    have hfirst : Skips first.1 first.2.2 (l :: ls) := by
      unfold first
      split
      · exact skips_takeGroup
      · exact skips_nil _
    have hflat : ((if same then [first.1] else []) ++ more.1).flatten = first.1 ++ more.1.flatten := by
      rw [List.flatten_append]
      split
      · simp
      · simp [first, *]
    refine ⟨(if same then [first.1] else []) ++ more.1, more.2.2, ?_,
      head_takeGroups (Nat.lt_succ_self _), by rw [Cursor.next, hrest], by rw [Cursor.next, hrest],
      ?_, ?_, ?_, by rw [Cursor.next, hrest], by rw [Cursor.next, hrest]⟩
    · rw [hflat]
      exact hfirst.trans skips_takeGroups
    · have hreverse : (if same then [first.1] else []).reverse = if same then [first.1] else [] := by
        split <;> rfl
      rw [Cursor.next, hrest, List.reverse_append, hreverse]
    · rw [Cursor.next, hrest, hflat]
      intro x (hx : x ∈ ite _ (more.1.getLast?.getD []) [])
      exact List.mem_append_right _ (mem_flatten_of_getLast? (mem_of_mem_ite hx))
    · rw [Cursor.next, hrest, hflat]
      intro x (hx : x ∈ ite _ first.1 [])
      exact List.mem_append_left _ (mem_of_mem_ite hx)

theorem Literals.next {e : Ahead} {c : Cursor} (h : c.Literals e) : c.next.Literals e := by
  obtain ⟨groups, after, hskips, -, hcur, hrest, hcomments, hlead, hline, himports, hlines⟩ :=
    c.exists_next
  obtain ⟨hbehind, hordered⟩ := List.pairwise_cons.mp h.ordered
  have htaken := hskips.isLexeme h.rest
  have hcollected : ∃ later, c.next.comments = later ++ e.past
      ∧ ∀ g ∈ later, ∀ x ∈ g, x.IsLexeme e.ok := by
    obtain ⟨later, hlater, hbefore⟩ := h.comments
    refine ⟨groups.reverse ++ later, ?_, List.forall_mem_append.mpr ⟨?_, hbefore⟩⟩
    · rw [hcomments, hlater, List.append_assoc]
    · exact fun g hg x hx => htaken x (List.mem_flatten.mpr ⟨g, List.mem_reverse.mp hg, hx⟩)
  have hmoved (hok : e.ok c.next.cur) (hahead : ∀ m ∈ c.next.rest, e.ok m)
      (hin : InOrder c.next.cur c.next.rest) (hle : c.cur.pos ≤ c.next.cur.pos) :
      c.next.Literals e :=
    ⟨hok, hahead, hin, h.somewhere.trans_le hle, h.start.trans hle, fun x hx => htaken x (hlead x hx),
      fun x hx => htaken x (hline x hx), hcollected, himports ▸ h.imports, hlines ▸ h.lines⟩
  rcases after with _ | ⟨l, after⟩
  · refine hmoved (hcur ▸ h.cur) (by simp [hrest]) (by simp [InOrder, hrest]) (hcur ▸ Nat.le_refl _)
  · have hl : l ∈ c.rest := hskips.suffix.subset List.mem_cons_self
    rw [List.head?_cons, Option.getD_some] at hcur
    rw [List.tail_cons] at hrest
    refine hmoved (hcur ▸ h.rest l hl) ?_ ?_ (hcur ▸ hbehind l hl)
    · rw [hrest]
      exact fun m hm => h.rest m (hskips.suffix.subset (List.mem_cons_of_mem l hm))
    · rw [hcur, hrest]
      exact hordered.sublist hskips.suffix.sublist

end Cursor

/-! ### The pieces of parsers -/

namespace ParserM

/-- A triple says what a parser gives. -/
theorem triple_iff {α : Type} {Q : Cursor → Prop} {R : α → Cursor → Prop} {r : ParserM α} :
    ⦃fun c => ⌜Q c⌝⦄ r ⦃⇓? x c => ⌜R x c⌝⦄ ↔ ∀ c x c', Q c → r.run c = .ok (x, c') → R x c' := by
  refine ⟨fun h c x c' hc hrun => ?_, fun h c hc => ?_⟩
  · have hpost := h c hc
    change (wp⟦r.run c⟧ _).down at hpost
    rw [hrun] at hpost
    exact hpost
  · change (wp⟦r.run c⟧ _).down
    cases hrun : r.run c with
    | error p => trivial
    | ok y => exact h c y.1 y.2 hc hrun

variable {α : Type} [HasLiterals α] {e : Ahead}

@[spec]
theorem keeps_next : Keeps e next := by
  mvcgen [next]
  exact ⟨Cursor.Literals.next ‹_›, trivial⟩

@[spec]
theorem keeps_cur : Keeps e cur := by
  mvcgen [cur]
  grind

@[spec]
theorem keeps_here : Keeps e here := by
  mvcgen [here]

@[spec]
theorem keeps_kind : Keeps e kind := by
  mvcgen [kind]

@[spec]
theorem keeps_isOp (s : String) : Keeps e (isOp s) := by
  mvcgen [isOp]

@[spec]
theorem keeps_isWord (s : String) : Keeps e (isWord s) := by
  mvcgen [isWord]

@[spec]
theorem keeps_atEnd : Keeps e atEnd := by
  mvcgen [atEnd]

/-- A parser that fails gives nothing. -/
@[spec]
theorem spec_failAt {β : Type} (p : Pos) : ⦃⌜True⌝⦄ (failAt p : ParserM β) ⦃⇓? _ _ => ⌜False⌝⦄ := by
  intro c _
  trivial

@[spec]
theorem spec_fail {β : Type} : ⦃⌜True⌝⦄ (fail : ParserM β) ⦃⇓? _ _ => ⌜False⌝⦄ := by
  mvcgen [fail, here]

/-- Nothing is run behind a failure, so what stands there is not gone through. -/
@[spec high]
theorem spec_failAt_bind {β γ : Type} (p : Pos) (k : γ → ParserM β) :
    ⦃⌜True⌝⦄ (failAt p >>= k : ParserM β) ⦃⇓? _ _ => ⌜False⌝⦄ := by
  intro c _
  trivial

@[spec high]
theorem spec_fail_bind {β γ : Type} (k : γ → ParserM β) :
    ⦃⌜True⌝⦄ (fail >>= k : ParserM β) ⦃⇓? _ _ => ⌜False⌝⦄ := by
  intro c _
  trivial

@[spec]
theorem keeps_expect (k : Kind) : Keeps e (expect k) := by
  mvcgen [expect] <;> grind

@[spec]
theorem keeps_op (s : String) : Keeps e (op s) := keeps_expect _

@[spec]
theorem keeps_word (s : String) : Keeps e (word s) := keeps_expect _

@[spec]
theorem keeps_name : Keeps e name := by
  mvcgen [name]
  grind

@[spec]
theorem keeps_semicolon : Keeps e semicolon := by
  mvcgen [semicolon] <;> grind

@[spec]
theorem keeps_atComma (closing : String) : Keeps e (atComma closing) := by
  mvcgen [atComma] <;> grind

@[spec]
theorem keeps_nested {r : ParserM α} (h : Keeps e r) : Keeps e (nested r) := by
  mvcgen [nested, h] <;> grind

@[spec]
theorem keeps_inHeader {r : ParserM α} (h : Keeps e r) : Keeps e (inHeader r) := by
  mvcgen [inHeader, h] <;> grind

theorem keeps_collect {step : ParserM (Option α)} (h : Keeps e step) (n : Nat) :
    Keeps e (collect step n) := by
  induction n with
  | zero =>
    mvcgen [collect]
    grind
  | succ n ih => mvcgen [collect, h, ih] <;> grind

@[spec]
theorem keeps_many {step : ParserM (Option α)} (h : Keeps e step) : Keeps e (many step) := by
  have hloop := keeps_collect h
  mvcgen [many, hloop]

theorem keeps_extendUpTo {step : Node → ParserM (Option Node)}
    (h : ∀ x, x.Literals e.ok → Keeps e (step x)) (n : Nat) (x : Node) (hx : x.Literals e.ok) :
    Keeps e (extendUpTo step n x) := by
  induction n generalizing x with
  | zero => mvcgen [extendUpTo]
  | succ n ih => mvcgen [extendUpTo, h, ih] <;> grind

@[spec]
theorem keeps_extend {step : Node → ParserM (Option Node)}
    (h : ∀ x, x.Literals e.ok → Keeps e (step x)) (x : Node) (hx : x.Literals e.ok) :
    Keeps e (extend step x) := by
  have hloop := keeps_extendUpTo h
  mvcgen [extend, hloop]

theorem keeps_commaItems {item : ParserM α} (h : Keeps e item) (closing : String) (n : Nat) :
    Keeps e (commaItems closing item n) := by
  induction n with
  | zero =>
    mvcgen [commaItems]
    grind
  | succ n ih => mvcgen [commaItems, h, ih] <;> grind

@[spec]
theorem keeps_commaList {item : ParserM α} (h : Keeps e item) (closing : String) :
    Keeps e (commaList closing item) := by
  have hloop := keeps_commaItems h
  mvcgen [commaList, hloop]

end ParserM

/-! ### Grammars -/

/-- Every parser of a grammar keeps the literals, wherever it starts. -/
structure Grammar.Literals (e : Ahead) (g : Grammar) : Prop where
  unary : ∀ p, Keeps (e.from p) g.unary
  binary : ∀ prec p, Keeps (e.from p) (g.binary prec)
  type? : ∀ p, Keeps (e.from p) g.type?
  stmt : ∀ p, Keeps (e.from p) g.stmt
  leads : g.Leads

namespace Grammar

variable {e : Ahead} {g : Grammar}

theorem Literals.from (hg : g.Literals e) (p : Pos) : g.Literals (e.from p) :=
  ⟨hg.unary, hg.binary, hg.type?, hg.stmt, hg.leads⟩

@[spec]
theorem keeps_unary (hg : g.Literals e) : Keeps e g.unary := hg.unary e.first

@[spec]
theorem keeps_binary (hg : g.Literals e) (prec : Nat) : Keeps e (g.binary prec) := hg.binary prec e.first

@[spec]
theorem keeps_type? (hg : g.Literals e) : Keeps e g.type? := hg.type? e.first

@[spec]
theorem keeps_stmt (hg : g.Literals e) : Keeps e g.stmt := hg.stmt e.first

@[spec]
theorem keeps_expr (hg : g.Literals e) : Keeps e g.expr := hg.binary 1 e.first

@[spec]
theorem keeps_type (hg : g.Literals e) : Keeps e g.type := by
  mvcgen [type] <;> grind

@[spec]
theorem keeps_exprList (hg : g.Literals e) : Keeps e g.exprList := by
  mvcgen [exprList] <;> grind

@[spec]
theorem keeps_stmtList (hg : g.Literals e) : Keeps e g.stmtList := by
  mvcgen [stmtList] <;> grind

@[spec]
theorem keeps_block (hg : g.Literals e) : Keeps e g.block := by
  mvcgen [block] <;> grind

end Grammar
end BridgeCall.Host
