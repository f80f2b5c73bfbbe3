/-
  BridgeCall/Proofs/Host/FileLiterals.lean
  ========================================
  **The literals of a file.**  Declarations and statements keep the literals as types and
  expressions do, so the parsers of every depth do (`Parse.literals_grammar`).  So each
  string literal in the declarations of a file is one of its lexemes, and so is each
  comment; those in front of the package clause come first (`File.exists_isRead`).
-/
import BridgeCall.Proofs.Host.ExprLiterals
import BridgeCall.Proofs.Host.Lexemes

open Std.Do

set_option mvcgen.warning false

namespace BridgeCall.Host.Parse

open ParserM

variable {P : Lexeme → Prop} {e : Ahead} {g : Grammar}

/-! ### Declarations -/

theorem keeps_importSpec (doc : CommentGroup) : Keeps e (importSpec doc) := by
  mvcgen [importSpec] <;> grind

theorem keeps_nameList : Keeps e nameList := by
  mvcgen [nameList] <;> grind

theorem keeps_initialValues (hg : g.Literals e) : Keeps e (initialValues g) := by
  mvcgen [initialValues] <;> grind

theorem literals_extractName {force : Bool} {x : Node} {name type : Option Node}
    (h : x.Literals P) (hsplit : extractName force x = (name, type)) :
    Literals P name ∧ Literals P type := by
  fun_induction extractName force x generalizing name type <;> grind

/-- A name stands in front of the cursor once it is read. -/
theorem before_name : ⦃fun c => ⌜c.Literals e⌝⦄ name
    ⦃⇓? x c => ⌜c.Literals e ∧ Literals e.ok x ∧ x.Before e.ok c.cur.pos⌝⦄ := by
  rw [triple_iff]
  intro c x c' hc hrun
  obtain ⟨rfl, rfl⟩ := run_name_eq_ok hrun
  exact ⟨hc.next, trivial, Node.led_name ⟨⟨c.cur, hc.cur, rfl⟩, hc.somewhere, hc.here.next.start⟩ _⟩

theorem keeps_aliasedType (hg : g.Literals e) : Keeps e (aliasedType g) := by
  mvcgen [aliasedType] <;> grind

theorem keeps_funcDecl (hg : g.Literals e) : Keeps e (funcDecl g) := by
  have htypes : Keeps e (typeParameters g) := keeps_typeParameters hg
  have hparams : Keeps e (parameters g) := keeps_parameters hg
  mvcgen [funcDecl, htypes, hparams, -keeps_typeParameters, -keeps_parameters] <;> grind

attribute [spec] keeps_importSpec keeps_nameList keeps_initialValues keeps_aliasedType
  keeps_funcDecl

theorem keeps_valueSpec (hg : g.Literals e) (w : String) (doc : CommentGroup) :
    Keeps e (valueSpec g w doc) := by
  mvcgen [valueSpec] <;> grind

/-- A name in front of the cursor and what makes an expression of it. -/
theorem keeps_named (hg : g.Literals e) (n : Node) :
    ⦃fun c => ⌜c.Literals e ∧ Literals e.ok n ∧ n.Before e.ok c.cur.pos⌝⦄
      nested (do binaryFrom g 1 (← primary g (some n)))
    ⦃⇓? x c => ⌜c.Literals e ∧ Literals e.ok x⌝⦄ := by
  rw [triple_iff]
  rintro c x c' ⟨hc, hn, hbefore⟩ hrun
  obtain ⟨_, _, hdown, hrun⟩ := run_bind_eq_ok hrun
  cases hdown
  obtain ⟨y, c₁, hread, hrun⟩ := run_bind_eq_ok hrun
  obtain ⟨_, _, hup, hrun⟩ := run_bind_eq_ok hrun
  cases hup
  cases hrun
  obtain ⟨z, c₂, hprimary, hrest⟩ := run_bind_eq_ok hread
  have hfirst : Literals e.ok (some n) := literals_some.mpr hn
  have hplace : ∀ x ∈ some n, x.Before e.ok c.cur.pos := by
    rintro x ⟨⟩
    exact hbefore
  obtain ⟨hc₂, hz⟩ :=
    triple_iff.mp (keeps_primary hg (some n)) _ z c₂ ⟨hc.leveled (c.level + 1), hfirst, hplace⟩ hprimary
  obtain ⟨hc₁, hx⟩ := triple_iff.mp (keeps_binaryFrom hg 1 z hz) c₂ _ c₁ hc₂ hrest
  exact ⟨hc₁.leveled (c₁.level - 1), hx⟩

theorem keeps_bracketSpec (hg : g.Literals e) : Keeps e (bracketSpec g) := by
  have hname := before_name (e := e)
  have hnamed := keeps_named hg
  mvcgen [bracketSpec, hname, hnamed, isOp, kind, -keeps_isOp, -keeps_kind, -keeps_nested, -keeps_name]
    <;> grind [→ literals_extractName]

attribute [spec] keeps_valueSpec keeps_bracketSpec

@[spec]
theorem keeps_typeSpec (hg : g.Literals e) (doc : CommentGroup) : Keeps e (typeSpec g doc) := by
  mvcgen [typeSpec] <;> grind

@[spec]
theorem keeps_spec (hg : g.Literals e) (w : String) (doc : CommentGroup) :
    Keeps e (spec g w doc) := by
  mvcgen [spec] <;> grind

@[spec]
theorem keeps_genDecl (hg : g.Literals e) (w : String) : Keeps e (genDecl g w) := by
  mvcgen [genDecl] <;> grind

@[spec]
theorem keeps_decl (hg : g.Literals e) : Keeps e (decl g) := by
  mvcgen [decl] <;> grind

/-! ### Statements -/

theorem keeps_simple (hg : g.Literals e) (mode : SimpleMode) : Keeps e (simple g mode) := by
  have hlist : Keeps e g.exprList := g.keeps_exprList hg
  have hcur : Keeps e cur := keeps_cur
  mvcgen [simple, hlist, hcur, -keeps_cur, -Grammar.keeps_exprList] <;> grind

theorem keeps_asExpr (s : Option Node) (h : Literals e.ok s) : Keeps e (asExpr s) := by
  fun_cases asExpr s <;> mvcgen <;> grind

theorem keeps_spawn (hg : g.Literals e) (w : String) : Keeps e (spawn g w) := by
  mvcgen [spawn] <;> grind

theorem keeps_returnStmt (hg : g.Literals e) : Keeps e (returnStmt g) := by
  mvcgen [returnStmt] <;> grind

theorem keeps_branchStmt (w : String) : Keeps e (branchStmt w) := by
  mvcgen [branchStmt] <;> grind

theorem keeps_caseClause (hg : g.Literals e) : Keeps e (caseClause g) := by
  mvcgen [caseClause] <;> grind

theorem keeps_clauses {clause : ParserM Node} (h : Keeps e clause) : Keeps e (clauses clause) := by
  mvcgen [clauses, h] <;> grind

theorem keeps_isTypeGuard (s : Option Node) : Keeps e (isTypeGuard s) := by
  fun_cases isTypeGuard s
  all_goals mvcgen
  all_goals grind

theorem keeps_communication (hg : g.Literals e) : Keeps e (communication g) := by
  have hlist : Keeps e g.exprList := g.keeps_exprList hg
  have hcur : Keeps e cur := keeps_cur
  mvcgen [communication, hlist, hcur, -keeps_cur, -Grammar.keeps_exprList] <;> grind

attribute [spec] keeps_simple keeps_asExpr keeps_spawn keeps_returnStmt keeps_branchStmt
  keeps_caseClause keeps_clauses keeps_isTypeGuard keeps_communication

theorem keeps_basic (hg : g.Literals e) : Keeps e (basic g) := by
  mvcgen [basic]
  grind

theorem keeps_commClause (hg : g.Literals e) : Keeps e (commClause g) := by
  mvcgen [commClause] <;> grind

attribute [spec] keeps_basic keeps_commClause

theorem keeps_ifHeader (hg : g.Literals e) : Keeps e (ifHeader g) := by
  mvcgen [ifHeader] <;> grind

theorem keeps_switchStmt (hg : g.Literals e) : Keeps e (switchStmt g) := by
  mvcgen [switchStmt] <;> grind

instance : HasLiterals LoopHeader :=
  ⟨fun P h => Literals P h.init ∧ Literals P h.cond ∧ Literals P h.post⟩

@[grind =] theorem literals_loopHeader {h : LoopHeader} :
    Literals P h ↔ Literals P h.init ∧ Literals P h.cond ∧ Literals P h.post := Iff.rfl

theorem keeps_loopHeader (hg : g.Literals e) : Keeps e (loopHeader g) := by
  mvcgen [loopHeader] <;> grind

attribute [spec] keeps_ifHeader keeps_switchStmt keeps_loopHeader

theorem keeps_ifStmt (hg : g.Literals e) (n : Nat) : Keeps e (ifStmt g n) := by
  induction n with
  | zero =>
    mvcgen [ifStmt]
    grind
  | succ n ih => mvcgen [ifStmt, ih] <;> grind

theorem literals_range {lhs : List Node} {p q : Pos} {s op : String} {x : Node} :
    Node.OptLiterals P (some (.assign lhs p s [.unary q op x]))
      ↔ (∀ y ∈ lhs, y.Literals P) ∧ x.Literals P := by
  simp [Node.OptLiterals, Node.Literals, Node.ListLiterals, Node.listLiterals_iff]

theorem keeps_forStmt (hg : g.Literals e) : Keeps e (forStmt g) := by
  mvcgen [forStmt] <;> grind [literals_range]

attribute [spec] keeps_ifStmt keeps_forStmt

theorem keeps_stmt (hg : g.Literals e) : Keeps e (stmt g) := by
  mvcgen [stmt] <;> grind

/-- The parsers of every depth keep the literals. -/
theorem literals_grammar (n : Nat) : (grammar n).Literals e := by
  induction n with
  | zero =>
    refine ⟨?_, ?_, ?_, ?_, leads_grammar 0⟩ <;> intros <;> unfold grammar <;> mvcgen <;> grind
  | succ n ih =>
    have hfrom (p : Pos) := ih.from p
    exact ⟨fun p => keeps_unary (hfrom p), fun prec p => keeps_binary (hfrom p) prec,
      fun p => keeps_type? (hfrom p), fun p => keeps_stmt (hfrom p), leads_grammar (n + 1)⟩

/-! ### Files -/

theorem keeps_fileFrom (hg : g.Literals e) (p : Pos) :
    ⦃fun c => ⌜c.Literals e⌝⦄ fileFrom g p
      ⦃⇓? f c => ⌜c.Literals e ∧ f.package = p ∧ (∀ d ∈ f.decls, d.Literals e.ok)
        ∧ f.lines = e.lines ∧ f.comments = c.comments.reverse⌝⦄ := by
  mvcgen [fileFrom] <;> grind

end Parse

/-- A cursor in front of lexemes that are as known, and are not all comments, moves on to the first
    that is none. -/
theorem Cursor.literals_next {c : Cursor} (h : ∀ l ∈ c.rest, P l)
    (hordered : c.rest.Pairwise (·.pos ≤ ·.pos)) (hplaces : ∀ l ∈ c.rest, 0 < l.pos)
    (hend : ∃ l ∈ c.rest, l.kind = .eof) (himports : c.imports = []) :
    Cursor.Literals ⟨P, 0, c.lines, c.comments⟩ c.next := by
  obtain ⟨groups, after, hskips, -, hcur, hrest, hcomments, hlead, hline, himports', hlines⟩ :=
    c.exists_next
  have htaken := hskips.isLexeme h
  obtain ⟨e, he, heof⟩ := hend
  obtain ⟨l, ls, rfl⟩ := List.exists_cons_of_ne_nil
    (List.ne_nil_of_mem (hskips.mem he (by rw [heof]; nofun)))
  rw [List.head?_cons, Option.getD_some] at hcur
  rw [List.tail_cons] at hrest
  have hsuffix := hskips.suffix
  have hl := hsuffix.subset List.mem_cons_self
  refine ⟨hcur ▸ h l hl, ?_, ?_, hcur ▸ hplaces l hl, Nat.zero_le _, fun x hx => htaken x (hlead x hx),
    fun x hx => htaken x (hline x hx), ⟨groups.reverse, hcomments, ?_⟩, ?_, hlines⟩
  · rw [hrest]
    exact fun m hm => h m (hsuffix.subset (List.mem_cons_of_mem l hm))
  · rw [hcur, hrest]
    exact hordered.sublist hsuffix.sublist
  · exact fun g hg x hx => htaken x (List.mem_flatten.mpr ⟨g, List.mem_reverse.mp hg, hx⟩)
  · rw [himports', himports]
    nofun

/-- How a file is read: comments stand in front of the word of the package clause, and behind the word
    stand all lexemes that its declarations and the other comments are made of. -/
structure File.IsRead (text : Bytes) (f : File) (front : List Lexeme) (package : Lexeme)
    (rest : List Lexeme) : Prop where
  lexemes : Lexer.lexemes text = front ++ package :: rest
  skipped : ∀ l ∈ front, l.kind = .comment
  word : package.kind = .keyword "package"
  place : f.package = package.pos
  decls : ∀ d ∈ f.decls, d.Literals (· ∈ rest)
  lines : f.lines = Lines.ofFile text
  comments : ∃ lead later, f.comments = lead ++ later ∧ lead.flatten = front.map Lexeme.toComment
    ∧ ∀ g ∈ later, ∀ x ∈ g, x.IsLexeme (· ∈ rest)

/-- The first lexeme that is no comment, since the end of the file is none. -/
theorem Cursor.exists_start (text : Bytes) (lines : Lines) :
    ∃ lead front package rest, Lexer.lexemes text = front ++ package :: rest
      ∧ (∀ l ∈ front, l.kind = .comment) ∧ List.flatten lead = front.map Lexeme.toComment
      ∧ ∃ c, c = Cursor.next
          { cur := { pos := 0, kind := .eof, text := [] }, rest := Lexer.lexemes text, lines }
        ∧ c.cur = package ∧ c.rest = rest ∧ c.comments = lead.reverse ∧ c.imports = []
        ∧ c.lines = lines := by
  obtain ⟨lead, after, hskips, -, hcur, hrest, hcomments, -, -, himports, hlines⟩ :=
    Cursor.exists_next
      { cur := { pos := 0, kind := .eof, text := [] }, rest := Lexer.lexemes text, lines }
  obtain ⟨eof, heof, hend⟩ := Lexer.exists_eof text
  obtain ⟨package, rest, rfl⟩ := List.exists_cons_of_ne_nil
    (List.ne_nil_of_mem (hskips.mem heof (by rw [hend]; nofun)))
  obtain ⟨front, hlexemes, hfront, hlead⟩ := hskips
  exact ⟨lead, front, package, rest, hlexemes, hfront, hlead, _, rfl, hcur, hrest,
    hcomments.trans (List.append_nil _), himports, hlines⟩

theorem File.IsRead.mem_lexemes {text : Bytes} {f : File} {front rest : List Lexeme} {package l : Lexeme}
    (h : f.IsRead text front package rest) (hl : l ∈ rest) : l ∈ Lexer.lexemes text := by
  rw [h.lexemes]
  exact List.mem_append_right _ (List.mem_cons_of_mem _ hl)

/-- **Literals are lexemes.** A file that has a tree is read so, and its line table is that of its
    text. -/
theorem File.exists_isRead {text : Bytes} {f : File} (h : File.parse text = .ok f) :
    ∃ front package rest, f.IsRead text front package rest := by
  unfold File.parse at h
  dsimp only at h
  split at h
  · rename_i f' c hrun hfaults
    cases h
    obtain ⟨p, c₁, hword, hrun⟩ := ParserM.run_bind_eq_ok hrun
    obtain ⟨hkind, rfl, rfl⟩ := ParserM.run_expect_eq_ok hword
    obtain ⟨lead, front, package, rest, hlexemes, hfront, hlead, start, hstart, rfl, rfl, hcomments,
      himports, hlines⟩ := Cursor.exists_start text (Lexer.markedLines text (Lexer.lexemes text))
    rw [← hstart] at hkind hrun
    obtain ⟨eof, heof, hend⟩ := Lexer.exists_eof text
    have hbehind : eof ∈ start.rest := by
      rw [hlexemes, List.mem_append, List.mem_cons] at heof
      rcases heof with heof | rfl | heof
      · rw [hfront eof heof] at hend
        cases hend
      · rw [hkind] at hend
        cases hend
      · exact heof
    obtain ⟨hplaces, hordered⟩ := Lexer.ordered_lexemes text
    rw [hlexemes] at hplaces hordered
    have hnext := Cursor.literals_next (P := (· ∈ start.rest)) (fun l hl => hl)
      (hordered.sublist (by simp)) (fun l hl => hplaces l (by simp [hl])) ⟨eof, hbehind, hend⟩ himports
    obtain ⟨hstop, hplace, hdecls, htable, hall⟩ := ParserM.triple_iff.mp
      (Parse.keeps_fileFrom (Parse.literals_grammar _) _) _ _ _ hnext hrun
    obtain ⟨later, hlater, hcollected⟩ := hstop.comments
    refine ⟨front, start.cur, start.rest, hlexemes, hfront, hkind, ?_, hdecls, htable.trans hlines,
      lead, later.reverse, ?_, hlead, ?_⟩
    · rw [hplace, hstart]
    · rw [hall, hlater, hcomments]
      simp
    · exact fun g hg => hcollected g (List.mem_reverse.mp hg)
  · cases h
  · cases h
  · cases h

end BridgeCall.Host
