/-
  BridgeCall/Proofs/Marker/Exports.lean
  =====================================
  **Where exports stand.**  The exports of a file are the directives in front of its
  functions (`Scan.exports_ofFile`), so each is a comment behind the package clause.  Its
  stretch is the whole line, as long as the line has no carriage return
  (`Scan.export_covers_line`).
-/
import BridgeCall.Proofs.Host.Front
import BridgeCall.Proofs.Marker.Calls

namespace BridgeCall.Scan

/-- The export that a comment in front of a function is, unless it is none or has a mistake. -/
def export? (t : Host.Lines) (file : Bytes) (isMethod : Bool) (fn : Bytes) (c : Host.Comment) :
    Option Directive :=
  (argument? exportMark c.text).bind fun arg =>
    if isMethod || arg.isEmpty then none else some { directive t file c arg with fn }

/-- The name of a file and its exports. -/
def exporting (s : Scan) : Bytes × List Directive := (s.name, s.exports)

theorem loose_exporting : Loose exporting := ⟨fun _ _ _ => rfl, fun _ _ => rfl⟩

theorem unmarked_exporting : Unmarked exporting := ⟨fun _ _ => rfl, fun _ _ => rfl, fun _ _ => rfl⟩

theorem unconstrained_exporting : Unconstrained exporting := ⟨fun _ _ => rfl, fun _ _ => rfl⟩

variable (t : Host.Lines) (isMethod : Bool) (fn : Bytes)

theorem exporting_functionExports_one (c : Host.Comment) (s : Scan) :
    exporting ((functionExports t [c] isMethod fn).run s).2
      = (s.name, s.exports ++ (export? t s.name isMethod fn c).toList) := by
  unfold functionExports export?
  rw [List.forM_eq_forM, List.forM_cons, List.forM_nil]
  generalize argument? exportMark c.text = arg
  have hnone : (s.name, s.exports) = (s.name, s.exports ++ (none : Option Directive).toList) := by
    rw [Option.toList_none, List.append_nil]
  rcases arg with _ | arg
  · exact hnone
  · cases isMethod with
    | true => exact hnone
    | false =>
      cases arg with
      | nil => exact hnone
      | cons b arg => rfl

theorem functionExports_cons (c : Host.Comment) (doc : Host.CommentGroup) (s : Scan) :
    ((functionExports t (c :: doc) isMethod fn).run s).2
      = ((functionExports t doc isMethod fn).run ((functionExports t [c] isMethod fn).run s).2).2 := by
  rfl

/-- By induction on the comments in front of the function. -/
theorem exporting_functionExports (doc : Host.CommentGroup) (s : Scan) :
    exporting ((functionExports t doc isMethod fn).run s).2
      = (s.name, s.exports ++ doc.filterMap (export? t s.name isMethod fn)) := by
  induction doc generalizing s with
  | nil => exact congrArg (s.name, ·) (List.append_nil s.exports).symm
  | cons c doc ih =>
    have hc := exporting_functionExports_one t isMethod fn c s
    simp only [exporting, Prod.mk.injEq] at hc
    have hdoc := ih ((functionExports t [c] isMethod fn).run s).2
    rw [hc.1, hc.2, List.append_assoc] at hdoc
    rw [functionExports_cons t isMethod fn, hdoc, List.filterMap_cons]
    cases export? t s.name isMethod fn c <;> rfl

/-- The exports among the comments in front of some functions. -/
def exportsIn (t : Host.Lines) (file : Bytes) (docs : List (Host.CommentGroup × Bool × Bytes)) :
    List Directive :=
  docs.flatMap fun (doc, isMethod, fn) => doc.filterMap (export? t file isMethod fn)

theorem exporting_functionDocs (docs : List (Host.CommentGroup × Bool × Bytes)) (s : Scan) :
    exporting ((docs.forM fun (doc, isMethod, fn) => functionExports t doc isMethod fn).run s).2
      = (s.name, s.exports ++ exportsIn t s.name docs) := by
  induction docs generalizing s with
  | nil => exact congrArg (s.name, ·) (List.append_nil s.exports).symm
  | cons d docs ih =>
    obtain ⟨doc, isMethod, fn⟩ := d
    have hdoc := exporting_functionExports t isMethod fn doc s
    simp only [exporting, Prod.mk.injEq] at hdoc
    have hdocs := ih ((functionExports t doc isMethod fn).run s).2
    rw [hdoc.1, hdoc.2, List.append_assoc] at hdocs
    exact hdocs

theorem exporting_noteDirectives (f : Host.File) (s : Scan) :
    exporting ((noteDirectives f).run s).2
      = (s.name, s.exports ++ exportsIn f.lines s.name (functionDocs f)) := by
  have hloose : ∀ attached : List Host.Pos, Preserves exporting
      (f.comments.forM fun g => g.forM (looseDirective f.lines attached)) := fun attached =>
    Preserves.forM fun _ => Preserves.forM fun _ => loose_exporting.looseDirective f.lines attached _
  exact (hloose _ _).trans (exporting_functionDocs f.lines (functionDocs f) s)

/-- The exports of a file are those in front of its functions. -/
theorem exports_ofFile (settings : Settings) (name text : Bytes) (f : Host.File) :
    (ofFile settings name text f).exports = exportsIn f.lines name (functionDocs f) := by
  have hconstraints := unconstrained_exporting.noteConstraints settings.buildTag f { name, text }
  have hall := (unmarked_exporting.noteMarkers settings.marker f _).trans
    (exporting_noteDirectives f ((noteConstraints settings.buildTag f).run { name, text }).2)
  simp only [exporting, Prod.mk.injEq] at hconstraints
  rw [hconstraints.1, hconstraints.2] at hall
  exact congrArg Prod.snd hall

/-! ### Their places -/

variable {settings : Settings} {name text : Bytes} {f : Host.File} {d : Directive}
  {front rest : List Host.Lexeme} {package : Host.Lexeme}

/-- An export is a comment behind the package clause. -/
theorem exists_export (hread : f.IsRead text front package rest)
    (hd : d ∈ (ofFile settings name text f).exports) :
    ∃ l ∈ rest, l.kind = .comment ∧ exportMark <+: l.text
      ∧ d.start = l.pos - 1 ∧ d.stop = l.pos + l.text.length - 1 := by
  rw [exports_ofFile] at hd
  obtain ⟨⟨doc, isMethod, fn⟩, hdoc, hd⟩ := List.mem_flatMap.mp hd
  obtain ⟨c, hc, hd⟩ := List.mem_filterMap.mp hd
  obtain ⟨decl, hdecl, hdoc⟩ := List.mem_filterMap.mp hdoc
  obtain ⟨arg, harg, hd⟩ := Option.bind_eq_some_iff.mp hd
  obtain ⟨-, hd⟩ := Option.ite_none_left_eq_some.mp hd
  split at hdoc
  · obtain ⟨rfl, -⟩ := Prod.mk.inj (Option.some.inj hdoc)
    have hliterals := hread.decls _ hdecl
    rw [Host.Node.Literals] at hliterals
    obtain ⟨l, hl, hkind, rfl⟩ := hliterals.1 c hc
    obtain ⟨after, hmark, -⟩ := Option.bind_eq_some_iff.mp harg
    obtain ⟨hlead, -⟩ := Option.ite_none_right_eq_some.mp hmark
    refine ⟨l, hl, hkind, List.isPrefixOf_iff_prefix.mp hlead, ?_, ?_⟩
    · rw [← Option.some.inj hd]
      rfl
    · rw [← Option.some.inj hd]
      rfl
  · cases hdoc

/-- The stretch of an export is the rest of its line, when no carriage return stands there. -/
theorem export_covers_line {s : Scan} (hrun : run settings name text = .ok s) (hd : d ∈ s.exports)
    (hclean : 0x0d ∉ text.lineFrom d.start) :
    Bytes.slice d.start d.stop text = text.lineFrom d.start := by
  rw [run_eq] at hrun
  cases hparse : Host.File.parse text with
  | error i =>
    rw [hparse] at hrun
    cases hrun
  | ok f =>
    rw [hparse] at hrun
    cases hrun
    obtain ⟨front, package, rest, hread⟩ := Host.File.exists_isRead hparse
    obtain ⟨l, hl, hkind, hmark, hstart, hstop⟩ := exists_export hread hd
    replace hl := hread.mem_lexemes hl
    have hpos := (Host.Lexer.ordered_lexemes text).1 l hl
    obtain ⟨body, hline, htext⟩ := Host.Lexer.exists_line hl hkind
      ((Host.faults_parse hparse).1 l hl) (List.IsPrefix.trans ⟨_, rfl⟩ hmark)
    have hbody : body.filter (· ≠ 0x0d) = body := by
      rw [List.filter_eq_self]
      intro b hb
      rw [decide_eq_true_eq]
      rintro rfl
      rw [hstart, hline] at hclean
      simp [hb] at hclean
    have hlength : d.stop - d.start = (text.lineFrom d.start).length := by
      rw [hstart, hstop, hline, htext, Host.Lexer.lineText, hbody]
      omega
    rw [Bytes.slice, hlength]
    exact List.prefix_iff_eq_take.mp (List.takeWhile_prefix _) |>.symm

end BridgeCall.Scan
