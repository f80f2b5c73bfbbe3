/-
  BridgeCall/Proofs/Marker/Places.lean
  ====================================
  **Where the tokens of a marker stand.**  A marker's expression is unquoted first, and
  its tokens are counted from one byte behind the quote, in the text the literal stands
  for.  Up to the first byte that does not stand for itself this text is the body of the
  literal, so counting gives places of the file there (`Scan.tokens_placed`).  Behind an
  escape it does not: the file has more bytes than the text (`Scan.escape_shifts_fault`).
  The literal stands inside of the marker's call (`Scan.exists_enclosed_literal`).
-/
import BridgeCall.Proofs.Expr.FirstFault
import BridgeCall.Proofs.Expr.Tiling
import BridgeCall.Proofs.Host.FileLiterals
import BridgeCall.Proofs.Host.Unquoted
import BridgeCall.Proofs.Marker.Calls

namespace BridgeCall

open Grammar
open Host (keptBody)

/-! ### The literal of a marker -/

/-- The expression of a marker is what a string literal of the file stands for: the literal has the
    quote `q` and the given body, and no mark renames a place in it. -/
structure Marker.IsLiteral (m : Marker) (name file : Bytes) (q : UInt8) (pre body post : Bytes) :
    Prop where
  quote : q = 0x22 ∨ q = 0x60
  file_eq : file = pre ++ q :: (body ++ q :: post)
  text : IsText body
  expr : Quoted.unquote? (q :: (keptBody q body ++ [q])) = some m.expr
  start : m.exprStart = ((Host.Lines.ofFile file).position name (pre.length + 1)).step q
  unmarked : (Host.Lines.ofFile file).Unmarked pre.length (pre.length + body.length + 1)

/-- The call of a marker, from one offset of the file to another, with its literal inside of it. -/
structure Marker.Encloses (m : Marker) (name file : Bytes) (q : UInt8) (pre body post : Bytes) :
    Prop where
  literal : m.IsLiteral name file q pre body post
  start : m.start ≤ pre.length
  stop : pre.length + body.length + 2 < m.stop
  span : m.span = (Host.Lines.ofFile file).span name (m.start + 1) (m.stop + 1)

namespace Scan

variable {qualifier fn : Bytes} {P : Host.Lexeme → Prop}

/-- Only a call of a name behind a package name has the arguments of a marker. -/
theorem call_of_markerArgs? {n : Host.Node} {args : List Host.Node}
    (h : markerArgs? qualifier fn n = some args) :
    ∃ p q f l dots r, n = .call (.selector (.name p q) f) l args dots r := by
  cases n with
  | call x l as dots r =>
    obtain ⟨hname, hargs⟩ := Option.ite_none_right_eq_some.mp h
    obtain rfl := Option.some.inj hargs
    cases x with
    | selector x f =>
      cases x with
      | name p q => exact ⟨p, q, f, l, dots, r, rfl⟩
      | _ => cases hname
    | _ => cases hname
  | _ => cases h

theorem mem_parts_of_markerArgs? {n a : Host.Node} {args : List Host.Node}
    (h : markerArgs? qualifier fn n = some args) (ha : a ∈ args) : (.operand, a) ∈ n.parts := by
  obtain ⟨p, q, f, l, dots, r, rfl⟩ := call_of_markerArgs? h
  exact Host.Node.mem_operands.mpr ⟨rfl, List.mem_cons_of_mem _ ha⟩

theorem span_of_judge {t : Host.Lines} {name text : Bytes} {c : MarkerCall} {m : Marker}
    (h : judge t name text c = .ok m) : m.span = t.span name c.2.1.pos c.2.1.stop := by
  revert h
  fun_cases judge t name text c
  all_goals
    intro h
    cases h
    try rfl

theorem literals_markerCalls {use : Host.Use} {n : Host.Node} (hn : n.Literals P) :
    ∀ c ∈ markerCalls qualifier fn use n,
      c.2.1.Literals P ∧ markerArgs? qualifier fn c.2.1 = some c.2.2 := by
  induction use, n using node_induction with
  | h use n ih =>
    intro c hc
    rw [markerCalls_unfold] at hc
    cases hargs : markerArgs? qualifier fn n with
    | some args =>
      rw [hargs] at hc
      obtain rfl := List.mem_singleton.mp hc
      exact ⟨hn, hargs⟩
    | none =>
      rw [hargs] at hc
      obtain ⟨⟨u, d⟩, hpart, hc⟩ := List.mem_flatMap.mp hc
      exact ih u d hpart (hn.of_mem_parts hpart) c hc

/-- A call of the marker function starts with its name and ends with the parenthesis, and a literal
    among its arguments stands between them. -/
theorem encloses_of_markerArgs? {n : Host.Node} {args : List Host.Node} (hn : n.Literals P)
    (h : markerArgs? qualifier fn n = some args) :
    ∃ l, P l ∧ l.kind = .op ")" ∧ n.stop = l.pos + 1
      ∧ ∀ p k text, .literal p k text ∈ args →
        (∃ first, P first ∧ first.pos = n.pos) ∧ 0 < n.pos ∧ n.pos ≤ p ∧ p ≤ l.pos := by
  obtain ⟨p, q, f, lparen, dots, r, rfl⟩ := call_of_markerArgs? h
  rw [Host.Node.Literals] at hn
  obtain ⟨-, -, l, hl, hkind, rfl, hbetween⟩ := hn
  refine ⟨l, hl, hkind, rfl, fun p k text hmem => ?_⟩
  obtain ⟨hbefore, hto⟩ := hbetween p k text hmem
  obtain ⟨hfirst, hpos, hfrom⟩ := hbefore _ rfl
  exact ⟨hfirst, hpos, hfrom, hto⟩

/-- A marker is an outermost call of the marker function. -/
theorem exists_call {settings : Settings} {name text : Bytes} {f : Host.File} {m : Marker}
    (hm : m ∈ (ofFile settings name text f).markers) :
    ∃ qualifier fn, ∃ c ∈ outerCalls qualifier fn f, judge f.lines name text c = .ok m := by
  let before : ScanM Unit := do
    noteConstraints settings.buildTag f
    noteDirectives f
  have hfound : found (before.run { name, text }).2 = ([], []) :=
    (undirected_found.noteDirectives f _).trans (unconstrained_found.noteConstraints _ f _)
  have hnone : (before.run { name, text }).2.markers = [] := congrArg Prod.fst hfound
  have hrun : (ofFile settings name text f).markers
      = ((noteMarkers settings.marker f).run (before.run { name, text }).2).2.markers := rfl
  cases hcut : Bytes.cut "." settings.marker with
  | none =>
    have hnote : noteMarkers settings.marker f = pure () := by rw [noteMarkers, hcut]
    rw [hrun, hnote] at hm
    change m ∈ (before.run { name, text }).2.markers at hm
    rw [hnone] at hm
    cases hm
  | some parts =>
    obtain ⟨qualifier, fn⟩ := parts
    cases himport : markerImport? f qualifier with
    | none =>
      have hnote : noteMarkers settings.marker f = pure () := by
        unfold noteMarkers
        rw [hcut]
        dsimp only
        rw [himport]
      rw [hrun, hnote] at hm
      change m ∈ (before.run { name, text }).2.markers at hm
      rw [hnone] at hm
      cases hm
    | some found =>
      obtain ⟨path, known⟩ := found
      have hmarkers := congrArg Prod.fst (found_ofFile hcut himport name text)
      change (ofFile settings name text f).markers = _ at hmarkers
      rw [hmarkers] at hm
      obtain ⟨r, hr, hok⟩ := List.mem_filterMap.mp hm
      obtain ⟨c, hc, rfl⟩ := List.mem_map.mp hr
      refine ⟨known, fn, c, hc, ?_⟩
      cases hjudge : judge f.lines name text c with
      | error d =>
        rw [hjudge] at hok
        cases hok
      | ok m' =>
        rw [hjudge] at hok
        exact congrArg Except.ok (Option.some.inj hok)

/-- The expression of a call that is a marker is a string literal, which the marker stands behind. -/
theorem literal_of_judge {t : Host.Lines} {name text : Bytes} {c : MarkerCall} {m : Marker}
    (h : judge t name text c = .ok m) :
    ∃ p lit, .literal p .string lit ∈ c.2.2 ∧ Quoted.unquote? lit = some m.expr
      ∧ m.exprStart = { t.position name p with
          offset := (t.position name p).offset + 1, column := (t.position name p).column + 1 } := by
  revert h
  fun_cases judge t name text c with
  | case1 =>
    intro h
    cases h
  | case2 use call span env p lit expr hlit start =>
    intro h
    cases h
    exact ⟨p, lit, List.mem_cons_of_mem _ List.mem_cons_self, hlit, rfl⟩
  | case3 =>
    intro h
    cases h
  | case4 =>
    intro h
    cases h

/-- The literal of a marker stands inside of its call. -/
theorem exists_enclosed_literal {settings : Settings} {name text : Bytes} {s : Scan}
    (h : run settings name text = .ok s) {m : Marker} (hm : m ∈ s.markers) :
    ∃ q pre body post, m.Encloses name text q pre body post := by
  rw [run_eq] at h
  cases hparse : Host.File.parse text with
  | error i =>
    rw [hparse] at h
    cases h
  | ok f =>
    rw [hparse] at h
    cases h
    obtain ⟨qualifier, fn, c, hc, hjudge⟩ := exists_call hm
    obtain ⟨p, lit, hliteral, hexpr, hstart⟩ := literal_of_judge hjudge
    obtain ⟨hfaults, hbytes⟩ := Host.faults_parse hparse
    obtain ⟨front, package, rest, hread⟩ := Host.File.exists_isRead hparse
    have hlines := hread.lines
    obtain ⟨d, hd, hc⟩ := List.mem_flatMap.mp hc
    obtain ⟨hcall, hargs⟩ := literals_markerCalls (hread.decls d hd) c hc
    have hstring := hcall.of_mem_parts (mem_parts_of_markerArgs? hargs hliteral)
    rw [Host.Node.Literals] at hstring
    obtain ⟨l, hl, rfl, hkind, rfl⟩ := hstring
    replace hl := hread.mem_lexemes hl
    obtain ⟨q, pre, body, post, ⟨hq, hfile, hpos, hlit, hunmarked⟩, hsize⟩ :=
      Host.exists_string hl hkind (hfaults l hl)
    obtain ⟨r, hr, hclose, hend, hbetween⟩ := encloses_of_markerArgs? hcall hargs
    replace hr := hread.mem_lexemes hr
    obtain ⟨-, hplace, hfrom, hto⟩ := hbetween l.pos .string l.text hliteral
    obtain ⟨hfirst, hlast⟩ := judge_stretch hjudge
    have hfirst : m.start + 1 = c.2.1.pos := by rw [hfirst, Nat.sub_add_cancel hplace]
    have hlast : m.stop = r.pos := by rw [hlast, hend, Nat.add_sub_cancel]
    have hkinds : l.kind ≠ r.kind := by
      intro hsame
      rw [hkind, hclose] at hsame
      cases hsame
    have hbehind := Host.Lexer.stopAt_lt_pos hl hr (by simp [Host.Lexer.hasBytes, hkind])
      (by simp [Host.Lexer.hasBytes, hclose]) hkinds hpos hto
    rw [hsize, ← hlast] at hbehind
    refine ⟨q, pre, body, post, ⟨hq, hfile, ?_, ?_, ?_, hunmarked⟩, ?_, ?_, ?_⟩
    · have htext := Host.isText_of_encodingFaults hbytes
      have hascii : q.toNat < 0x80 := by rcases hq with rfl | rfl <;> decide
      rw [hfile] at htext
      exact (IsText.split hascii (IsText.split hascii htext).2).1
    · rw [← hlit]
      exact hexpr
    · rw [hstart, hlines, hpos, Position.step, if_neg (by rcases hq with rfl | rfl <;> decide)]
    · rw [← hfirst, hpos] at hfrom
      exact Nat.le_of_succ_le_succ hfrom
    · exact hbehind
    · rw [span_of_judge hjudge, hlines, hfirst, hlast, hend]

theorem exists_literal {settings : Settings} {name text : Bytes} {s : Scan}
    (h : run settings name text = .ok s) {m : Marker} (hm : m ∈ s.markers) :
    ∃ q pre body post, m.IsLiteral name text q pre body post := by
  obtain ⟨q, pre, body, post, hencloses⟩ := exists_enclosed_literal h hm
  exact ⟨q, pre, body, post, hencloses.literal⟩

end Scan

/-! ### Stretches of a call expression -/

/-- A stretch of the text of a source, with its span. -/
def Source.Spells (src : Source) (span : Span) (piece : Bytes) : Prop :=
  ∃ before after, src.text = before ++ (piece ++ after)
    ∧ span = ⟨src.start.advance before, src.start.advance (before ++ piece)⟩

theorem Source.spells_token {src : Source} {t : Token} (ht : t ∈ src.tokens) :
    src.Spells t.span t.literal := by
  obtain ⟨before, after, htext, hspan, -⟩ := src.stream_tokens.placed t ht
  exact ⟨before, after, htext, hspan⟩

/-- A stretch of tokens stops behind its start, also when it ends with the end of the text. -/
theorem Source.spanOf_le {src : Source} {ts : List Token} (h : ts <:+: src.tokens) (hne : ts ≠ []) :
    (spanOf ts).start.offset ≤ (spanOf ts).stop.offset := by
  have hordered := src.stream_tokens.ordered.sublist h.sublist
  have hbounds : ∀ t ∈ ts, t.span.start.offset ≤ t.span.stop.offset := fun t ht =>
    (src.stream_tokens.bounds t (h.subset ht)).2.1
  obtain ⟨t, us, rfl⟩ := List.exists_cons_of_ne_nil hne
  rcases List.eq_nil_or_concat' us with rfl | ⟨us, u, rfl⟩
  · exact hbounds t (by simp)
  · have hfirst := hbounds t (by simp)
    have hlast := hbounds u (by simp)
    have hbetween := (List.pairwise_cons.mp hordered).1 u (by simp)
    have hstop : (spanOf (t :: (us ++ [u]))).stop = u.span.stop := by
      simp only [spanOf, List.getLastD_cons, getLastD_append, List.getLastD_nil]
    rw [hstop]
    simp only [spanOf, List.headD_cons]
    omega

theorem Source.spells_stretch {src : Source} {ts : List Token} (h : ts <:+: src.tokens)
    (hne : ts ≠ []) : ∃ piece, src.Spells (spanOf ts) piece := by
  have hle := spanOf_le h hne
  obtain ⟨t, ht, u, hu, hspan⟩ := InOrder.head_last hne
  obtain ⟨before, after, htext, htspan⟩ := spells_token (h.subset ht)
  obtain ⟨before', after', htext', huspan⟩ := spells_token (h.subset hu)
  rw [hspan, Span.to, htspan, huspan] at hle ⊢
  simp only [Position.offset_advance] at hle
  obtain ⟨piece, hpiece⟩ : before <+: before' ++ u.literal :=
    List.prefix_of_prefix_length_le ⟨_, htext.symm⟩ ⟨after', by rw [htext', List.append_assoc]⟩
      (by omega)
  refine ⟨piece, before, after', ?_, ?_⟩
  · rw [← List.append_assoc, hpiece, List.append_assoc, ← htext']
  · rw [hpiece]

theorem Source.spells_fault {src : Source} {f : Fault} (h : Call.parse src = .error f) :
    src.Spells f.span (src.cut f.span.start f.span.stop) := by
  obtain ⟨e, -, htokens⟩ := src.tokens_eq
  have hplace : Reader.At src [] src.tokens := ⟨rfl, by rw [htokens]; simp⟩
  obtain ⟨ts, hts, hne, hspan⟩ :=
    ((Reader.foresees_call hplace).fault f (Call.run_of_parse_error h)).1
  obtain ⟨piece, before, after, htext, hplaces⟩ := spells_stretch hts hne
  rw [hspan, hplaces, src.cut_advance before piece after htext]
  exact ⟨before, after, htext, rfl⟩

/-! ### Places in the file -/

theorem Bytes.slice_append (as bs cs : Bytes) :
    Bytes.slice as.length (as.length + bs.length) (as ++ (bs ++ cs)) = bs := by
  rw [Bytes.slice, Nat.add_sub_cancel_left, List.drop_left, List.take_left]

/-- All bytes of a file from one offset up to another stand for themselves in the literal whose quote
    is right before the first one. -/
def PlainBetween (file : Bytes) (start stop : Nat) : Prop :=
  (Bytes.slice start stop file).all (isPlain (file.getD (start - 1) 0)) = true

instance (file : Bytes) (start stop : Nat) : Decidable (PlainBetween file start stop) :=
  inferInstanceAs (Decidable (_ = true))

namespace Marker

/-- Line and column of the literal are known, so that no mark leaves its column open. -/
def IsPlaced (m : Marker) : Prop := 0 < m.exprStart.line ∧ 1 < m.exprStart.column

/-- A span of a marker's expression points at a piece of the file: the bytes there are those of the
    piece, and both ends are the places of their offsets when the place of the literal is known. -/
structure Points (m : Marker) (name file : Bytes) (span : Span) (piece : Bytes) : Prop where
  bytes : Bytes.slice span.start.offset.toNat span.stop.offset.toNat file = piece
  places : m.IsPlaced → span = (Host.Lines.ofFile file).span name
    (span.start.offset.toNat + 1) (span.stop.offset.toNat + 1)

namespace IsLiteral

variable {m : Marker} {name file : Bytes} {q : UInt8} {pre body post : Bytes}

theorem offset_eq (h : m.IsLiteral name file q pre body post) :
    m.exprStart.offset = pre.length + 1 := by
  rw [h.start, Position.offset_step]
  simp [Host.Lines.position]

theorem offset_advance (h : m.IsLiteral name file q pre body post) (bs : Bytes) :
    ((Source.at m.expr m.exprStart).start.advance bs).offset.toNat = pre.length + 1 + bs.length := by
  have hstart : (Source.at m.expr m.exprStart).start.offset = pre.length + 1 := h.offset_eq
  rw [Position.offset_advance, hstart]
  omega

/-- Up to the first byte that does not stand for itself, the expression is the body of the literal. -/
theorem body_eq (h : m.IsLiteral name file q pre body post) (before after : Bytes)
    (hexpr : m.expr = before ++ after)
    (hplain : PlainBetween file (pre.length + 1) (pre.length + 1 + before.length)) :
    ∃ rest, body = before ++ rest := by
  have hquote : file.getD (pre.length + 1 - 1) 0 = q := by
    rw [h.file_eq]
    simp
  have hslice : Bytes.slice (pre.length + 1) (pre.length + 1 + before.length) file
      = (body ++ q :: post).take before.length := by
    rw [h.file_eq, Bytes.slice, Nat.add_sub_cancel_left, ← List.drop_drop, List.drop_left]
    rfl
  rw [PlainBetween, hquote, hslice] at hplain
  have hlength : before.length ≤ m.expr.length := by
    rw [hexpr, List.length_append]
    exact Nat.le_add_right _ _
  obtain ⟨hle, htake⟩ := (startsPlain_unquote? h.quote h.text h.expr).take_eq hlength _ hplain
  refine ⟨body.drop before.length, ?_⟩
  rw [hexpr, List.take_left] at htake
  conv_lhs => rw [← List.take_append_drop before.length body, ← htake]

/-- The place behind a piece of the body that starts it. -/
theorem position_eq (h : m.IsLiteral name file q pre body post) (hplaced : m.IsPlaced)
    {before rest : Bytes} (hbody : body = before ++ rest) :
    (Source.at m.expr m.exprStart).start.advance before
      = (Host.Lines.ofFile file).position name (pre.length + 1 + before.length + 1) := by
  obtain ⟨hline, hcolumn⟩ := hplaced
  have hstart : (Source.at m.expr m.exprStart).start = m.exprStart := by
    rw [Source.at, Position.orFirst, if_neg (by omega), if_neg (by omega)]
  have hfile : (Host.Lines.ofFile file).IsOf (pre ++ (q :: before ++ (rest ++ q :: post))) := by
    have hof := Host.Lines.isOf_ofFile file
    rw [h.file_eq, hbody, List.append_assoc] at hof
    rw [h.file_eq, hbody, List.append_assoc]
    exact hof
  have hunmarked : (Host.Lines.ofFile file).Unmarked pre.length (pre.length + (q :: before).length) := by
    refine h.unmarked.mono (Nat.le_refl _) ?_
    rw [hbody, List.length_append, List.length_cons]
    omega
  have hknown : 0 < ((Host.Lines.ofFile file).position name (pre.length + 1)).column := by
    rw [h.start, Position.step, if_neg (by rcases h.quote with rfl | rfl <;> decide)] at hcolumn
    dsimp only at hcolumn
    omega
  have hplace := Host.Lines.position_advance hfile (by simp) name hunmarked hknown
  rw [List.length_cons, Nat.add_comm before.length, ← Nat.add_assoc] at hplace
  rw [hplace, hstart, h.start]
  rfl

/-- A stretch of the expression points into the file when all bytes up to its end stand for
    themselves. -/
theorem points (h : m.IsLiteral name file q pre body post) {span : Span} {piece : Bytes}
    (hspells : (Source.at m.expr m.exprStart).Spells span piece)
    (hplain : PlainBetween file m.exprStart.offset.toNat span.stop.offset.toNat) :
    m.Points name file span piece := by
  obtain ⟨before, after, hexpr, rfl⟩ := hspells
  have hfirst : m.exprStart.offset.toNat = pre.length + 1 := by
    rw [h.offset_eq]
    omega
  rw [hfirst, h.offset_advance] at hplain
  obtain ⟨rest, hbody⟩ :=
    h.body_eq (before ++ piece) after (by rw [List.append_assoc]; exact hexpr) hplain
  constructor
  · have hfile : file = (pre ++ q :: before) ++ (piece ++ (rest ++ q :: post)) := by
      rw [h.file_eq, hbody]
      simp
    have hlength : pre.length + 1 + before.length = (pre ++ q :: before).length := by
      rw [List.length_append, List.length_cons]
      omega
    rw [h.offset_advance, h.offset_advance, List.length_append, ← Nat.add_assoc, hlength, hfile]
    exact Bytes.slice_append ..
  · intro hplaced
    rw [Host.Lines.span, h.offset_advance, h.offset_advance,
      h.position_eq hplaced hbody, h.position_eq hplaced (hbody.trans (List.append_assoc ..))]

end IsLiteral
end Marker

namespace Scan

/-- **Where the tokens of a marker stand.** The expression of a marker is what a literal of the file
    stands for, and it starts right behind the quote. Each token, and each fault of the expression, is
    counted in the text the literal stands for. Where all bytes of the file up to its end stand for
    themselves, the file has it where its span says. -/
theorem tokens_placed {settings : Settings} {name text : Bytes} {s : Scan}
    (h : run settings name text = .ok s) {m : Marker} (hm : m ∈ s.markers) :
    let src := Source.at m.expr m.exprStart
    let first := m.exprStart.offset.toNat
    (∃ q pre body post, m.IsLiteral name text q pre body post)
    ∧ (∀ t ∈ src.tokens, src.Spells t.span t.literal
      ∧ (PlainBetween text first t.span.stop.offset.toNat → m.Points name text t.span t.literal))
    ∧ (∀ f, Call.parse src = .error f → m.expand settings = .error (.ofFault f)
      ∧ src.Spells f.span (src.cut f.span.start f.span.stop)
      ∧ (PlainBetween text first f.span.stop.offset.toNat →
        m.Points name text f.span (src.cut f.span.start f.span.stop)))
    ∧ ((Host.Lines.ofFile text).marks = [] → m.IsPlaced ∧ ∀ k < text.length,
      (Host.Lines.ofFile text).position name (k + 1)
        = ({ file := name, line := 1, column := 1 } : Position).advance (text.take k)) := by
  intro src first
  obtain ⟨q, pre, body, post, hliteral⟩ := exists_literal h hm
  refine ⟨⟨q, pre, body, post, hliteral⟩, ?_, ?_, ?_⟩
  · intro t ht
    have hspells := Source.spells_token ht
    exact ⟨hspells, hliteral.points hspells⟩
  · intro f hf
    have hspells := Source.spells_fault hf
    refine ⟨?_, hspells, hliteral.points hspells⟩
    rw [Marker.expand, hf]
    rfl
  · intro hmarks
    refine ⟨?_, ?_⟩
    · have hlt : pre.length < text.length := by
        rw [hliteral.file_eq, List.length_append, List.length_cons]
        omega
      have hplace := Host.Lines.position_unmarked (Host.Lines.isOf_ofFile text) hmarks name hlt
      have hline := Position.line_advance { file := name, line := 1, column := 1 }
        (text.take pre.length)
      have hcolumn := Position.column_advance (p := { file := name, line := 1, column := 1 })
        (le_refl 1) (text.take pre.length)
      have hstart := hliteral.start
      rw [hplace, Position.step, if_neg (by rcases hliteral.quote with rfl | rfl <;> decide)] at hstart
      rw [Marker.IsPlaced, hstart]
      dsimp only at hline ⊢
      omega
    · intro k hk
      exact Host.Lines.position_unmarked (Host.Lines.isOf_ofFile text) hmarks name hk

/-- A file with a marker whose expression has a fault in front of the escape in its literal. -/
def lateEscape : Bytes :=
  "package p\n\nimport \"github.com/dhamidi/jnicall\"\n\nfunc f() \x7b\n"
    ++ "\tjnicall.Call(e, \"o.m(]\\x29 -> void\")\n\x7d\n"

/-- The same file with the escape in front of the fault. -/
def earlyEscape : Bytes :=
  "package p\n\nimport \"github.com/dhamidi/jnicall\"\n\nfunc f() \x7b\n"
    ++ "\tjnicall.Call(e, \"\\to.m(]) -> void\")\n\x7d\n"

/-- A marker of a file, as it is found. -/
theorem exists_marker {text : Bytes} (ok : Marker → Bool)
    (h : ((run {} "a.go" text).toOption.any fun s => s.markers.any ok) = true) :
    ∃ s m, run {} "a.go" text = .ok s ∧ m ∈ s.markers ∧ ok m = true := by
  cases hs : run {} "a.go" text with
  | error i =>
    rw [hs] at h
    cases h
  | ok s =>
    rw [hs] at h
    obtain ⟨m, hm, hok⟩ := List.any_eq_true.mp h
    exact ⟨s, m, rfl, hm, hok⟩

theorem exists_fault {text : Bytes} (ok : Marker → Fault → Bool)
    (h : ((run {} "a.go" text).toOption.any fun s => s.markers.any fun m =>
      match Call.parse (.at m.expr m.exprStart) with
      | .error f => ok m f
      | .ok _ => false) = true) :
    ∃ s m f, run {} "a.go" text = .ok s ∧ m ∈ s.markers
      ∧ Call.parse (.at m.expr m.exprStart) = .error f ∧ ok m f = true := by
  obtain ⟨s, m, hs, hm, hf⟩ := exists_marker _ h
  split at hf
  · rename_i f hparse
    exact ⟨s, m, f, hs, hm, hparse, hf⟩
  · cases hf

theorem tokens_placed_late :
    ∃ s m f, run {} "a.go" lateEscape = .ok s ∧ m ∈ s.markers
      ∧ Call.parse (.at m.expr m.exprStart) = .error f
      ∧ PlainBetween lateEscape m.exprStart.offset.toNat f.span.stop.offset.toNat
      ∧ m.Points "a.go" lateEscape f.span "]" := by
  obtain ⟨s, m, f, hrun, hm, hparse, hfault⟩ := @exists_fault lateEscape
    (fun m f => decide (PlainBetween lateEscape m.exprStart.offset.toNat f.span.stop.offset.toNat)
      && decide ((Source.at m.expr m.exprStart).cut f.span.start f.span.stop = ("]" : Bytes)))
    (by decide +kernel)
  rw [Bool.and_eq_true, decide_eq_true_eq, decide_eq_true_eq] at hfault
  obtain ⟨hplain, hpiece⟩ := hfault
  obtain ⟨-, -, hfaults, -⟩ := tokens_placed hrun hm
  have hpoints := (hfaults f hparse).2.2 hplain
  rw [hpiece] at hpoints
  exact ⟨s, m, f, hrun, hm, hparse, hplain, hpoints⟩

/-- Behind an escape the place of a token is not its place in the file: the closing bracket that a
    fault blames stands where the opening parenthesis before it is. -/
theorem escape_shifts_fault :
    ∃ s m f, run {} "a.go" earlyEscape = .ok s ∧ m ∈ s.markers
      ∧ Call.parse (.at m.expr m.exprStart) = .error f
      ∧ (∃ t ∈ (Source.at m.expr m.exprStart).tokens, t.span = f.span ∧ t.literal = "]"
        ∧ Bytes.slice t.span.start.offset.toNat t.span.stop.offset.toNat earlyEscape = "(")
      ∧ ¬ m.Points "a.go" earlyEscape f.span "]" := by
  obtain ⟨s, m, f, hrun, hm, hparse, hfault⟩ := @exists_fault earlyEscape
    (fun m f => (Source.at m.expr m.exprStart).tokens.any fun t =>
      decide (t.span = f.span) && decide (t.literal = ("]" : Bytes))
        && decide (Bytes.slice t.span.start.offset.toNat t.span.stop.offset.toNat earlyEscape
          = ("(" : Bytes)))
    (by decide +kernel)
  obtain ⟨t, ht, htoken⟩ := List.any_eq_true.mp hfault
  simp only [Bool.and_eq_true, decide_eq_true_eq] at htoken
  obtain ⟨⟨hspan, hliteral⟩, hbytes⟩ := htoken
  refine ⟨s, m, f, hrun, hm, hparse, ⟨t, ht, hspan, hliteral, hbytes⟩, ?_⟩
  intro hpoints
  have hpiece := hpoints.bytes
  rw [← hspan, hbytes] at hpiece
  exact absurd hpiece (by decide)

end Scan
end BridgeCall
