/-
  BridgeCall/Proofs/Marker/ProblemPlaces.lean
  ===========================================
  **Where the problem of a marker is shown.**  A fault of the expression is counted in the
  text that the literal stands for.  This text is not longer than the literal, so the
  fault lies inside the marker's call; line and column do too when the text breaks no
  line that the literal does not break.  A value that does not fit is shown at the call.
  Code that is no host code is shown nowhere: its problem has no place
  (`Scan.problem_placed`, `Scan.unwritten_unplaced`).
-/
import BridgeCall.Proofs.Marker.Accounts
import BridgeCall.Proofs.Marker.Places

namespace BridgeCall

namespace Marker

/-- Line and column of the call are known, and no mark renames a place inside of it. -/
structure IsKnown (m : Marker) (file : Bytes) : Prop where
  line : 0 < m.span.start.line
  column : 0 < m.span.start.column
  unmarked : (Host.Lines.ofFile file).Unmarked m.start m.stop

/-- The expression breaks no line that its literal does not break: it is on one line, or the byte in
    front of it is a back quote. -/
def KeepsLines (m : Marker) (file : Bytes) : Prop :=
  0x0a ∉ m.expr ∨ file.getD (m.exprStart.offset.toNat - 1) 0 = 0x60

instance (m : Marker) (file : Bytes) : Decidable (m.KeepsLines file) :=
  inferInstanceAs (Decidable (_ ∨ _))

variable {m : Marker} {name file : Bytes} {q : UInt8} {pre body post before after : Bytes}

namespace IsLiteral

theorem lt_length (h : m.IsLiteral name file q pre body post) : pre.length < file.length := by
  rw [h.file_eq, List.length_append, List.length_cons]
  omega

/-- What starts the expression is not longer than the body of the literal. -/
theorem length_le (h : m.IsLiteral name file q pre body post) (hexpr : m.expr = before ++ after) :
    before.length ≤ body.length := by
  have hbody := length_unquote?_le h.quote h.text h.expr
  rw [hexpr, List.length_append] at hbody
  omega

theorem getD_quote (h : m.IsLiteral name file q pre body post) :
    file.getD (m.exprStart.offset.toNat - 1) 0 = q := by
  have hoffset : m.exprStart.offset.toNat - 1 = pre.length := by
    rw [h.offset_eq]
    omega
  rw [hoffset, h.file_eq]
  simp

/-- What starts the expression does not lead behind the body of the literal. -/
theorem advance_upto (h : m.IsLiteral name file q pre body post) (hlines : m.KeepsLines file)
    (hexpr : m.expr = before ++ after) (p : Position) :
    (p.advance before).Upto (p.advance body) := by
  rcases hlines with hone | hraw
  · refine Position.upto_advance_of_length p (fun hmem => hone ?_) (h.length_le hexpr)
    rw [hexpr]
    exact List.mem_append_left _ hmem
  · obtain rfl := h.getD_quote.symm.trans hraw
    have hsub : before.Sublist body := by
      have hfilter := unquote?_raw h.expr
      rw [hexpr] at hfilter
      exact (List.sublist_append_left before after).trans (hfilter ▸ List.filter_sublist)
    exact (Position.Upto.refl p).advance hsub

end IsLiteral

namespace Encloses

theorem start_offset (h : m.Encloses name file q pre body post) : m.span.start.offset = m.start := by
  rw [h.span]
  simp [Host.Lines.span, Host.Lines.position]

theorem stop_offset (h : m.Encloses name file q pre body post) : m.span.stop.offset = m.stop := by
  rw [h.span]
  simp [Host.Lines.span, Host.Lines.position]

theorem le (h : m.Encloses name file q pre body post) : m.start ≤ m.stop := by
  have hstart := h.start
  have hstop := h.stop
  omega

/-- A stretch of the expression lies in the call, counted in bytes. -/
theorem offsets (h : m.Encloses name file q pre body post) {span : Span} {piece : Bytes}
    (hspells : (Source.at m.expr m.exprStart).Spells span piece) :
    m.start ≤ span.start.offset ∧ span.start.offset ≤ span.stop.offset
      ∧ span.stop.offset ≤ m.stop := by
  obtain ⟨before, after, hexpr, rfl⟩ := hspells
  rw [← List.append_assoc] at hexpr
  have hlength := h.literal.length_le hexpr
  have hoffset : (Source.at m.expr m.exprStart).start.offset = pre.length + 1 := h.literal.offset_eq
  have hstart := h.start
  have hstop := h.stop
  rw [List.length_append] at hlength
  simp only [Position.offset_advance, List.length_append, hoffset]
  omega

theorem inside_self (h : m.Encloses name file q pre body post) (hknown : m.IsKnown file) :
    m.span.Inside m.span := by
  refine ⟨.refl _, ?_, .refl _⟩
  rw [h.span]
  exact Host.Lines.position_upto h.le hknown.unmarked name

theorem isPlaced (h : m.Encloses name file q pre body post) (hknown : m.IsKnown file) :
    m.IsPlaced := by
  have hline : 0 < ((Host.Lines.ofFile file).position name (m.start + 1)).line := by
    have hline := hknown.line
    rwa [h.span] at hline
  have hcolumn : 0 < ((Host.Lines.ofFile file).position name (m.start + 1)).column := by
    have hcolumn := hknown.column
    rwa [h.span] at hcolumn
  have hunmarked : (Host.Lines.ofFile file).Unmarked m.start pre.length :=
    hknown.unmarked.mono (Nat.le_refl _) (by have := h.stop; omega)
  have hplace := (Host.Lines.isOf_ofFile file).position_eq h.start h.literal.lt_length name
    hunmarked hcolumn
  have hbehind := Position.line_advance ((Host.Lines.ofFile file).position name (m.start + 1))
    (Bytes.slice m.start pre.length file)
  have hpositive := Position.column_advance (Int.add_one_le_of_lt hcolumn)
    (Bytes.slice m.start pre.length file)
  rw [← hplace] at hbehind hpositive
  rw [IsPlaced, h.literal.start, Position.step,
    if_neg (by rcases h.literal.quote with rfl | rfl <;> decide)]
  dsimp only
  exact ⟨lt_of_lt_of_le hline hbehind, Int.lt_add_one_of_le hpositive⟩

/-- A stretch of the expression lies in the call, counted in lines and columns. -/
theorem inside (h : m.Encloses name file q pre body post) (hknown : m.IsKnown file)
    (hlines : m.KeepsLines file) {span : Span} {piece : Bytes}
    (hspells : (Source.at m.expr m.exprStart).Spells span piece) : span.Inside m.span := by
  obtain ⟨before, after, hexpr, rfl⟩ := hspells
  have hplaced := h.isPlaced hknown
  have hstop := h.stop
  constructor
  · have hfirst := h.literal.position_eq hplaced (List.nil_append body).symm
    have hcall : m.span.start.Upto ((Source.at m.expr m.exprStart).start.advance []) := by
      rw [hfirst, h.span]
      refine Host.Lines.position_upto ?_ (hknown.unmarked.mono (Nat.le_refl _) ?_) name
      · exact Nat.le_succ_of_le h.start
      · exact Nat.le_of_lt (Nat.lt_of_le_of_lt (by simp; omega) hstop)
    exact hcall.trans (Position.upto_advance _ before)
  · rw [Position.advance_append]
    exact Position.upto_advance _ piece
  · have hexpr' : m.expr = (before ++ piece) ++ after := by
      rw [List.append_assoc]
      exact hexpr
    refine (h.literal.advance_upto hlines hexpr' _).trans ?_
    rw [h.literal.position_eq hplaced (List.append_nil body).symm, h.span]
    refine Host.Lines.position_upto (by omega) (hknown.unmarked.mono ?_ (Nat.le_refl _)) name
    have := h.start
    omega

/-- Where no mark renames a place, all is known. -/
theorem isKnown (h : m.Encloses name file q pre body post)
    (hmarks : (Host.Lines.ofFile file).marks = []) : m.IsKnown file := by
  have hlt : m.start < file.length := h.start.trans_lt h.literal.lt_length
  have hplace := Host.Lines.position_unmarked (Host.Lines.isOf_ofFile file) hmarks name hlt
  have hstart : m.span.start = (Host.Lines.ofFile file).position name (m.start + 1) :=
    congrArg Span.start h.span
  rw [hplace] at hstart
  refine ⟨?_, ?_, ?_⟩
  · rw [hstart]
    exact Int.lt_of_lt_of_le Int.one_pos (Position.line_advance _ _)
  · rw [hstart]
    exact Int.lt_of_lt_of_le Int.one_pos (Position.column_advance (le_refl 1) _)
  · intro mark hmark
    rw [hmarks] at hmark
    cases hmark

end Encloses
end Marker

/-! ### Problems of a file -/

namespace Scan

/-- **Where the problem of a marker is shown.** The problem has no place exactly when the code of the
    call is no host code. Any other problem lies inside the marker's call, counted in bytes. It does so
    counted in lines and columns, too, where the place of the call is known and the expression breaks
    no lines but those of its literal. A value that does not fit is shown at the call. -/
theorem problem_placed {settings settings' : Settings} {name text : Bytes} {s : Scan}
    (h : run settings name text = .ok s) {m : Marker} (hm : m ∈ s.markers) {d : Diagnostic}
    (hd : m.expand settings' = .error d) :
    m.span = (Host.Lines.ofFile text).span name (m.start + 1) (m.stop + 1)
    ∧ ((Host.Lines.ofFile text).marks = [] → m.IsKnown text)
    ∧ (d.kind = .marker ↔ ∃ call, Call.parse (.at m.expr m.exprStart) = .ok call
      ∧ (Plan.lower call).expand (settings'.options m.env) = none)
    ∧ (d.kind = .marker → d.span = ⟨{}, {}⟩)
    ∧ (d.kind ≠ .marker → m.start ≤ d.span.start.offset ∧ d.span.start.offset ≤ d.span.stop.offset
      ∧ d.span.stop.offset ≤ m.stop
      ∧ (m.IsKnown text → m.KeepsLines text → d.span.Inside m.span ∧ 1 ≤ d.span.start.line))
    ∧ (d.kind = .arity → d.span = m.span) := by
  obtain ⟨q, pre, body, post, hencloses⟩ := exists_enclosed_literal h hm
  have hline (hknown : m.IsKnown text) (hinside : d.span.Inside m.span) : 1 ≤ d.span.start.line :=
    (Int.add_one_le_of_lt hknown.line).trans hinside.start.line_le
  refine ⟨hencloses.span, hencloses.isKnown, ?_⟩
  cases Marker.becomes_iff.mpr hd with
  | @faulty f hparse =>
    have hspells := Source.spells_fault hparse
    obtain ⟨hfrom, hordered, hto⟩ := hencloses.offsets hspells
    refine ⟨⟨nofun, ?_⟩, nofun, fun _ => ⟨hfrom, hordered, hto, ?_⟩, nofun⟩
    · rintro ⟨call, hcall, -⟩
      rw [hparse] at hcall
      cases hcall
    · intro hknown hlines
      have hinside := hencloses.inside hknown hlines hspells
      exact ⟨hinside, hline hknown hinside⟩
  | @unwritten call hparse hcode =>
    exact ⟨⟨fun _ => ⟨call, hparse, hcode⟩, fun _ => rfl⟩, fun _ => rfl,
      fun hkind => absurd rfl hkind, nofun⟩
  | @misassigned call code n hparse hcode huse hrefused =>
    have hordered : m.span.start.offset ≤ m.span.stop.offset := by
      rw [hencloses.start_offset, hencloses.stop_offset]
      exact Int.ofNat_le.mpr hencloses.le
    refine ⟨⟨nofun, ?_⟩, nofun,
      fun _ => ⟨hencloses.start_offset.ge, hordered, hencloses.stop_offset.le, ?_⟩, fun _ => rfl⟩
    · rintro ⟨call', hcall, hnone⟩
      rw [hparse] at hcall
      cases hcall
      rw [hcode] at hnone
      cases hnone
    · intro hknown _
      have hinside := hencloses.inside_self hknown
      exact ⟨hinside, hline hknown hinside⟩

/-- The fault stands in front of the escape in the literal. -/
theorem problem_placed_late :
    ∃ s m d, run {} "a.go" lateEscape = .ok s ∧ m ∈ s.markers ∧ m.expand {} = .error d
      ∧ d.kind ≠ .marker ∧ d.span.Inside m.span ∧ 1 ≤ d.span.start.line := by
  obtain ⟨s, m, f, hrun, hm, hparse, hlines⟩ := @exists_fault lateEscape
    (fun m _ => decide (m.KeepsLines lateEscape)) (by decide +kernel)
  rw [decide_eq_true_eq] at hlines
  have hexpand : m.expand {} = .error (.ofFault f) := (Marker.Becomes.faulty hparse).expand_eq
  have hkind : (Diagnostic.ofFault f).kind ≠ .marker := nofun
  obtain ⟨-, hknown, -, -, hplaced, -⟩ := problem_placed hrun hm hexpand
  obtain ⟨-, -, -, hinside⟩ := hplaced hkind
  exact ⟨s, m, .ofFault f, hrun, hm, hexpand, hkind, hinside (hknown (by decide +kernel)) hlines⟩

theorem exists_accepted {text : Bytes} (ok : Marker → Call → Bool)
    (h : ((run {} "a.go" text).toOption.any fun s => s.markers.any fun m =>
      match Call.parse (.at m.expr m.exprStart) with
      | .error _ => false
      | .ok call => ok m call) = true) :
    ∃ s m call, run {} "a.go" text = .ok s ∧ m ∈ s.markers
      ∧ Call.parse (.at m.expr m.exprStart) = .ok call ∧ ok m call = true := by
  obtain ⟨s, m, hs, hm, hcall⟩ := exists_marker _ h
  split at hcall
  · cases hcall
  · rename_i call hparse
    exact ⟨s, m, call, hs, hm, hparse, hcall⟩

/-- A file in which an argument of a call is one for the call grammar, but no host code. -/
def halfSum : Bytes :=
  "package p\n\nimport \"github.com/dhamidi/jnicall\"\n\nfunc f() \x7b\n"
    ++ "\tjnicall.Call(e, \"o.m(int(1 +)) -> void\")\n\x7d\n"

/-- The function that its marker stands for, before it is brought into its normal layout. -/
def halfSumFunction : Bytes :=
  "func () \x7b\njniEnv := e\n"
    ++ "jniRes,jniErr := jniEnv . CallMethod (o,\"m\",\"(I)V\",[] jni.Value \x7bjni.Int (1 +)\x7d)\n"
    ++ "if jniErr != nil \x7b\npanic(fmt.Errorf (\"jnicall: failed to call m(): %w\",jniErr))\n\x7d\n"
    ++ "if jniErr := jniRes . V ();jniErr != nil \x7b\n"
    ++ "panic(fmt.Errorf (\"jnicall: expected m() to return void: %w\",jniErr))\n\x7d\n\x7d ()"

theorem mergeSort_pair {α : Type} {le : α → α → Bool} {a b : α} (h : le a b = false) :
    [a, b].mergeSort le = [b, a] := by
  simp [List.mergeSort, List.MergeSort.Internal.splitInTwo, h]

theorem expand_eq_none {p : Plan} {options : ExpandOptions}
    (h : Host.normalLayout ((p.code options.withDefaults.env).file options.withDefaults) = none) :
    p.expand options = none := by
  unfold Plan.expand
  simp only [Plan.draft, h, Option.bind_eq_bind, Option.bind_none]

/-- A problem of code that is no host code is at line zero, outside of its marker. -/
theorem unwritten_unplaced :
    ∃ s m d, run {} "a.go" halfSum = .ok s ∧ m ∈ s.markers ∧ m.expand {} = .error d
      ∧ d.span.start.line = 0 ∧ ¬ d.span.Inside m.span := by
  let options := ({} : Settings).options "e"
  let o := options.withDefaults
  let names : Code.Names := [("github.com/dhamidi/jnicall/jni", "jni"), ("fmt", "fmt")]
  obtain ⟨s, m, call, hrun, hm, hparse, hok⟩ := @exists_accepted halfSum
    (fun m call =>
      let written := (((Plan.lower call).code o.env).write o).run []
      decide (m.env = ("e" : Bytes)) && decide (0 < m.span.start.line)
        && decide (written.1 = halfSumFunction) && decide (written.2 = names))
    (by decide +kernel)
  simp only [Bool.and_eq_true, decide_eq_true_eq] at hok
  obtain ⟨⟨⟨henv, hline⟩, htext⟩, hnames⟩ := hok
  have hwrite : (((Plan.lower call).code o.env).write o).run [] = (halfSumFunction, names) :=
    Prod.ext htext hnames
  have hlayout : (Host.normalLayout (((Plan.lower call).code o.env).file o)).isNone = true := by
    rw [Code.Function.file, hwrite]
    dsimp only
    rw [Code.writeImports, mergeSort_pair (by decide)]
    decide +kernel
  have hcode : (Plan.lower call).expand (({} : Settings).options m.env) = none := by
    rw [henv]
    exact expand_eq_none (Option.isNone_iff_eq_none.mp hlayout)
  refine ⟨s, m, m.unwritable {} call, hrun, hm, (Marker.Becomes.unwritten hparse hcode).expand_eq,
    rfl, fun hinside => ?_⟩
  have hle : m.span.start.line ≤ 0 := hinside.start.line_le
  omega

end Scan
end BridgeCall
