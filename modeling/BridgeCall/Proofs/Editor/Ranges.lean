/-
  BridgeCall/Proofs/Editor/Ranges.lean
  ====================================
  **The places an editor is shown.**  An editor counts the UTF-16 units in front of a
  place on its line (`Place.inUnits`), the server counts the bytes (`Place.inBytes`).
  Bytes keep the order of offsets, so a place that is counted in bytes is found in a
  stretch exactly when its byte lies there (`Place.isIn_inBytes`).

  There are never more units than bytes on a line.  So a place that is counted in units
  is read as one on the same line, as many bytes in front of the one it stands for as
  there are bytes more than units (`Place.inUnits_eq`), and both are the same exactly when
  all bytes in front of it on its line are ASCII (`Place.lag_eq_zero_iff`).  The main
  statement (`Server.ranges_count_bytes`) says this of all ranges that the server gives to
  an editor, and of all places it is asked about.
-/
import BridgeCall.Proofs.Editor.Documents
import BridgeCall.Proofs.Text.Units
import Mathlib.Data.FinEnum
import Mathlib.Data.List.Find

namespace BridgeCall

/-! ### Lines -/

/-- The bytes behind the last line feed. -/
def Bytes.lastLine (bs : Bytes) : Bytes := (bs.reverse.takeWhile (· ≠ 0x0a)).reverse

theorem Bytes.lastLine_append {piece : Bytes} (h : 0x0a ∉ piece) (bs : Bytes) :
    lastLine (bs ++ piece) = lastLine bs ++ piece := by
  have hall : ∀ b ∈ piece.reverse, decide (b ≠ 0x0a) = true := by
    intro b hb
    rw [decide_eq_true_eq]
    rintro rfl
    exact h (List.mem_reverse.mp hb)
  rw [lastLine, List.reverse_append, List.takeWhile_append_of_pos hall, List.reverse_append,
    List.reverse_reverse, lastLine]

theorem Bytes.lastLine_concat_feed (bs : Bytes) : lastLine (bs ++ [0x0a]) = [] := by
  simp [lastLine]

theorem Bytes.not_mem_lastLine (bs : Bytes) : 0x0a ∉ lastLine bs := by
  intro h
  have := List.mem_takeWhile_imp (List.mem_reverse.mp h)
  simp at this

/-- A text is what stands up to its last line feed, and its last line. -/
theorem Bytes.exists_lastLine (bs : Bytes) : ∃ front, bs = front ++ lastLine bs :=
  ⟨(bs.reverse.dropWhile (· ≠ 0x0a)).reverse, by
    rw [lastLine, ← List.reverse_append, List.takeWhile_append_dropWhile, List.reverse_reverse]⟩

theorem Bytes.length_lastLine_le (bs : Bytes) : (lastLine bs).length ≤ bs.length := by
  obtain ⟨front, hfront⟩ := exists_lastLine bs
  have := congrArg List.length hfront
  rw [List.length_append] at this
  omega

namespace Editor

namespace Place

/-- The place behind some bytes, with the bytes on its line counted. -/
def inBytes (front : Bytes) : Place := ⟨front.count 0x0a, (Bytes.lastLine front).length⟩

/-- The place behind some bytes, with the UTF-16 units on its line counted. -/
def inUnits (front : Bytes) : Place :=
  ⟨front.count 0x0a, (Utf16.units (Bytes.lastLine front)).length⟩

/-- How many bytes more than units there are on the line of a place. -/
def lag (front : Bytes) : Nat :=
  (Bytes.lastLine front).length - (Utf16.units (Bytes.lastLine front)).length

/-- The place behind some characters, as an editor counts it. -/
def ofChars (cs : List Char) : Place :=
  ⟨cs.count '\n', ((cs.reverse.takeWhile (· ≠ '\n')).reverse.flatMap
    fun c => Utf16.encode c.toNat).length⟩

/-! ### Units -/

end Place

theorem feed_mem_encode {c : Char} (h : 0x0a ∈ Utf8.encode c.toNat) : c = '\n' := by
  obtain ⟨-, hc⟩ := Utf8.eq_of_mem_encode h (by decide)
  exact Char.toNat_inj.mp hc

theorem ofChars_concat (cs : List Char) (c : Char) :
    Utf8.ofChars (cs ++ [c]) = Utf8.ofChars cs ++ Utf8.encode c.toNat := by
  simp [Utf8.ofChars, Utf8.ofCodePoints]

theorem lastLine_ofChars (cs : List Char) :
    Bytes.lastLine (Utf8.ofChars cs)
      = Utf8.ofChars (cs.reverse.takeWhile (· ≠ '\n')).reverse := by
  induction cs using List.reverseRecOn with
  | nil => rfl
  | append_singleton cs c ih =>
    rw [ofChars_concat]
    by_cases hc : c = '\n'
    · subst hc
      have hfeed : Utf8.encode '\n'.toNat = [0x0a] := by decide
      rw [hfeed, Bytes.lastLine_concat_feed]
      simp
    · rw [Bytes.lastLine_append (fun h => hc (feed_mem_encode h)), ih, ← ofChars_concat,
        List.reverse_append, List.reverse_singleton, List.singleton_append,
        List.takeWhile_cons_of_pos (by simpa using hc), List.reverse_cons]

theorem count_ofChars (cs : List Char) : (Utf8.ofChars cs).count 0x0a = cs.count '\n' := by
  induction cs with
  | nil => rfl
  | cons c cs ih =>
    rw [Utf8.ofChars_cons, List.count_append, ih, List.count_cons, Nat.add_comm]
    by_cases hc : c = '\n'
    · subst hc
      have hfeed : Utf8.encode '\n'.toNat = [0x0a] := by decide
      rw [hfeed]
      simp
    · rw [List.count_eq_zero_of_not_mem fun h => hc (feed_mem_encode h)]
      simp [hc]

namespace Place

/-- Behind whole characters the units are those of the characters. -/
theorem inUnits_ofChars (cs : List Char) : inUnits (Utf8.ofChars cs) = ofChars cs := by
  rw [inUnits, lastLine_ofChars, Utf16.units_ofChars, count_ofChars]
  rfl

theorem lag_eq_zero_iff (front : Bytes) :
    lag front = 0 ↔ ∀ b ∈ Bytes.lastLine front, b.toNat < 0x80 := by
  have hle := Utf16.length_units_le (Bytes.lastLine front)
  rw [← Utf16.length_units_eq_iff, lag]
  omega

/-- A place that is counted in units is the one in bytes that stands in front of it by the lag. -/
theorem inUnits_eq (front : Bytes) : inUnits front = inBytes (front.take (front.length - lag front)) := by
  obtain ⟨before, hfront⟩ := Bytes.exists_lastLine front
  have hle := Utf16.length_units_le (Bytes.lastLine front)
  have hfeed := Bytes.not_mem_lastLine front
  generalize hline : Bytes.lastLine front = line at *
  have hlag : lag front = line.length - (Utf16.units line).length := by rw [lag, hline]
  have htake : front.take (front.length - lag front)
      = before ++ line.take (Utf16.units line).length := by
    rw [hlag, hfront, List.length_append, List.take_append, List.take_of_length_le (by omega)]
    congr 2
    omega
  have hsplit : line.take (Utf16.units line).length ++ line.drop (Utf16.units line).length = line :=
    List.take_append_drop _ _
  have hkept : 0x0a ∉ line.take (Utf16.units line).length := fun h => hfeed (List.mem_of_mem_take h)
  have hbefore : Bytes.lastLine before = [] := by
    have happend := Bytes.lastLine_append hfeed before
    rw [← hfront, hline] at happend
    exact (List.self_eq_append_left.mp happend)
  rw [inUnits, inBytes, htake, Bytes.lastLine_append hkept, hbefore, List.nil_append, hline,
    List.length_take_of_le hle, List.count_append, List.count_eq_zero_of_not_mem hkept, hfront,
    List.count_append, List.count_eq_zero_of_not_mem hfeed]

/-! ### Order -/

/-- Of two places of a text, the later one stands on a later line, or behind the other one on its line. -/
theorem inBytes_order {text : Bytes} {i j : Nat} (hij : i ≤ j) (hj : j ≤ text.length) :
    (inBytes (text.take i)).line < (inBytes (text.take j)).line
      ∨ (inBytes (text.take i)).line = (inBytes (text.take j)).line
        ∧ (inBytes (text.take j)).column = (inBytes (text.take i)).column + (j - i) := by
  have hsplit : text.take j = text.take i ++ Bytes.slice i j text := by
    rw [Bytes.slice, ← List.take_add, Nat.add_sub_cancel' hij]
  have hlength : (Bytes.slice i j text).length = j - i := by
    rw [Bytes.slice, List.length_take, List.length_drop]
    omega
  simp only [inBytes, hsplit, List.count_append]
  by_cases hfeed : 0x0a ∈ Bytes.slice i j text
  · have := List.count_pos_iff.mpr hfeed
    exact .inl (by omega)
  · refine .inr ⟨by rw [List.count_eq_zero_of_not_mem hfeed, Nat.add_zero], ?_⟩
    rw [Bytes.lastLine_append hfeed, List.length_append, hlength]

end Place
end Editor

/-! ### Places in a document -/

/-- The bytes of a document in front of a position. -/
def Position.front (p : Position) (text : Bytes) : Bytes := text.take p.offset.toNat

/-- The position is one of the document: its line and its column, both from one, are those of its
    offset. -/
def Position.StandsIn (p : Position) (text : Bytes) : Prop :=
  0 ≤ p.offset ∧ p.offset ≤ text.length
    ∧ p.line = (Editor.Place.inBytes (p.front text)).line + 1
    ∧ p.column = (Editor.Place.inBytes (p.front text)).column + 1

instance (p : Position) (text : Bytes) : Decidable (p.StandsIn text) :=
  inferInstanceAs (Decidable (_ ∧ _ ∧ _ ∧ _))

/-- Both ends of the stretch are positions of the document. -/
def Span.StandsIn (s : Span) (text : Bytes) : Prop := s.start.StandsIn text ∧ s.stop.StandsIn text

instance (s : Span) (text : Bytes) : Decidable (s.StandsIn text) :=
  inferInstanceAs (Decidable (_ ∧ _))

/-- The byte at an offset lies in the stretch. -/
def Span.Covers (s : Span) (k : Nat) : Bool := s.start.offset ≤ k && (k : Int) < s.stop.offset

/-- The range of something that is shown to an editor. -/
def Json.range? (j : Json) : Option Json := j.fields?.bind (List.lookup ("range" : Bytes))

namespace Editor

variable {span : Span} {text : Bytes}

theorem Place.isIn_inBytes (h : span.StandsIn text) {k : Nat} (hk : k ≤ text.length) :
    (Place.inBytes (text.take k)).isIn span = span.Covers k := by
  obtain ⟨⟨hi, hi', hline, hcolumn⟩, ⟨hj, hj', hline', hcolumn'⟩⟩ := h
  obtain ⟨i, hioffset⟩ := Int.eq_ofNat_of_zero_le hi
  obtain ⟨j, hjoffset⟩ := Int.eq_ofNat_of_zero_le hj
  rw [Position.front, hioffset, Int.toNat_natCast] at hline hcolumn
  rw [Position.front, hjoffset, Int.toNat_natCast] at hline' hcolumn'
  have hstart : i ≤ k ∨ k < i := le_or_gt i k
  have hstop : j ≤ k ∨ k < j := le_or_gt j k
  have horder {m n : Nat} (hmn : m ≤ n) (hn : n ≤ text.length) := Place.inBytes_order hmn hn
  rw [Bool.eq_iff_iff]
  simp only [isIn, Span.Covers, Bool.not_eq_true', Bool.or_eq_false_iff, Bool.and_eq_false_iff,
    decide_eq_false_iff_not, Bool.and_eq_true, decide_eq_true_eq]
  rcases hstart with hstart | hstart
  · have := horder hstart hk
    rcases hstop with hstop | hstop
    · have := horder hstop hk
      omega
    · have := horder hstop.le (by omega)
      omega
  · have := horder hstart.le (by omega)
    omega

theorem Place.isIn_inUnits (h : span.StandsIn text) {k : Nat} (hk : k ≤ text.length) :
    (Place.inUnits (text.take k)).isIn span = span.Covers (k - Place.lag (text.take k)) := by
  have hlength : (text.take k).length = k := List.length_take_of_le hk
  rw [Place.inUnits_eq, hlength, List.take_take, Nat.min_eq_left (Nat.sub_le _ _)]
  exact Place.isIn_inBytes h (by omega)

/-! ### Ranges -/

/-- A place as an editor reads it. -/
def Place.json (p : Place) : Json := .record [("line", word p.line), ("character", word p.column)]

/-- The range between two places. -/
def rangeBetween (p q : Place) : Json := .record [("start", p.json), ("end", q.json)]

/-- The range of a stretch, counted in bytes. -/
def bytesRange (s : Span) (text : Bytes) : Json :=
  rangeBetween (.inBytes (s.start.front text)) (.inBytes (s.stop.front text))

/-- The range of a stretch, counted in units. -/
def unitsRange (s : Span) (text : Bytes) : Json :=
  rangeBetween (.inUnits (s.start.front text)) (.inUnits (s.stop.front text))

theorem positionJson_eq {p : Position} (h : p.StandsIn text) :
    positionJson p = (Place.inBytes (p.front text)).json := by
  obtain ⟨-, -, hline, hcolumn⟩ := h
  rw [positionJson, if_neg (by omega), hline, hcolumn, Int.add_sub_cancel, Int.add_sub_cancel,
    Place.json]

theorem rangeJson_eq (h : span.StandsIn text) : rangeJson span = bytesRange span text := by
  have hline : span.stop.line ≠ 0 := by
    have := h.2.2.2.1
    omega
  rw [rangeJson, if_neg hline]
  simp only [positionJson_eq h.1, positionJson_eq h.2]
  rfl

theorem Place.json_inj {p q : Place} (hp : p.line < 2 ^ 32 ∧ p.column < 2 ^ 32)
    (hq : q.line < 2 ^ 32 ∧ q.column < 2 ^ 32) : p.json = q.json ↔ p = q := by
  constructor
  · intro h
    simp only [Place.json, Json.record, word, List.map_cons, List.map_nil, Json.object.injEq,
      List.cons.injEq, Prod.mk.injEq, Json.number.injEq] at h
    obtain ⟨line, column⟩ := p
    obtain ⟨line', column'⟩ := q
    rw [Place.mk.injEq]
    dsimp only at *
    omega
  · rintro rfl
    rfl

theorem Place.inBytes_lt {front : Bytes} (h : front.length < 2 ^ 32) :
    (Place.inBytes front).line < 2 ^ 32 ∧ (Place.inBytes front).column < 2 ^ 32 :=
  ⟨List.count_le_length.trans_lt h, (Bytes.length_lastLine_le front).trans_lt h⟩

theorem Place.inUnits_lt {front : Bytes} (h : front.length < 2 ^ 32) :
    (Place.inUnits front).line < 2 ^ 32 ∧ (Place.inUnits front).column < 2 ^ 32 :=
  ⟨List.count_le_length.trans_lt h, ((Utf16.length_units_le _).trans
    (Bytes.length_lastLine_le front)).trans_lt h⟩

theorem Place.inBytes_eq_inUnits_iff (front : Bytes) :
    Place.inBytes front = Place.inUnits front ↔ Place.lag front = 0 := by
  have hle := Utf16.length_units_le (Bytes.lastLine front)
  rw [Place.inBytes, Place.inUnits, Place.mk.injEq, Place.lag, and_iff_right rfl]
  omega

/-- The two ways of counting give the same range exactly when all bytes in front of its ends on their
    lines are ASCII. -/
theorem bytesRange_eq_iff (h : text.length < 2 ^ 32) :
    bytesRange span text = unitsRange span text
      ↔ (∀ b ∈ Bytes.lastLine (span.start.front text), b.toNat < 0x80)
        ∧ ∀ b ∈ Bytes.lastLine (span.stop.front text), b.toNat < 0x80 := by
  have hfront (p : Position) : (p.front text).length < 2 ^ 32 :=
    (List.length_take_le' _ _).trans_lt h
  have hend (p : Position) : (Place.inBytes (p.front text)).json = (Place.inUnits (p.front text)).json
      ↔ ∀ b ∈ Bytes.lastLine (p.front text), b.toNat < 0x80 := by
    rw [Place.json_inj (Place.inBytes_lt (hfront p)) (Place.inUnits_lt (hfront p)),
      Place.inBytes_eq_inUnits_iff, Place.lag_eq_zero_iff]
  rw [← hend, ← hend]
  simp [bytesRange, unitsRange, rangeBetween, Json.record]

/-! ### What the server gives to an editor -/

/-- The ranges that an editor reads from a publication. -/
def Publication.ranges (p : Publication) : List (Option Json) :=
  match p.params.fields?.bind (List.lookup ("diagnostics" : Bytes)) with
  | some (.array problems) => problems.map Json.range?
  | _ => []

theorem range?_problemJson (d : Diagnostic) : (problemJson d).range? = some (rangeJson d.span) := rfl

theorem Publication.ranges_eq (p : Publication) :
    p.ranges = p.problems.map fun d => some (rangeJson d.span) := by
  have hitems : p.params.fields?.bind (List.lookup ("diagnostics" : Bytes))
      = some (.array (p.problems.map problemJson)) := rfl
  rw [ranges, hitems]
  simp only [List.map_map]
  exact List.map_congr_left fun d _ => range?_problemJson d

namespace Server

variable {s : Server} {uri : Bytes} {scan : Scan}

theorem range?_hover {p : Place} {m : Marker} {c : Call} (hm : s.markerAt? uri p = some m)
    (hc : Call.parse (Source.at m.expr Position.origin) = .ok c) :
    (s.answer (.hover uri p)).1.result.range? = some (rangeJson m.span) := by
  have hresult : (s.answer (.hover uri p)).1.result = hoverJson m := by
    simp only [answer, hm, Option.map_some, Option.getD_some]
  rw [hresult, hoverJson, hc]
  rfl

theorem markerAt?_eq (hheld : s.documents.lookup uri = some scan) (p : Place) :
    s.markerAt? uri p = scan.markers.find? fun m => p.isIn m.span := by
  rw [markerAt?, hheld]
  rfl

/-- **The server counts bytes.** The ranges that are published are those of the problems, and the range
    that is shown where an editor asks about a marker is the one of the marker. Each end of such a range
    has the bytes in front of it on its line, where an editor counts UTF-16 units; both are the same
    exactly when these bytes are ASCII. A place that is counted in bytes is found in the marker that has
    its byte. A place as an editor counts it is found in the marker that has the byte in front of it by
    the lag, which is its own byte exactly when all bytes in front of it on its line are ASCII. Behind
    whole characters the units are those of the characters. -/
theorem ranges_count_bytes (hheld : s.documents.lookup uri = some scan)
    (hspans : ∀ m ∈ scan.markers, m.span.StandsIn text) :
    (∀ p : Publication, p.ranges = p.problems.map fun d => some (rangeJson d.span))
    ∧ (∀ p m c, s.markerAt? uri p = some m →
      Call.parse (Source.at m.expr Position.origin) = .ok c →
      (s.answer (.hover uri p)).1.result.range? = some (rangeJson m.span))
    ∧ (∀ span : Span, span.StandsIn text → rangeJson span = bytesRange span text
      ∧ (text.length < 2 ^ 32 → (rangeJson span = unitsRange span text
        ↔ (∀ b ∈ Bytes.lastLine (span.start.front text), b.toNat < 0x80)
          ∧ ∀ b ∈ Bytes.lastLine (span.stop.front text), b.toNat < 0x80)))
    ∧ ∀ k ≤ text.length,
      s.markerAt? uri (.inBytes (text.take k)) = scan.markers.find? (fun m => m.span.Covers k)
      ∧ s.markerAt? uri (.inUnits (text.take k))
        = scan.markers.find? (fun m => m.span.Covers (k - Place.lag (text.take k)))
      ∧ (Place.lag (text.take k) = 0 ↔ ∀ b ∈ Bytes.lastLine (text.take k), b.toNat < 0x80)
      ∧ ∀ cs, text.take k = Utf8.ofChars cs → Place.inUnits (text.take k) = .ofChars cs := by
  refine ⟨Publication.ranges_eq, fun p m c hm hc => range?_hover hm hc, ?_, ?_⟩
  · intro span hspan
    refine ⟨rangeJson_eq hspan, fun hsize => ?_⟩
    rw [rangeJson_eq hspan, bytesRange_eq_iff hsize]
  · intro k hk
    refine ⟨?_, ?_, Place.lag_eq_zero_iff _, ?_⟩
    · rw [markerAt?_eq hheld]
      exact List.find?_congr fun m hm => Place.isIn_inBytes (hspans m hm) hk
    · rw [markerAt?_eq hheld]
      exact List.find?_congr fun m hm => Place.isIn_inUnits (hspans m hm) hk
    · intro cs hcs
      rw [hcs, Place.inUnits_ofChars]

/-! ### A marker behind a letter with an accent -/

/-- A file whose only marker stands behind a letter that is two bytes and one unit. -/
def accented : Bytes :=
  "package p\n\nimport \"github.com/dhamidi/jnicall\"\n\nfunc f() \x7b\n"
    ++ "\t/* é */ jnicall.Call(e, \"o.m() -> void\")\n\x7d\n"

/-- The server once this file was opened. -/
def opened : Server := (started.answer (.opened "/a.go" accented)).2

/-- The server holds the file with its marker, which starts at offset 69. -/
theorem exists_accented :
    ∃ scan m c, opened.documents.lookup ("/a.go" : Bytes) = some scan ∧ scan.markers = [m]
      ∧ m.span.StandsIn accented ∧ m.span.start.offset = 69 ∧ m.span.Covers 69 = true
      ∧ m.span.Covers 68 = false ∧ Call.parse (Source.at m.expr Position.origin) = .ok c := by
  have hread : ((Scan.run {} "/a.go" accented).toOption.any fun scan => scan.markers.length = 1
      && scan.markers.all fun m => decide (m.span.StandsIn accented)
        && decide (m.span.start.offset = 69) && m.span.Covers 69 && !m.span.Covers 68
        && (Call.parse (Source.at m.expr Position.origin)).toOption.isSome) = true := by
    decide +kernel
  have hpath : Uri.toPath ("/a.go" : Bytes) = some ("/a.go" : Bytes) := by decide +kernel
  cases hscan : Scan.run {} "/a.go" accented with
  | error i =>
    rw [hscan] at hread
    cases hread
  | ok scan =>
    have hopened : opened = { started with documents := [("/a.go", scan)] } := by
      have hupdate := update_eq started_works hpath accented
      rw [hscan] at hupdate
      exact congrArg Prod.snd hupdate
    simp only [hscan, Except.toOption, Option.any_some, Bool.and_eq_true, decide_eq_true_eq] at hread
    obtain ⟨hone, hmarkers⟩ := hread
    obtain ⟨m, hm⟩ := List.length_eq_one_iff.mp hone
    simp only [hm, List.all_cons, List.all_nil, Bool.and_true, Bool.and_eq_true,
      decide_eq_true_eq, Bool.not_eq_true'] at hmarkers
    obtain ⟨⟨⟨⟨hstands, hoffset⟩, hcovers⟩, hbefore⟩, hparse⟩ := hmarkers
    cases hcall : Call.parse (Source.at m.expr Position.origin) with
    | error f => simp [hcall] at hparse
    | ok c =>
      refine ⟨scan, m, c, ?_, hm, hstands, hoffset, hcovers, hbefore, hcall⟩
      rw [hopened]
      exact List.lookup_cons_self

/-- Counted in bytes the marker is found, and shown with the bytes in front of it. -/
theorem ranges_count_bytes_accented :
    let place := Place.inBytes (accented.take 69)
    ∃ scan m, opened.documents.lookup ("/a.go" : Bytes) = some scan
      ∧ (∀ m ∈ scan.markers, m.span.StandsIn accented)
      ∧ opened.markerAt? "/a.go" place = some m
      ∧ (opened.answer (.hover "/a.go" place)).1.result.range? = some (bytesRange m.span accented)
      ∧ Place.lag (accented.take 69) ≠ 0 := by
  intro place
  obtain ⟨scan, m, c, hheld, hm, hstands, -, hcovers, -, hc⟩ := exists_accented
  have hspans : ∀ m ∈ scan.markers, m.span.StandsIn accented := by
    simpa [hm] using hstands
  obtain ⟨-, hhover, hranges, hplaces⟩ := ranges_count_bytes hheld hspans
  obtain ⟨hbytes, -, hlag, -⟩ := hplaces 69 (by decide +kernel)
  have hfound : opened.markerAt? "/a.go" place = some m := by
    rw [hbytes, hm, List.find?_cons, hcovers]
  refine ⟨scan, m, hheld, hspans, hfound, ?_, ?_⟩
  · rw [hhover place m c hfound hc, (hranges m.span hstands).1]
  rw [ne_eq, hlag]
  decide +kernel

/-- An editor that counts UTF-16 units does not find the marker at its first byte, and where it finds it
    the range that is shown is none in units. -/
theorem accented_marker_missed :
    Utf8.isValid accented = true ∧ accented.length < 2 ^ 32
      ∧ ∃ scan m p r, opened.documents.lookup ("/a.go" : Bytes) = some scan ∧ scan.markers = [m]
        ∧ m.span.StandsIn accented ∧ m.span.Covers 69 = true
        ∧ opened.markerAt? "/a.go" (.inUnits (accented.take 69)) = none
        ∧ (opened.answer (.hover "/a.go" (.inUnits (accented.take 69)))).1.result.range? = none
        ∧ (opened.answer (.hover "/a.go" p)).1.result.range? = some r
        ∧ r ≠ unitsRange m.span accented := by
  have hsize : accented.length < 2 ^ 32 := by decide +kernel
  obtain ⟨scan, m, c, hheld, hm, hstands, hoffset, hcovers, hbefore, hc⟩ := exists_accented
  have hmissed : opened.markerAt? "/a.go" (.inUnits (accented.take 69)) = none := by
    have hlag : 69 - Place.lag (accented.take 69) = 68 := by decide +kernel
    rw [markerAt?_eq hheld, hm, List.find?_cons_of_neg, List.find?_nil]
    rw [Place.isIn_inUnits hstands (by decide +kernel), hlag, hbefore]
    exact Bool.false_ne_true
  have hfound : opened.markerAt? "/a.go" (.inBytes (accented.take 69)) = some m := by
    rw [markerAt?_eq hheld, hm, List.find?_cons_of_pos]
    rw [Place.isIn_inBytes hstands (by decide +kernel), hcovers]
  refine ⟨by decide +kernel, hsize, scan, m, .inBytes (accented.take 69), rangeJson m.span, hheld,
    hm, hstands, hcovers, hmissed, ?_, range?_hover hfound hc, ?_⟩
  · simp only [answer, hmissed]
    rfl
  · rw [rangeJson_eq hstands, ne_eq, bytesRange_eq_iff hsize, not_and_or, Position.front, hoffset]
    refine .inl ?_
    decide +kernel

end Server
end Editor
end BridgeCall
