/-
  BridgeCall/Proofs/Marker/Tagging.lean
  =====================================
  **What makes a file a source.**  Only the build lines in front of the package
  clause say whether a file is tagged; directives, markers and the name of the file
  have no say.  A twin starts with one build line, the negation of the tag, and a
  file with no other build line is not tagged (`Scan.untagged_of_headed`).
-/
import BridgeCall.Marker.Scan
import BridgeCall.Proofs.Expr.TokenStream
import Mathlib.Data.FinEnum
import Mathlib.Data.List.TakeWhile

namespace BridgeCall.Scan

/-! ### What looking through a file leaves alone -/

variable {α β γ : Type} {part : Scan → γ}

/-- Looking for something leaves a part of what was found alone. -/
def Preserves (part : Scan → γ) (m : ScanM α) : Prop := ∀ s, part (m.run s).2 = part s

theorem Preserves.bind {m : ScanM α} {k : α → ScanM β} (hm : Preserves part m)
    (hk : ∀ a, Preserves part (k a)) : Preserves part (m >>= k) := by
  intro s
  exact (hk (m.run s).1 (m.run s).2).trans (hm s)

theorem Preserves.forM {l : List α} {m : α → ScanM PUnit} (h : ∀ a, Preserves part (m a)) :
    Preserves part (l.forM m) := by
  induction l with
  | nil => exact fun s => rfl
  | cons a l ih => exact (h a).bind fun _ => ih

theorem preserves_pure (a : α) : Preserves part (pure a : ScanM α) := fun _ => rfl

theorem preserves_get : Preserves part (get : ScanM Scan) := fun _ => rfl

/-- What follows a `get` knows the state. -/
theorem preserves_get_bind {k : Scan → ScanM α} (h : ∀ s, part ((k s).run s).2 = part s) :
    Preserves part (get >>= k) := h

theorem preserves_modify {f : Scan → Scan} (h : ∀ s, part (f s) = part s) :
    Preserves part (modify f : ScanM PUnit) := h

/-- Directives that stand before no function have no say in a part of what is found. -/
structure Loose (part : Scan → γ) : Prop where
  problems : ∀ s span message,
    part { s with problems := s.problems ++ [{ span, kind := .directive, message }] } = part s
  packages : ∀ s d, part { s with packages := s.packages ++ [d] } = part s

/-- The directives of a file have no say in a part of what is found. -/
structure Undirected (part : Scan → γ) : Prop extends Loose part where
  exports : ∀ s d, part { s with exports := s.exports ++ [d] } = part s

/-- The calls of the marker function have no say in a part of what is found. -/
structure Unmarked (part : Scan → γ) : Prop where
  problems : ∀ s d, part { s with problems := s.problems ++ [d] } = part s
  markers : ∀ s m, part { s with markers := s.markers ++ [m] } = part s
  imported : ∀ s i, part { s with imported := some i } = part s

/-- The build lines of a file have no say in a part of what is found. -/
structure Unconstrained (part : Scan → γ) : Prop where
  constraints : ∀ s cs, part { s with constraints := cs } = part s
  tagged : ∀ s tagged, part { s with tagged } = part s

namespace Loose

theorem report (h : Loose part) (span : Span) (message : Bytes) :
    Preserves part (Scan.report span .directive message) :=
  preserves_modify fun s => h.problems s span message

theorem looseDirective (h : Loose part) (t : Host.Lines) (attached : List Host.Pos)
    (c : Host.Comment) : Preserves part (Scan.looseDirective t attached c) := by
  refine preserves_get.bind fun s => ?_
  split
  · split
    · exact h.report _ _
    · exact preserves_modify fun s => h.packages s _
  · split
    · exact h.report _ _
    · exact preserves_pure _

end Loose

namespace Undirected

theorem functionExports (h : Undirected part) (t : Host.Lines) (doc : Host.CommentGroup)
    (isMethod : Bool) (fn : Bytes) : Preserves part (Scan.functionExports t doc isMethod fn) := by
  refine Preserves.forM fun c => ?_
  split
  · exact preserves_pure _
  · refine preserves_get.bind fun s => ?_
    split
    · exact h.report _ _
    · split
      · exact h.report _ _
      · exact preserves_modify fun s => h.exports s _

theorem noteDirectives (h : Undirected part) (f : Host.File) :
    Preserves part (Scan.noteDirectives f) := by
  refine Preserves.bind ?_ fun _ => ?_
  · exact Preserves.forM fun _ => h.functionExports _ _ _ _
  · exact Preserves.forM fun _ => Preserves.forM fun _ => h.looseDirective _ _ _

end Undirected

namespace Unmarked

theorem noteMarker (h : Unmarked part) (t : Host.Lines) (use : Host.Use) (call : Host.Node)
    (args : List Host.Node) : Preserves part (Scan.noteMarker t use call args) := by
  refine preserves_get_bind fun s => ?_
  dsimp only
  split
  · split
    · exact h.problems s _
    · exact h.markers s _
  · exact h.problems s _
  · exact h.problems s _

theorem noteMarkers (h : Unmarked part) (marker : Bytes) (f : Host.File) :
    Preserves part (Scan.noteMarkers marker f) := by
  unfold Scan.noteMarkers
  split
  · exact preserves_pure _
  · split
    · exact preserves_pure _
    · refine Preserves.bind (preserves_modify fun s => h.imported s _) fun _ => ?_
      exact Preserves.forM fun _ => h.noteMarker _ _ _ _

end Unmarked

theorem Unconstrained.noteConstraints (h : Unconstrained part) (tag : Bytes) (f : Host.File) :
    Preserves part (Scan.noteConstraints tag f) := by
  refine Preserves.forM fun g => Preserves.forM fun c => ?_
  unfold noteConstraint
  dsimp only
  cases (Host.Constraint.buildText? c.text).bind Host.Constraint.parse with
  | none =>
    split
    · exact Preserves.bind (preserves_modify fun s => h.constraints s _) fun _ => preserves_pure _
    · exact preserves_pure _
  | some x =>
    have hexpr : Preserves part (modify fun s => { s with tagged := x.needs tag } : ScanM Unit) :=
      preserves_modify fun s => h.tagged s _
    split
    · exact Preserves.bind (preserves_modify fun s => h.constraints s _) fun _ => hexpr
    · exact hexpr

/-- The file, whether it is tagged, and its build lines. -/
def head (s : Scan) : Bytes × Bytes × Bool × List (Nat × Nat) :=
  (s.name, s.text, s.tagged, s.constraints)

theorem undirected_head : Undirected head where
  problems _ _ _ := rfl
  packages _ _ := rfl
  exports _ _ := rfl

theorem unmarked_head : Unmarked head := ⟨fun _ _ => rfl, fun _ _ => rfl, fun _ _ => rfl⟩

/-! ### Build lines -/

/-- The comments in front of the package clause. -/
def leadComments (f : Host.File) : List Host.Comment :=
  (f.comments.takeWhile fun g => g.pos < f.package).flatten

/-- Whether a file is tagged after one more comment. -/
def tagAfter (tag : Bytes) (tagged : Bool) (c : Host.Comment) : Bool :=
  match (Host.Constraint.buildText? c.text).bind Host.Constraint.parse with
  | some x => x.needs tag
  | none => tagged

/-- A comment with this text is a build line, in either form. -/
def isBuildLine (text : Bytes) : Bool :=
  (Host.Constraint.buildText? text).isSome || (Host.Constraint.plusText? text).isSome

/-- The stretches of the build lines among some comments. -/
def stretches (cs : List Host.Comment) : List (Nat × Nat) :=
  (cs.filter fun c => isBuildLine c.text).map fun c => (c.pos - 1, c.stop - 1)

theorem stretches_cons (c : Host.Comment) (cs : List Host.Comment) :
    stretches (c :: cs) = stretches [c] ++ stretches cs := by
  rw [stretches, stretches, stretches, ← List.map_append, ← List.filter_append, List.singleton_append]

/-- What is known of a file after some more comments in front of the package clause. -/
def headAfter (tag : Bytes) (s : Scan) (cs : List Host.Comment) :
    Bytes × Bytes × Bool × List (Nat × Nat) :=
  (s.name, s.text, cs.foldl (tagAfter tag) s.tagged, s.constraints ++ stretches cs)

theorem head_noteConstraint (tag : Bytes) (c : Host.Comment) (s : Scan) :
    head ((noteConstraint tag c).run s).2 = headAfter tag s [c] := by
  have hstretches : stretches [c] = if isBuildLine c.text then [(c.pos - 1, c.stop - 1)] else [] := by
    rw [stretches, List.filter_singleton]
    cases isBuildLine c.text <;> rfl
  rw [headAfter, hstretches, isBuildLine, List.foldl_cons, List.foldl_nil, tagAfter]
  unfold noteConstraint
  dsimp only
  split
  · cases (Host.Constraint.buildText? c.text).bind Host.Constraint.parse <;> rfl
  · rw [List.append_nil]
    cases (Host.Constraint.buildText? c.text).bind Host.Constraint.parse <;> rfl

/-- By induction on the comments: what is known after the first ones decides what is known after all. -/
theorem head_forM_noteConstraint (tag : Bytes) (cs : List Host.Comment) (s : Scan) :
    head ((cs.forM (noteConstraint tag)).run s).2 = headAfter tag s cs := by
  induction cs generalizing s with
  | nil =>
    have hsame : s.constraints = s.constraints ++ [] := (List.append_nil _).symm
    exact congrArg (fun cuts => (s.name, s.text, s.tagged, cuts)) hsame
  | cons c cs ih =>
    have hc := head_noteConstraint tag c s
    simp only [head, headAfter, Prod.mk.injEq] at hc
    obtain ⟨hname, htext, htagged, hconstraints⟩ := hc
    have hcs := ih ((noteConstraint tag c).run s).2
    rw [headAfter, hname, htext, htagged, hconstraints, List.append_assoc, ← stretches_cons] at hcs
    exact hcs

theorem forM_flatten {m : α → ScanM PUnit} (groups : List (List α)) :
    (groups.forM fun g => g.forM m) = groups.flatten.forM m := by
  induction groups with
  | nil => rfl
  | cons g groups ih => exact (congrArg (g.forM m >>= fun _ => ·) ih).trans List.forM_append.symm

theorem head_noteConstraints (tag : Bytes) (f : Host.File) (s : Scan) :
    head ((noteConstraints tag f).run s).2 = headAfter tag s (leadComments f) := by
  rw [noteConstraints, forM_flatten]
  exact head_forM_noteConstraint tag _ s

/-- A file can be scanned when it can be read, and its build lines say whether it is tagged. -/
theorem run_eq_ok {settings : Settings} {name text : Bytes} {s : Scan}
    (h : run settings name text = .ok s) :
    ∃ f, Host.File.parse text = .ok f
      ∧ s.name = name ∧ s.text = text
      ∧ s.tagged = (leadComments f).foldl (tagAfter settings.buildTag) false
      ∧ s.constraints = stretches (leadComments f) := by
  unfold run at h
  cases hparse : Host.File.parse text with
  | error i =>
    rw [hparse] at h
    cases h
  | ok f =>
    rw [hparse] at h
    cases h
    refine ⟨f, rfl, ?_⟩
    have hlead := head_noteConstraints settings.buildTag f { name, text }
    have hrest : ∀ s, head ((do
        noteDirectives f
        noteMarkers settings.marker f : ScanM Unit).run s).2 = head s :=
      (undirected_head.noteDirectives f).bind fun _ => unmarked_head.noteMarkers settings.marker f
    have hall := (hrest _).trans hlead
    simp only [head, headAfter, Prod.mk.injEq, List.nil_append] at hall
    exact hall

theorem run_ok_of_parse (settings : Settings) (name : Bytes) {text : Bytes} {f : Host.File}
    (h : Host.File.parse text = .ok f) : ∃ s, run settings name text = .ok s := by
  unfold run
  rw [h]
  exact ⟨_, rfl⟩

/-! ### The build line of a twin -/

theorem runes_cons_of_ascii {b : UInt8} (bs : Bytes) (hb : b < 0x80) :
    Utf8.runes (b :: bs) = (b.toNat, [b]) :: Utf8.runes bs := by
  rw [Utf8.runes, Lexer.decode_of_ascii bs hb]
  simp

theorem runes_of_ascii {bs : Bytes} (h : ∀ b ∈ bs, b < 0x80) :
    Utf8.runes bs = bs.map fun b => (b.toNat, [b]) := by
  induction bs with
  | nil => simp [Utf8.runes]
  | cons b bs ih =>
    rw [runes_cons_of_ascii bs (h b List.mem_cons_self),
      ih fun x hx => h x (List.mem_cons_of_mem _ hx), List.map_cons]

theorem isTag_byte {b : UInt8} (h : (Pattern.isWordByte b || b = 0x2e) = true) :
    b < 0x80 ∧ Host.Constraint.isTagChar b.toNat = true
      ∧ b ≠ 0x20 ∧ b ≠ 0x09 ∧ b ≠ 0x28 ∧ b ≠ 0x29 ∧ b ≠ 0x21 ∧ b ≠ 0x26 ∧ b ≠ 0x7c := by
  revert b
  decide +kernel

theorem forall_mem_tag {tag : Bytes} (h : Pattern.isTag tag = true) :
    tag ≠ [] ∧ ∀ b ∈ tag, (Pattern.isWordByte b || b = 0x2e) = true := by
  cases tag with
  | nil => cases h
  | cons b bs => exact ⟨nofun, by simpa [Pattern.isTag, Pattern.isWord] using h⟩

/-- A negated tag reads as what it says. -/
theorem parse_negated {tag : Bytes} (h : Pattern.isTag tag = true) :
    Host.Constraint.parse ("!" ++ tag) = some (.not (.tag tag)) := by
  obtain ⟨hne, hall⟩ := forall_mem_tag h
  obtain ⟨b, bs, rfl⟩ := List.exists_cons_of_ne_nil hne
  have hlead : Host.Constraint.tagLead (b :: bs) = b :: bs := by
    rw [Host.Constraint.tagLead, runes_of_ascii fun x hx => (isTag_byte (hall x hx)).1,
      List.takeWhile_eq_self_iff.mpr]
    · rw [List.flatMap_map]
      exact List.flatMap_singleton' _
    · intro r hr
      obtain ⟨x, hx, rfl⟩ := List.mem_map.mp hr
      exact (isTag_byte (hall x hx)).2.1
  obtain ⟨-, -, h1, h2, h3, h4, h5, h6, h7⟩ := isTag_byte (hall b List.mem_cons_self)
  have htag : ∀ fuel, Host.Constraint.words (fuel + 2) (b :: bs) = some [.tag (b :: bs)] := by
    intro fuel
    rw [Host.Constraint.words]
    simp [h1, h2, h3, h4, h5, h6, h7, hlead, Host.Constraint.words]
  have hwords : Host.Constraint.words (("!" ++ b :: bs : Bytes).length + 1) ("!" ++ b :: bs)
      = some [.sign [0x21], .tag (b :: bs)] := by
    have hmark : ("!" ++ b :: bs : Bytes) = 0x21 :: b :: bs := rfl
    rw [hmark, List.length_cons, List.length_cons, Host.Constraint.words, if_neg (by decide),
      if_pos (by decide), htag]
    rfl
  rw [Host.Constraint.parse, hwords]
  rfl

/-- A text that can be read and whose only build line is the one a twin starts with. -/
def Headed (settings : Settings) (text : Bytes) : Prop :=
  ∃ f, Host.File.parse text = .ok f ∧ ∀ c ∈ leadComments f, ∀ line,
    Host.Constraint.buildText? c.text = some line → line = "!" ++ settings.buildTag

/-- Such a text is no source, under any name. -/
theorem untagged_of_headed {settings : Settings} {text : Bytes}
    (htag : Pattern.isTag settings.buildTag = true) (h : Headed settings text) (name : Bytes) :
    ∃ s, run settings name text = .ok s ∧ s.tagged = false := by
  obtain ⟨f, hparse, hlines⟩ := h
  obtain ⟨s, hrun⟩ := run_ok_of_parse settings name hparse
  obtain ⟨f', hparse', -, -, htagged, -⟩ := run_eq_ok hrun
  obtain rfl : f = f' := by simpa [hparse] using hparse'
  refine ⟨s, hrun, htagged.trans ?_⟩
  generalize leadComments f = cs at hlines
  induction cs with
  | nil => rfl
  | cons c cs ih =>
    have hc : tagAfter settings.buildTag false c = false := by
      rw [tagAfter]
      cases hline : Host.Constraint.buildText? c.text with
      | none => rfl
      | some line =>
        obtain rfl := hlines c List.mem_cons_self line hline
        simp [parse_negated htag, Host.Constraint.needs, Host.Constraint.eval,
          Host.Constraint.mentions]
    rw [List.foldl_cons, hc]
    exact ih fun c hc => hlines c (List.mem_cons_of_mem _ hc)

end BridgeCall.Scan
