/-
  BridgeCall/Proofs/Expr/Renderings.lean
  ======================================
  **Renderings are read back.**  A class path is printed with slashes and dollar
  signs or with dots, a return specification with its angle brackets.

  With dots for the slashes an internal name is the path as a call writes it, so
  it gives the same path again.  The display form puts dots everywhere.  Read as
  a path it is one in which nothing is nested (`ClassPath.flat`), and printed
  with any one separator that path is the same text (`ClassPath.write_flat`).

  A return specification is read back with its class path flattened and all else
  as it was.  This needs that its first name is still no keyword, and that
  `Option` and `Result` are words of their own only where no dot follows.
-/
import BridgeCall.Plan.Shape
import BridgeCall.Proofs.Expr.Spans
import BridgeCall.Proofs.Expr.Spelling
import BridgeCall.Proofs.Machine.Signature

namespace BridgeCall

open Grammar Lexer

/-! ### Reading whole texts -/

/-- What a reader makes of a whole text, for a reader that is known by the tokens it takes. -/
theorem Reader.run_eq_ok_iff {α β : Type} {r : Reader α} {after : Whole} {f : α → β}
    {src : Source} {b : β} (Spelt : α → List Token → Prop)
    (hclean : ∀ a used, Spelt a used → Clean used)
    (hsound : ∀ a rest, r src.tokens = .ok (a, rest) →
      ∃ used, src.tokens = used ++ rest ∧ Spelt a used)
    (hcomplete : ∀ a used e, src.tokens = used ++ [e] → e.kind = .eof → Spelt a used →
      r (used ++ [e]) = .ok (a, [e])) :
    Reader.run (do let a ← r; expectEnd after; return f a) src = .ok b ↔
      ∃ a, Spelt a src.words ∧ f a = b := by
  rw [run_eq_ok]
  constructor
  · rintro ⟨rest, h⟩
    obtain ⟨a, rest₁, hr, h⟩ := bind_eq_ok.mp h
    obtain ⟨u, rest₂, hend, h⟩ := bind_eq_ok.mp h
    obtain ⟨heof, -⟩ := expectEnd_eq_ok.mp hend
    simp only [pure_run, Except.ok.injEq, Prod.mk.injEq] at h
    obtain ⟨used, hused, hspelt⟩ := hsound a rest₁ hr
    rw [Source.words_eq_of_clean hused (hclean a used hspelt) heof]
    exact ⟨a, hspelt, h.1⟩
  · rintro ⟨a, hspelt, rfl⟩
    obtain ⟨e, he, htokens⟩ := src.tokens_eq
    exact run_eq_ok.mp (run_of_read htokens he (hcomplete a _ e htokens he hspelt))

/-- A class path is read exactly when it is spelt by all words of the text. -/
theorem ClassPath.parse_eq_ok_iff {src : Source} {c : ClassPath} :
    ClassPath.parse src = .ok c ↔ IsPath src.words c := by
  rw [ClassPath.parse, Reader.run_eq_ok_iff Reader.Path.Spelt]
  · constructor
    · rintro ⟨p, hp, rfl⟩
      exact hp.isPath
    · exact Reader.exists_spelt_of_isPath
  · intro p used hp
    exact hp.isPath.clean
  · intro p rest h
    exact Reader.path_sound h
  · intro p used e _ he hp
    exact Reader.path_complete hp (by simp [he]) (by simp [he])

/-- A return specification is read exactly when it is spelt by all words of the text. -/
theorem ReturnSpec.parse_eq_ok_iff {src : Source} {r : ReturnSpec} :
    ReturnSpec.parse src = .ok r ↔ IsReturn src.words r := by
  have hiff : Reader.run (do let r ← Reader.returnSpec src; Reader.expectEnd .returnType; return r)
      src = .ok r ↔ ∃ r', IsReturn src.words r' ∧ r' = r := by
    refine Reader.run_eq_ok_iff (fun r used => IsReturn used r) (fun _ _ h => h.clean) ?_ ?_
    · intro r rest h
      exact Reader.returnSpec_sound (List.nil_append _).symm h
    · intro r used e htokens he h
      have hall : src.tokens = [] ++ (used ++ [e]) := htokens
      exact Reader.returnSpec_complete hall h (by simp [he])
  rw [ReturnSpec.parse, hiff]
  simp

/-! ### Class paths -/

/-- A mark in front of every element is as good as one behind it. -/
theorem append_flatMap_comm {α β : Type} (mark : List β) (f : α → List β) (as : List α) :
    mark ++ as.flatMap (fun a => f a ++ mark) = as.flatMap (fun a => mark ++ f a) ++ mark := by
  induction as with
  | nil => simp
  | cons a as ih => simp [ih]

namespace ClassPath

/-- The kinds and literals of the path, with a dollar sign before each nested class. -/
def symbols (c : ClassPath) : List (TokenKind × Bytes) :=
  c.packages.flatMap (fun w => [(.ident, w), (.dot, [0x2e])]) ++
    (.ident, c.outer) :: c.nested.flatMap fun w => [(.dollar, [0x24]), (.ident, w)]

/-- The path has a package, and its names are words. -/
structure Lexical (c : ClassPath) : Prop where
  packaged : c.packages ≠ []
  packages : ∀ w ∈ c.packages, IsWord w
  outer : IsWord c.outer
  nested : ∀ w ∈ c.nested, IsWord w

theorem Lexical.wellFormed {c : ClassPath} (h : c.Lexical) : c.WellFormed :=
  ⟨fun w hw => (h.packages w hw).name, h.outer.name, fun w hw => (h.nested w hw).name⟩

section Spelling

variable {bs : Bytes} {ws : List (TokenKind × Bytes)}

theorem spells_nested {names : List Bytes} (hnames : ∀ w ∈ names, IsWord w) (hbs : EndsWord bs)
    (h : Spells bs ws) : EndsWord (names.flatMap (("$" : Bytes) ++ ·) ++ bs) ∧
      Spells (names.flatMap (("$" : Bytes) ++ ·) ++ bs)
        (names.flatMap (fun w => [(TokenKind.dollar, [0x24]), (.ident, w)]) ++ ws) := by
  induction names with
  | nil => exact ⟨hbs, h⟩
  | cons w names ih =>
    have hw := hnames w (by simp)
    obtain ⟨hends, hspells⟩ := ih fun v hv => hnames v (by simp [hv])
    rw [List.flatMap_cons, List.flatMap_cons, List.append_assoc, List.append_assoc]
    refine ⟨endsWord_cons.mpr (by decide), ?_⟩
    exact (hspells.word hw hends).separator rfl (hw.name.endsSeparator _)

theorem spells_packages {names : List Bytes} (hnames : ∀ w ∈ names, IsWord w)
    (hbs : EndsSeparator bs) (h : Spells bs ws) :
    EndsSeparator (names.flatMap (· ++ ("." : Bytes)) ++ bs) ∧
      Spells (names.flatMap (· ++ ("." : Bytes)) ++ bs)
        (names.flatMap (fun w => [(TokenKind.ident, w), (.dot, [0x2e])]) ++ ws) := by
  induction names with
  | nil => exact ⟨hbs, h⟩
  | cons w names ih =>
    have hw := hnames w (by simp)
    obtain ⟨hends, hspells⟩ := ih fun v hv => hnames v (by simp [hv])
    rw [List.flatMap_cons, List.flatMap_cons, List.append_assoc, List.append_assoc,
      List.append_assoc]
    refine ⟨hw.name.endsSeparator _, ?_⟩
    exact (hspells.separator rfl hends).word hw (endsWord_cons.mpr (by decide))

/-- A path as a call writes it has the tokens of the path. -/
theorem Lexical.spells {c : ClassPath} (hc : c.Lexical) (hbs : EndsWord bs) (h : Spells bs ws) :
    EndsSeparator (c.write "." "$" ++ bs) ∧ Spells (c.write "." "$" ++ bs) (c.symbols ++ ws) := by
  obtain ⟨hends, hnested⟩ := spells_nested hc.nested hbs h
  have houter := hnested.word hc.outer hends
  have hall := spells_packages hc.packages (hc.outer.name.endsSeparator _) houter
  simpa only [ClassPath.write, symbols, List.append_assoc, List.cons_append] using hall

end Spelling

theorem isSegments_of_symbols {us : List Token} {kind : TokenKind} {mark : Bytes}
    {names : List Bytes}
    (h : us.map Token.symbol = names.flatMap fun w => [(kind, mark), (.ident, w)]) :
    ∃ ts, IsSegments kind us ts ∧ ts.map Token.literal = names := by
  induction names generalizing us with
  | nil =>
    rw [List.map_eq_nil_iff.mp h]
    exact ⟨[], .nil, rfl⟩
  | cons w names ih =>
    simp only [List.flatMap_cons, List.cons_append, List.nil_append, List.map_eq_cons_iff] at h
    obtain ⟨s, -, rfl, hs, t, us, rfl, ht, hus⟩ := h
    simp only [Token.symbol, Prod.mk.injEq] at hs ht
    obtain ⟨ts, hts, rfl⟩ := ih hus
    exact ⟨t :: ts, .cons hs.1 ht.1 hts, by rw [List.map_cons, ht.2]⟩

/-- Tokens that show the kinds and literals of a path spell it. -/
theorem isPath_of_symbols {c : ClassPath} (hc : c.packages ≠ []) {us : List Token}
    (h : us.map Token.symbol = c.symbols) : IsPath us { c with span := spanOf us } := by
  obtain ⟨p, ps, hps⟩ := List.exists_cons_of_ne_nil hc
  have hmarks : (TokenKind.dot, ([0x2e] : Bytes)) ::
      ps.flatMap (fun w => [(.ident, w), (.dot, [0x2e])]) ++
      [(TokenKind.ident, c.outer)] =
        (ps ++ [c.outer]).flatMap (fun w => [(TokenKind.dot, [0x2e]), (.ident, w)]) := by
    have hcomm := append_flatMap_comm [(TokenKind.dot, ([0x2e] : Bytes))]
      (fun w => [(TokenKind.ident, w)]) ps
    simp only [List.cons_append, List.nil_append] at hcomm
    rw [hcomm]
    simp
  have hsymbols : c.symbols = (.ident, p) ::
      ((ps ++ [c.outer]).flatMap (fun w => [(TokenKind.dot, [0x2e]), (.ident, w)]) ++
        c.nested.flatMap (fun w => [(TokenKind.dollar, [0x24]), (.ident, w)])) := by
    rw [← hmarks, symbols, hps]
    simp
  rw [hsymbols] at h
  simp only [List.map_eq_cons_iff, List.map_eq_append_iff] at h
  obtain ⟨first, -, rfl, hfirst, ds, ns, rfl, hds, hns⟩ := h
  simp only [Token.symbol, Prod.mk.injEq] at hfirst
  obtain ⟨dotted, hdotted, hdots⟩ := isSegments_of_symbols hds
  obtain ⟨nested, hnested, hnest⟩ := isSegments_of_symbols hns
  refine .mk hfirst.1 hdotted ?_ hnested ?_ hnest.symm rfl
  · rintro rfl
    simp at hdots
  · rw [List.map_cons, hfirst.2, hdots, hps, List.cons_append]

/-- A path that is written as calls write it is read back. -/
theorem Lexical.parse_write {c : ClassPath} (hc : c.Lexical) (start : Position) :
    ∃ span, ClassPath.parse (.at (c.write "." "$") start) = .ok { c with span } := by
  have hspells := (hc.spells endsWord_nil spells_nil).2
  rw [List.append_nil, List.append_nil] at hspells
  have hwords := Source.words_of_spells hspells start
  exact ⟨_, parse_eq_ok_iff.mpr (isPath_of_symbols hc.packaged hwords)⟩

/-! ### Paths without nesting -/

/-- The path with the same names of which none is nested in another. -/
def flat (c : ClassPath) : ClassPath :=
  { c with
    packages := c.packages ++ (c.outer :: c.nested).dropLast
    outer := c.nested.getLastD c.outer
    nested := [] }

theorem flat_cases (c : ClassPath) : c.flat = c ∨ ∃ names last, c.nested = names ++ [last] ∧
    c.flat = { c with packages := c.packages ++ c.outer :: names, outer := last, nested := [] } := by
  obtain ⟨packages, outer, nested, span⟩ := c
  rcases List.eq_nil_or_concat' nested with rfl | ⟨names, last, rfl⟩
  · exact .inl (by simp [flat])
  · refine .inr ⟨names, last, rfl, ?_⟩
    simp only [flat, ← List.cons_append, List.dropLast_concat, List.getLastD_concat]

theorem flat_of_nested {c : ClassPath} (h : c.nested = []) : c.flat = c := by
  rcases c.flat_cases with hflat | ⟨names, last, hnested, -⟩
  · exact hflat
  · simp [h] at hnested

/-- With one separator everywhere nobody sees what is nested. -/
theorem write_flat (c : ClassPath) (sep inner : Bytes) :
    c.flat.write sep inner = c.write sep sep := by
  obtain ⟨packages, outer, nested, span⟩ := c
  rcases List.eq_nil_or_concat' nested with rfl | ⟨names, last, rfl⟩
  · simp [flat, write]
  · have hcomm := append_flatMap_comm sep id names
    simp only [id_eq] at hcomm
    simp only [flat, write, ← List.cons_append, List.dropLast_concat, List.flatMap_append,
      List.flatMap_cons, List.getLastD_concat, List.flatMap_nil, List.append_nil,
      List.append_assoc]
    rw [← List.append_assoc sep, hcomm]
    simp

theorem display_flat (c : ClassPath) : c.flat.display = c.display := c.write_flat "." "."

theorem write_flat_display (c : ClassPath) : c.flat.write "." "$" = c.display :=
  c.write_flat "." "$"

theorem Lexical.flat {c : ClassPath} (h : c.Lexical) : c.flat.Lexical := by
  rcases c.flat_cases with hflat | ⟨names, last, hnested, hflat⟩
  · rw [hflat]
    exact h
  · have hmem := h.nested
    rw [hnested] at hmem
    rw [hflat]
    refine ⟨by simp, ?_, hmem last (by simp), by simp⟩
    intro w hw
    rcases List.mem_append.mp hw with hw | hw
    · exact h.packages w hw
    · rcases List.mem_cons.mp hw with rfl | hw
      · exact h.outer
      · exact hmem w (by simp [hw])

/-! ### Parsed paths -/

theorem lexical_of_isPath {ts : List Token} {c : ClassPath} (h : IsPath ts c)
    (hts : ∀ t ∈ ts, t.kind = .ident → IsWord t.literal) : c.Lexical := by
  obtain ⟨hpackages, houter, hnested⟩ := h.forall_names hts
  refine ⟨?_, hpackages, houter, hnested⟩
  obtain ⟨-, -, hne, -, hnames, -, -⟩ := h
  intro hnil
  rw [hnil] at hnames
  simp only [List.nil_append, List.map_cons, List.cons.injEq] at hnames
  exact hne (List.map_eq_nil_iff.mp hnames.2.symm)

theorem lexical_of_parse {src : Source} {c : ClassPath} (h : ClassPath.parse src = .ok c) :
    c.Lexical :=
  lexical_of_isPath (parse_eq_ok_iff.mp h) fun _ => Source.isWord_of_mem_words

/-- The internal name with dots for its slashes is the path as calls write it. -/
theorem Lexical.dotted_internalName {c : ClassPath} (h : c.Lexical) :
    Bytes.replaceByte 0x2f 0x2e c.internalName = c.write "." "$" := by
  rw [internalName, replaceByte_write h.wellFormed (by decide)]
  rfl

/-- **Class paths are read back.** With dots for its slashes the internal name of a parsed path
    gives the same path again, so paths with equal internal names are equal. The display form is
    the internal name as people write it, and it reads as a path with the same display form. -/
theorem renderings_read_back {src : Source} {c : ClassPath} (h : ClassPath.parse src = .ok c) :
    (∀ start, ∃ c', ClassPath.parse (.at (Bytes.replaceByte 0x2f 0x2e c.internalName) start) =
        .ok c' ∧ c'.packages = c.packages ∧ c'.outer = c.outer ∧ c'.nested = c.nested) ∧
      (∀ src' c', ClassPath.parse src' = .ok c' → c'.internalName = c.internalName →
        c'.packages = c.packages ∧ c'.outer = c.outer ∧ c'.nested = c.nested) ∧
      c.display = internalToSource c.internalName ∧
      ∀ start, ∃ d, ClassPath.parse (.at c.display start) = .ok d ∧ d.display = c.display := by
  have hc := lexical_of_parse h
  refine ⟨?_, ?_, (internalToSource_internalName hc.wellFormed).symm, ?_⟩
  · intro start
    obtain ⟨span, hparse⟩ := hc.parse_write start
    rw [hc.dotted_internalName]
    exact ⟨_, hparse, rfl, rfl, rfl⟩
  · intro src' c' h' hname
    have hc' := lexical_of_parse h'
    obtain ⟨span, hparse⟩ := hc.parse_write .origin
    obtain ⟨span', hparse'⟩ := hc'.parse_write .origin
    rw [← hc'.dotted_internalName, hname, hc.dotted_internalName, hparse] at hparse'
    simp only [Except.ok.injEq, ClassPath.mk.injEq] at hparse'
    obtain ⟨hpackages, houter, hnested, -⟩ := hparse'
    exact ⟨hpackages.symm, houter.symm, hnested.symm⟩
  · intro start
    obtain ⟨span, hparse⟩ := hc.flat.parse_write start
    rw [write_flat_display] at hparse
    exact ⟨_, hparse, c.display_flat⟩

/-- Trivia in the source are in no rendering, and the display form forgets the nesting. -/
theorem renderings_read_back_nested :
    ∃ c, ClassPath.parse (.at "a . b./**/C $D" .origin) = .ok c ∧
      c.internalName = ("a/b/C$D" : Bytes) ∧ c.display = ("a.b.C.D" : Bytes) ∧
      ∀ start, ∃ d, ClassPath.parse (.at c.display start) = .ok d ∧ d.display = c.display := by
  have hnames : (ClassPath.parse (.at "a . b./**/C $D" .origin)).map
      (fun c => (c.internalName, c.display)) = .ok ("a/b/C$D", "a.b.C.D") := by
    decide +kernel
  cases h : ClassPath.parse (.at "a . b./**/C $D" .origin) with
  | error e => simp [h, Except.map] at hnames
  | ok c =>
    rw [h, Except.map, Except.ok.injEq, Prod.mk.injEq] at hnames
    exact ⟨c, rfl, hnames.1, hnames.2, (renderings_read_back h).2.2.2⟩

end ClassPath

/-! ### Types -/

theorem Primitive.ofName?_name (p : Primitive) : Primitive.ofName? p.name = some p := by
  cases p <;> rfl

theorem HostPrimitive.ofName?_name (h : HostPrimitive) : HostPrimitive.ofName? h.name = some h := by
  cases h <;> rfl

theorem Primitive.name_of_ofName? {w : Bytes} {p : Primitive} (h : Primitive.ofName? w = some p) :
    p.name = w := by
  simpa using List.find?_some h

theorem HostPrimitive.name_of_ofName? {w : Bytes} {k : HostPrimitive}
    (h : HostPrimitive.ofName? w = some k) : k.name = w := by
  simpa using List.find?_some h

namespace ValueType

/-- The kinds and literals of the type as it is printed. -/
def symbols : ValueType → List (TokenKind × Bytes)
  | .java p _ => [(.ident, p.name)]
  | .host h _ => [(.ident, h.name)]
  | .object c => c.flat.symbols

/-- A Java keyword has no host reading, and a class path starts with no keyword at all. -/
def Lexical : ValueType → Prop
  | .java p _ => IsWord p.name ∧ HostPrimitive.ofName? p.name = none
  | .host h _ => IsWord h.name
  | .object c => c.Lexical ∧
    ∀ w ∈ c.packages.head?, HostPrimitive.ofName? w = none ∧ Primitive.ofName? w = none

/-- The type at another place, with no class nested. -/
def flatAt (span : Span) : ValueType → ValueType
  | .java p _ => .java p span
  | .host h _ => .host h span
  | .object c => .object { c.flat with span }

@[simp] theorem isVoid_flatAt (ty : ValueType) (span : Span) :
    (ty.flatAt span).isVoid = ty.isVoid := by
  cases ty with
  | java p _ => cases p <;> rfl
  | host | object => rfl

@[simp] theorem isObject_flatAt (ty : ValueType) (span : Span) :
    (ty.flatAt span).isObject = ty.isObject := by
  cases ty <;> rfl

@[simp] theorem keyword_flatAt (ty : ValueType) (span : Span) :
    (ty.flatAt span).keyword = ty.keyword := by
  cases ty with
  | java | host => rfl
  | object c => exact c.display_flat

theorem signature_flatAt {ty : ValueType} (h : ∀ c, ty = .object c → c.nested = [])
    (span : Span) : (ty.flatAt span).signature = ty.signature := by
  cases ty with
  | java | host => rfl
  | object c =>
    rw [flatAt, ClassPath.flat_of_nested (h c rfl)]
    rfl

theorem lexical_of_isType {ts : List Token} {ty : ValueType} (h : IsType ts ty)
    (hts : ∀ t ∈ ts, t.kind = .ident → IsWord t.literal) : ty.Lexical := by
  cases h with
  | @host t k hkind hhost =>
    have hword := hts t (by simp) hkind
    rw [← HostPrimitive.name_of_ofName? (mem_hostKeywords.mp hhost)] at hword
    exact hword
  | @java t p hkind hhost hjava =>
    have hword := hts t (by simp) hkind
    rw [← Primitive.name_of_ofName? (mem_javaKeywords.mp hjava)] at hword hhost
    exact ⟨hword, not_hostKeyword.mp hhost⟩
  | @object t ts c hhost hjava hpath =>
    have hc := ClassPath.lexical_of_isPath hpath hts
    refine ⟨hc, ?_⟩
    obtain ⟨p, ps, hps⟩ := List.exists_cons_of_ne_nil hc.packaged
    obtain ⟨-, -, -, -, hnames, -, -⟩ := hpath
    rw [hps, List.cons_append, List.map_cons, List.cons.injEq] at hnames
    rw [hps, hnames.1]
    rintro w ⟨⟩
    exact ⟨not_hostKeyword.mp hhost, not_javaKeyword.mp hjava⟩

section Spelling

variable {bs : Bytes} {ws : List (TokenKind × Bytes)}

theorem Lexical.spells {ty : ValueType} (hty : ty.Lexical) (hbs : EndsWord bs)
    (h : Spells bs ws) :
    EndsSeparator (ty.keyword ++ bs) ∧ Spells (ty.keyword ++ bs) (ty.symbols ++ ws) := by
  cases ty with
  | java p _ => exact ⟨hty.1.name.endsSeparator bs, h.word hty.1 hbs⟩
  | host k _ => exact ⟨IsName.endsSeparator (IsWord.name hty) bs, h.word hty hbs⟩
  | object c =>
    have hflat := hty.1.flat.spells hbs h
    rw [ClassPath.write_flat_display] at hflat
    exact hflat

end Spelling

/-- A path and its flat form start with the same name. -/
theorem head?_symbols_flat {c : ClassPath} {p : Bytes} {ps : List Bytes}
    (h : c.packages = p :: ps) : c.flat.symbols.head? = some (.ident, p) := by
  simp [ClassPath.symbols, ClassPath.flat, h]

/-- Tokens that show what is printed spell the type again. -/
theorem Lexical.isType {ty : ValueType} (hty : ty.Lexical) {us : List Token}
    (h : us.map Token.symbol = ty.symbols) : IsType us (ty.flatAt (spanOf us)) := by
  cases ty with
  | java p _ =>
    simp only [symbols, List.map_eq_cons_iff, List.map_eq_nil_iff, Token.symbol,
      Prod.mk.injEq] at h
    obtain ⟨t, -, rfl, ⟨hkind, hliteral⟩, rfl⟩ := h
    exact .java hkind (not_hostKeyword.mpr (by rw [hliteral, hty.2]))
      (mem_javaKeywords.mpr (by rw [hliteral, p.ofName?_name]))
  | host k _ =>
    simp only [symbols, List.map_eq_cons_iff, List.map_eq_nil_iff, Token.symbol,
      Prod.mk.injEq] at h
    obtain ⟨t, -, rfl, ⟨hkind, hliteral⟩, rfl⟩ := h
    exact .host hkind (mem_hostKeywords.mpr (by rw [hliteral, k.ofName?_name]))
  | object c =>
    obtain ⟨hc, hkeyword⟩ := hty
    have hpath := ClassPath.isPath_of_symbols hc.flat.packaged h
    obtain ⟨p, ps, hps⟩ := List.exists_cons_of_ne_nil hc.packaged
    have hhead := congrArg List.head? h
    rw [symbols, head?_symbols_flat hps, List.head?_map, Option.map_eq_some_iff] at hhead
    obtain ⟨t, ht, hsymbol⟩ := hhead
    obtain ⟨ts, rfl⟩ := List.head?_eq_some_iff.mp ht
    simp only [Token.symbol, Prod.mk.injEq] at hsymbol
    obtain ⟨hhost, hjava⟩ := hkeyword p (by rw [hps]; rfl)
    exact .object (not_hostKeyword.mpr (by rw [hsymbol.2, hhost]))
      (not_javaKeyword.mpr (by rw [hsymbol.2, hjava])) hpath

end ValueType

/-! ### Return specifications -/

theorem isWord_option : IsWord "Option" :=
  isWord_of_ascii (b := 0x4f) (w := [0x70, 0x74, 0x69, 0x6f, 0x6e]) (by decide) (by decide)
    (by decide) (by decide)

theorem isWord_result : IsWord "Result" :=
  isWord_of_ascii (b := 0x52) (w := [0x65, 0x73, 0x75, 0x6c, 0x74]) (by decide) (by decide)
    (by decide) (by decide)

theorem isWord_string : IsWord "String" :=
  isWord_of_ascii (b := 0x53) (w := [0x74, 0x72, 0x69, 0x6e, 0x67]) (by decide) (by decide)
    (by decide) (by decide)

/-- The three forms of a return specification. -/
inductive ReturnKind where
  | assertive
  | option
  | result
  deriving DecidableEq, Repr

namespace Success

def kind : Success → ReturnKind
  | .value _ => .assertive
  | .option _ _ => .option

/-- The kinds and literals of what is printed. -/
def symbols : Success → List (TokenKind × Bytes)
  | .value ty => ty.symbols
  | .option c _ =>
    (.ident, "Option") :: (.lt, [0x3c]) :: (c.flat.symbols ++ [(.gt, [0x3e])])

/-- The same at other places, with no class nested. -/
def flatAt (inner outer : Span) : Success → Success
  | .value ty => .value (ty.flatAt inner)
  | .option c _ => .option { c.flat with span := inner } outer

theorem payload_flatAt (ok : Success) (inner outer : Span) :
    (ok.flatAt inner outer).payload = ok.payload.flatAt inner := by
  cases ok <;> rfl

@[simp] theorem kind_flatAt (ok : Success) (inner outer : Span) :
    (ok.flatAt inner outer).kind = ok.kind := by
  cases ok <;> rfl

@[simp] theorem isNullable_flatAt (ok : Success) (inner outer : Span) :
    (ok.flatAt inner outer).isNullable = ok.isNullable := by
  cases ok <;> rfl

@[simp] theorem render_flatAt (ok : Success) (inner outer : Span) :
    (ok.flatAt inner outer).render = ok.render := by
  cases ok with
  | value ty => exact ty.keyword_flatAt inner
  | option c _ => exact congrArg (fun w => ("Option<" : Bytes) ++ w ++ ">") c.display_flat

theorem spells {ok : Success} (hok : ok.payload.Lexical) {bs : Bytes}
    {ws : List (TokenKind × Bytes)} (hbs : EndsWord bs) (hsep : EndsSeparator bs)
    (h : Spells bs ws) :
    EndsSeparator (ok.render ++ bs) ∧ Spells (ok.render ++ bs) (ok.symbols ++ ws) := by
  cases ok with
  | value ty => exact hok.spells hbs h
  | option c _ =>
    have hclose : Spells (0x3e :: bs) ((.gt, [0x3e]) :: ws) := h.separator rfl hsep
    obtain ⟨hends, hclass⟩ := hok.spells (endsWord_cons.mpr (by decide)) hclose
    have hall := (hclass.separator (b := 0x3c) rfl hends).word isWord_option
      (endsWord_cons.mpr (by decide))
    have hrender : (Success.option c ‹Span›).render ++ bs =
        "Option" ++ 0x3c :: (c.display ++ 0x3e :: bs) := by
      simp only [render, List.append_assoc]
      rfl
    rw [hrender]
    refine ⟨isWord_option.name.endsSeparator _, ?_⟩
    simpa only [symbols, payload, ValueType.keyword, ValueType.symbols, List.cons_append,
      List.append_assoc, List.nil_append] using hall

/-- Tokens that show what is printed spell it again. -/
theorem isSuccess_of_symbols {ok : Success} (hok : ok.payload.Lexical) {us : List Token}
    (h : us.map Token.symbol = ok.symbols) :
    ∃ inner outer, IsSuccess us (ok.flatAt inner outer) := by
  cases ok with
  | value ty => exact ⟨spanOf us, default, .value (hok.isType h)⟩
  | option c _ =>
    simp only [symbols, List.map_eq_cons_iff, List.map_eq_append_iff, List.map_eq_nil_iff] at h
    obtain ⟨w, -, rfl, hw, l, -, rfl, hl, ts, -, rfl, hts, g, -, rfl, hg, rfl⟩ := h
    simp only [Token.symbol, Prod.mk.injEq] at hw hl hg
    exact ⟨_, _, .option hw.1 hw.2 hl.1 (hok.isType hts) hg.1⟩

end Success

namespace ReturnSpec

def kind : ReturnSpec → ReturnKind
  | .plain ok => ok.kind
  | .result _ _ => .result

/-- The kinds and literals of what is printed. -/
def symbols : ReturnSpec → List (TokenKind × Bytes)
  | .plain ok => ok.symbols
  | .result ok _ => (.ident, "Result") :: (.lt, [0x3c]) ::
    (ok.symbols ++ [(.comma, [0x2c]), (.ident, "String"), (.gt, [0x3e])])

/-- The same at other places, with no class nested. -/
def flatAt (inner outer whole : Span) : ReturnSpec → ReturnSpec
  | .plain ok => .plain (ok.flatAt inner outer)
  | .result ok _ => .result (ok.flatAt inner outer) whole

theorem success_flatAt (r : ReturnSpec) (inner outer whole : Span) :
    (r.flatAt inner outer whole).success = r.success.flatAt inner outer := by
  cases r <;> rfl

theorem payload_flatAt (r : ReturnSpec) (inner outer whole : Span) :
    (r.flatAt inner outer whole).payload = r.payload.flatAt inner := by
  rw [payload, success_flatAt, Success.payload_flatAt]
  rfl

@[simp] theorem kind_flatAt (r : ReturnSpec) (inner outer whole : Span) :
    (r.flatAt inner outer whole).kind = r.kind := by
  cases r with
  | plain ok => exact ok.kind_flatAt inner outer
  | result => rfl

@[simp] theorem isNullable_flatAt (r : ReturnSpec) (inner outer whole : Span) :
    (r.flatAt inner outer whole).isNullable = r.isNullable := by
  rw [isNullable, success_flatAt, Success.isNullable_flatAt]
  rfl

@[simp] theorem isFallible_flatAt (r : ReturnSpec) (inner outer whole : Span) :
    (r.flatAt inner outer whole).isFallible = r.isFallible := by
  cases r <;> rfl

@[simp] theorem render_flatAt (r : ReturnSpec) (inner outer whole : Span) :
    (r.flatAt inner outer whole).render = r.render := by
  cases r with
  | plain ok => exact ok.render_flatAt inner outer
  | result ok _ => rw [flatAt, render, Success.render_flatAt, render]

theorem shape_flatAt (r : ReturnSpec) (inner outer whole : Span) :
    Shape.of (r.flatAt inner outer whole) = Shape.of r := by
  simp [Shape.of, payload_flatAt]

theorem lexical_of_parse {src : Source} {r : ReturnSpec} (h : ReturnSpec.parse src = .ok r) :
    r.payload.Lexical := by
  obtain ⟨us, hus, hok⟩ := (parse_eq_ok_iff.mp h).exists_success
  obtain ⟨ts, hts, hty⟩ := hok.exists_payload
  refine ValueType.lexical_of_isType hty fun t ht => ?_
  exact Source.isWord_of_mem_words (hus.subset (hts.subset ht))

theorem spells {r : ReturnSpec} (hr : r.payload.Lexical) : Spells r.render r.symbols := by
  cases r with
  | plain ok =>
    have hall := (Success.spells hr endsWord_nil endsSeparator_nil spells_nil).2
    rw [List.append_nil, List.append_nil] at hall
    exact hall
  | result ok span =>
    have hclose : Spells [0x3e] [(.gt, [0x3e])] := spells_nil.separator rfl endsSeparator_nil
    have herror : Spells (0x2c :: 0x20 :: (("String" : Bytes) ++ [0x3e]))
        [(.comma, [0x2c]), (.ident, "String"), (.gt, [0x3e])] :=
      (hclose.word isWord_string (endsWord_cons.mpr (by decide))).blank.separator rfl
        (endsSeparator_cons.mpr (by decide))
    obtain ⟨hends, hok⟩ := Success.spells hr (endsWord_cons.mpr (by decide))
      (endsSeparator_cons.mpr (by decide)) herror
    have hall := (hok.separator (b := 0x3c) rfl hends).word isWord_result
      (endsWord_cons.mpr (by decide))
    have hrender : (ReturnSpec.result ok span).render =
        ("Result" : Bytes) ++ 0x3c :: (ok.render ++ 0x2c :: 0x20 :: (("String" : Bytes) ++ [0x3e])) := by
      simp only [render, List.append_assoc]
      rfl
    rw [hrender]
    exact hall

/-- Tokens that show what is printed spell the specification again. -/
theorem isReturn_of_symbols {r : ReturnSpec} (hr : r.payload.Lexical) {us : List Token}
    (h : us.map Token.symbol = r.symbols) :
    ∃ inner outer whole, IsReturn us (r.flatAt inner outer whole) := by
  cases r with
  | plain ok =>
    obtain ⟨inner, outer, hok⟩ := Success.isSuccess_of_symbols hr h
    exact ⟨inner, outer, default, .plain hok⟩
  | result ok _ =>
    simp only [symbols, List.map_eq_cons_iff, List.map_eq_append_iff, List.map_eq_nil_iff] at h
    obtain ⟨w, -, rfl, hw, l, -, rfl, hl, ts, -, rfl, hts, comma, -, rfl, hcomma, s, -, rfl, hs, g,
      -, rfl, hg, rfl⟩ := h
    simp only [Token.symbol, Prod.mk.injEq] at hw hl hcomma hs hg
    obtain ⟨inner, outer, hok⟩ := Success.isSuccess_of_symbols hr hts
    exact ⟨inner, outer, _, .result hw.1 hw.2 hl.1 hok hcomma.1 hs.1 hs.2 hg.1⟩

/-- **What is printed is read back**, at other places and with no class nested. -/
theorem parse_render {r : ReturnSpec} (hr : r.payload.Lexical) (start : Position) :
    ∃ inner outer whole,
      ReturnSpec.parse (.at r.render start) = .ok (r.flatAt inner outer whole) := by
  obtain ⟨inner, outer, whole, hreturn⟩ :=
    isReturn_of_symbols hr (Source.words_of_spells (spells hr) start)
  exact ⟨inner, outer, whole, parse_eq_ok_iff.mpr hreturn⟩

/-- **Return specifications are read back.** The printed form of a parsed specification reads as one
    of the same form, for the same keyword or dotted class name, that is printed the same; it has
    the same payload for the machine when no class is nested. -/
theorem render_reads_back {src : Source} {r : ReturnSpec} (h : ReturnSpec.parse src = .ok r)
    (start : Position) :
    ∃ r', ReturnSpec.parse (.at r.render start) = .ok r' ∧
      r'.kind = r.kind ∧ r'.success.kind = r.success.kind ∧ r'.isNullable = r.isNullable ∧
      r'.isFallible = r.isFallible ∧ Shape.of r' = Shape.of r ∧
      r'.payload.isObject = r.payload.isObject ∧ r'.payload.keyword = r.payload.keyword ∧
      r'.render = r.render ∧
      ((∀ c, r.payload = .object c → c.nested = []) →
        r'.payload.signature = r.payload.signature) := by
  obtain ⟨inner, outer, whole, hparse⟩ := parse_render (lexical_of_parse h) start
  refine ⟨_, hparse, r.kind_flatAt .., ?_, r.isNullable_flatAt .., r.isFallible_flatAt ..,
    r.shape_flatAt .., ?_, ?_, r.render_flatAt .., ?_⟩
  · rw [success_flatAt, Success.kind_flatAt]
  · rw [payload_flatAt, ValueType.isObject_flatAt]
  · rw [payload_flatAt, ValueType.keyword_flatAt]
  · intro hnested
    rw [payload_flatAt, ValueType.signature_flatAt hnested]

/-- A class whose packages are named like the wrappers is read back as a class. -/
theorem render_reads_back_option :
    ∃ r r', ReturnSpec.parse (.at "Result<Option < Option.Result.C$D >,String>" .origin) = .ok r ∧
      r.render = ("Result<Option<Option.Result.C.D>, String>" : Bytes) ∧
      ReturnSpec.parse (.at r.render .origin) = .ok r' ∧ r'.render = r.render := by
  have hrender : (ReturnSpec.parse
        (.at "Result<Option < Option.Result.C$D >,String>" .origin)).map render =
      .ok "Result<Option<Option.Result.C.D>, String>" := by
    decide +kernel
  cases h : ReturnSpec.parse (.at "Result<Option < Option.Result.C$D >,String>" .origin) with
  | error e => simp [h, Except.map] at hrender
  | ok r =>
    rw [h, Except.map, Except.ok.injEq] at hrender
    obtain ⟨r', hparse, -, -, -, -, -, -, -, hsame, -⟩ := render_reads_back h .origin
    exact ⟨r, r', rfl, hrender, hparse, hsame⟩

end ReturnSpec
end BridgeCall
