/-
  BridgeCall/Proofs/Expr/Sentence.lean
  ====================================
  **The grammar of call expressions as relations on token lists.**

      Call    = Target "(" [ Param { "," Param } [ "," ] ] ")" "->" Return
      Target  = "static" Path "::" name | "static" Path "." name
              | name "." name | "(" Body ")" "." name | "{" Body "}" "." name
      Path    = name "." name { "." name } { "$" name }
      Type    = keyword | Path
      Param   = Type "(" Body ")" | "[" Type "]" "(" Body ")"
              | "[" Type "]" "(" "[" [ Item { "," Item } [ "," ] ] "]" ")"
      Return  = Success | "Result" "<" Success "," "String" ">"
      Success = Type | "Option" "<" Path ">"

  Each relation holds between a list of tokens and the node that the list
  denotes.  The conditions look at the kinds and literals of tokens only; spans
  and source texts enter the denoted nodes alone, by two rules: the span of a
  node is the span of its tokens, and an embedded expression is the source text
  from its first token to its last.  `IsCall.alike` says that kinds and literals
  decide whether a list is a sentence.
-/
import BridgeCall.Expr.Parse

namespace BridgeCall

/-- What the grammar sees of a token. -/
def Token.symbol (t : Token) : TokenKind × Bytes := (t.kind, t.literal)

namespace Grammar

/-! ### Places and texts of token lists -/

/-- From the start of the first token to the end of the last. -/
def spanOf (ts : List Token) : Span :=
  ⟨(ts.headD default).span.start, (ts.getLastD default).span.stop⟩

/-- The source text from the first token to the last. -/
def written (src : Source) (ts : List Token) : Bytes := src.cut (spanOf ts).start (spanOf ts).stop

/-! ### Embedded expressions -/

/-- Tokens in which every opener has its own closer, with no token that is an error. -/
inductive Balanced : List Token → Prop
  | nil : Balanced []
  | plain {t : Token} {ts : List Token} (hopen : t.kind.closer? = none)
      (hclose : t.kind.isCloser = false) (herror : t.kind ≠ .error) (heof : t.kind ≠ .eof)
      (rest : Balanced ts) : Balanced (t :: ts)
  | group {o c : Token} {inner ts : List Token} (hmatch : o.kind.closer? = some c.kind)
      (body : Balanced inner) (rest : Balanced ts) : Balanced (o :: (inner ++ c :: ts))

/-- Balanced tokens with no comma outside all delimiters. -/
inductive IsItem : List Token → Prop
  | nil : IsItem []
  | plain {t : Token} {ts : List Token} (hcomma : t.kind ≠ .comma) (hopen : t.kind.closer? = none)
      (hclose : t.kind.isCloser = false) (herror : t.kind ≠ .error) (heof : t.kind ≠ .eof)
      (rest : IsItem ts) : IsItem (t :: ts)
  | group {o c : Token} {inner ts : List Token} (hmatch : o.kind.closer? = some c.kind)
      (body : Balanced inner) (rest : IsItem ts) : IsItem (o :: (inner ++ c :: ts))

/-- Items that are not empty, with commas between them and possibly one behind the last. -/
inductive IsItems : List Token → List (List Token) → Prop
  | nil : IsItems [] []
  | last {item : List Token} (hitem : IsItem item) (hne : item ≠ []) : IsItems item [item]
  | more {item ts : List Token} {comma : Token} {items : List (List Token)} (hitem : IsItem item)
      (hne : item ≠ []) (hcomma : comma.kind = .comma) (rest : IsItems ts items) :
      IsItems (item ++ comma :: ts) (item :: items)

/-- Exactly one bracketed list: an opening bracket whose closer is the last token. -/
def IsList (ts : List Token) : Prop :=
  ∃ (o : Token) (inner : List Token) (c : Token), ts = o :: (inner ++ [c]) ∧
    o.kind = .lbracket ∧ Balanced inner ∧ c.kind = .rbracket

/-! ### Class paths and types -/

/-- Names, each behind a separator of the given kind. -/
inductive IsSegments (sep : TokenKind) : List Token → List Token → Prop
  | nil : IsSegments sep [] []
  | cons {s t : Token} {ts names : List Token} (hsep : s.kind = sep) (hname : t.kind = .ident)
      (rest : IsSegments sep ts names) : IsSegments sep (s :: t :: ts) (t :: names)

/-- At least two dotted names, of which the last is the class, and then nested classes. -/
inductive IsPath : List Token → ClassPath → Prop
  | mk {first : Token} {ds ns dotted nested : List Token} {c : ClassPath}
      (hfirst : first.kind = .ident) (hdotted : IsSegments .dot ds dotted) (hne : dotted ≠ [])
      (hnested : IsSegments .dollar ns nested)
      (houter : c.packages ++ [c.outer] = (first :: dotted).map Token.literal)
      (hinner : c.nested = nested.map Token.literal)
      (hspan : c.span = spanOf (first :: (ds ++ ns))) : IsPath (first :: (ds ++ ns)) c

/-- The keywords of the host. -/
def hostKeywords : List (Bytes × HostPrimitive) :=
  [("bool", .bool), ("char", .char), ("u8", .u8), ("i8", .i8), ("u16", .u16), ("i16", .i16),
    ("u32", .u32), ("i32", .i32), ("u64", .u64), ("i64", .i64), ("f32", .f32), ("f64", .f64)]

/-- The keywords of Java. The host has `char`, too. -/
def javaKeywords : List (Bytes × Primitive) :=
  [("void", .void), ("byte", .byte), ("boolean", .boolean), ("char", .char), ("short", .short),
    ("int", .int), ("long", .long), ("float", .float), ("double", .double)]

/-- A keyword, which takes its host reading first, or a path that starts with no keyword. -/
inductive IsType : List Token → ValueType → Prop
  | host {t : Token} {h : HostPrimitive} (hkind : t.kind = .ident)
      (hhost : (t.literal, h) ∈ hostKeywords) : IsType [t] (.host h t.span)
  | java {t : Token} {p : Primitive} (hkind : t.kind = .ident)
      (hhost : ∀ h, (t.literal, h) ∉ hostKeywords)
      (hjava : (t.literal, p) ∈ javaKeywords) : IsType [t] (.java p t.span)
  | object {t : Token} {ts : List Token} {c : ClassPath}
      (hhost : ∀ h, (t.literal, h) ∉ hostKeywords)
      (hjava : ∀ p, (t.literal, p) ∉ javaKeywords) (hpath : IsPath (t :: ts) c) :
      IsType (t :: ts) (.object c)

/-- The word `char` is a type of the host. -/
theorem isType_char {t : Token} (hkind : t.kind = .ident) (hchar : t.literal = ("char" : Bytes)) :
    IsType [t] (.host .char t.span) :=
  .host hkind (by rw [hchar]; decide)

theorem mem_hostKeywords {w : Bytes} {h : HostPrimitive} :
    (w, h) ∈ hostKeywords ↔ HostPrimitive.ofName? w = some h := by
  constructor
  · have hall : ∀ e ∈ hostKeywords, HostPrimitive.ofName? e.1 = some e.2 := by decide
    exact hall (w, h)
  · intro hname
    obtain rfl : h.name = w := by simpa using List.find?_some hname
    cases h <;> decide

theorem mem_javaKeywords {w : Bytes} {p : Primitive} :
    (w, p) ∈ javaKeywords ↔ Primitive.ofName? w = some p := by
  constructor
  · have hall : ∀ e ∈ javaKeywords, Primitive.ofName? e.1 = some e.2 := by decide
    exact hall (w, p)
  · intro hname
    obtain rfl : p.name = w := by simpa using List.find?_some hname
    cases p <;> decide

theorem not_hostKeyword {w : Bytes} :
    (∀ h, (w, h) ∉ hostKeywords) ↔ HostPrimitive.ofName? w = none := by
  simp only [mem_hostKeywords, Option.eq_none_iff_forall_ne_some, ne_eq]

theorem not_javaKeyword {w : Bytes} :
    (∀ p, (w, p) ∉ javaKeywords) ↔ Primitive.ofName? w = none := by
  simp only [mem_javaKeywords, Option.eq_none_iff_forall_ne_some, ne_eq]

/-! ### Targets, parameters, returns -/

/-- What a method is called on, with the separator and the method's name behind it. -/
inductive IsTarget (src : Source) : List Token → Target → Token → Prop
  | static {st sep m : Token} {ps : List Token} {c : ClassPath} (hstatic : st.kind = .static)
      (hpath : IsPath ps c) (hsep : sep.kind = .colonColon ∨ sep.kind = .dot)
      (hname : m.kind = .ident) :
      IsTarget src (st :: (ps ++ [sep, m])) (.static c (spanOf (st :: ps))) m
  | name {t dot m : Token} (hkind : t.kind = .ident) (hdot : dot.kind = .dot)
      (hname : m.kind = .ident) : IsTarget src [t, dot, m] (.object t.literal t.span) m
  | group {o c dot m : Token} {body : List Token}
      (hopen : o.kind = .lparen ∨ o.kind = .lbrace) (hmatch : o.kind.closer? = some c.kind)
      (hbody : Balanced body) (hne : body ≠ []) (hdot : dot.kind = .dot)
      (hname : m.kind = .ident) :
      IsTarget src (o :: (body ++ [c, dot, m]))
        (.object (written src body) (spanOf (o :: (body ++ [c])))) m

/-- One parameter. A bracketed value of an array is a literal and must have proper items. -/
inductive IsParameter (src : Source) : List Token → Parameter → Prop
  | single {o c : Token} {ts body : List Token} {ty : ValueType} (hty : IsType ts ty)
      (hvoid : ty.isVoid = false) (ho : o.kind = .lparen) (hbody : Balanced body)
      (hne : body ≠ []) (hc : c.kind = .rparen) :
      IsParameter src (ts ++ o :: (body ++ [c]))
        ⟨ty, .single (written src body), spanOf (ts ++ o :: (body ++ [c]))⟩
  | array {l r o c : Token} {ts body : List Token} {ty : ValueType} (hl : l.kind = .lbracket)
      (hty : IsType ts ty) (hvoid : ty.isVoid = false) (hr : r.kind = .rbracket)
      (ho : o.kind = .lparen) (hbody : Balanced body) (hne : body ≠ []) (hlist : ¬ IsList body)
      (hc : c.kind = .rparen) :
      IsParameter src (l :: (ts ++ r :: o :: (body ++ [c])))
        ⟨ty, .array (written src body), spanOf (l :: (ts ++ r :: o :: (body ++ [c])))⟩
  | literal {l r o lb rb c : Token} {ts inner : List Token} {items : List (List Token)}
      {ty : ValueType} (hl : l.kind = .lbracket) (hty : IsType ts ty) (hvoid : ty.isVoid = false)
      (hr : r.kind = .rbracket) (ho : o.kind = .lparen) (hlb : lb.kind = .lbracket)
      (hitems : IsItems inner items) (hrb : rb.kind = .rbracket) (hc : c.kind = .rparen) :
      IsParameter src (l :: (ts ++ r :: o :: lb :: (inner ++ [rb, c])))
        ⟨ty, .literal (items.map (written src)),
          spanOf (l :: (ts ++ r :: o :: lb :: (inner ++ [rb, c])))⟩

/-- Parameters with commas between them and possibly one behind the last. -/
inductive IsParameters (src : Source) : List Token → List Parameter → Prop
  | nil : IsParameters src [] []
  | last {ts : List Token} {p : Parameter} (hp : IsParameter src ts p) : IsParameters src ts [p]
  | more {ts us : List Token} {comma : Token} {p : Parameter} {ps : List Parameter}
      (hp : IsParameter src ts p) (hcomma : comma.kind = .comma) (rest : IsParameters src us ps) :
      IsParameters src (ts ++ comma :: us) (p :: ps)

/-- What a call that succeeds gives back. -/
inductive IsSuccess : List Token → Success → Prop
  | value {ts : List Token} {ty : ValueType} (hty : IsType ts ty) : IsSuccess ts (.value ty)
  | option {w l g : Token} {ts : List Token} {c : ClassPath} (hkind : w.kind = .ident)
      (hword : w.literal = ("Option" : Bytes)) (hl : l.kind = .lt) (hty : IsType ts (.object c))
      (hg : g.kind = .gt) :
      IsSuccess (w :: l :: (ts ++ [g])) (.option c (spanOf (w :: l :: (ts ++ [g]))))

/-- What a call gives back. The only error type is `String`. -/
inductive IsReturn : List Token → ReturnSpec → Prop
  | plain {ts : List Token} {ok : Success} (hok : IsSuccess ts ok) : IsReturn ts (.plain ok)
  | result {w l comma s g : Token} {ts : List Token} {ok : Success} (hkind : w.kind = .ident)
      (hword : w.literal = ("Result" : Bytes)) (hl : l.kind = .lt) (hok : IsSuccess ts ok)
      (hcomma : comma.kind = .comma) (hskind : s.kind = .ident)
      (hsword : s.literal = ("String" : Bytes)) (hg : g.kind = .gt) :
      IsReturn (w :: l :: (ts ++ [comma, s, g]))
        (.result ok (spanOf (w :: l :: (ts ++ [comma, s, g]))))

/-- A call expression. -/
inductive IsCall (src : Source) : List Token → Call → Prop
  | mk {o c arrow m : Token} {ts ps rs : List Token} {target : Target} {params : List Parameter}
      {ret : ReturnSpec} (htarget : IsTarget src ts target m) (ho : o.kind = .lparen)
      (hparams : IsParameters src ps params) (hc : c.kind = .rparen) (harrow : arrow.kind = .arrow)
      (hret : IsReturn rs ret) :
      IsCall src (ts ++ o :: (ps ++ c :: arrow :: rs))
        { target, method := m.literal, methodSpan := m.span, params, ret
          span := spanOf (ts ++ o :: (ps ++ c :: arrow :: rs)) }

/-- A list of kinds and literals is a sentence when tokens that show them, wherever these stand,
    spell a call. -/
def IsSentence (ws : List (TokenKind × Bytes)) : Prop :=
  ∃ src ts c, ts.map Token.symbol = ws ∧ IsCall src ts c

/-! ### Spans -/

theorem getLastD_append (as bs : List Token) (d : Token) :
    (as ++ bs).getLastD d = bs.getLastD (as.getLastD d) := by
  induction as generalizing d with
  | nil => rfl
  | cons a as ih => rw [List.cons_append, List.getLastD_cons, List.getLastD_cons, ih]

theorem getLastD_of_ne_nil {ts : List Token} (hne : ts ≠ []) (d e : Token) :
    ts.getLastD d = ts.getLastD e := by
  cases ts with
  | nil => exact absurd rfl hne
  | cons t ts => rw [List.getLastD_cons, List.getLastD_cons]

/-- The last tokens decide where a span ends. -/
theorem spanOf_append {t : Token} {ts us : List Token} (hne : us ≠ []) :
    spanOf (t :: (ts ++ us)) = ⟨t.span.start, (spanOf us).stop⟩ := by
  simp only [spanOf, List.headD_cons, List.getLastD_cons, getLastD_append]
  rw [getLastD_of_ne_nil hne]

theorem spanOf_snoc (t c : Token) (ts : List Token) :
    spanOf (t :: (ts ++ [c])) = t.span.to c.span := by
  rw [spanOf_append (by simp)]
  rfl

/-! ### Balanced tokens -/

theorem Balanced.append {ts us : List Token} (hts : Balanced ts) (hus : Balanced us) :
    Balanced (ts ++ us) := by
  induction hts with
  | nil => exact hus
  | plain hopen hclose herror heof _ ih => exact .plain hopen hclose herror heof ih
  | group hmatch hbody _ _ ih =>
    rw [List.cons_append, List.append_assoc, List.cons_append]
    exact .group hmatch hbody ih

theorem IsItem.balanced {ts : List Token} (h : IsItem ts) : Balanced ts := by
  induction h with
  | nil => exact .nil
  | plain _ hopen hclose herror heof _ ih => exact .plain hopen hclose herror heof ih
  | group hmatch hbody _ ih => exact .group hmatch hbody ih

theorem IsItem.append {ts us : List Token} (hts : IsItem ts) (hus : IsItem us) :
    IsItem (ts ++ us) := by
  induction hts with
  | nil => exact hus
  | plain hcomma hopen hclose herror heof _ ih => exact .plain hcomma hopen hclose herror heof ih
  | group hmatch hbody _ ih =>
    rw [List.cons_append, List.append_assoc, List.cons_append]
    exact .group hmatch hbody ih

theorem IsItems.balanced {ts : List Token} {items : List (List Token)} (h : IsItems ts items) :
    Balanced ts := by
  induction h with
  | nil => exact .nil
  | last hitem _ => exact hitem.balanced
  | more hitem _ hcomma _ ih =>
    exact hitem.balanced.append
      (.plain (by simp [hcomma, TokenKind.closer?]) (by simp [hcomma, TokenKind.isCloser])
        (by simp [hcomma]) (by simp [hcomma]) ih)

theorem IsItems.ne_nil {ts : List Token} {items : List (List Token)} (h : IsItems ts items) :
    ∀ item ∈ items, item ≠ [] := by
  induction h with
  | nil => simp
  | last _ hne => simpa using hne
  | more _ hne _ _ ih => simpa using ⟨hne, ih⟩

/-! ### Segments -/

theorem IsSegments.getLastD_eq {sep : TokenKind} {ts names : List Token}
    (h : IsSegments sep ts names) (d : Token) : ts.getLastD d = names.getLastD d := by
  induction h generalizing d with
  | nil => rfl
  | cons _ _ _ ih =>
    rw [List.getLastD_cons, List.getLastD_cons, List.getLastD_cons]
    exact ih _

/-- The last name of some segments and the separator before it can be taken off. -/
theorem IsSegments.of_snoc {sep : TokenKind} {ts names : List Token} {m : Token}
    (h : IsSegments sep ts (names ++ [m])) :
    ∃ us s, ts = us ++ [s, m] ∧ IsSegments sep us names ∧ s.kind = sep ∧ m.kind = .ident := by
  induction names generalizing ts with
  | nil =>
    cases h with
    | cons hsep hname rest =>
      cases rest
      exact ⟨[], _, rfl, .nil, hsep, hname⟩
  | cons n names ih =>
    cases h with
    | cons hsep hname rest =>
      obtain ⟨us, s, rfl, hseg, hs, hm⟩ := ih rest
      exact ⟨_ :: _ :: us, s, rfl, .cons hsep hname hseg, hs, hm⟩

theorem IsSegments.snoc {sep : TokenKind} {ts names : List Token} {s m : Token}
    (h : IsSegments sep ts names) (hs : s.kind = sep) (hm : m.kind = .ident) :
    IsSegments sep (ts ++ [s, m]) (names ++ [m]) := by
  induction h with
  | nil => exact .cons hs hm .nil
  | cons hsep hname _ ih => exact .cons hsep hname ih

/-! ### Kinds and literals decide

Two token lists with the same kinds and literals spell the same constructs; only the denoted spans
and texts may differ. -/

theorem symbol_eq_iff {t u : Token} :
    t.symbol = u.symbol ↔ t.kind = u.kind ∧ t.literal = u.literal := by
  simp only [Token.symbol, Prod.mk.injEq]

theorem Balanced.alike {ts us : List Token} (h : Balanced ts)
    (heq : us.map Token.symbol = ts.map Token.symbol) : Balanced us := by
  induction h generalizing us with
  | nil =>
    rw [List.map_eq_nil_iff.mp heq]
    exact .nil
  | plain hopen hclose herror heof _ ih =>
    simp only [List.map_cons, List.map_eq_cons_iff, symbol_eq_iff] at heq
    obtain ⟨t', us', rfl, ⟨hkind, -⟩, hrest⟩ := heq
    exact .plain (hkind ▸ hopen) (hkind ▸ hclose) (hkind ▸ herror) (hkind ▸ heof) (ih hrest)
  | group hmatch _ _ ihbody ihrest =>
    simp only [List.map_cons, List.map_append, List.map_eq_cons_iff, List.map_eq_append_iff,
      symbol_eq_iff] at heq
    obtain ⟨o', -, rfl, ⟨ho, -⟩, inner', -, rfl, hinner, c', ts', rfl, ⟨hc, -⟩, hrest⟩ := heq
    exact .group (by rw [ho, hc]; exact hmatch) (ihbody hinner) (ihrest hrest)

theorem IsItem.alike {ts us : List Token} (h : IsItem ts)
    (heq : us.map Token.symbol = ts.map Token.symbol) : IsItem us := by
  induction h generalizing us with
  | nil =>
    rw [List.map_eq_nil_iff.mp heq]
    exact .nil
  | plain hcomma hopen hclose herror heof _ ih =>
    simp only [List.map_cons, List.map_eq_cons_iff, symbol_eq_iff] at heq
    obtain ⟨t', us', rfl, ⟨hkind, -⟩, hrest⟩ := heq
    exact .plain (hkind ▸ hcomma) (hkind ▸ hopen) (hkind ▸ hclose) (hkind ▸ herror) (hkind ▸ heof)
      (ih hrest)
  | group hmatch hbody _ ih =>
    simp only [List.map_cons, List.map_append, List.map_eq_cons_iff, List.map_eq_append_iff,
      symbol_eq_iff] at heq
    obtain ⟨o', -, rfl, ⟨ho, -⟩, inner', -, rfl, hinner, c', ts', rfl, ⟨hc, -⟩, hrest⟩ := heq
    exact .group (by rw [ho, hc]; exact hmatch) (hbody.alike hinner) (ih hrest)

theorem ne_nil_of_alike {ts us : List Token} (heq : us.map Token.symbol = ts.map Token.symbol)
    (hne : ts ≠ []) : us ≠ [] := by
  rintro rfl
  exact hne (List.map_eq_nil_iff.mp heq.symm)

theorem IsItems.alike {ts us : List Token} {items : List (List Token)} (h : IsItems ts items)
    (heq : us.map Token.symbol = ts.map Token.symbol) : ∃ items', IsItems us items' := by
  induction h generalizing us with
  | nil =>
    rw [List.map_eq_nil_iff.mp heq]
    exact ⟨[], .nil⟩
  | last hitem hne => exact ⟨[us], .last (hitem.alike heq) (ne_nil_of_alike heq hne)⟩
  | more hitem hne hcomma _ ih =>
    simp only [List.map_append, List.map_cons, List.map_eq_append_iff, List.map_eq_cons_iff,
      symbol_eq_iff] at heq
    obtain ⟨item', -, rfl, hitem', comma', us', rfl, ⟨hk, -⟩, hrest⟩ := heq
    obtain ⟨items', hitems⟩ := ih hrest
    exact ⟨item' :: items',
      .more (hitem.alike hitem') (ne_nil_of_alike hitem' hne) (hk.trans hcomma) hitems⟩

theorem IsList.alike {ts us : List Token} (h : IsList ts)
    (heq : us.map Token.symbol = ts.map Token.symbol) : IsList us := by
  obtain ⟨o, inner, c, rfl, ho, hinner, hc⟩ := h
  simp only [List.map_append, List.map_cons, List.map_nil, List.map_eq_append_iff,
    List.map_eq_cons_iff, List.map_eq_nil_iff, symbol_eq_iff] at heq
  obtain ⟨o', -, rfl, ⟨ho', -⟩, inner', -, rfl, hinner', c', -, rfl, ⟨hc', -⟩, rfl⟩ := heq
  exact ⟨o', inner', c', rfl, ho'.trans ho, hinner.alike hinner', hc'.trans hc⟩

theorem IsSegments.alike {sep : TokenKind} {ts us names : List Token} (h : IsSegments sep ts names)
    (heq : us.map Token.symbol = ts.map Token.symbol) :
    ∃ names', IsSegments sep us names' ∧ names'.map Token.literal = names.map Token.literal := by
  induction h generalizing us with
  | nil =>
    rw [List.map_eq_nil_iff.mp heq]
    exact ⟨[], .nil, rfl⟩
  | cons hsep hname _ ih =>
    simp only [List.map_cons, List.map_eq_cons_iff, symbol_eq_iff] at heq
    obtain ⟨s', -, rfl, ⟨hs, -⟩, t', us', rfl, ⟨ht, hlit⟩, hrest⟩ := heq
    obtain ⟨names', hseg, hnames⟩ := ih hrest
    exact ⟨t' :: names', .cons (hs.trans hsep) (ht.trans hname) hseg, by simp [hlit, hnames]⟩

theorem IsPath.alike {ts us : List Token} {c : ClassPath} (h : IsPath ts c)
    (heq : us.map Token.symbol = ts.map Token.symbol) : ∃ c', IsPath us c' := by
  obtain ⟨hfirst, hdotted, hne, hnested, houter, hinner, -⟩ := h
  simp only [List.map_cons, List.map_append, List.map_eq_cons_iff, List.map_eq_append_iff,
    symbol_eq_iff] at heq
  obtain ⟨first', -, rfl, ⟨hkind, hlit⟩, ds', ns', rfl, hds, hns⟩ := heq
  obtain ⟨dotted', hdotted', hdots⟩ := hdotted.alike hds
  obtain ⟨nested', hnested', hnest⟩ := hnested.alike hns
  refine ⟨{ c with span := spanOf (first' :: (ds' ++ ns')) },
    .mk (hkind.trans hfirst) hdotted' ?_ hnested' ?_ ?_ rfl⟩
  · rintro rfl
    exact hne (List.map_eq_nil_iff.mp hdots.symm)
  · simp only [List.map_cons, hlit, hdots]
    exact houter
  · simp only [hnest]
    exact hinner

theorem IsType.alike {ts us : List Token} {ty : ValueType} (h : IsType ts ty)
    (heq : us.map Token.symbol = ts.map Token.symbol) :
    ∃ ty', IsType us ty' ∧ ty'.isVoid = ty.isVoid ∧ ty'.isObject = ty.isObject := by
  cases h with
  | host hkind hhost =>
    simp only [List.map_cons, List.map_nil, List.map_eq_cons_iff, List.map_eq_nil_iff,
      symbol_eq_iff] at heq
    obtain ⟨t', -, rfl, ⟨hk, hl⟩, rfl⟩ := heq
    exact ⟨_, .host (hk.trans hkind) (hl ▸ hhost), rfl, rfl⟩
  | java hkind hhost hjava =>
    simp only [List.map_cons, List.map_nil, List.map_eq_cons_iff, List.map_eq_nil_iff,
      symbol_eq_iff] at heq
    obtain ⟨t', -, rfl, ⟨hk, hl⟩, rfl⟩ := heq
    refine ⟨_, .java (hk.trans hkind) (hl ▸ hhost) (hl ▸ hjava), ?_, rfl⟩
    rename_i p
    cases p <;> rfl
  | object hhost hjava hpath =>
    obtain ⟨c', hc'⟩ := hpath.alike heq
    simp only [List.map_cons, List.map_eq_cons_iff, symbol_eq_iff] at heq
    obtain ⟨t', us', rfl, ⟨hk, hl⟩, -⟩ := heq
    exact ⟨_, .object (hl ▸ hhost) (hl ▸ hjava) hc', rfl, rfl⟩

theorem IsTarget.alike {src : Source} {ts us : List Token} {target : Target} {m : Token}
    (h : IsTarget src ts target m) (heq : us.map Token.symbol = ts.map Token.symbol)
    (src' : Source) : ∃ target' m', IsTarget src' us target' m' := by
  cases h with
  | static hstatic hpath hsep hname =>
    simp only [List.map_cons, List.map_append, List.map_nil, List.map_eq_cons_iff,
      List.map_eq_append_iff, List.map_eq_nil_iff, symbol_eq_iff] at heq
    obtain ⟨st', -, rfl, ⟨hst, -⟩, ps', -, rfl, hps, sep', -, rfl, ⟨hs, -⟩, m', -, rfl, ⟨hm, -⟩,
      rfl⟩ := heq
    obtain ⟨c', hc'⟩ := hpath.alike hps
    exact ⟨_, m', .static (hst.trans hstatic) hc' (by rw [hs]; exact hsep) (hm.trans hname)⟩
  | name hkind hdot hname =>
    simp only [List.map_cons, List.map_nil, List.map_eq_cons_iff, List.map_eq_nil_iff,
      symbol_eq_iff] at heq
    obtain ⟨t', -, rfl, ⟨ht, -⟩, dot', -, rfl, ⟨hd, -⟩, m', -, rfl, ⟨hm, -⟩, rfl⟩ := heq
    exact ⟨_, m', .name (ht.trans hkind) (hd.trans hdot) (hm.trans hname)⟩
  | group hopen hmatch hbody hne hdot hname =>
    simp only [List.map_cons, List.map_append, List.map_nil, List.map_eq_cons_iff,
      List.map_eq_append_iff, List.map_eq_nil_iff, symbol_eq_iff] at heq
    obtain ⟨o', -, rfl, ⟨ho, -⟩, body', -, rfl, hb, c', -, rfl, ⟨hc, -⟩, dot', -, rfl, ⟨hd, -⟩,
      m', -, rfl, ⟨hm, -⟩, rfl⟩ := heq
    exact ⟨_, m', .group (by rw [ho]; exact hopen) (by rw [ho, hc]; exact hmatch)
      (hbody.alike hb) (ne_nil_of_alike hb hne) (hd.trans hdot) (hm.trans hname)⟩

theorem IsParameter.alike {src : Source} {ts us : List Token} {p : Parameter}
    (h : IsParameter src ts p) (heq : us.map Token.symbol = ts.map Token.symbol)
    (src' : Source) : ∃ p', IsParameter src' us p' := by
  cases h with
  | single hty hvoid ho hbody hne hc =>
    simp only [List.map_cons, List.map_append, List.map_nil, List.map_eq_cons_iff,
      List.map_eq_append_iff, List.map_eq_nil_iff, symbol_eq_iff] at heq
    obtain ⟨ts', -, rfl, hts, o', -, rfl, ⟨ho', -⟩, body', -, rfl, hb, c', -, rfl, ⟨hc', -⟩,
      rfl⟩ := heq
    obtain ⟨ty', hty', hvoid', -⟩ := hty.alike hts
    exact ⟨_, .single hty' (hvoid'.trans hvoid) (ho'.trans ho) (hbody.alike hb)
      (ne_nil_of_alike hb hne) (hc'.trans hc)⟩
  | array hl hty hvoid hr ho hbody hne hlist hc =>
    simp only [List.map_cons, List.map_append, List.map_nil, List.map_eq_cons_iff,
      List.map_eq_append_iff, List.map_eq_nil_iff, symbol_eq_iff] at heq
    obtain ⟨l', -, rfl, ⟨hl', -⟩, ts', -, rfl, hts, r', -, rfl, ⟨hr', -⟩, o', -, rfl, ⟨ho', -⟩,
      body', -, rfl, hb, c', -, rfl, ⟨hc', -⟩, rfl⟩ := heq
    obtain ⟨ty', hty', hvoid', -⟩ := hty.alike hts
    exact ⟨_, .array (hl'.trans hl) hty' (hvoid'.trans hvoid) (hr'.trans hr) (ho'.trans ho)
      (hbody.alike hb) (ne_nil_of_alike hb hne) (fun hlist' => hlist (hlist'.alike hb.symm))
      (hc'.trans hc)⟩
  | literal hl hty hvoid hr ho hlb hitems hrb hc =>
    simp only [List.map_cons, List.map_append, List.map_nil, List.map_eq_cons_iff,
      List.map_eq_append_iff, List.map_eq_nil_iff, symbol_eq_iff] at heq
    obtain ⟨l', -, rfl, ⟨hl', -⟩, ts', -, rfl, hts, r', -, rfl, ⟨hr', -⟩, o', -, rfl, ⟨ho', -⟩,
      lb', -, rfl, ⟨hlb', -⟩, inner', -, rfl, hin, rb', -, rfl, ⟨hrb', -⟩, c', -, rfl, ⟨hc', -⟩,
      rfl⟩ := heq
    obtain ⟨ty', hty', hvoid', -⟩ := hty.alike hts
    obtain ⟨items', hitems'⟩ := hitems.alike hin
    exact ⟨_, .literal (hl'.trans hl) hty' (hvoid'.trans hvoid) (hr'.trans hr) (ho'.trans ho)
      (hlb'.trans hlb) hitems' (hrb'.trans hrb) (hc'.trans hc)⟩

theorem IsParameters.alike {src : Source} {ts us : List Token} {ps : List Parameter}
    (h : IsParameters src ts ps) (heq : us.map Token.symbol = ts.map Token.symbol)
    (src' : Source) : ∃ ps', IsParameters src' us ps' := by
  induction h generalizing us with
  | nil =>
    rw [List.map_eq_nil_iff.mp heq]
    exact ⟨[], .nil⟩
  | last hp =>
    obtain ⟨p', hp'⟩ := hp.alike heq src'
    exact ⟨[p'], .last hp'⟩
  | more hp hcomma _ ih =>
    simp only [List.map_append, List.map_cons, List.map_eq_append_iff, List.map_eq_cons_iff,
      symbol_eq_iff] at heq
    obtain ⟨ts', -, rfl, hts, comma', us', rfl, ⟨hk, -⟩, hrest⟩ := heq
    obtain ⟨p', hp'⟩ := hp.alike hts src'
    obtain ⟨ps', hps'⟩ := ih hrest
    exact ⟨p' :: ps', .more hp' (hk.trans hcomma) hps'⟩

theorem IsSuccess.alike {ts us : List Token} {ok : Success} (h : IsSuccess ts ok)
    (heq : us.map Token.symbol = ts.map Token.symbol) : ∃ ok', IsSuccess us ok' := by
  cases h with
  | value hty =>
    obtain ⟨ty', hty', -⟩ := hty.alike heq
    exact ⟨_, .value hty'⟩
  | option hkind hword hl hty hg =>
    simp only [List.map_cons, List.map_append, List.map_nil, List.map_eq_cons_iff,
      List.map_eq_append_iff, List.map_eq_nil_iff, symbol_eq_iff] at heq
    obtain ⟨w', -, rfl, ⟨hw, hwl⟩, l', -, rfl, ⟨hl', -⟩, ts', -, rfl, hts, g', -, rfl, ⟨hg', -⟩,
      rfl⟩ := heq
    obtain ⟨ty', hty', -, hobject⟩ := hty.alike hts
    cases hty' with
    | host _ _ => simp [ValueType.isObject] at hobject
    | java _ _ _ => simp [ValueType.isObject] at hobject
    | object hhost hjava hpath =>
      exact ⟨_, .option (hw.trans hkind) (hwl.trans hword) (hl'.trans hl)
        (.object hhost hjava hpath) (hg'.trans hg)⟩

theorem IsReturn.alike {ts us : List Token} {r : ReturnSpec} (h : IsReturn ts r)
    (heq : us.map Token.symbol = ts.map Token.symbol) : ∃ r', IsReturn us r' := by
  cases h with
  | plain hok =>
    obtain ⟨ok', hok'⟩ := hok.alike heq
    exact ⟨_, .plain hok'⟩
  | result hkind hword hl hok hcomma hskind hsword hg =>
    simp only [List.map_cons, List.map_append, List.map_nil, List.map_eq_cons_iff,
      List.map_eq_append_iff, List.map_eq_nil_iff, symbol_eq_iff] at heq
    obtain ⟨w', -, rfl, ⟨hw, hwl⟩, l', -, rfl, ⟨hl', -⟩, ts', -, rfl, hts, comma', -, rfl,
      ⟨hcomma', -⟩, s', -, rfl, ⟨hs, hsl⟩, g', -, rfl, ⟨hg', -⟩, rfl⟩ := heq
    obtain ⟨ok', hok'⟩ := hok.alike hts
    exact ⟨_, .result (hw.trans hkind) (hwl.trans hword) (hl'.trans hl) hok'
      (hcomma'.trans hcomma) (hs.trans hskind) (hsl.trans hsword) (hg'.trans hg)⟩

/-- **Kinds and literals decide whether tokens spell a call.** -/
theorem IsCall.alike {src : Source} {ts us : List Token} {c : Call} (h : IsCall src ts c)
    (heq : us.map Token.symbol = ts.map Token.symbol) (src' : Source) :
    ∃ c', IsCall src' us c' := by
  obtain ⟨htarget, ho, hparams, hc, harrow, hret⟩ := h
  simp only [List.map_append, List.map_cons, List.map_eq_append_iff, List.map_eq_cons_iff,
    symbol_eq_iff] at heq
  obtain ⟨ts', -, rfl, hts, o', -, rfl, ⟨ho', -⟩, ps', -, rfl, hps, c', -, rfl, ⟨hc', -⟩, arrow',
    rs', rfl, ⟨harrow', -⟩, hrs⟩ := heq
  obtain ⟨target', m', htarget'⟩ := htarget.alike hts src'
  obtain ⟨params', hparams'⟩ := hparams.alike hps src'
  obtain ⟨ret', hret'⟩ := hret.alike hrs
  exact ⟨_, .mk htarget' (ho'.trans ho) hparams' (hc'.trans hc) (harrow'.trans harrow) hret'⟩

/-! ### Kinds that no call contains -/

section Clean

variable {src : Source} {ts : List Token}

/-- No token is an error or the end of the input. -/
def Clean (ts : List Token) : Prop := ∀ t ∈ ts, t.kind ≠ .eof ∧ t.kind ≠ .error

@[simp] theorem clean_nil : Clean [] := by simp [Clean]

@[simp] theorem clean_cons {t : Token} {ts : List Token} :
    Clean (t :: ts) ↔ (t.kind ≠ .eof ∧ t.kind ≠ .error) ∧ Clean ts := by
  simp [Clean]

@[simp] theorem clean_append {ts us : List Token} : Clean (ts ++ us) ↔ Clean ts ∧ Clean us := by
  simp only [Clean, List.forall_mem_append]

theorem clean_of_closer? {k c : TokenKind} (h : k.closer? = some c) :
    (k ≠ .eof ∧ k ≠ .error) ∧ c ≠ .eof ∧ c ≠ .error := by
  cases k with
  | lparen | lbrace | lbracket =>
    cases h
    decide
  | _ => cases h

theorem Balanced.clean (h : Balanced ts) : Clean ts := by
  induction h with
  | nil => exact clean_nil
  | plain _ _ herror heof _ ih => exact clean_cons.mpr ⟨⟨heof, herror⟩, ih⟩
  | group hmatch _ _ ihbody ihrest =>
    obtain ⟨ho, hc⟩ := clean_of_closer? hmatch
    exact clean_cons.mpr ⟨ho, clean_append.mpr ⟨ihbody, clean_cons.mpr ⟨hc, ihrest⟩⟩⟩

theorem IsSegments.clean {sep : TokenKind} (hsep : sep ≠ .eof ∧ sep ≠ .error) {names : List Token}
    (h : IsSegments sep ts names) : Clean ts := by
  induction h with
  | nil => exact clean_nil
  | cons hs ht _ ih => simp [hs, ht, hsep, ih]

theorem IsPath.clean {c : ClassPath} (h : IsPath ts c) : Clean ts := by
  cases h with
  | mk hfirst hdotted _ hnested =>
    simp [hfirst, hdotted.clean (by decide), hnested.clean (by decide)]

theorem IsType.clean {ty : ValueType} (h : IsType ts ty) : Clean ts := by
  cases h with
  | host hkind _ => simp [hkind]
  | java hkind _ _ => simp [hkind]
  | object _ _ hpath => exact hpath.clean

theorem IsTarget.clean {tg : Target} {m : Token} (h : IsTarget src ts tg m) : Clean ts := by
  cases h with
  | static hstatic hpath hsep hname =>
    rcases hsep with hsep | hsep
    · simp [hstatic, hpath.clean, hsep, hname]
    · simp [hstatic, hpath.clean, hsep, hname]
  | name hkind hdot hname => simp [hkind, hdot, hname]
  | group hopen hmatch hbody hne hdot hname =>
    have hgroup := (Balanced.group hmatch hbody .nil).clean
    simp only [clean_cons, clean_append] at hgroup ⊢
    simp [hgroup, hdot, hname]

theorem IsParameter.clean {p : Parameter} (h : IsParameter src ts p) : Clean ts := by
  cases h with
  | single hty _ ho hbody _ hc => simp [hty.clean, ho, hbody.clean, hc]
  | array hl hty _ hr ho hbody _ _ hc => simp [hl, hty.clean, hr, ho, hbody.clean, hc]
  | literal hl hty _ hr ho hlb hitems hrb hc =>
    simp [hl, hty.clean, hr, ho, hlb, hitems.balanced.clean, hrb, hc]

theorem IsParameters.clean {ps : List Parameter} (h : IsParameters src ts ps) : Clean ts := by
  induction h with
  | nil => exact clean_nil
  | last hp => exact hp.clean
  | more hp hcomma _ ih => simp [hp.clean, hcomma, ih]

theorem IsSuccess.clean {ok : Success} (h : IsSuccess ts ok) : Clean ts := by
  cases h with
  | value hty => exact hty.clean
  | option hkind _ hl hty hg => simp [hkind, hl, hty.clean, hg]

theorem IsReturn.clean {r : ReturnSpec} (h : IsReturn ts r) : Clean ts := by
  cases h with
  | plain hok => exact hok.clean
  | result hkind _ hl hok hcomma hskind _ hg => simp [hkind, hl, hok.clean, hcomma, hskind, hg]

theorem IsCall.clean {c : Call} (h : IsCall src ts c) : Clean ts := by
  cases h with
  | mk htarget ho hparams hc harrow hret =>
    simp [htarget.clean, ho, hparams.clean, hc, harrow, hret.clean]

end Clean

end Grammar
end BridgeCall
