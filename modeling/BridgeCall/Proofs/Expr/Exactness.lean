/-
  BridgeCall/Proofs/Expr/Exactness.lean
  =====================================
  **Calls are read exactly.**  The readers of targets, parameters and return
  specifications against the grammar, and from them the statement about whole
  texts: `Call.parse` gives a call exactly when the tokens of the text spell it,
  and kinds and literals of the tokens alone decide whether they spell one.
-/
import BridgeCall.Proofs.Expr.Reading

namespace BridgeCall.Reader

open Grammar

/-- The text of tokens is cut at the places of the first and the last. -/
theorem textOf_eq_written {src : Source} {ts : List Token} (hne : ts ≠ []) :
    textOf src ts = written src ts := by
  cases ts with
  | nil => exact absurd rfl hne
  | cons t ts =>
    simp only [textOf, written, spanOf, List.head?_cons,
      List.getLast?_eq_some_getLast (List.cons_ne_nil t ts), List.headD_cons, List.getLastD_cons,
      List.getLast_eq_getLastD]

/-! ### Targets -/

theorem splitMethod_sound {p : Path} {used ts rest : List Token} {c : ClassPath} {m : Token}
    (hp : p.Spelt used) (h : splitMethod p ts = .ok ((c, m), rest)) :
    ∃ ps sep, used ++ ts = ps ++ sep :: m :: rest ∧ IsPath ps c ∧ sep.kind = .dot ∧
      m.kind = .ident := by
  obtain ⟨first, dotted, nested⟩ := p
  rw [splitMethod] at h
  split at h
  · rename_i hnested
    split at h
    · simp at h
    rename_i hlength
    cases h
    obtain ⟨hfirst, hne, ds, ns, rfl, hds, hns⟩ := hp
    simp only [List.isEmpty_iff] at hnested
    subst hnested
    cases hns
    -- the last dotted segment is the method, so the path ends before its dot
    have hsnoc : dotted = dotted.dropLast ++ [dotted.getLastD first] := by
      rw [← List.getLast_eq_getLastD (List.cons_ne_nil first dotted), List.getLast_cons hne]
      exact (List.dropLast_concat_getLast hne).symm
    rw [hsnoc] at hds
    obtain ⟨us, sep, rfl, hus, hsep, hm⟩ := hds.of_snoc
    refine ⟨first :: us, sep, by simp [Path.lastDotted], ?_, hsep, hm⟩
    refine Path.Spelt.isPath ⟨hfirst, ?_, us, [], by simp, hus, .nil⟩
    intro hnil
    have := congrArg List.length hnil
    simp only [List.length_dropLast, List.length_nil] at this
    simp only at hlength
    omega
  · simp only [bind_eq_ok, expect_eq_ok (k := .dot) (by simp), expect_eq_ok (k := .ident) (by simp)]
      at h
    obtain ⟨dot, mid, ⟨rfl, hdot⟩, m', mid', ⟨rfl, hm⟩, h⟩ := h
    cases h
    exact ⟨used, dot, rfl, hp.isPath, hdot, hm⟩

/-- Reading a path to its end and then taking the method off gives path and method back. -/
theorem splitMethod_complete {ps rest : List Token} {c : ClassPath} {sep m : Token}
    (hpath : IsPath ps c) (hsep : sep.kind = .dot) (hm : m.kind = .ident)
    (hrest : headKind rest = .lparen) :
    ∃ p mid, path (ps ++ sep :: m :: rest) = .ok (p, mid) ∧ headKind mid ≠ .colonColon ∧
      splitMethod p mid = .ok ((c, m), rest) := by
  obtain ⟨⟨first, dotted, nested⟩, hspelt, rfl⟩ := exists_spelt_of_isPath hpath
  cases nested with
  | nil =>
    obtain ⟨hfirst, hne, ds, ns, rfl, hds, hns⟩ := hspelt
    cases hns
    have hlong : Path.Spelt ⟨first, dotted ++ [m], []⟩ (first :: (ds ++ [sep, m])) :=
      ⟨hfirst, by simp, ds ++ [sep, m], [], by simp, hds.snoc hsep hm, .nil⟩
    have hrun : path (first :: (ds ++ [sep, m]) ++ rest) = .ok (⟨first, dotted ++ [m], []⟩, rest) :=
      path_complete hlong (by simp [hrest]) (by simp [hrest])
    have hlength : ¬ (dotted ++ [m]).length < 2 := by
      have hpos : 0 < dotted.length := List.length_pos_iff.mpr hne
      simp only [List.length_append, List.length_cons, List.length_nil]
      omega
    refine ⟨_, rest, by simpa using hrun, by simp [hrest], ?_⟩
    simp only [splitMethod, List.isEmpty_nil, if_true, if_neg hlength]
    simp [Path.lastDotted]
  | cons n nested =>
    refine ⟨_, _, path_complete hspelt (by simp) (by simp [hsep]), by simp [hsep], ?_⟩
    rw [splitMethod, if_neg (by simp),
      bind_of_ok ((expect_eq_ok (by simp)).mpr ⟨rfl, hsep⟩),
      bind_of_ok ((expect_eq_ok (by simp)).mpr ⟨rfl, hm⟩)]
    rfl

theorem IsPath.span_eq {ps : List Token} {c : ClassPath} (h : IsPath ps c) :
    c.span = spanOf ps ∧ ps ≠ [] := by
  cases h with
  | mk _ _ _ _ _ _ hspan => exact ⟨hspan, by simp⟩

theorem spanOf_static {st : Token} {ps : List Token} {c : ClassPath} (h : IsPath ps c) :
    st.span.to c.span = spanOf (st :: ps) := by
  obtain ⟨hspan, hne⟩ := IsPath.span_eq h
  have happend : spanOf (st :: ([] ++ ps)) = ⟨st.span.start, (spanOf ps).stop⟩ := spanOf_append hne
  rw [hspan, Span.to, ← happend]
  rfl

theorem target_static_sound {src : Source} {start m : Token} {ts rest : List Token} {tg : Target}
    (hk : start.kind = .static) (h : target src (start :: ts) = .ok ((tg, m), rest)) :
    ∃ used, start :: ts = used ++ rest ∧ IsTarget src used tg m := by
  rw [target, bind_of_ok peek_run] at h
  simp only [List.headD_cons, hk] at h
  rw [bind_of_ok advance_run, bind_eq_ok] at h
  obtain ⟨p, mid, hpath, h⟩ := h
  obtain ⟨used, hused, hspelt⟩ := path_sound hpath
  rw [List.tail_cons] at hused
  subst hused
  rw [bind_of_ok peekKind_run] at h
  split at h
  · rename_i hsep
    obtain ⟨sep, us, rfl, hkind⟩ := eq_cons_of_headKind hsep (by simp)
    rw [bind_of_ok advance_run, bind_eq_ok] at h
    obtain ⟨name, mid', hname, h⟩ := h
    obtain ⟨rfl, hident⟩ := (expect_eq_ok (by simp)).mp hname
    cases h
    refine ⟨start :: (used ++ [sep, name]), by simp, ?_⟩
    rw [spanOf_static hspelt.isPath]
    exact .static hk hspelt.isPath (.inl hkind) hident
  · rw [bind_eq_ok] at h
    obtain ⟨⟨c, name⟩, mid', hsplit, h⟩ := h
    obtain ⟨ps, sep, heq, hps, hsep, hm⟩ := splitMethod_sound hspelt hsplit
    cases h
    refine ⟨start :: (ps ++ [sep, name]), by simp [heq], ?_⟩
    rw [spanOf_static hps]
    exact .static hk hps (.inr hsep) hm

theorem target_group_sound {src : Source} {start m : Token} {ts rest : List Token} {tg : Target}
    (hk : start.kind = .lparen ∨ start.kind = .lbrace)
    (h : target src (start :: ts) = .ok ((tg, m), rest)) :
    ∃ used, start :: ts = used ++ rest ∧ IsTarget src used tg m := by
  rw [target, bind_of_ok peek_run] at h
  have hgroup : ∃ g mid, group (start :: ts) = .ok (g, mid) ∧
      (if g.contents.isEmpty then throw { problem := .emptyReceiver, span := g.closer.span }
        else do
          let _ ← expect .dot .noReceiverDot []
          let m ← expect .ident .noMethod []
          pure (Target.object (textOf src g.contents) (start.span.to g.closer.span), m) :
        Reader (Target × Token)) mid = .ok ((tg, m), rest) := by
    rcases hk with hk | hk <;> simpa only [List.headD_cons, hk, bind_eq_ok] using h
  clear h
  obtain ⟨g, mid, hg, hrun⟩ := hgroup
  obtain ⟨rfl, hbody, hmatch⟩ := group_eq_ok.mp hg
  by_cases hempty : g.contents.isEmpty = true
  · simp [hempty] at hrun
  rw [if_neg hempty] at hrun
  simp only [bind_eq_ok] at hrun
  obtain ⟨dot, mid', hdot, name, mid'', hname, hrun⟩ := hrun
  obtain ⟨rfl, hdotkind⟩ := (expect_eq_ok (by simp)).mp hdot
  obtain ⟨rfl, hident⟩ := (expect_eq_ok (by simp)).mp hname
  cases hrun
  have hne : g.contents ≠ [] := by simpa using hempty
  refine ⟨start :: (g.contents ++ [g.closer, dot, m]), by simp, ?_⟩
  rw [textOf_eq_written hne, ← spanOf_snoc start g.closer g.contents]
  exact .group hk hmatch hbody hne hdotkind hident

theorem target_sound {src : Source} {ts rest : List Token} {tg : Target} {m : Token}
    (h : target src ts = .ok ((tg, m), rest)) :
    ∃ used, ts = used ++ rest ∧ IsTarget src used tg m := by
  cases ts with
  | nil => simp [target, bind_of_ok peek_run, Lexer.endToken] at h
  | cons start ts =>
    cases hk : start.kind with
    | static => exact target_static_sound hk h
    | lparen => exact target_group_sound (.inl hk) h
    | lbrace => exact target_group_sound (.inr hk) h
    | ident =>
      rw [target, bind_of_ok peek_run] at h
      simp only [List.headD_cons, hk] at h
      rw [bind_of_ok advance_run, bind_eq_ok] at h
      obtain ⟨dot, mid, hdot, h⟩ := h
      obtain ⟨heq, hdotkind⟩ := (expect_eq_ok (by simp)).mp hdot
      rw [bind_eq_ok] at h
      obtain ⟨name, mid', hname, h⟩ := h
      obtain ⟨rfl, hident⟩ := (expect_eq_ok (by simp)).mp hname
      cases h
      simp only [List.tail_cons] at heq
      exact ⟨[start, dot, m], by simp [heq], .name hk hdotkind hident⟩
    | _ =>
      rw [target, bind_of_ok peek_run] at h
      simp only [List.headD_cons, hk] at h
      cases h

theorem target_complete {src : Source} {used rest : List Token} {tg : Target} {m : Token}
    (h : IsTarget src used tg m) (hrest : headKind rest = .lparen) :
    target src (used ++ rest) = .ok ((tg, m), rest) := by
  cases h with
  | @static st sep _ ps c hstatic hpath hsep hm =>
    rw [List.cons_append, target, bind_of_ok peek_run]
    simp only [List.headD_cons, hstatic]
    rw [bind_of_ok advance_run, List.tail_cons, List.append_assoc, ← spanOf_static hpath]
    rcases hsep with hsep | hsep
    · obtain ⟨p, hspelt, rfl⟩ := exists_spelt_of_isPath hpath
      have hrun : path (ps ++ sep :: m :: rest) = .ok (p, sep :: m :: rest) :=
        path_complete hspelt (by simp [hsep]) (by simp [hsep])
      have hname : expect .ident .noMethodAfterColons [] (m :: rest) = .ok (m, rest) :=
        (expect_eq_ok (by simp)).mpr ⟨rfl, hm⟩
      rw [List.cons_append, List.cons_append, List.nil_append, bind_of_ok hrun,
        bind_of_ok peekKind_run, if_pos (by simpa using hsep), bind_of_ok advance_run,
        List.tail_cons, bind_of_ok hname]
      rfl
    · obtain ⟨p, mid, hrun, hcolon, hsplit⟩ := splitMethod_complete hpath hsep hm hrest
      rw [List.cons_append, List.cons_append, List.nil_append, bind_of_ok hrun,
        bind_of_ok peekKind_run, if_neg hcolon, bind_of_ok hsplit]
      rfl
  | @name t dot _ hkind hdot hm =>
    have hd : expect .dot .noReceiverDot [] (dot :: m :: rest) = .ok (dot, m :: rest) :=
      (expect_eq_ok (by simp)).mpr ⟨rfl, hdot⟩
    have hn : expect .ident .noMethod [] (m :: rest) = .ok (m, rest) :=
      (expect_eq_ok (by simp)).mpr ⟨rfl, hm⟩
    simp only [List.cons_append, List.nil_append]
    rw [target, bind_of_ok peek_run]
    simp only [List.headD_cons, hkind]
    rw [bind_of_ok advance_run, List.tail_cons, bind_of_ok hd, bind_of_ok hn]
    rfl
  | @group o c dot _ body hopen hmatch hbody hne hdot hm =>
    have hg : Reader.group (o :: (body ++ c :: dot :: m :: rest)) = .ok (⟨body, c⟩, dot :: m :: rest) :=
      group_eq_ok.mpr ⟨rfl, hbody, hmatch⟩
    have hd : expect .dot .noReceiverDot [] (dot :: m :: rest) = .ok (dot, m :: rest) :=
      (expect_eq_ok (by simp)).mpr ⟨rfl, hdot⟩
    have hn : expect .ident .noMethod [] (m :: rest) = .ok (m, rest) :=
      (expect_eq_ok (by simp)).mpr ⟨rfl, hm⟩
    rw [spanOf_snoc, ← textOf_eq_written hne]
    simp only [List.cons_append, List.append_assoc, List.nil_append]
    rw [target, bind_of_ok peek_run]
    rcases hopen with hk | hk <;>
    · simp only [List.headD_cons, hk]
      rw [bind_of_ok hg, if_neg (by simpa using hne), bind_of_ok hd, bind_of_ok hn]
      rfl

/-! ### Parameters -/

/-- The tokens of a type, bracketed or not. -/
def TypeTokens (array : Bool) (ts : List Token) (ty : ValueType) : Prop :=
  match array with
  | true => ∃ l us r, ts = l :: (us ++ [r]) ∧ l.kind = .lbracket ∧ IsType us ty ∧ r.kind = .rbracket
  | false => IsType ts ty

theorem IsType.headKind_eq {ts rest : List Token} {ty : ValueType} (h : IsType ts ty) :
    headKind (ts ++ rest) = .ident := by
  cases h with
  | host hkind _ => exact hkind
  | java hkind _ _ => exact hkind
  | object _ _ hpath =>
    cases hpath with
    | mk hfirst => exact hfirst

theorem parameterType_sound {ts rest : List Token} {array : Bool} {ty : ValueType}
    (h : parameterType ts = .ok ((array, ty), rest)) :
    ∃ used, ts = used ++ rest ∧ TypeTokens array used ty := by
  rw [parameterType, bind_of_ok peekKind_run] at h
  split at h
  · rename_i hkind
    obtain ⟨l, us, rfl, hl⟩ := eq_cons_of_headKind hkind (by simp)
    rw [bind_of_ok advance_run, bind_eq_ok] at h
    obtain ⟨ty', mid, hty, h⟩ := h
    obtain ⟨used, heq, hused⟩ := valueType_sound hty
    rw [bind_eq_ok] at h
    obtain ⟨r, mid', hr, h⟩ := h
    obtain ⟨rfl, hrkind⟩ := (expect_eq_ok (by simp)).mp hr
    cases h
    rw [List.tail_cons] at heq
    exact ⟨l :: (used ++ [r]), by simp [heq], l, used, r, rfl, hl, hused, hrkind⟩
  · rw [bind_eq_ok] at h
    obtain ⟨ty', mid, hty, h⟩ := h
    cases h
    exact valueType_sound hty

theorem parameterType_complete {used rest : List Token} {array : Bool} {ty : ValueType}
    (h : TypeTokens array used ty) (hrest : headKind rest = .lparen) :
    parameterType (used ++ rest) = .ok ((array, ty), rest) := by
  cases array with
  | true =>
    obtain ⟨l, us, r, rfl, hl, hty, hr⟩ := h
    have htype : valueType (us ++ r :: rest) = .ok (ty, r :: rest) :=
      valueType_complete hty (by simp [hr]) (by simp [hr])
    have hclose : expect .rbracket .noElementTypeEnd [] (r :: rest) = .ok (r, rest) :=
      (expect_eq_ok (by simp)).mpr ⟨rfl, hr⟩
    simp only [List.cons_append, List.append_assoc, List.nil_append]
    rw [parameterType, bind_of_ok peekKind_run, if_pos (by simpa using hl),
      bind_of_ok advance_run, List.tail_cons, bind_of_ok htype, bind_of_ok hclose]
    rfl
  | false =>
    have htype : valueType (used ++ rest) = .ok (ty, rest) :=
      valueType_complete h (by simp [hrest]) (by simp [hrest])
    rw [parameterType, bind_of_ok peekKind_run, if_neg (by simp [IsType.headKind_eq h]),
      bind_of_ok htype]
    rfl

/-- A parameter from the tokens of its type and those of its value. -/
theorem isParameter_of_parts {src : Source} {array : Bool} {ts body : List Token} {ty : ValueType}
    {o c : Token} {arg : Argument} (hts : TypeTokens array ts ty) (hvoid : ty.isVoid = false)
    (ho : o.kind = .lparen) (hbody : Balanced body) (hne : body ≠ []) (hc : c.kind = .rparen)
    (harg : match array with
      | false => arg = .single (written src body)
      | true => (arg = .array (written src body) ∧ ¬ IsList body) ∨
          ∃ lb inner rb items, arg = .literal (items.map (written src)) ∧
            body = lb :: (inner ++ [rb]) ∧ lb.kind = .lbracket ∧ IsItems inner items ∧
            rb.kind = .rbracket) :
    IsParameter src (ts ++ o :: (body ++ [c])) ⟨ty, arg, spanOf (ts ++ o :: (body ++ [c]))⟩ := by
  cases array with
  | false =>
    subst harg
    exact .single hts hvoid ho hbody hne hc
  | true =>
    obtain ⟨l, us, r, rfl, hl, hty, hr⟩ := hts
    rcases harg with ⟨rfl, hlist⟩ | ⟨lb, inner, rb, items, rfl, rfl, hlb, hitems, hrb⟩
    · have hp : IsParameter src _ _ := .array hl hty hvoid hr ho hbody hne hlist hc
      simpa using hp
    · have hp : IsParameter src _ _ := .literal hl hty hvoid hr ho hlb hitems hrb hc
      simpa using hp

theorem IsItems.map_textOf {src : Source} {ts : List Token} {items : List (List Token)}
    (h : IsItems ts items) : items.map (textOf src) = items.map (written src) := by
  apply List.map_congr_left
  intro item hitem
  exact textOf_eq_written (h.ne_nil item hitem)

theorem TypeTokens.exists_cons {array : Bool} {ts : List Token} {ty : ValueType}
    (h : TypeTokens array ts ty) : ∃ t us, ts = t :: us := by
  cases array with
  | true =>
    obtain ⟨l, us, r, rfl, -⟩ := h
    exact ⟨l, us ++ [r], rfl⟩
  | false =>
    cases h with
    | host _ _ => exact ⟨_, [], rfl⟩
    | java _ _ _ => exact ⟨_, [], rfl⟩
    | object _ _ _ => exact ⟨_, _, rfl⟩

theorem parameter_sound {src : Source} {ts rest : List Token} {p : Parameter}
    (h : parameter src ts = .ok (p, rest)) :
    ∃ used, ts = used ++ rest ∧ IsParameter src used p := by
  rw [parameter, bind_of_ok peek_run, bind_eq_ok] at h
  obtain ⟨⟨array, ty⟩, mid, hty, h⟩ := h
  obtain ⟨us, rfl, htokens⟩ := parameterType_sound hty
  obtain ⟨start, us', rfl⟩ := TypeTokens.exists_cons htokens
  simp only [List.cons_append, List.headD_cons] at h
  by_cases hvoid : ty.isVoid = true
  · simp [hvoid] at h
  rw [if_neg hvoid, bind_of_ok peekKind_run] at h
  by_cases hk : headKind mid ≠ .lparen
  · simp [hk] at h
  obtain ⟨o, mid₁, rfl, ho⟩ :=
    eq_cons_of_headKind (by simpa using hk : headKind mid = .lparen) (by simp)
  rw [if_neg (by simpa using ho), bind_eq_ok] at h
  obtain ⟨g, mid₂, hg, h⟩ := h
  obtain ⟨rfl, hbody, hmatch⟩ := group_eq_ok.mp hg
  by_cases hempty : g.contents.isEmpty = true
  · simp [hempty] at h
  rw [if_neg hempty] at h
  have hne : g.contents ≠ [] := by simpa using hempty
  have hclose : g.closer.kind = .rparen := by
    rw [ho] at hmatch
    simpa [TokenKind.closer?] using hmatch.symm
  have hspan : start.span.to g.closer.span
      = spanOf (start :: us' ++ o :: (g.contents ++ [g.closer])) := by
    have hsnoc := spanOf_snoc start g.closer (us' ++ o :: g.contents)
    simpa using hsnoc.symm
  rw [hspan] at h
  refine ⟨start :: us' ++ o :: (g.contents ++ [g.closer]), ?_⟩
  cases array with
  | false =>
    cases h
    refine ⟨by simp, isParameter_of_parts htokens (by simpa using hvoid) ho hbody hne hclose ?_⟩
    exact congrArg Argument.single (textOf_eq_written hne)
  | true =>
    rw [if_neg (by simp), bind_eq_ok] at h
    obtain ⟨found, mid₃, hlift, h⟩ := h
    obtain ⟨hfound, rfl⟩ := liftM_eq_ok.mp hlift
    rcases arrayElements?_sound hbody hfound with
      ⟨rfl, hlist⟩ | ⟨lb, inner, rb, items, rfl, hcontents, hlb, hitems, hrb⟩
    · cases h
      refine ⟨by simp, isParameter_of_parts htokens (by simpa using hvoid) ho hbody hne hclose ?_⟩
      exact .inl ⟨congrArg Argument.array (textOf_eq_written hne), hlist⟩
    · cases h
      refine ⟨by simp, isParameter_of_parts htokens (by simpa using hvoid) ho hbody hne hclose ?_⟩
      exact .inr ⟨lb, inner, rb, items, congrArg Argument.literal (IsItems.map_textOf hitems),
        hcontents, hlb, hitems, hrb⟩

/-- A parameter consists of the tokens of its type and those of its value. -/
theorem parts_of_isParameter {src : Source} {ts : List Token} {p : Parameter}
    (h : IsParameter src ts p) :
    ∃ array us o body c, ts = us ++ o :: (body ++ [c]) ∧ TypeTokens array us p.ty ∧
      p.ty.isVoid = false ∧ o.kind = .lparen ∧ Balanced body ∧ body ≠ [] ∧ c.kind = .rparen ∧
      p.span = spanOf ts ∧
      match array with
      | false => p.arg = .single (written src body)
      | true => (p.arg = .array (written src body) ∧ arrayElements? body = .ok none) ∨
          ∃ items, p.arg = .literal (items.map (textOf src)) ∧
            arrayElements? body = .ok (some items) := by
  cases h with
  | @single o c ts body ty hty hvoid ho hbody hne hc =>
    exact ⟨false, ts, o, body, c, rfl, hty, hvoid, ho, hbody, hne, hc, rfl, rfl⟩
  | @array l r o c ts body ty hl hty hvoid hr ho hbody hne hlist hc =>
    exact ⟨true, l :: (ts ++ [r]), o, body, c, by simp, ⟨l, ts, r, rfl, hl, hty, hr⟩, hvoid, ho,
      hbody, hne, hc, rfl, .inl ⟨rfl, arrayElements?_value hbody hlist⟩⟩
  | @literal l r o lb rb c ts inner items ty hl hty hvoid hr ho hlb hitems hrb hc =>
    have hbody : Balanced (lb :: (inner ++ [rb])) :=
      .group (by rw [hlb, hrb]; rfl) hitems.balanced .nil
    exact ⟨true, l :: (ts ++ [r]), o, lb :: (inner ++ [rb]), c, by simp,
      ⟨l, ts, r, rfl, hl, hty, hr⟩, hvoid, ho, hbody, by simp, hc, rfl,
      .inr ⟨items, congrArg Argument.literal (IsItems.map_textOf hitems).symm,
        arrayElements?_literal hlb hrb hitems⟩⟩

theorem parameter_complete {src : Source} {used rest : List Token} {p : Parameter}
    (h : IsParameter src used p) : parameter src (used ++ rest) = .ok (p, rest) := by
  obtain ⟨ty, arg, span⟩ := p
  obtain ⟨array, us, o, body, c, rfl, hty, hvoid, ho, hbody, hne, hc, hspan, harg⟩ :=
    parts_of_isParameter h
  simp only at hty hvoid hspan harg
  obtain ⟨start, us', rfl⟩ := TypeTokens.exists_cons hty
  have htype : parameterType (start :: us' ++ (o :: (body ++ c :: rest))) =
      .ok ((array, ty), o :: (body ++ c :: rest)) := parameterType_complete hty (by simpa using ho)
  have hgroup : Reader.group (o :: (body ++ c :: rest)) = .ok (⟨body, c⟩, rest) :=
    group_eq_ok.mpr ⟨rfl, hbody, by rw [ho, hc]; rfl⟩
  have hto : start.span.to c.span = span := by
    rw [hspan, List.cons_append, ← spanOf_snoc start c (us' ++ o :: body)]
    simp
  have hlist : start :: us' ++ o :: (body ++ [c]) ++ rest
      = start :: us' ++ (o :: (body ++ c :: rest)) := by simp
  rw [hlist, parameter, bind_of_ok peek_run, bind_of_ok htype]
  simp only [List.cons_append, List.headD_cons]
  rw [if_neg (by simp [hvoid]), bind_of_ok peekKind_run, if_neg (by simpa using ho),
    bind_of_ok hgroup]
  simp only [hto]
  rw [if_neg (by simpa using hne)]
  cases array with
  | false =>
    rw [harg, ← textOf_eq_written hne]
    rfl
  | true =>
    rcases harg with ⟨rfl, helements⟩ | ⟨items, rfl, helements⟩
    · rw [if_neg (by simp), bind_of_ok (liftM_eq_ok.mpr ⟨helements, rfl⟩), ← textOf_eq_written hne]
      rfl
    · rw [if_neg (by simp), bind_of_ok (liftM_eq_ok.mpr ⟨helements, rfl⟩)]
      rfl

/-- A parameter starts with a name or a bracket. -/
theorem IsParameter.headKind_eq {src : Source} {ts rest : List Token} {p : Parameter}
    (h : IsParameter src ts p) :
    headKind (ts ++ rest) = .ident ∨ headKind (ts ++ rest) = .lbracket := by
  cases h with
  | single hty =>
    left
    rw [List.append_assoc]
    exact IsType.headKind_eq hty
  | array hl => exact .inr hl
  | literal hl => exact .inr hl

theorem IsParameters.length_le {src : Source} {ts : List Token} {ps : List Parameter}
    (h : IsParameters src ts ps) : ps.length ≤ ts.length := by
  have hpos {us : List Token} {p : Parameter} (hp : IsParameter src us p) : 0 < us.length := by
    obtain ⟨_, _, _, _, _, rfl, -⟩ := parts_of_isParameter hp
    simp only [List.length_append, List.length_cons]
    omega
  induction h with
  | nil => simp
  | last hp => exact hpos hp
  | more hp _ _ ih =>
    have := hpos hp
    simp only [List.length_append, List.length_cons]
    omega

theorem parametersUpTo_sound {src : Source} {fuel : Nat} {ts rest : List Token}
    {ps : List Parameter} (h : parametersUpTo src fuel ts = .ok (ps, rest)) :
    ∃ used, ts = used ++ rest ∧ IsParameters src used ps := by
  induction fuel generalizing ts ps with
  | zero =>
    cases h
    exact ⟨[], rfl, .nil⟩
  | succ fuel ih =>
    rw [parametersUpTo, bind_of_ok peekKind_run] at h
    generalize headKind ts = k at h
    split at h
    · cases h
      exact ⟨[], rfl, .nil⟩
    · simp at h
    · rw [bind_eq_ok] at h
      obtain ⟨p, mid, hp, h⟩ := h
      obtain ⟨used, rfl, hused⟩ := parameter_sound hp
      rw [bind_of_ok peekKind_run] at h
      split at h
      · rename_i hcomma
        obtain ⟨comma, mid', rfl, hkind⟩ := eq_cons_of_headKind hcomma (by simp)
        rw [bind_of_ok advance_run, List.tail_cons, bind_eq_ok] at h
        obtain ⟨more, mid'', hmore, h⟩ := h
        cases h
        obtain ⟨used', rfl, hused'⟩ := ih hmore
        exact ⟨used ++ comma :: used', by simp, .more hused hkind hused'⟩
      · cases h
        exact ⟨used, rfl, .last hused⟩

theorem parametersUpTo_complete {src : Source} {fuel : Nat} {used rest : List Token}
    {ps : List Parameter} (h : IsParameters src used ps) (hfuel : ps.length ≤ fuel)
    (hrest : headKind rest = .rparen) :
    parametersUpTo src fuel (used ++ rest) = .ok (ps, rest) := by
  -- one more parameter is read as long as a parameter comes next
  have hstep {us more : List Token} {p : Parameter} (n : Nat) (hp : IsParameter src us p) :
      parametersUpTo src (n + 1) (us ++ more) =
        (do
          if (← peekKind) = .comma then
            let _ ← advance
            return p :: (← parametersUpTo src n)
          else return [p] : Reader (List Parameter)) more := by
    rw [parametersUpTo, bind_of_ok peekKind_run]
    have hhead : headKind (us ++ more) = .ident ∨ headKind (us ++ more) = .lbracket :=
      IsParameter.headKind_eq hp
    rcases hhead with hk | hk <;>
    · simp only [hk]
      rw [bind_of_ok (parameter_complete hp)]
  induction h generalizing fuel with
  | nil =>
    cases fuel with
    | zero => rfl
    | succ n =>
      rw [List.nil_append, parametersUpTo, bind_of_ok peekKind_run]
      simp [hrest]
  | last hp =>
    cases fuel with
    | zero => simp at hfuel
    | succ n =>
      rw [hstep n hp, bind_of_ok peekKind_run, if_neg (by simp [hrest])]
      rfl
  | @more us vs comma p ps hp hcomma _ ih =>
    cases fuel with
    | zero => simp at hfuel
    | succ n =>
      have hmore : parametersUpTo src n (vs ++ rest) = .ok (ps, rest) := ih (by simpa using hfuel)
      rw [List.append_assoc, hstep n hp, bind_of_ok peekKind_run, if_pos (by simpa using hcomma),
        List.cons_append, bind_of_ok advance_run, List.tail_cons, bind_of_ok hmore]
      rfl

theorem parameters_sound {src : Source} {ts rest : List Token} {ps : List Parameter}
    (h : parameters src ts = .ok (ps, rest)) :
    ∃ o used c, ts = o :: (used ++ c :: rest) ∧ o.kind = .lparen ∧ IsParameters src used ps ∧
      c.kind = .rparen := by
  rw [parameters, bind_eq_ok] at h
  obtain ⟨o, mid, ho, h⟩ := h
  obtain ⟨rfl, hokind⟩ := (expect_eq_ok (by simp)).mp ho
  rw [bind_of_ok get_run, bind_eq_ok] at h
  obtain ⟨ps', mid', hps, h⟩ := h
  obtain ⟨used, rfl, hused⟩ := parametersUpTo_sound hps
  rw [bind_eq_ok] at h
  obtain ⟨c, mid'', hc, h⟩ := h
  obtain ⟨rfl, hckind⟩ := (expect_eq_ok (by simp)).mp hc
  cases h
  exact ⟨o, used, c, rfl, hokind, hused, hckind⟩

theorem parameters_complete {src : Source} {used rest : List Token} {ps : List Parameter}
    {o c : Token} (ho : o.kind = .lparen) (h : IsParameters src used ps) (hc : c.kind = .rparen) :
    parameters src (o :: (used ++ c :: rest)) = .ok (ps, rest) := by
  have hopen : expect .lparen .noParameterList [] (o :: (used ++ c :: rest))
      = .ok (o, used ++ c :: rest) := (expect_eq_ok (by simp)).mpr ⟨rfl, ho⟩
  have hfuel : ps.length ≤ (used ++ c :: rest).length := by
    have := IsParameters.length_le h
    simp only [List.length_append]
    omega
  have hrun : parametersUpTo src (used ++ c :: rest).length (used ++ c :: rest)
      = .ok (ps, c :: rest) := parametersUpTo_complete h hfuel (by simpa using hc)
  have hclose : expect .rparen .noParameterEnd [.comma] (c :: rest) = .ok (c, rest) :=
    (expect_eq_ok (by simp)).mpr ⟨rfl, hc⟩
  rw [parameters, bind_of_ok hopen, bind_of_ok get_run, bind_of_ok hrun, bind_of_ok hclose]
  rfl

/-! ### Return specifications -/

theorem startsWithWord_eq_true {w : Bytes} {ts : List Token} (h : startsWithWord w ts = true) :
    ∃ t us, ts = t :: us ∧ t.kind = .ident ∧ t.literal = w := by
  match ts with
  | [] => simp [startsWithWord] at h
  | [_] => simp [startsWithWord] at h
  | t :: u :: us =>
    simp only [startsWithWord, Bool.and_eq_true, beq_iff_eq] at h
    exact ⟨t, u :: us, rfl, h.1.1, h.1.2⟩

theorem option_sound {w : Token} {ts rest : List Token} {ok : Success} (hkind : w.kind = .ident)
    (hword : w.literal = ("Option" : Bytes)) (h : option (w :: ts) = .ok (ok, rest)) :
    ∃ used, w :: ts = used ++ rest ∧ IsSuccess used ok := by
  rw [option, bind_of_ok advance_run, bind_eq_ok] at h
  obtain ⟨l, mid, hl, h⟩ := h
  obtain ⟨heq, hlkind⟩ := (expect_eq_ok (by simp)).mp hl
  rw [List.tail_cons] at heq
  subst heq
  rw [bind_eq_ok] at h
  obtain ⟨ty, mid', hty, h⟩ := h
  obtain ⟨used, rfl, hused⟩ := valueType_sound hty
  cases ty with
  | object c =>
    simp only [bind_eq_ok] at h
    obtain ⟨g, mid'', hg, h⟩ := h
    obtain ⟨rfl, hgkind⟩ := (expect_eq_ok (by simp)).mp hg
    cases h
    refine ⟨w :: l :: (used ++ [g]), by simp, ?_⟩
    have hspan : w.span.to g.span = spanOf (w :: l :: (used ++ [g])) :=
      (spanOf_snoc w g (l :: used)).symm
    simp only [List.headD_cons]
    rw [hspan]
    exact .option hkind hword hlkind hused hgkind
  | host k s => simp [ValueType.isVoid] at h
  | java k s => cases k <;> simp [ValueType.isVoid] at h

theorem option_complete {w l g : Token} {ts rest : List Token} {c : ClassPath}
    (hl : l.kind = .lt) (hty : IsType ts (.object c)) (hg : g.kind = .gt) :
    option (w :: l :: (ts ++ g :: rest)) =
      .ok (.option c (spanOf (w :: l :: (ts ++ [g]))), rest) := by
  have hopen : expect .lt .optionWithoutArgument [] (l :: (ts ++ g :: rest))
      = .ok (l, ts ++ g :: rest) := (expect_eq_ok (by simp)).mpr ⟨rfl, hl⟩
  have htype : valueType (ts ++ g :: rest) = .ok (.object c, g :: rest) :=
    valueType_complete hty (by simp [hg]) (by simp [hg])
  have hclose : expect .gt .optionWithMoreArguments [] (g :: rest) = .ok (g, rest) :=
    (expect_eq_ok (by simp)).mpr ⟨rfl, hg⟩
  have hspan : spanOf (w :: l :: (ts ++ [g])) = w.span.to g.span := spanOf_snoc w g (l :: ts)
  rw [option, bind_of_ok advance_run, List.tail_cons, bind_of_ok hopen, bind_of_ok htype]
  simp only
  rw [bind_of_ok hclose, hspan]
  rfl

theorem success_sound {ts rest : List Token} {ok : Success} (h : success ts = .ok (ok, rest)) :
    ∃ used, ts = used ++ rest ∧ IsSuccess used ok := by
  rw [success, bind_of_ok (atKeyword_run _)] at h
  split at h
  · rename_i hword
    obtain ⟨w, us, rfl, hkind, hliteral⟩ := startsWithWord_eq_true hword
    exact option_sound hkind hliteral h
  · rw [bind_eq_ok] at h
    obtain ⟨ty, mid, hty, h⟩ := h
    cases h
    obtain ⟨used, heq, hused⟩ := valueType_sound hty
    exact ⟨used, heq, .value hused⟩

theorem success_complete {used rest : List Token} {ok : Success} (h : IsSuccess used ok)
    (hdot : headKind rest ≠ .dot) (hdollar : headKind rest ≠ .dollar) :
    success (used ++ rest) = .ok (ok, rest) := by
  rw [success, bind_of_ok (atKeyword_run _)]
  cases h with
  | value hty =>
    have hno : startsWithWord "Option" (used ++ rest) = false :=
      startsWithWord_of_isType hty (by decide) (by decide)
    rw [if_neg (by simp [hno]), bind_of_ok (valueType_complete hty hdot hdollar)]
    rfl
  | @option w l g ts c hkind hword hl hty hg =>
    have hyes : startsWithWord "Option" (w :: l :: (ts ++ [g]) ++ rest) = true := by
      simp [startsWithWord, hkind, hword, hl]
    rw [if_pos hyes]
    have hrun : Reader.option (w :: l :: (ts ++ g :: rest))
        = .ok (.option c (spanOf (w :: l :: (ts ++ [g]))), rest) := option_complete hl hty hg
    simpa using hrun

theorem upToClosingGt_append (depth : Nat) (ts : List Token) :
    (upToClosingGt depth ts).1 ++ (upToClosingGt depth ts).2 = ts ∧
      ∀ t ∈ (upToClosingGt depth ts).1, t.kind ≠ .eof := by
  induction ts generalizing depth with
  | nil => simp [upToClosingGt]
  | cons t ts ih =>
    rw [upToClosingGt]
    split
    · simp
    · rename_i hstop
      simp only [not_or] at hstop
      obtain ⟨happend, heof⟩ :=
        ih (if t.kind = .lt then depth + 1 else if t.kind = .gt then depth - 1 else depth)
      refine ⟨by simp [happend], ?_⟩
      intro u hu
      rcases List.mem_cons.mp hu with rfl | hu
      · exact hstop.1
      · exact heof u hu

/-- The error type of a result is the one word `String`. Only its text is compared, so where the
    tokens come from matters. -/
theorem errorType_sound {src : Source} {before ts rest : List Token} {u : Unit}
    (htokens : src.tokens = before ++ ts) (h : errorType src ts = .ok (u, rest)) :
    ∃ s, ts = s :: rest ∧ s.kind = .ident ∧ s.literal = ("String" : Bytes) := by
  have hrun : (modifyGet (upToClosingGt 0) : Reader (List Token)) ts
      = .ok ((upToClosingGt 0 ts).1, (upToClosingGt 0 ts).2) := rfl
  obtain ⟨happend, heof⟩ := upToClosingGt_append 0 ts
  rw [errorType, bind_of_ok hrun] at h
  generalize (upToClosingGt 0 ts).1 = found at h happend heof
  generalize (upToClosingGt 0 ts).2 = more at h happend
  cases found with
  | nil => simp at h
  | cons t us =>
    simp only [List.head?_cons, List.getLast?_eq_some_getLast (List.cons_ne_nil t us)] at h
    split at h
    · rename_i htext
      cases h
      rw [← happend] at htokens
      obtain ⟨rfl, hkind, hliteral⟩ := (Source.textOf_eq_string_iff htokens heof).mp htext
      exact ⟨t, happend.symm, hkind, hliteral⟩
    · simp at h

theorem errorType_complete {src : Source} {before rest : List Token} {s g : Token}
    (htokens : src.tokens = before ++ s :: g :: rest) (hkind : s.kind = .ident)
    (hword : s.literal = ("String" : Bytes)) (hg : g.kind = .gt) :
    errorType src (s :: g :: rest) = .ok ((), g :: rest) := by
  have hrun : (modifyGet (upToClosingGt 0) : Reader (List Token)) (s :: g :: rest)
      = .ok ([s], g :: rest) := by
    change Except.ok (upToClosingGt 0 (s :: g :: rest)) = _
    simp [upToClosingGt, hkind, hg]
  have htext : textOf src [s] = ("String" : Bytes) := by
    rw [Source.textOf_singleton htokens (by simp [hkind]), hword]
  rw [errorType, bind_of_ok hrun]
  simp [htext]

theorem returnSpec_sound {src : Source} {before ts rest : List Token} {r : ReturnSpec}
    (htokens : src.tokens = before ++ ts) (h : returnSpec src ts = .ok (r, rest)) :
    ∃ used, ts = used ++ rest ∧ IsReturn used r := by
  rw [returnSpec, bind_of_ok (atKeyword_run _)] at h
  split at h
  · rename_i hword
    obtain ⟨w, us, rfl, hkind, hliteral⟩ := startsWithWord_eq_true hword
    rw [bind_of_ok advance_run, bind_eq_ok] at h
    obtain ⟨l, mid, hl, h⟩ := h
    obtain ⟨heq, hlkind⟩ := (expect_eq_ok (by simp)).mp hl
    rw [List.tail_cons] at heq
    subst heq
    rw [bind_of_ok (atKeyword_run _)] at h
    split at h
    · simp [bind_of_ok peek_run] at h
    rw [bind_eq_ok] at h
    obtain ⟨ok, mid₁, hok, h⟩ := h
    obtain ⟨used, rfl, hused⟩ := success_sound hok
    rw [bind_eq_ok] at h
    obtain ⟨comma, mid₂, hcomma, h⟩ := h
    obtain ⟨rfl, hcommakind⟩ := (expect_eq_ok (by simp)).mp hcomma
    rw [bind_eq_ok] at h
    obtain ⟨_, mid₃, herror, h⟩ := h
    have hbefore : src.tokens = (before ++ w :: l :: (used ++ [comma])) ++ mid₂ := by
      rw [htokens]
      simp
    obtain ⟨s, rfl, hskind, hsword⟩ := errorType_sound hbefore herror
    rw [bind_eq_ok] at h
    obtain ⟨g, mid₄, hg, h⟩ := h
    obtain ⟨rfl, hgkind⟩ := (expect_eq_ok (by simp)).mp hg
    cases h
    refine ⟨w :: l :: (used ++ [comma, s, g]), by simp, ?_⟩
    have hspan : w.span.to g.span = spanOf (w :: l :: (used ++ [comma, s, g])) := by
      rw [← spanOf_snoc w g (l :: (used ++ [comma, s]))]
      simp
    simp only [List.headD_cons]
    rw [hspan]
    exact .result hkind hliteral hlkind hused hcommakind hskind hsword hgkind
  · rw [bind_eq_ok] at h
    obtain ⟨ok, mid, hok, h⟩ := h
    cases h
    obtain ⟨used, heq, hused⟩ := success_sound hok
    exact ⟨used, heq, .plain hused⟩

/-- What a call that succeeds gives back never reads as a result. -/
theorem startsWithWord_result {used rest : List Token} {ok : Success} (h : IsSuccess used ok) :
    startsWithWord "Result" (used ++ rest) = false := by
  cases h with
  | value hty => exact startsWithWord_of_isType hty (by decide) (by decide)
  | option _ hword _ _ _ =>
    have hne : ("Option" : Bytes) ≠ ("Result" : Bytes) := by decide
    simp [startsWithWord, hword, hne]

theorem returnSpec_complete {src : Source} {before used rest : List Token} {r : ReturnSpec}
    (htokens : src.tokens = before ++ (used ++ rest)) (h : IsReturn used r)
    (hrest : headKind rest = .eof) : returnSpec src (used ++ rest) = .ok (r, rest) := by
  rw [returnSpec, bind_of_ok (atKeyword_run _)]
  cases h with
  | plain hok =>
    have hno : startsWithWord "Result" (used ++ rest) = false := startsWithWord_result hok
    rw [if_neg (by simp [hno]),
      bind_of_ok (success_complete hok (by simp [hrest]) (by simp [hrest]))]
    rfl
  | @result w l comma s g ts ok hkind hword hl hok hcomma hskind hsword hg =>
    have hyes : startsWithWord "Result" (w :: l :: (ts ++ [comma, s, g]) ++ rest) = true := by
      simp [startsWithWord, hkind, hword, hl]
    have hopen : expect .lt .resultWithoutArguments [] (l :: (ts ++ comma :: s :: g :: rest))
        = .ok (l, ts ++ comma :: s :: g :: rest) := (expect_eq_ok (by simp)).mpr ⟨rfl, hl⟩
    have hno : startsWithWord "Result" (ts ++ comma :: s :: g :: rest) = false :=
      startsWithWord_result hok
    have hrun : success (ts ++ comma :: s :: g :: rest) = .ok (ok, comma :: s :: g :: rest) :=
      success_complete hok (by simp [hcomma]) (by simp [hcomma])
    have hsep : expect .comma .resultWithOneArgument [] (comma :: s :: g :: rest)
        = .ok (comma, s :: g :: rest) := (expect_eq_ok (by simp)).mpr ⟨rfl, hcomma⟩
    have hbefore : src.tokens = (before ++ w :: l :: (ts ++ [comma])) ++ s :: g :: rest := by
      rw [htokens]
      simp
    have herror := errorType_complete hbefore hskind hsword hg
    have hclose : expect .gt .unclosedResult [] (g :: rest) = .ok (g, rest) :=
      (expect_eq_ok (by simp)).mpr ⟨rfl, hg⟩
    have hspan : spanOf (w :: l :: (ts ++ [comma, s, g])) = w.span.to g.span := by
      rw [← spanOf_snoc w g (l :: (ts ++ [comma, s]))]
      simp
    rw [if_pos hyes, bind_of_ok advance_run]
    simp only [List.cons_append, List.append_assoc, List.nil_append, List.tail_cons]
    rw [bind_of_ok hopen, bind_of_ok (atKeyword_run _), if_neg (by simp [hno]), bind_of_ok hrun,
      bind_of_ok hsep, bind_of_ok herror, bind_of_ok hclose, hspan]
    rfl

/-! ### Calls -/

theorem IsType.span_eq {ts : List Token} {ty : ValueType} (h : IsType ts ty) :
    ty.span = spanOf ts ∧ ts ≠ [] := by
  cases h with
  | host => exact ⟨rfl, by simp⟩
  | java => exact ⟨rfl, by simp⟩
  | object _ _ hpath => exact IsPath.span_eq hpath

theorem IsSuccess.span_eq {ts : List Token} {ok : Success} (h : IsSuccess ts ok) :
    ok.span = spanOf ts ∧ ts ≠ [] := by
  cases h with
  | value hty => exact IsType.span_eq hty
  | option => exact ⟨rfl, by simp⟩

theorem IsReturn.span_eq {ts : List Token} {r : ReturnSpec} (h : IsReturn ts r) :
    r.span = spanOf ts ∧ ts ≠ [] := by
  cases h with
  | result => exact ⟨rfl, by simp⟩
  | plain hok => exact IsSuccess.span_eq hok

theorem IsTarget.ne_nil {src : Source} {ts : List Token} {tg : Target} {m : Token}
    (h : IsTarget src ts tg m) : ∃ t us, ts = t :: us := by
  cases h <;> exact ⟨_, _, rfl⟩

/-- A call reaches from its first token to the end of its return specification. -/
theorem spanOf_call {t : Token} {ts us rs : List Token} {r : ReturnSpec} (h : IsReturn rs r) :
    spanOf (t :: ts ++ (us ++ rs)) = ⟨t.span.start, r.span.stop⟩ := by
  obtain ⟨hspan, hne⟩ := IsReturn.span_eq h
  have hsplit : t :: ts ++ (us ++ rs) = t :: ((ts ++ us) ++ rs) := by simp
  rw [hsplit, spanOf_append hne, hspan]

theorem call_sound {src : Source} {c : Call} {rest : List Token}
    (h : call src src.tokens = .ok (c, rest)) :
    ∃ used, src.tokens = used ++ rest ∧ IsCall src used c ∧ headKind rest = .eof := by
  rw [call, bind_of_ok peek_run, bind_eq_ok] at h
  obtain ⟨⟨tg, m⟩, mid₁, htarget, h⟩ := h
  obtain ⟨ts, hts, htg⟩ := target_sound htarget
  rw [bind_eq_ok] at h
  obtain ⟨params, mid₂, hparams, h⟩ := h
  obtain ⟨o, ps, cl, rfl, ho, hps, hcl⟩ := parameters_sound hparams
  rw [bind_eq_ok] at h
  obtain ⟨arrow, mid₃, harrow, h⟩ := h
  obtain ⟨rfl, harrowkind⟩ := (expect_eq_ok (by simp)).mp harrow
  rw [bind_eq_ok] at h
  obtain ⟨ret, mid₄, hret, h⟩ := h
  have hbefore : src.tokens = (ts ++ o :: (ps ++ [cl, arrow])) ++ mid₃ := by
    rw [hts]
    simp
  obtain ⟨rs, rfl, hrs⟩ := returnSpec_sound hbefore hret
  rw [bind_eq_ok] at h
  obtain ⟨_, mid₅, hend, h⟩ := h
  obtain ⟨heof, rfl⟩ := expectEnd_eq_ok.mp hend
  cases h
  refine ⟨ts ++ o :: (ps ++ cl :: arrow :: rs), by simp [hts], ?_, heof⟩
  have hcall := IsCall.mk htg ho hps hcl harrowkind hrs
  obtain ⟨t, us, rfl⟩ := IsTarget.ne_nil htg
  have hspan : spanOf (t :: us ++ (o :: (ps ++ [cl, arrow]) ++ rs))
      = ⟨t.span.start, ret.span.stop⟩ := spanOf_call hrs
  have hhead : src.tokens.headD (Lexer.endToken .origin) = t := by
    rw [hts]
    rfl
  rw [hhead, ← hspan]
  simpa using hcall

theorem call_complete {src : Source} {c : Call} {used rest : List Token}
    (htokens : src.tokens = used ++ rest) (h : IsCall src used c) (hrest : headKind rest = .eof) :
    call src src.tokens = .ok (c, rest) := by
  cases h with
  | @mk o cl arrow m ts ps rs tg params ret htg ho hps hcl harrow hrs =>
    have hsplit : src.tokens = ts ++ (o :: (ps ++ cl :: arrow :: (rs ++ rest))) := by
      rw [htokens]
      simp
    have htarget : target src src.tokens
        = .ok ((tg, m), o :: (ps ++ cl :: arrow :: (rs ++ rest))) := by
      rw [hsplit]
      exact target_complete htg ho
    have hparams : parameters src (o :: (ps ++ cl :: arrow :: (rs ++ rest)))
        = .ok (params, arrow :: (rs ++ rest)) := parameters_complete ho hps hcl
    have harrow' : expect .arrow .noArrow [] (arrow :: (rs ++ rest)) = .ok (arrow, rs ++ rest) :=
      (expect_eq_ok (by simp)).mpr ⟨rfl, harrow⟩
    have hbefore : src.tokens = (ts ++ o :: (ps ++ [cl, arrow])) ++ (rs ++ rest) := by
      rw [hsplit]
      simp
    have hret := returnSpec_complete hbefore hrs hrest
    have hend : expectEnd .returnType rest = .ok ((), rest) := expectEnd_eq_ok.mpr ⟨hrest, rfl⟩
    rw [call, bind_of_ok peek_run, bind_of_ok htarget]
    simp only
    rw [bind_of_ok hparams, bind_of_ok harrow', bind_of_ok hret, bind_of_ok hend]
    obtain ⟨t, us, rfl⟩ := IsTarget.ne_nil htg
    have hspan : spanOf (t :: us ++ (o :: (ps ++ [cl, arrow]) ++ rs))
        = ⟨t.span.start, ret.span.stop⟩ := spanOf_call hrs
    have hhead : src.tokens.headD (Lexer.endToken .origin) = t := by
      rw [hsplit]
      rfl
    have hlist : t :: us ++ o :: (ps ++ cl :: arrow :: rs)
        = t :: us ++ (o :: (ps ++ [cl, arrow]) ++ rs) := by simp
    rw [hhead, hlist, hspan]
    rfl

end Reader

/-! ### Whole texts -/

/-- The words of a text are the tokens read from it, when only its end is left over. -/
theorem Source.words_eq_of_clean {src : Source} {used rest : List Token}
    (htokens : src.tokens = used ++ rest) (hused : Grammar.Clean used)
    (hrest : Reader.headKind rest = .eof) : src.words = used := by
  obtain ⟨e, he, hall⟩ := src.tokens_eq
  cases rest with
  | nil =>
    -- then the end of the input would be one of the tokens read
    have hmem : e ∈ used := by
      rw [← List.append_nil used, ← htokens, hall]
      simp
    exact absurd he (hused e hmem).1
  | cons t rest => exact Source.words_eq_of_tokens htokens hrest

theorem Reader.run_eq_ok {α : Type} {r : Reader α} {src : Source} {a : α} :
    Reader.run r src = .ok a ↔ ∃ rest, r src.tokens = .ok (a, rest) := by
  rw [run]
  cases r src.tokens with
  | error e => simp [Except.map]
  | ok result => simp [Except.map, Prod.ext_iff]

namespace Call

/-- A call is read exactly when it is spelt by all tokens before the end of the input. -/
theorem parse_eq_ok_iff {src : Source} {c : Call} :
    Call.parse src = .ok c ↔ Grammar.IsCall src src.words c := by
  rw [Call.parse, Reader.run_eq_ok]
  constructor
  · rintro ⟨rest, hrun⟩
    obtain ⟨used, hused, hcall, heof⟩ := Reader.call_sound hrun
    rw [Source.words_eq_of_clean hused hcall.clean heof]
    exact hcall
  · intro hcall
    obtain ⟨e, he, htokens⟩ := src.tokens_eq
    exact ⟨[e], Reader.call_complete htokens hcall he⟩

/-- **Calls are read exactly.** A text reads as a call if and only if the kinds and literals of its
    tokens are a sentence of the grammar, and the call that is read is the one they denote. -/
theorem parse_exact (src : Source) :
    ((∃ c, Call.parse src = .ok c) ↔ Grammar.IsSentence (src.words.map Token.symbol)) ∧
      ∀ c, Call.parse src = .ok c ↔ Grammar.IsCall src src.words c := by
  refine ⟨⟨?_, ?_⟩, fun c => parse_eq_ok_iff⟩
  · rintro ⟨c, hc⟩
    exact ⟨src, src.words, c, rfl, parse_eq_ok_iff.mp hc⟩
  · rintro ⟨src', ts, c, hts, hcall⟩
    obtain ⟨c', hc'⟩ := hcall.alike hts.symm src
    exact ⟨c', parse_eq_ok_iff.mpr hc'⟩

end Call
end BridgeCall
