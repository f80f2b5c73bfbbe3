/-
  BridgeCall/Proofs/Expr/Reading.lean
  ===================================
  **Readers against the grammar.**  For every reader there are two statements.
  One says that what it read was spelt by the tokens it consumed (`…_sound`), the
  other that it reads what the grammar spells (`…_complete`), as long as the next
  token cannot continue it.
-/
import BridgeCall.Proofs.Expr.Sentence
import BridgeCall.Proofs.Expr.TokenStream

namespace BridgeCall.Reader

open Grammar

/-! ### Primitives -/

section Primitives

variable {α β : Type} {ts rest : List Token}

/-- The kind of the next token; at the end of the list, the end of the input. -/
def headKind (ts : List Token) : TokenKind := (ts.headD (Lexer.endToken .origin)).kind

@[simp] theorem headKind_cons (t : Token) (ts : List Token) : headKind (t :: ts) = t.kind := rfl

theorem bind_eq_ok {x : Reader α} {f : α → Reader β} {r : β × List Token} :
    (x >>= f) ts = .ok r ↔ ∃ a mid, x ts = .ok (a, mid) ∧ f a mid = .ok r := by
  change Except.bind (x ts) (fun p => f p.1 p.2) = .ok r ↔ _
  cases hx : x ts with
  | error e => simp [Except.bind]
  | ok p =>
    constructor
    · intro h
      exact ⟨p.1, p.2, rfl, h⟩
    · rintro ⟨a, mid, hp, h⟩
      cases hp
      exact h

theorem bind_of_ok {x : Reader α} {f : α → Reader β} {a : α} (h : x ts = .ok (a, rest)) :
    (x >>= f) ts = f a rest := by
  change Except.bind (x ts) (fun p => f p.1 p.2) = f a rest
  rw [h]
  rfl

@[simp] theorem pure_run (a : α) : (pure a : Reader α) ts = .ok (a, ts) := rfl

@[simp] theorem throw_run (e : Fault) : (throw e : Reader α) ts = .error e := rfl

@[simp] theorem peek_run : peek ts = .ok (ts.headD (Lexer.endToken .origin), ts) := rfl

@[simp] theorem peekKind_run : peekKind ts = .ok (headKind ts, ts) := rfl

@[simp] theorem advance_run : advance ts = .ok (ts.headD (Lexer.endToken .origin), ts.tail) := rfl

@[simp] theorem get_run : (get : Reader (List Token)) ts = .ok (ts, ts) := rfl

@[simp] theorem fail_run (problem : Problem) (expected : List TokenKind) :
    (fail problem expected : Reader α) ts =
      .error { problem, span := (ts.headD (Lexer.endToken .origin)).span, expected
               got := some (ts.headD (Lexer.endToken .origin)) } := rfl

/-- A result that needs no tokens, as part of reading. -/
theorem liftM_eq_ok {x : Except Fault α} {a : α} :
    (liftM x : Reader α) ts = .ok (a, rest) ↔ x = .ok a ∧ rest = ts := by
  change Except.bind x (fun b => .ok (b, ts)) = .ok (a, rest) ↔ _
  cases x with
  | error e => simp [Except.bind]
  | ok b =>
    simp only [Except.bind, Except.ok.injEq, Prod.mk.injEq]
    exact and_congr_right fun _ => eq_comm

theorem eq_cons_of_headKind {k : TokenKind} (h : headKind ts = k) (hk : k ≠ .eof) :
    ∃ t us, ts = t :: us ∧ t.kind = k := by
  cases ts with
  | nil => exact absurd h.symm hk
  | cons t us => exact ⟨t, us, rfl, h⟩

/-- A token of an expected kind is there exactly when the list starts with one. -/
theorem expect_eq_ok {k : TokenKind} (hk : k ≠ .eof) {problem : Problem} {also : List TokenKind}
    {t : Token} : expect k problem also ts = .ok (t, rest) ↔ ts = t :: rest ∧ t.kind = k := by
  simp only [expect, bind_eq_ok, peekKind_run]
  constructor
  · rintro ⟨k', mid, hpeek, h⟩
    cases hpeek
    split at h
    · rename_i hkind
      obtain ⟨u, us, rfl, hu⟩ := eq_cons_of_headKind hkind hk
      cases h
      exact ⟨rfl, hu⟩
    · simp at h
  · rintro ⟨rfl, hkind⟩
    exact ⟨k, t :: rest, by simp [hkind], by simp⟩

theorem expectEnd_eq_ok {after : Whole} {u : Unit} :
    expectEnd after ts = .ok (u, rest) ↔ headKind ts = .eof ∧ rest = ts := by
  simp only [expectEnd, bind_eq_ok, peekKind_run]
  constructor
  · rintro ⟨k, mid, hpeek, h⟩
    cases hpeek
    split at h
    · rename_i hkind
      cases h
      exact ⟨hkind, rfl⟩
    · simp at h
  · rintro ⟨hkind, rfl⟩
    exact ⟨.eof, rest, by simp [hkind], by simp⟩

/-- Whether the list starts with the given word, not followed by a dot. -/
def startsWithWord (w : Bytes) : List Token → Bool
  | t :: u :: _ => t.kind == .ident && t.literal == w && u.kind != .dot
  | _ => false

@[simp] theorem atKeyword_run (w : Bytes) : atKeyword w ts = .ok (startsWithWord w ts, ts) := by
  match ts with
  | [] => rfl
  | [_] => rfl
  | _ :: _ :: _ => rfl

end Primitives

/-! ### Segments -/

theorem segmentsOf_sound {sep : TokenKind} {ts names rest : List Token}
    (h : segmentsOf sep ts = .ok (names, rest)) :
    ∃ used, ts = used ++ rest ∧ IsSegments sep used names := by
  fun_induction segmentsOf sep ts generalizing names rest with
  | case1 s t ts hs ht ih =>
    cases hmore : segmentsOf sep ts with
    | error e => simp [hmore, bind, Except.bind] at h
    | ok r =>
      simp only [hmore, bind, Except.bind, pure, Except.pure, Except.ok.injEq, Prod.mk.injEq] at h
      obtain ⟨rfl, rfl⟩ := h
      obtain ⟨used, hts, hseg⟩ := ih hmore
      exact ⟨s :: t :: used, by simp [hts], .cons hs ht hseg⟩
  | case2 s t ts hs ht => simp [throw, throwThe, MonadExceptOf.throw] at h
  | case3 s t ts hs =>
    cases h
    exact ⟨[], rfl, .nil⟩
  | case4 ts hshort =>
    cases h
    exact ⟨[], rfl, .nil⟩

theorem segmentsOf_complete {sep : TokenKind} {used names rest : List Token}
    (h : IsSegments sep used names) (hrest : headKind rest ≠ sep) :
    segmentsOf sep (used ++ rest) = .ok (names, rest) := by
  induction h with
  | nil =>
    match rest, hrest with
    | [], _ => rfl
    | [_], _ => rfl
    | s :: t :: rest, hrest =>
      rw [headKind_cons] at hrest
      simp only [List.nil_append, segmentsOf, if_neg hrest]
      rfl
  | cons hsep hname _ ih =>
    simp only [List.cons_append, segmentsOf, if_pos hsep, if_pos hname, ih]
    rfl

/-! ### Class paths -/

/-- The tokens that spell a path. -/
structure Path.Spelt (p : Path) (ts : List Token) : Prop where
  first_kind : p.first.kind = .ident
  dotted_ne : p.dotted ≠ []
  parts : ∃ ds ns, ts = p.first :: (ds ++ ns) ∧ IsSegments .dot ds p.dotted ∧
    IsSegments .dollar ns p.nested

theorem Path.initDotted_append (p : Path) :
    p.initDotted ++ [p.lastDotted] = p.first :: p.dotted := by
  have hlast : p.lastDotted = (p.first :: p.dotted).getLast (by simp) := by
    rw [List.getLast_eq_getLastD]
    rfl
  rw [hlast]
  exact List.dropLast_concat_getLast _

theorem Path.Spelt.span_eq {p : Path} {ts : List Token} (h : p.Spelt ts) : p.span = spanOf ts := by
  obtain ⟨ds, ns, rfl, hds, hns⟩ := h.parts
  have hlast : (p.first :: (ds ++ ns)).getLastD default = p.nested.getLastD p.lastDotted := by
    rw [List.getLastD_cons, getLastD_append, hds.getLastD_eq, hns.getLastD_eq]
    rfl
  simp only [Path.span, Span.to, spanOf, hlast, List.headD_cons]

theorem Path.Spelt.isPath {p : Path} {ts : List Token} (h : p.Spelt ts) :
    IsPath ts p.toClassPath := by
  have hspan := h.span_eq
  obtain ⟨ds, ns, rfl, hds, hns⟩ := h.parts
  refine .mk h.first_kind hds h.dotted_ne hns ?_ rfl hspan
  simp only [Path.toClassPath]
  rw [← p.initDotted_append, List.map_append]
  rfl

theorem exists_spelt_of_isPath {ts : List Token} {c : ClassPath} (h : IsPath ts c) :
    ∃ p : Path, p.Spelt ts ∧ p.toClassPath = c := by
  cases h with
  | @mk first ds ns dotted nested c hfirst hdotted hne hnested houter hinner hspan =>
    have hspelt : Path.Spelt ⟨first, dotted, nested⟩ (first :: (ds ++ ns)) :=
      ⟨hfirst, hne, ds, ns, rfl, hdotted, hnested⟩
    refine ⟨_, hspelt, ?_⟩
    have hnames := Path.initDotted_append ⟨first, dotted, nested⟩
    have hboth := congrArg (List.map Token.literal) hnames
    rw [List.map_append, ← houter] at hboth
    obtain ⟨hpackages, hout⟩ := List.append_inj' hboth rfl
    simp only [List.map_cons, List.map_nil, List.cons.injEq, and_true] at hout
    cases c
    simp only [Path.toClassPath, ClassPath.mk.injEq]
    exact ⟨hpackages, hout, hinner.symm, hspelt.span_eq.trans hspan.symm⟩

theorem path_sound {ts rest : List Token} {p : Path} (h : path ts = .ok (p, rest)) :
    ∃ used, ts = used ++ rest ∧ p.Spelt used := by
  simp only [path, bind_eq_ok, peekKind_run] at h
  obtain ⟨k, mid, hpeek, h⟩ := h
  cases hpeek
  split at h
  · simp at h
  rename_i hkind
  obtain ⟨first, us, rfl, hfirst⟩ := eq_cons_of_headKind (by simpa using hkind : headKind ts = .ident) (by simp)
  simp only [bind_eq_ok, advance_run] at h
  obtain ⟨t, mid, hadvance, dotted, mid₁, hdotted, h⟩ := h
  cases hadvance
  obtain ⟨ds, hds, hdots⟩ := segmentsOf_sound hdotted
  split at h
  · simp at h
  rename_i hne
  simp only [bind_eq_ok] at h
  obtain ⟨nested, mid₂, hnested, h⟩ := h
  cases h
  obtain ⟨ns, hns, hnest⟩ := segmentsOf_sound hnested
  refine ⟨first :: (ds ++ ns), ?_, hfirst, by simpa using hne, ds, ns, rfl, hdots, hnest⟩
  simp only [List.tail_cons] at hds
  simp [hds, hns]

theorem path_complete {used rest : List Token} {p : Path} (h : p.Spelt used)
    (hdot : p.nested = [] → headKind rest ≠ .dot) (hdollar : headKind rest ≠ .dollar) :
    path (used ++ rest) = .ok (p, rest) := by
  obtain ⟨first, dotted, nested⟩ := p
  obtain ⟨hfirst, hne, ds, ns, rfl, hds, hns⟩ := h
  have hstop : headKind (ns ++ rest) ≠ .dot := by
    cases hns with
    | nil => exact hdot rfl
    | cons hsep _ _ => simp [hsep]
  have hdotted : segments .dot (ds ++ (ns ++ rest)) = .ok (dotted, ns ++ rest) :=
    segmentsOf_complete hds hstop
  have hnested : segments .dollar (ns ++ rest) = .ok (nested, rest) :=
    segmentsOf_complete hns hdollar
  have hadvance : advance (first :: (ds ++ (ns ++ rest))) = .ok (first, ds ++ (ns ++ rest)) := rfl
  rw [List.cons_append, List.append_assoc, path, bind_of_ok peekKind_run,
    if_neg (by simpa using hfirst), bind_of_ok hadvance, bind_of_ok hdotted,
    if_neg (by simpa using hne), bind_of_ok hnested]
  rfl

/-! ### Types -/

theorem valueType_sound {ts rest : List Token} {ty : ValueType}
    (h : valueType ts = .ok (ty, rest)) : ∃ used, ts = used ++ rest ∧ IsType used ty := by
  rw [valueType, bind_of_ok peek_run] at h
  split at h
  · simp at h
  rename_i hkind
  obtain ⟨t, us, rfl, ht⟩ :=
    eq_cons_of_headKind (by simpa [headKind] using hkind : headKind ts = .ident) (by simp)
  simp only [List.headD_cons] at h
  cases hhost : HostPrimitive.ofName? t.literal with
  | some k =>
    simp only [hhost] at h
    rw [bind_of_ok advance_run] at h
    cases h
    exact ⟨[t], rfl, .host ht (mem_hostKeywords.mpr hhost)⟩
  | none =>
    simp only [hhost] at h
    cases hjava : Primitive.ofName? t.literal with
    | some k =>
      simp only [hjava] at h
      rw [bind_of_ok advance_run] at h
      cases h
      exact ⟨[t], rfl, .java ht (not_hostKeyword.mpr hhost) (mem_javaKeywords.mpr hjava)⟩
    | none =>
      simp only [hjava, bind_eq_ok] at h
      obtain ⟨p, mid, hpath, h⟩ := h
      cases h
      obtain ⟨used, hused, hspelt⟩ := path_sound hpath
      obtain ⟨ds, ns, rfl, -, -⟩ := hspelt.parts
      simp only [List.cons_append, List.cons.injEq] at hused
      obtain ⟨rfl, hus⟩ := hused
      exact ⟨_, by rw [hus, List.cons_append],
        .object (not_hostKeyword.mpr hhost) (not_javaKeyword.mpr hjava) hspelt.isPath⟩

theorem valueType_complete {used rest : List Token} {ty : ValueType} (h : IsType used ty)
    (hdot : headKind rest ≠ .dot) (hdollar : headKind rest ≠ .dollar) :
    valueType (used ++ rest) = .ok (ty, rest) := by
  cases h with
  | @host t k hkind hhost =>
    rw [valueType, bind_of_ok peek_run, if_neg (by simpa using hkind)]
    simp only [List.cons_append, List.nil_append, List.headD_cons, mem_hostKeywords.mp hhost]
    rw [bind_of_ok advance_run]
    rfl
  | @java t k hkind hhost hjava =>
    rw [valueType, bind_of_ok peek_run, if_neg (by simpa using hkind)]
    simp only [List.cons_append, List.nil_append, List.headD_cons, not_hostKeyword.mp hhost,
      mem_javaKeywords.mp hjava]
    rw [bind_of_ok advance_run]
    rfl
  | @object t ts c hhost hjava hpath =>
    obtain ⟨p, hspelt, rfl⟩ := exists_spelt_of_isPath hpath
    have hkind : t.kind = .ident := by
      cases hpath
      assumption
    have hrun := path_complete hspelt (fun _ => hdot) hdollar
    rw [valueType, bind_of_ok peek_run, if_neg (by simpa using hkind)]
    simp only [List.cons_append, List.headD_cons, not_hostKeyword.mp hhost,
      not_javaKeyword.mp hjava]
    rw [List.cons_append] at hrun
    rw [bind_of_ok hrun]
    rfl

/-- A type never starts with a word that is no keyword, unless a dot follows. -/
theorem startsWithWord_of_isType {w : Bytes} {used rest : List Token} {ty : ValueType}
    (h : IsType used ty) (hhost : HostPrimitive.ofName? w = none)
    (hjava : Primitive.ofName? w = none) : startsWithWord w (used ++ rest) = false := by
  cases h with
  | @host t k hkind hname =>
    have hne : t.literal ≠ w := by
      rintro rfl
      simp [mem_hostKeywords, hhost] at hname
    cases rest with
    | nil => rfl
    | cons u us => simp [startsWithWord, hne]
  | @java t k hkind _ hname =>
    have hne : t.literal ≠ w := by
      rintro rfl
      simp [mem_javaKeywords, hjava] at hname
    cases rest with
    | nil => rfl
    | cons u us => simp [startsWithWord, hne]
  | object _ _ hpath =>
    cases hpath with
    | mk hfirst hdotted hne =>
      cases hdotted with
      | nil => exact absurd rfl hne
      | cons hsep _ _ => simp [startsWithWord, hsep]

/-! ### Groups -/

section Group

variable {o t : Token} {below seen rest : List Token}

theorem groupOf_open (h : t.kind.closer?.isSome = true) :
    groupOf (o :: below) seen (t :: rest) = groupOf (t :: o :: below) (t :: seen) rest := by
  rw [groupOf.eq_def]
  cases hk : t.kind <;> simp_all [TokenKind.closer?]

theorem groupOf_close_last (h : o.kind.closer? = some t.kind) (hclose : t.kind.isCloser = true) :
    groupOf [o] seen (t :: rest) = .ok (⟨seen.reverse, t⟩, rest) := by
  rw [groupOf.eq_def]
  cases hk : t.kind <;> simp_all [TokenKind.closer?, TokenKind.isCloser] <;> rfl

theorem groupOf_close (b : Token) (h : o.kind.closer? = some t.kind)
    (hclose : t.kind.isCloser = true) :
    groupOf (o :: b :: below) seen (t :: rest) = groupOf (b :: below) (t :: seen) rest := by
  rw [groupOf.eq_def]
  cases hk : t.kind <;> simp_all [TokenKind.closer?, TokenKind.isCloser]

theorem groupOf_plain (hopen : t.kind.closer? = none) (hclose : t.kind.isCloser = false)
    (herror : t.kind ≠ .error) (heof : t.kind ≠ .eof) :
    groupOf (o :: below) seen (t :: rest) = groupOf (o :: below) (t :: seen) rest := by
  rw [groupOf.eq_def]
  cases hk : t.kind <;> simp_all [TokenKind.closer?, TokenKind.isCloser]

theorem closer?_of_isCloser {k : TokenKind} (h : k.isCloser = true) : k.closer? = none := by
  cases k <;> simp_all [TokenKind.isCloser, TokenKind.closer?]

/-- What a token inside a group can be, when the group is read. -/
theorem groupOf_cases {r : Group × List Token} (h : groupOf (o :: below) seen (t :: rest) = .ok r) :
    t.kind.closer?.isSome = true ∨
      (t.kind.isCloser = true ∧ o.kind.closer? = some t.kind) ∨
      (t.kind.closer? = none ∧ t.kind.isCloser = false ∧ t.kind ≠ .error ∧ t.kind ≠ .eof) := by
  rw [groupOf.eq_def] at h
  by_cases hopen : t.kind.closer?.isSome = true
  · exact .inl hopen
  right
  by_cases hclose : t.kind.isCloser = true
  · left
    by_cases hmatch : o.kind.closer? = some t.kind
    · exact ⟨hclose, hmatch⟩
    · have hnone := closer?_of_isCloser hclose
      cases hk : t.kind <;>
        simp_all [TokenKind.isCloser, throw, throwThe, MonadExceptOf.throw]
  · right
    refine ⟨by simpa using hopen, by simpa using hclose, ?_, ?_⟩
    · intro hk
      simp [hk, throw, throwThe, MonadExceptOf.throw] at h
    · intro hk
      simp [hk, throw, throwThe, MonadExceptOf.throw] at h

end Group

theorem isCloser_of_closer? {k c : TokenKind} (h : k.closer? = some c) : c.isCloser = true := by
  cases k <;> simp_all [TokenKind.closer?] <;> subst h <;> rfl

/-- Balanced tokens inside a group are read through. -/
theorem groupOf_append {o : Token} {below seen body rest : List Token} (h : Balanced body) :
    groupOf (o :: below) seen (body ++ rest) =
      groupOf (o :: below) (body.reverse ++ seen) rest := by
  induction h generalizing o below seen rest with
  | nil => rfl
  | plain hopen hclose herror heof _ ih =>
    rw [List.cons_append, groupOf_plain hopen hclose herror heof, ih]
    simp
  | group hmatch _ _ ihbody ihrest =>
    rw [List.cons_append, groupOf_open (by simp [hmatch]), List.append_assoc, ihbody,
      List.cons_append, groupOf_close _ hmatch (isCloser_of_closer? hmatch), ihrest]
    simp

/-- A group that is read consists of balanced tokens and the closer of its opener. The induction is
    on the length of the list, because an inner group is read before the rest of the outer one. -/
theorem groupOf_sound {o : Token} {below seen ts : List Token} {r : Group × List Token}
    (h : groupOf (o :: below) seen ts = .ok r) :
    ∃ body c rest, ts = body ++ c :: rest ∧ Balanced body ∧ o.kind.closer? = some c.kind := by
  induction hn : ts.length using Nat.strongRecOn generalizing o below seen ts with
  | ind n ih =>
    cases ts with
    | nil => simp [groupOf, throw, throwThe, MonadExceptOf.throw] at h
    | cons t ts =>
      rw [List.length_cons] at hn
      rcases groupOf_cases h with hopen | ⟨hclose, hmatch⟩ | ⟨hopen, hclose, herror, heof⟩
      · rw [groupOf_open hopen] at h
        obtain ⟨inner, c, mid, rfl, hinner, hc⟩ := ih _ (by omega) h rfl
        rw [groupOf_append hinner, groupOf_close _ hc (isCloser_of_closer? hc)] at h
        simp only [List.length_append, List.length_cons] at hn
        obtain ⟨body, c', rest, rfl, hbody, hc'⟩ := ih _ (by omega) h rfl
        exact ⟨t :: (inner ++ c :: body), c', rest, by simp, .group hc hinner hbody, hc'⟩
      · exact ⟨[], t, ts, rfl, .nil, hmatch⟩
      · rw [groupOf_plain hopen hclose herror heof] at h
        obtain ⟨body, c, rest, rfl, hbody, hc⟩ := ih _ (by omega) h rfl
        exact ⟨t :: body, c, rest, rfl, .plain hopen hclose herror heof hbody, hc⟩

theorem groupOf_complete {o c : Token} {body rest : List Token} (hbody : Balanced body)
    (hmatch : o.kind.closer? = some c.kind) :
    groupOf [o] [] (body ++ c :: rest) = .ok (⟨body, c⟩, rest) := by
  rw [groupOf_append hbody, groupOf_close_last hmatch (isCloser_of_closer? hmatch)]
  simp

/-- A group is read exactly when it starts with a token, goes on balanced and ends with the closer
    of its first token. -/
theorem group_eq_ok {o : Token} {ts rest : List Token} {g : Group} :
    group (o :: ts) = .ok (g, rest) ↔
      ts = g.contents ++ g.closer :: rest ∧ Balanced g.contents ∧
        o.kind.closer? = some g.closer.kind := by
  have hrun : group (o :: ts) = groupOf [o] [] ts := rfl
  rw [hrun]
  constructor
  · intro h
    obtain ⟨body, c, rest', rfl, hbody, hmatch⟩ := groupOf_sound h
    rw [groupOf_complete hbody hmatch] at h
    cases h
    exact ⟨rfl, hbody, hmatch⟩
  · rintro ⟨rfl, hbody, hmatch⟩
    exact groupOf_complete hbody hmatch

/-! ### Array literals -/

theorem depthAfter_of_opener {d : Nat} {t : Token} {k : TokenKind} (h : t.kind.closer? = some k) :
    depthAfter d t = d + 1 := by
  simp [depthAfter, h]

theorem depthAfter_of_closer {d : Nat} {t : Token} (h : t.kind.isCloser = true) :
    depthAfter d t = d - 1 := by
  simp [depthAfter, h, closer?_of_isCloser h]

theorem depthAfter_of_plain {d : Nat} {t : Token} (hopen : t.kind.closer? = none)
    (hclose : t.kind.isCloser = false) : depthAfter d t = d := by
  simp [depthAfter, hopen, hclose]

theorem isCloser_of_opener {k c : TokenKind} (h : k.closer? = some c) : k.isCloser = false := by
  cases k <;> simp_all [TokenKind.closer?, TokenKind.isCloser]

theorem ne_comma_of_opener {k c : TokenKind} (h : k.closer? = some c) : k ≠ .comma := by
  rintro rfl
  simp [TokenKind.closer?] at h

/-- Balanced tokens do not change whether the closer sought is the last token. -/
theorem closesAtEnd_append {d : Nat} {inner ts : List Token} (h : Balanced inner) :
    closesAtEnd d (inner ++ ts) = closesAtEnd d ts := by
  induction h generalizing d ts with
  | nil => rfl
  | plain hopen hclose _ _ _ ih =>
    rw [List.cons_append, closesAtEnd, depthAfter_of_plain hopen hclose, ih]
    simp [hclose]
  | group hmatch _ _ ihbody ihrest =>
    rw [List.cons_append, List.append_assoc, closesAtEnd, depthAfter_of_opener hmatch, ihbody,
      List.cons_append, closesAtEnd, depthAfter_of_closer (isCloser_of_closer? hmatch),
      Nat.add_sub_cancel, ihrest]
    simp [isCloser_of_opener hmatch]

/-- Whether balanced tokens are exactly one bracketed list. -/
theorem closesAtEnd_iff_isList {t : Token} {ts : List Token} (h : Balanced (t :: ts)) :
    (t.kind = .lbracket ∧ closesAtEnd 0 ts = true) ↔ IsList (t :: ts) := by
  constructor
  · rintro ⟨ht, hend⟩
    cases h with
    | plain hopen => simp [ht, TokenKind.closer?] at hopen
    | @group _ c inner us hmatch hinner _ =>
      rw [closesAtEnd_append hinner, closesAtEnd] at hend
      have hus : us = [] := by simpa [isCloser_of_closer? hmatch] using hend
      subst hus
      have hc : c.kind = .rbracket := by
        rw [ht] at hmatch
        simpa [TokenKind.closer?] using hmatch.symm
      exact ⟨t, inner, c, rfl, ht, hinner, hc⟩
  · rintro ⟨o, inner, c, heq, ho, hinner, hc⟩
    simp only [List.cons.injEq] at heq
    obtain ⟨rfl, rfl⟩ := heq
    refine ⟨ho, ?_⟩
    rw [closesAtEnd_append hinner]
    simp [closesAtEnd, hc, TokenKind.isCloser]

/-- Inside delimiters, balanced tokens go to the current element as they are. -/
theorem elementsOf_append {d : Nat} {seen inner ts : List Token} (h : Balanced inner) :
    elementsOf (d + 1) seen (inner ++ ts) = elementsOf (d + 1) (inner.reverse ++ seen) ts := by
  induction h generalizing d seen ts with
  | nil => rfl
  | plain hopen hclose _ _ _ ih =>
    rw [List.cons_append, elementsOf, if_neg (by omega), depthAfter_of_plain hopen hclose, ih]
    simp
  | group hmatch _ _ ihbody ihrest =>
    rw [List.cons_append, List.append_assoc, elementsOf, if_neg (by omega),
      depthAfter_of_opener hmatch, ihbody, List.cons_append, elementsOf, if_neg (by omega),
      depthAfter_of_closer (isCloser_of_closer? hmatch), Nat.add_sub_cancel, ihrest]
    simp

/-- A whole delimited group goes to the current element. -/
theorem elementsOf_group {seen inner ts : List Token} {o c : Token}
    (hmatch : o.kind.closer? = some c.kind) (hinner : Balanced inner) :
    elementsOf 0 seen (o :: (inner ++ c :: ts)) =
      elementsOf 0 (c :: (inner.reverse ++ o :: seen)) ts := by
  have hclose := isCloser_of_closer? hmatch
  rw [elementsOf, if_neg (fun h => ne_comma_of_opener hmatch h.1), depthAfter_of_opener hmatch,
    elementsOf_append hinner, elementsOf, if_neg (by omega), depthAfter_of_closer hclose]

theorem elementsOf_item {seen item ts : List Token} (h : IsItem item) :
    elementsOf 0 seen (item ++ ts) = elementsOf 0 (item.reverse ++ seen) ts := by
  induction h generalizing seen ts with
  | nil => rfl
  | plain hcomma hopen hclose _ _ _ ih =>
    rw [List.cons_append, elementsOf, if_neg (fun h => hcomma h.1),
      depthAfter_of_plain hopen hclose, ih]
    simp
  | group hmatch hbody _ ih =>
    rw [List.cons_append, List.append_assoc, List.cons_append, elementsOf_group hmatch hbody, ih]
    simp

theorem elementsOf_complete {ts : List Token} {items : List (List Token)} (h : IsItems ts items) :
    elementsOf 0 [] ts = .ok items := by
  induction h with
  | nil => rfl
  | @last item hitem hne =>
    have hrun : elementsOf 0 [] (item ++ []) = elementsOf 0 (item.reverse ++ []) [] :=
      elementsOf_item hitem
    rw [List.append_nil, List.append_nil] at hrun
    rw [hrun, elementsOf, List.reverse_reverse, if_neg (by simpa using hne)]
    rfl
  | more hitem hne hcomma _ ih =>
    rw [elementsOf_item hitem, List.append_nil, elementsOf, if_pos ⟨hcomma, rfl⟩,
      if_neg (by simpa using hne), ih, List.reverse_reverse]
    rfl

/-- The elements that are found are the items. The current element is an item at every step. -/
theorem elementsOf_sound {seen ts : List Token} {items : List (List Token)} (h : Balanced ts)
    (hseen : IsItem seen.reverse) (hrun : elementsOf 0 seen ts = .ok items) :
    IsItems (seen.reverse ++ ts) items := by
  induction h generalizing seen items with
  | nil =>
    rw [elementsOf] at hrun
    cases hrun
    rw [List.append_nil]
    split
    · rename_i hempty
      rw [List.isEmpty_iff.mp hempty]
      exact .nil
    · rename_i hne
      exact .last hseen (by simpa using hne)
  | @plain t ts hopen hclose herror heof _ ih =>
    rw [elementsOf] at hrun
    split at hrun
    · rename_i hcomma
      split at hrun
      · simp [throw, throwThe, MonadExceptOf.throw] at hrun
      rename_i hne
      cases hmore : elementsOf 0 [] ts with
      | error e => simp [hmore, bind, Except.bind] at hrun
      | ok more =>
        simp only [hmore, bind, Except.bind, pure, Except.pure, Except.ok.injEq] at hrun
        subst hrun
        have hrest : IsItems ts more := ih (by exact .nil) hmore
        exact .more hseen (by simpa using hne) hcomma.1 hrest
    · rename_i hcomma
      rw [depthAfter_of_plain hopen hclose] at hrun
      have hitem : IsItem (t :: seen).reverse := by
        rw [List.reverse_cons]
        exact hseen.append (.plain (by simpa using hcomma) hopen hclose herror heof .nil)
      simpa using ih hitem hrun
  | @group o c inner ts hmatch hinner _ _ ih =>
    rw [elementsOf_group hmatch hinner] at hrun
    have hitem : IsItem (c :: (inner.reverse ++ o :: seen)).reverse := by
      have happend := hseen.append (.group hmatch hinner .nil)
      simpa using happend
    simpa using ih hitem hrun

theorem arrayElements?_literal {lb rb : Token} {inner : List Token} {items : List (List Token)}
    (hlb : lb.kind = .lbracket) (hrb : rb.kind = .rbracket) (h : IsItems inner items) :
    arrayElements? (lb :: (inner ++ [rb])) = .ok (some items) := by
  have hend : closesAtEnd 0 (inner ++ [rb]) = true := by
    rw [closesAtEnd_append h.balanced]
    simp [closesAtEnd, hrb, TokenKind.isCloser]
  rw [arrayElements?, if_pos ⟨hlb, hend⟩, List.dropLast_concat, elementsOf_complete h]
  rfl

theorem arrayElements?_value {body : List Token} (hbody : Balanced body) (hlist : ¬ IsList body) :
    arrayElements? body = .ok none := by
  cases body with
  | nil => rfl
  | cons t ts =>
    rw [arrayElements?, if_neg (fun h => hlist ((closesAtEnd_iff_isList hbody).mp h))]
    rfl

/-- The two readings of the value of an array. -/
theorem arrayElements?_sound {body : List Token} {found : Option (List (List Token))}
    (hbody : Balanced body) (h : arrayElements? body = .ok found) :
    (found = none ∧ ¬ IsList body) ∨
      ∃ (lb : Token) (inner : List Token) (rb : Token) (items : List (List Token)),
        found = some items ∧ body = lb :: (inner ++ [rb]) ∧
        lb.kind = .lbracket ∧ IsItems inner items ∧ rb.kind = .rbracket := by
  by_cases hlist : IsList body
  · right
    obtain ⟨lb, inner, rb, rfl, hlb, hinner, hrb⟩ := hlist
    have hend : closesAtEnd 0 (inner ++ [rb]) = true :=
      ((closesAtEnd_iff_isList hbody).mpr ⟨lb, inner, rb, rfl, hlb, hinner, hrb⟩).2
    rw [arrayElements?, if_pos ⟨hlb, hend⟩, List.dropLast_concat] at h
    cases hrun : elementsOf 0 [] inner with
    | error e => simp [hrun, bind, Except.bind] at h
    | ok items =>
      simp only [hrun, bind, Except.bind, pure, Except.pure, Except.ok.injEq] at h
      have hitems : IsItems inner items := elementsOf_sound hinner (by exact .nil) hrun
      exact ⟨lb, inner, rb, items, h.symm, rfl, hlb, hitems, hrb⟩
  · left
    rw [arrayElements?_value hbody hlist] at h
    cases h
    exact ⟨rfl, hlist⟩

end BridgeCall.Reader
