/-
  BridgeCall/Proofs/Expr/Spans.lean
  =================================
  **Spans are faithful.**  Every node of a parsed call can be read again from the
  part of the text at its span, and comes out as it was; the parts of a call are
  in order and do not overlap (`Call.spans_faithful`).

  The grammar says which tokens a node was read from and that its span is theirs.
  These tokens stay the same when they are cut out (`Source.Stretch.tokens_piece`),
  and the readers read whatever the grammar spells.  Embedded texts are cut out
  of the source by offsets, which a piece keeps (`Stretch.written_piece`).
-/
import BridgeCall.Proofs.Expr.Pieces

namespace BridgeCall

open Grammar Lexer

/-! ### The order of tokens -/

namespace Lexer

variable {pos : Position} {bs : Bytes} {ts : List Token}

theorem Stream.bounds (h : Stream pos bs ts) : ∀ t ∈ ts, pos.offset ≤ t.span.start.offset ∧
    t.span.start.offset ≤ t.span.stop.offset ∧ t.span.stop.offset ≤ pos.offset + bs.length := by
  induction h with
  | done skip =>
    intro t ht
    rw [List.mem_singleton] at ht
    subst ht
    simp only [endToken, Position.offset_advance]
    omega
  | token skip lit rest ts hne hlit _ ih =>
    intro t ht
    simp only [List.length_append]
    rcases List.mem_cons.mp ht with rfl | ht
    · simp only [Position.offset_advance, List.length_append]
      omega
    · have hbounds := ih t ht
      simp only [Position.offset_advance, List.length_append] at hbounds
      omega

theorem Stream.ordered (h : Stream pos bs ts) :
    ts.Pairwise fun t u => t.span.stop.offset ≤ u.span.start.offset := by
  induction h with
  | done skip => exact List.pairwise_singleton _ _
  | token skip lit rest ts hne hlit htail ih =>
    refine List.pairwise_cons.mpr ⟨?_, ih⟩
    intro u hu
    exact (htail.bounds u hu).1

theorem Stream.proper (h : Stream pos bs ts) :
    ∀ t ∈ ts, t.kind ≠ .eof → t.span.start.offset < t.span.stop.offset := by
  induction h with
  | done skip =>
    intro t ht hkind
    rw [List.mem_singleton] at ht
    subst ht
    exact absurd rfl hkind
  | token skip lit rest ts hne hlit htail ih =>
    intro t ht hkind
    rcases List.mem_cons.mp ht with rfl | ht
    · have hpos : 0 < lit.length := List.length_pos_iff.mpr hne
      simp only [Position.offset_advance, List.length_append]
      omega
    · exact ih t ht hkind

end Lexer

/-- Tokens that are not empty, each behind the one before it. -/
structure InOrder (ts : List Token) : Prop where
  ordered : ts.Pairwise fun t u => t.span.stop.offset ≤ u.span.start.offset
  proper : ∀ t ∈ ts, t.span.start.offset < t.span.stop.offset

namespace InOrder

variable {ts body : List Token}

theorem sublist (h : InOrder ts) (hsub : body.Sublist ts) : InOrder body :=
  ⟨h.ordered.sublist hsub, fun t ht => h.proper t (hsub.subset ht)⟩

theorem within (h : InOrder ts) {t : Token} (ht : t ∈ ts) :
    (spanOf ts).start.offset ≤ t.span.start.offset ∧
      t.span.stop.offset ≤ (spanOf ts).stop.offset := by
  constructor
  · cases ts with
    | nil => cases ht
    | cons a as =>
      rcases List.mem_cons.mp ht with rfl | ht
      · exact le_refl _
      · have hbehind := (List.pairwise_cons.mp h.ordered).1 t ht
        have hproper := h.proper a (by simp)
        simp only [spanOf, List.headD_cons]
        omega
  · rcases List.eq_nil_or_concat' ts with rfl | ⟨as, a, rfl⟩
    · cases ht
    · have hlast : (spanOf (as ++ [a])).stop = a.span.stop := by
        simp only [spanOf, getLastD_append, List.getLastD_cons, List.getLastD_nil]
      rw [hlast]
      rcases List.mem_append.mp ht with ht | ht
      · have hbefore := (List.pairwise_append.mp h.ordered).2.2 t ht a (by simp)
        have hproper := h.proper a (by simp)
        omega
      · rw [List.mem_singleton.mp ht]

theorem head_last (hne : body ≠ []) : ∃ t ∈ body, ∃ u ∈ body, spanOf body = t.span.to u.span := by
  obtain ⟨t, us, rfl⟩ := List.exists_cons_of_ne_nil hne
  refine ⟨t, by simp, (t :: us).getLast hne, List.getLast_mem hne, ?_⟩
  rw [spanOf, Span.to, List.headD_cons, List.getLastD_cons, List.getLast_eq_getLastD]

theorem spanOf_within (h : InOrder ts) (hsub : body.Sublist ts) (hne : body ≠ []) :
    (spanOf ts).start.offset ≤ (spanOf body).start.offset ∧
      (spanOf body).start.offset < (spanOf body).stop.offset ∧
      (spanOf body).stop.offset ≤ (spanOf ts).stop.offset := by
  obtain ⟨t, ht, u, hu, hspan⟩ := head_last hne
  have hbody := (h.sublist hsub).within ht
  have hproper := h.proper t (hsub.subset ht)
  have hfirst := h.within (hsub.subset ht)
  have hlast := h.within (hsub.subset hu)
  simp only [hspan, Span.to] at hbody ⊢
  omega

theorem spans (h : InOrder ts) {parts : List (List Token)} (hsub : parts.flatten.Sublist ts)
    (hne : ∀ part ∈ parts, part ≠ []) :
    (parts.map spanOf).Pairwise fun a b => a.stop.offset ≤ b.start.offset := by
  have hflat := (List.pairwise_flatten.mp (h.ordered.sublist hsub)).2
  refine List.pairwise_map.mpr (hflat.imp_of_mem ?_)
  intro as bs has hbs hall
  obtain ⟨_, _, t, ht, has'⟩ := head_last (hne as has)
  obtain ⟨u, hu, _, _, hbs'⟩ := head_last (hne bs hbs)
  rw [has', hbs']
  exact hall t ht u hu

end InOrder

theorem Source.inOrder_words (src : Source) : InOrder src.words := by
  have hsub : src.words.Sublist src.tokens := List.takeWhile_sublist _
  refine ⟨src.stream_tokens.ordered.sublist hsub, ?_⟩
  intro t ht
  exact src.stream_tokens.proper t (hsub.subset ht) (kind_ne_eof_of_mem_words ht)

/-! ### Texts of pieces -/

namespace Source

theorem cut_eq {src : Source} {a b : Position} {i n : Nat} (ha : src.start.offset + i = a.offset)
    (hb : a.offset + n = b.offset) (hlength : i + n ≤ src.text.length) :
    src.cut a b = (src.text.drop i).take n := by
  have hi : a.offset - src.start.offset = i := by omega
  have hj : b.offset - src.start.offset = (i + n : Nat) := by omega
  rw [Source.cut, hi, hj, if_neg (by omega), Int.toNat_natCast, Int.toNat_natCast, Bytes.slice,
    Nat.add_sub_cancel_left]

/-- A cut out of a cut, which starts at its first byte, is a cut. -/
theorem cut_cut {src : Source} {a b p q s : Position} (hs : s.offset = a.offset)
    (ha : src.start.offset ≤ a.offset) (hb : b.offset ≤ src.start.offset + src.text.length)
    (hap : a.offset ≤ p.offset) (hpq : p.offset ≤ q.offset) (hqb : q.offset ≤ b.offset) :
    (Source.mk (src.cut a b) s).cut p q = src.cut p q := by
  obtain ⟨i, hi⟩ := Int.le.dest ha
  obtain ⟨j, hj⟩ := Int.le.dest hap
  obtain ⟨k, hk⟩ := Int.le.dest hpq
  obtain ⟨l, hl⟩ := Int.le.dest hqb
  have houter : src.cut a b = (src.text.drop i).take (j + k + l) :=
    cut_eq hi (by omega) (by omega)
  have hinner : src.cut p q = (src.text.drop (i + j)).take k := cut_eq (by omega) hk (by omega)
  have hpart : (Source.mk (src.cut a b) s).cut p q = ((src.cut a b).drop j).take k := by
    apply cut_eq
    · rw [← hj, ← hs]
    · exact hk
    · rw [houter, List.length_take, List.length_drop]
      omega
  rw [hpart, hinner, houter, List.drop_take, List.take_take, List.drop_drop]
  congr 1
  omega

theorem cut_word {src : Source} {t : Token} (ht : t ∈ src.words) :
    src.cut t.span.start t.span.stop = t.literal := by
  obtain ⟨e, -, htokens⟩ := src.tokens_eq
  obtain ⟨before, more, hsplit⟩ := List.append_of_mem ht
  rw [hsplit, List.append_assoc] at htokens
  exact textOf_singleton htokens (kind_ne_eof_of_mem_words ht)

theorem Stretch.inOrder {src : Source} {ts : List Token} (h : Stretch src ts) : InOrder ts := by
  obtain ⟨before, more, htokens⟩ := h.tokens
  have hsub : ts.Sublist src.tokens := by
    rw [htokens]
    simp
  refine ⟨src.stream_tokens.ordered.sublist hsub, ?_⟩
  intro t ht
  exact src.stream_tokens.proper t (hsub.subset ht) (h.kinds t ht).1

theorem Stretch.written_piece {src : Source} {ts body : List Token} (h : Stretch src ts)
    (hpart : body <:+: ts) (hne : body ≠ []) :
    written (src.piece (spanOf ts)) body = written src body := by
  obtain ⟨before, more, htokens⟩ := h.tokens
  obtain ⟨t, ht, u, hu, hspan⟩ := InOrder.head_last h.ne_nil
  have hwithin := h.inOrder.spanOf_within hpart.sublist hne
  have hfirst := src.stream_tokens.bounds t (by simp [htokens, ht])
  have hlast := src.stream_tokens.bounds u (by simp [htokens, hu])
  have hstart : (spanOf ts).start.orFirst.offset = (spanOf ts).start.offset := rfl
  apply cut_cut hstart
  · rw [hspan]
    exact hfirst.1
  · rw [hspan]
    exact hlast.2.2
  · exact hwithin.1
  · exact le_of_lt hwithin.2.1
  · exact hwithin.2.2

end Source

/-! ### The grammar over another source

Only embedded texts depend on the source. Where another source has the same ones, it has the same
sentences. -/

namespace Grammar

/-- Both sources show the same texts for tokens among these. -/
def SameTexts (src src' : Source) (ts : List Token) : Prop :=
  ∀ body, body <:+: ts → body ≠ [] → written src' body = written src body

variable {src src' : Source} {ts : List Token}

theorem SameTexts.part {us : List Token} (h : SameTexts src src' ts) (hpart : us <:+: ts) :
    SameTexts src src' us :=
  fun body hbody hne => h body (hbody.trans hpart) hne

theorem IsTarget.transfer {tg : Target} {m : Token} (h : IsTarget src ts tg m)
    (hsame : SameTexts src src' ts) : IsTarget src' ts tg m := by
  cases h with
  | static hstatic hpath hsep hname => exact .static hstatic hpath hsep hname
  | name hkind hdot hname => exact .name hkind hdot hname
  | @group o c dot _ body hopen hmatch hbody hne hdot hname =>
    rw [← hsame body ⟨[o], [c, dot, m], by simp⟩ hne]
    exact .group hopen hmatch hbody hne hdot hname

theorem IsItems.part {items : List (List Token)} (h : IsItems ts items) :
    ∀ item ∈ items, item <:+: ts := by
  induction h with
  | nil => simp
  | last _ _ =>
    intro item hmem
    obtain rfl := List.mem_singleton.mp hmem
    exact List.infix_rfl
  | @more first rest comma items _ _ _ _ ih =>
    intro item hmem
    rcases List.mem_cons.mp hmem with rfl | hmem
    · exact ⟨[], comma :: rest, by simp⟩
    · exact (ih item hmem).trans ⟨first ++ [comma], [], by simp⟩

theorem IsParameter.transfer {p : Parameter} (h : IsParameter src ts p)
    (hsame : SameTexts src src' ts) : IsParameter src' ts p := by
  cases h with
  | @single o c us body ty hty hvoid ho hbody hne hc =>
    rw [← hsame body ⟨us ++ [o], [c], by simp⟩ hne]
    exact .single hty hvoid ho hbody hne hc
  | @array l r o c us body ty hl hty hvoid hr ho hbody hne hlist hc =>
    rw [← hsame body ⟨l :: (us ++ [r, o]), [c], by simp⟩ hne]
    exact .array hl hty hvoid hr ho hbody hne hlist hc
  | @literal l r o lb rb c us inner items ty hl hty hvoid hr ho hlb hitems hrb hc =>
    have htexts : items.map (written src) = items.map (written src') := by
      apply List.map_congr_left
      intro item hmem
      have hinner : inner <:+: l :: (us ++ r :: o :: lb :: (inner ++ [rb, c])) :=
        ⟨l :: (us ++ [r, o, lb]), [rb, c], by simp⟩
      exact (hsame item ((hitems.part item hmem).trans hinner) (hitems.ne_nil item hmem)).symm
    rw [htexts]
    exact .literal hl hty hvoid hr ho hlb hitems hrb hc

theorem IsParameters.transfer {ps : List Parameter} (h : IsParameters src ts ps)
    (hsame : SameTexts src src' ts) : IsParameters src' ts ps := by
  induction h with
  | nil => exact .nil
  | last hp => exact .last (hp.transfer hsame)
  | @more us rest comma p ps hp hcomma _ ih =>
    have hfirst := hp.transfer (hsame.part ⟨[], comma :: rest, by simp⟩)
    have hrest := ih (hsame.part ⟨us ++ [comma], [], by simp⟩)
    exact .more hfirst hcomma hrest

theorem IsCall.transfer {c : Call} (h : IsCall src ts c) (hsame : SameTexts src src' ts) :
    IsCall src' ts c := by
  cases h with
  | @mk o cl arrow m us ps rs tg params ret htarget ho hparams hc harrow hret =>
    have htg := htarget.transfer (hsame.part ⟨[], o :: (ps ++ cl :: arrow :: rs), by simp⟩)
    have hps := hparams.transfer (hsame.part ⟨us ++ [o], cl :: arrow :: rs, by simp⟩)
    exact .mk htg ho hps hc harrow hret

end Grammar

/-! ### The nodes of a call -/

/-- The class that a type names. -/
def ValueType.class? : ValueType → Option ClassPath
  | .object c => some c
  | .java _ _ | .host _ _ => none

/-- The class that static methods are called on. -/
def Target.class? : Target → Option ClassPath
  | .static c _ => some c
  | .object _ _ => none

namespace Call

/-- The types that stand in a call, of its parameters and of what comes back. -/
def types (c : Call) : List ValueType := c.params.map Parameter.ty ++ [c.ret.payload]

/-- The classes that stand in a call, alone or as types. -/
def classes (c : Call) : List ClassPath :=
  c.target.class?.toList ++ c.types.filterMap ValueType.class?

/-- The places of target, method, parameters and return specification. -/
def parts (c : Call) : List Span :=
  c.target.span :: c.methodSpan :: (c.params.map Parameter.span ++ [c.ret.span])

end Call

namespace Grammar

variable {src : Source} {ts : List Token}

theorem IsType.path {cp : ClassPath} (h : IsType ts (.object cp)) : IsPath ts cp := by
  cases h with
  | object _ _ hpath => exact hpath

theorem IsParameter.exists_type {p : Parameter} (h : IsParameter src ts p) :
    ∃ us, us <:+: ts ∧ IsType us p.ty := by
  cases h with
  | @single o c us body ty hty _ _ _ _ _ => exact ⟨us, ⟨[], o :: (body ++ [c]), by simp⟩, hty⟩
  | @array l r o c us body ty _ hty _ _ _ _ _ _ _ =>
    exact ⟨us, ⟨[l], r :: o :: (body ++ [c]), by simp⟩, hty⟩
  | @literal l r o lb rb c us inner items ty _ hty _ _ _ _ _ _ _ =>
    exact ⟨us, ⟨[l], r :: o :: lb :: (inner ++ [rb, c]), by simp⟩, hty⟩

theorem IsParameters.exists_part {ps : List Parameter} {p : Parameter}
    (h : IsParameters src ts ps) (hp : p ∈ ps) : ∃ us, us <:+: ts ∧ IsParameter src us p := by
  induction h with
  | nil => cases hp
  | @last us q hq =>
    rw [List.mem_singleton.mp hp]
    exact ⟨us, List.infix_refl us, hq⟩
  | @more us rest comma q qs hq _ _ ih =>
    rcases List.mem_cons.mp hp with rfl | hp
    · exact ⟨us, ⟨[], comma :: rest, by simp⟩, hq⟩
    · obtain ⟨vs, hpart, hvs⟩ := ih hp
      exact ⟨vs, hpart.trans ⟨us ++ [comma], [], by simp⟩, hvs⟩

theorem IsSuccess.exists_payload {ok : Success} (h : IsSuccess ts ok) :
    ∃ us, us <:+: ts ∧ IsType us ok.payload := by
  cases h with
  | value hty => exact ⟨ts, List.infix_refl ts, hty⟩
  | @option w l g us c _ _ _ hty _ => exact ⟨us, ⟨[w, l], [g], by simp⟩, hty⟩

theorem IsReturn.exists_success {r : ReturnSpec} (h : IsReturn ts r) :
    ∃ us, us <:+: ts ∧ IsSuccess us r.success := by
  cases h with
  | plain hok => exact ⟨ts, List.infix_refl ts, hok⟩
  | @result w l comma s g us ok _ _ _ hok _ _ _ _ =>
    exact ⟨us, ⟨[w, l], [comma, s, g], by simp⟩, hok⟩

namespace IsCall

variable {c : Call}

theorem span_eq (h : IsCall src ts c) : c.span = spanOf ts := by
  cases h
  rfl

theorem exists_return (h : IsCall src ts c) : ∃ us, us <:+: ts ∧ IsReturn us c.ret := by
  cases h with
  | @mk o cl arrow m us ps rs tg params ret _ _ _ _ _ hret =>
    exact ⟨rs, ⟨us ++ o :: (ps ++ [cl, arrow]), [], by simp⟩, hret⟩

theorem exists_type (h : IsCall src ts c) {ty : ValueType} (hty : ty ∈ c.types) :
    ∃ us, us <:+: ts ∧ IsType us ty := by
  rcases List.mem_append.mp hty with hparam | hret
  · obtain ⟨p, hp, rfl⟩ := List.mem_map.mp hparam
    cases h with
    | @mk o cl arrow m us ps rs tg params ret _ _ hparams _ _ _ =>
      obtain ⟨vs, hvs, hparam⟩ := hparams.exists_part hp
      obtain ⟨ws, hws, htype⟩ := hparam.exists_type
      exact ⟨ws, (hws.trans hvs).trans ⟨us ++ [o], cl :: arrow :: rs, by simp⟩, htype⟩
  · rw [List.mem_singleton.mp hret]
    obtain ⟨us, hus, hret⟩ := h.exists_return
    obtain ⟨vs, hvs, hok⟩ := hret.exists_success
    obtain ⟨ws, hws, htype⟩ := hok.exists_payload
    exact ⟨ws, (hws.trans hvs).trans hus, htype⟩

theorem exists_class (h : IsCall src ts c) {cp : ClassPath} (hcp : cp ∈ c.classes) :
    ∃ us, us <:+: ts ∧ IsPath us cp := by
  rcases List.mem_append.mp hcp with htarget | hvalue
  · cases h with
    | @mk o cl arrow m us ps rs tg params ret htg _ _ _ _ _ =>
      cases htg with
      | @static st sep _ vs cp' _ hpath _ _ =>
        rw [Option.mem_toList, Target.class?, Option.some.injEq] at htarget
        subst htarget
        exact ⟨vs, ⟨[st], sep :: m :: o :: (ps ++ cl :: arrow :: rs), by simp⟩, hpath⟩
      | name => simp [Target.class?] at htarget
      | group => simp [Target.class?] at htarget
  · obtain ⟨ty, hty, hclass⟩ := List.mem_filterMap.mp hvalue
    obtain ⟨us, hus, htype⟩ := h.exists_type hty
    cases ty with
    | object cp' =>
      rw [ValueType.class?, Option.some.injEq] at hclass
      subst hclass
      exact ⟨us, hus, htype.path⟩
    | java => simp [ValueType.class?] at hclass
    | host => simp [ValueType.class?] at hclass

theorem exists_method (h : IsCall src ts c) :
    ∃ m ∈ ts, c.method = m.literal ∧ c.methodSpan = m.span := by
  cases h with
  | @mk o cl arrow m us ps rs tg params ret htg _ _ _ _ _ =>
    have hm : m ∈ us := by
      cases htg <;> simp
    exact ⟨m, by simp [hm], rfl, rfl⟩

end IsCall

/-! ### The tokens of the parts -/

theorem IsTarget.exists_tokens {tg : Target} {m : Token} (h : IsTarget src ts tg m) :
    ∃ us, us ≠ [] ∧ tg.span = spanOf us ∧ (us ++ [m]).Sublist ts := by
  cases h with
  | @static st sep _ ps c _ _ _ _ =>
    refine ⟨st :: ps, by simp, rfl, ?_⟩
    simp
  | @name t dot _ _ _ _ =>
    refine ⟨[t], by simp, rfl, ?_⟩
    simp
  | @group o c dot _ body _ _ _ _ _ _ =>
    refine ⟨o :: (body ++ [c]), by simp, rfl, ?_⟩
    simp

theorem IsParameters.exists_tokens {ps : List Parameter} (h : IsParameters src ts ps) :
    ∃ parts : List (List Token), parts.flatten.Sublist ts ∧ (∀ part ∈ parts, part ≠ []) ∧
      ps.map Parameter.span = parts.map spanOf := by
  have hone {us : List Token} {p : Parameter} (hp : IsParameter src us p) :
      us ≠ [] ∧ p.span = spanOf us := by
    cases hp <;> exact ⟨by simp, rfl⟩
  induction h with
  | nil => exact ⟨[], by simp⟩
  | @last us p hp =>
    obtain ⟨hne, hspan⟩ := hone hp
    exact ⟨[us], by simp, by simpa using hne, by simp [hspan]⟩
  | @more us rest comma p ps hp _ _ ih =>
    obtain ⟨hne, hspan⟩ := hone hp
    obtain ⟨parts, hsub, hparts, hspans⟩ := ih
    refine ⟨us :: parts, ?_, ?_, by simp [hspan, hspans]⟩
    · rw [List.flatten_cons]
      exact (List.Sublist.refl us).append (hsub.cons comma)
    · exact List.forall_mem_cons.mpr ⟨hne, hparts⟩

/-- The parts of a call were read from tokens that stand in its text in this order. -/
theorem IsCall.exists_tokens {c : Call} (h : IsCall src ts c) :
    ∃ parts : List (List Token), parts.flatten.Sublist ts ∧ (∀ part ∈ parts, part ≠ []) ∧
      c.parts = parts.map spanOf := by
  cases h with
  | @mk o cl arrow m us ps rs tg params ret htg _ hparams _ _ hret =>
    obtain ⟨vs, hvs, htarget, hvm⟩ := htg.exists_tokens
    obtain ⟨groups, hsub, hgroups, hspans⟩ := hparams.exists_tokens
    obtain ⟨hretspan, hrs⟩ := Reader.IsReturn.span_eq hret
    refine ⟨vs :: [m] :: (groups ++ [rs]), ?_, ?_, ?_⟩
    · have hrest : (groups.flatten ++ rs).Sublist (o :: (ps ++ cl :: arrow :: rs)) :=
        (hsub.append (by simp)).cons o
      simpa using hvm.append hrest
    · intro part hpart
      simp only [List.mem_cons, List.mem_append, List.not_mem_nil, or_false] at hpart
      rcases hpart with rfl | rfl | hpart | rfl
      · exact hvs
      · simp
      · exact hgroups part hpart
      · exact hrs
    · simp only [Call.parts, htarget, hspans, hretspan, List.map_cons, List.map_append,
        List.map_nil]
      rfl

end Grammar

/-! ### Reading pieces -/

/-- A reader that leaves only the end of the input reads the whole text. -/
theorem Reader.run_of_read {α β : Type} {r : Reader α} {after : Whole} {f : α → β} {src : Source}
    {ts : List Token} {e : Token} {a : α} (htokens : src.tokens = ts ++ [e]) (he : e.kind = .eof)
    (h : r (ts ++ [e]) = .ok (a, [e])) :
    Reader.run (do let a ← r; expectEnd after; return f a) src = .ok (f a) := by
  have hend : expectEnd after [e] = .ok ((), [e]) := expectEnd_eq_ok.mpr ⟨he, rfl⟩
  rw [run, htokens, bind_of_ok h, bind_of_ok hend]
  rfl

namespace Source.Stretch

variable {src : Source} {ts : List Token}

theorem parse_path {c : ClassPath} (h : Stretch src ts) (hc : IsPath ts c) :
    ClassPath.parse (src.piece c.span) = .ok c := by
  rw [(Reader.IsPath.span_eq hc).1]
  obtain ⟨p, hp, rfl⟩ := Reader.exists_spelt_of_isPath hc
  apply Reader.run_of_read h.tokens_piece rfl
  exact Reader.path_complete hp (by simp [endToken]) (by simp [endToken])

theorem parse_type {ty : ValueType} (h : Stretch src ts) (hty : IsType ts ty) :
    ValueType.parse (src.piece ty.span) = .ok ty := by
  rw [(Reader.IsType.span_eq hty).1]
  apply Reader.run_of_read h.tokens_piece rfl
  exact Reader.valueType_complete hty (by simp [endToken]) (by simp [endToken])

theorem parse_return {r : ReturnSpec} (h : Stretch src ts) (hr : IsReturn ts r) :
    ReturnSpec.parse (src.piece r.span) = .ok r := by
  rw [(Reader.IsReturn.span_eq hr).1]
  have htokens : (src.piece (spanOf ts)).tokens = [] ++ (ts ++ [endToken (spanOf ts).stop]) :=
    h.tokens_piece
  exact Reader.run_of_read h.tokens_piece rfl (Reader.returnSpec_complete htokens hr rfl)

theorem parse_call {c : Call} (h : Stretch src ts) (hc : IsCall src ts c) :
    Call.parse (src.piece c.span) = .ok c := by
  have hwords : (src.piece (spanOf ts)).words = ts := words_eq_of_tokens h.tokens_piece rfl
  rw [hc.span_eq, Call.parse_eq_ok_iff, hwords]
  exact hc.transfer fun body hpart hne => h.written_piece hpart hne

end Source.Stretch

/-! ### Calls -/

theorem Call.stretch_words {text : Bytes} {c : Call}
    (h : IsCall (.at text .origin) (Source.at text .origin).words c) :
    (Source.at text .origin).Stretch (Source.at text .origin).words := by
  obtain ⟨e, -, htokens⟩ := (Source.at text .origin).tokens_eq
  refine ⟨le_refl _, le_refl _, ⟨[], [e], htokens⟩, ?_, ?_⟩
  · obtain ⟨m, hm, -⟩ := h.exists_method
    exact List.ne_nil_of_mem hm
  · exact h.clean

/-- **Spans are faithful.** Every node of a call is read again, spans included, from the piece of
    the text at its span; the method's span cuts out its name; and the parts of a call follow each
    other inside its span. -/
theorem Call.spans_faithful {text : Bytes} {c : Call} (h : Call.parse (.at text .origin) = .ok c) :
    (∀ cp ∈ c.classes, ClassPath.parse ((Source.at text .origin).piece cp.span) = .ok cp) ∧
      (∀ ty ∈ c.types, ValueType.parse ((Source.at text .origin).piece ty.span) = .ok ty) ∧
      ReturnSpec.parse ((Source.at text .origin).piece c.ret.span) = .ok c.ret ∧
      ReturnSpec.parse ((Source.at text .origin).piece c.ret.success.span) =
        .ok (.plain c.ret.success) ∧
      Call.parse ((Source.at text .origin).piece c.span) = .ok c ∧
      (Source.at text .origin).cut c.methodSpan.start c.methodSpan.stop = c.method ∧
      c.parts.Pairwise (fun a b => a.stop.offset ≤ b.start.offset) ∧
      ∀ part ∈ c.parts, c.span.start.offset ≤ part.start.offset ∧
        part.start.offset < part.stop.offset ∧ part.stop.offset ≤ c.span.stop.offset := by
  have hcall := Call.parse_eq_ok_iff.mp h
  have hwords := Call.stretch_words hcall
  obtain ⟨rs, hrs, hret⟩ := hcall.exists_return
  obtain ⟨parts, hsub, hne, hparts⟩ := hcall.exists_tokens
  refine ⟨?_, ?_, ?_, ?_, hwords.parse_call hcall, ?_, ?_, ?_⟩
  · intro cp hcp
    obtain ⟨us, hus, hpath⟩ := hcall.exists_class hcp
    exact (hwords.part hus (Reader.IsPath.span_eq hpath).2).parse_path hpath
  · intro ty hty
    obtain ⟨us, hus, htype⟩ := hcall.exists_type hty
    exact (hwords.part hus (Reader.IsType.span_eq htype).2).parse_type htype
  · exact (hwords.part hrs (Reader.IsReturn.span_eq hret).2).parse_return hret
  · obtain ⟨us, hus, hok⟩ := hret.exists_success
    have hstretch := hwords.part (hus.trans hrs) (Reader.IsSuccess.span_eq hok).2
    have hspan : c.ret.success.span = (ReturnSpec.plain c.ret.success).span := rfl
    rw [hspan]
    exact hstretch.parse_return (.plain hok)
  · obtain ⟨m, hm, hmethod, hspan⟩ := hcall.exists_method
    rw [hmethod, hspan]
    exact Source.cut_word hm
  · rw [hparts]
    exact (Source.inOrder_words _).spans hsub hne
  · intro part hpart
    rw [hparts] at hpart
    obtain ⟨us, hus, rfl⟩ := List.mem_map.mp hpart
    rw [hcall.span_eq]
    exact (Source.inOrder_words _).spanOf_within ((List.sublist_flatten_of_mem hus).trans hsub)
      (hne us hus)

/-- The class ends before the dot that separates it from the method, and no blank belongs to it. -/
theorem Call.spans_faithful_dotted :
    ∃ c, Call.parse (.at "static a. B .f([c.D](x)) -> Option<c.D$E>" .origin) = .ok c ∧
      c.classes.map (fun cp => (cp.span.start.offset, cp.span.stop.offset)) =
        [(7, 11), (16, 19), (35, 40)] ∧
      ∀ cp ∈ c.classes, ClassPath.parse ((Source.at "static a. B .f([c.D](x)) -> Option<c.D$E>"
        .origin).piece cp.span) = .ok cp := by
  have hspans : (Call.parse (.at "static a. B .f([c.D](x)) -> Option<c.D$E>" .origin)).map
        (fun c => c.classes.map fun cp => (cp.span.start.offset, cp.span.stop.offset)) =
      .ok [(7, 11), (16, 19), (35, 40)] := by
    decide +kernel
  cases h : Call.parse (.at "static a. B .f([c.D](x)) -> Option<c.D$E>" .origin) with
  | error e => simp [h, Except.map] at hspans
  | ok c =>
    rw [h, Except.map, Except.ok.injEq] at hspans
    exact ⟨c, rfl, hspans, (Call.spans_faithful h).1⟩

end BridgeCall
