/-
  BridgeCall/Proofs/Expr/Verbatim.lean
  ====================================
  **Embedded expressions are copied without loss.**  The texts that a parsed call
  holds are parts of its source, from the start of a first token to the end of a
  last one, and each of them has the same tokens when it is lexed on its own
  (`Source.Copied`).  A group's text covers all tokens between its delimiters, and
  the elements of an array literal are all tokens between the brackets but the
  separating commas (`Call.texts_copied`).

  Where a text stands moves its tokens and changes nothing else
  (`Lexer.symbols_tokensFrom`), so the tokens that a part has in its source are the
  ones it has anywhere.
-/
import BridgeCall.Proofs.Expr.Spans
import Mathlib.Data.List.Forall2

namespace BridgeCall

open Grammar Lexer

/-- What a text contributes at the end of its tokens. -/
theorem Lexer.symbol_endToken (pos : Position) : (endToken pos).symbol = (.eof, []) := rfl

namespace Source

variable {src : Source}

/-- A text that was copied from a source at some of its tokens. -/
structure Copied (src : Source) (ts : List Token) (text : Bytes) : Prop where
  ne_nil : ts ≠ []
  /-- It runs from the start of the first token to the end of the last. -/
  placed : ∃ before after, src.text = before ++ (text ++ after) ∧
    spanOf ts = ⟨src.start.advance before, src.start.advance (before ++ text)⟩
  /-- On its own, wherever it stands, it has the same tokens. -/
  tokens : ∀ start, (Source.at text start).tokens.map Token.symbol =
    ts.map Token.symbol ++ [(TokenKind.eof, [])]

/-- **Tokens that follow each other are copied as a whole.** -/
theorem copied_written {ts : List Token} (hpart : ts <:+: src.words) (hne : ts ≠ [])
    (hclean : Clean ts) : src.Copied ts (written src ts) := by
  obtain ⟨before, more, hwords⟩ := hpart
  obtain ⟨e, -, htokens⟩ := src.tokens_eq
  rw [← hwords, List.append_assoc, List.append_assoc] at htokens
  obtain ⟨skip, body, tail, htext, hspan, hbody⟩ := Stretch.exists_body htokens hne hclean
  have hwritten : written src ts = body := by
    rw [written, hspan]
    exact src.cut_advance skip body tail htext
  rw [hwritten]
  refine ⟨hne, ⟨skip, tail, htext, hspan⟩, ?_⟩
  intro start
  rw [Source.tokens, symbols_tokensFrom _ (src.start.advance skip)]
  simp only [Source.at, hbody, List.map_append, List.map_cons, List.map_nil, symbol_endToken]

/-- What is between an opening delimiter and its own closer. -/
structure IsBody (o : Token) (body : List Token) (cl : Token) : Prop where
  closes : o.kind.closer? = some cl.kind
  balanced : Balanced body

/-- How an instance is named in front of a call: by an identifier, or by all that stands in a pair of
    parentheses or braces. -/
inductive IsReceiver (src : Source) (text : Bytes) (span : Span) : List Token → Prop
  | name {t : Token} (hkind : t.kind = .ident) (hspan : span = t.span)
      (htext : src.Copied [t] text) : IsReceiver src text span [t]
  | group {o cl : Token} {body : List Token} (hopen : o.kind = .lparen ∨ o.kind = .lbrace)
      (hbody : IsBody o body cl) (hspan : span = spanOf (o :: (body ++ [cl])))
      (htext : src.Copied body text) : IsReceiver src text span (o :: (body ++ [cl]))

/-- How an argument is copied from the tokens between its parentheses. The elements of a literal are
    items with single commas between them, which make up all that stands in the brackets. -/
inductive IsValue (src : Source) : List Token → Argument → Prop
  | single {body : List Token} {text : Bytes} (htext : src.Copied body text) :
      IsValue src body (.single text)
  | array {body : List Token} {text : Bytes} (htext : src.Copied body text) :
      IsValue src body (.array text)
  | literal {lb rb : Token} {inner : List Token} {items : List (List Token)} {texts : List Bytes}
      (hlb : lb.kind = .lbracket) (hrb : rb.kind = .rbracket) (hitems : IsItems inner items)
      (htexts : List.Forall₂ src.Copied items texts) :
      IsValue src (lb :: (inner ++ [rb])) (.literal texts)

theorem copied_items {ts : List Token} {items : List (List Token)} (h : IsItems ts items)
    (hpart : ts <:+: src.words) : List.Forall₂ src.Copied items (items.map (written src)) := by
  rw [List.forall₂_map_right_iff, List.forall₂_same]
  intro item hitem
  have hin := h.part item hitem
  refine copied_written (hin.trans hpart) (h.ne_nil item hitem) ?_
  intro t ht
  exact h.balanced.clean t (hin.subset ht)

end Source

namespace Grammar

variable {src : Source} {ts : List Token}

theorem IsTarget.exists_receiver {m : Token} {text : Bytes} {span : Span}
    (h : IsTarget src ts (.object text span) m) (hpart : ts <:+: src.words) :
    ∃ rs dot, ts = rs ++ [dot, m] ∧ dot.kind = .dot ∧ src.IsReceiver text span rs := by
  generalize htarget : Target.object text span = tg at h
  cases h with
  | static => cases htarget
  | @name t dot m hkind hdot _ =>
    cases htarget
    have hfirst : [t] <:+: src.words := List.IsInfix.trans ⟨[], [dot, m], rfl⟩ hpart
    have hword : t ∈ src.words := hfirst.subset (by simp)
    have hwritten : written src [t] = t.literal := Source.cut_word hword
    have hcopied := Source.copied_written hfirst (by simp) (by simp [hkind])
    rw [hwritten] at hcopied
    exact ⟨[t], dot, rfl, hdot, .name hkind rfl hcopied⟩
  | @group o c dot m body hopen hmatch hbody hne hdot _ =>
    cases htarget
    have hin : body <:+: src.words := List.IsInfix.trans ⟨[o], [c, dot, m], by simp⟩ hpart
    refine ⟨o :: (body ++ [c]), dot, by simp, hdot, ?_⟩
    exact .group hopen ⟨hmatch, hbody⟩ rfl (Source.copied_written hin hne hbody.clean)

theorem IsParameter.exists_value {p : Parameter} (h : IsParameter src ts p)
    (hpart : ts <:+: src.words) :
    ∃ head o body cl, ts = head ++ o :: (body ++ [cl]) ∧ p.span = spanOf ts ∧
      o.kind = .lparen ∧ Source.IsBody o body cl ∧ src.IsValue body p.arg := by
  cases h with
  | @single o c us body ty hty hvoid ho hbody hne hc =>
    have hin : body <:+: src.words := List.IsInfix.trans ⟨us ++ [o], [c], by simp⟩ hpart
    refine ⟨us, o, body, c, rfl, rfl, ho, ⟨by simp [ho, hc, TokenKind.closer?], hbody⟩, ?_⟩
    exact .single (Source.copied_written hin hne hbody.clean)
  | @array l r o c us body ty hl hty hvoid hr ho hbody hne hlist hc =>
    have hin : body <:+: src.words :=
      List.IsInfix.trans ⟨l :: (us ++ [r, o]), [c], by simp⟩ hpart
    refine ⟨l :: (us ++ [r]), o, body, c, by simp, rfl, ho,
      ⟨by simp [ho, hc, TokenKind.closer?], hbody⟩, ?_⟩
    exact .array (Source.copied_written hin hne hbody.clean)
  | @literal l r o lb rb c us inner items ty hl hty hvoid hr ho hlb hitems hrb hc =>
    have hin : inner <:+: src.words :=
      List.IsInfix.trans ⟨l :: (us ++ [r, o, lb]), [rb, c], by simp⟩ hpart
    have hbrackets : Balanced (lb :: (inner ++ [rb])) :=
      .group (by simp [hlb, hrb, TokenKind.closer?]) hitems.balanced .nil
    refine ⟨l :: (us ++ [r]), o, lb :: (inner ++ [rb]), c, by simp, rfl, ho,
      ⟨by simp [ho, hc, TokenKind.closer?], hbrackets⟩, ?_⟩
    exact .literal hlb hrb hitems (Source.copied_items hitems hin)

end Grammar

namespace Call

/-- **Embedded expressions are copied without loss.** -/
theorem texts_copied {src : Source} {c : Call} (h : Call.parse src = .ok c) :
    (∀ text span, c.target = .object text span → ∃ rs more, src.words = rs ++ more ∧
      src.IsReceiver text span rs) ∧
      ∀ p ∈ c.params, ∃ before head o body cl more,
        src.words = before ++ (head ++ o :: (body ++ [cl]) ++ more) ∧
          p.span = spanOf (head ++ o :: (body ++ [cl])) ∧ o.kind = .lparen ∧
          Source.IsBody o body cl ∧ src.IsValue body p.arg := by
  have hcall := parse_eq_ok_iff.mp h
  generalize hwords : src.words = words at hcall ⊢
  obtain ⟨htarget, ho, hparams, hc, harrow, hret⟩ := hcall
  rename_i open' close arrow m ts ps rs target params ret
  constructor
  · intro text span htext
    subst htext
    have hpart : ts <:+: src.words := ⟨[], open' :: (ps ++ close :: arrow :: rs), by simp [hwords]⟩
    obtain ⟨us, dot, rfl, -, hreceiver⟩ := htarget.exists_receiver hpart
    exact ⟨us, [dot, m] ++ open' :: (ps ++ close :: arrow :: rs), by simp, hreceiver⟩
  · intro p hp
    have hpart : ps <:+: src.words :=
      ⟨ts ++ [open'], close :: arrow :: rs, by simp [hwords]⟩
    obtain ⟨us, hus, hparameter⟩ := hparams.exists_part hp
    obtain ⟨head, o, body, cl, rfl, hspan, hopen, hbody, hvalue⟩ :=
      hparameter.exists_value (hus.trans hpart)
    obtain ⟨before, more, hsplit⟩ := hus.trans hpart
    refine ⟨before, head, o, body, cl, more, ?_, hspan, hopen, hbody, hvalue⟩
    rw [← hwords, ← hsplit, List.append_assoc]

/-- A call with a receiver in braces, a list with lists, commas and a comment in it, and a literal. -/
def nestedTexts : Source :=
  .at "\x7b f(a,b) \x7d.g([int]([x[0, 1] /* , */, (y) ,]), u8( ',' )) -> void" .origin

theorem texts_copied_nested :
    ∃ c, Call.parse nestedTexts = .ok c ∧ c.target = .object "f(a,b)" c.target.span ∧
      c.params.map Parameter.arg = [.literal ["x[0, 1]", "(y)"], .single "','"] ∧
      ∃ rs more, nestedTexts.words = rs ++ more ∧
        nestedTexts.IsReceiver "f(a,b)" c.target.span rs := by
  have hparts : (Call.parse nestedTexts).map
        (fun c => (decide (c.target = .object "f(a,b)" c.target.span), c.params.map Parameter.arg)) =
      .ok (true, [.literal ["x[0, 1]", "(y)"], .single "','"]) := by
    decide +kernel
  cases h : Call.parse nestedTexts with
  | error e => simp [h, Except.map] at hparts
  | ok c =>
    rw [h, Except.map, Except.ok.injEq, Prod.mk.injEq, decide_eq_true_iff] at hparts
    exact ⟨c, rfl, hparts.1, hparts.2, (texts_copied h).1 _ _ hparts.1⟩

end Call
end BridgeCall
