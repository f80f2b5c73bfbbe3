/-
  BridgeCall/Proofs/Expr/FirstFault.lean
  ======================================
  **A fault stands where reading becomes impossible.**  A fault of the grammar
  that stands at a token and names it says two things: no call starts with the
  tokens up to there, and some call starts with the tokens before.  The one
  exception to the second are the tokens of an array of `void`, which is refused
  one token later.  Faults of any kind stand at tokens of the text.

  The readers know the tokens only, and a call is a text.  So both directions
  need a text with given tokens: the one in hand up to its last token that is
  kept, a blank, and then the rest of another text or the words of a completion
  with blanks between them.
-/
import BridgeCall.Proofs.Expr.Spacing
import BridgeCall.Proofs.Expr.Verbatim
import BridgeCall.Proofs.Expr.Viability
import Mathlib.Data.List.Nodup

namespace BridgeCall

open Grammar Lexer Reader

/-! ### Tokens of a text -/

namespace Source

/-- No token occurs twice: later tokens stand further behind. -/
theorem nodup_tokens (src : Source) : src.tokens.Nodup := by
  obtain ⟨e, he, htokens⟩ := src.tokens_eq
  have hordered := src.stream_tokens.ordered
  have hproper := src.stream_tokens.proper
  rw [htokens] at hordered hproper ⊢
  rw [List.nodup_append]
  refine ⟨?_, List.nodup_singleton e, ?_⟩
  · refine (List.pairwise_append.mp hordered).1.imp_of_mem ?_
    rintro t u ht - hle rfl
    have hlt := hproper t (by simp [ht]) (kind_ne_eof_of_mem_words ht)
    omega
  · rintro t ht u hu rfl
    rw [List.mem_singleton] at hu
    exact kind_ne_eof_of_mem_words ht (hu ▸ he)

theorem split_unique {src : Source} {as bs cs ds : List Token} {t : Token}
    (h : src.tokens = as ++ t :: bs) (h' : src.tokens = cs ++ t :: ds) : as = cs ∧ bs = ds := by
  have hnodup := src.nodup_tokens
  rw [h, List.nodup_append] at hnodup
  have hbefore : t ∉ as := fun ht => hnodup.2.2 t ht t (by simp) rfl
  have hbehind : t ∉ bs := (List.nodup_cons.mp hnodup.2.1).1
  obtain ⟨has, -, hbs⟩ := (List.append_cons_inj_of_notMem hbefore hbehind).mp (h.symm.trans h')
  exact ⟨has, hbs⟩

theorem prefix_words {src : Source} {us more : List Token} (h : src.tokens = us ++ more)
    (hus : ∀ u ∈ us, u.kind ≠ .eof) : us <+: src.words := by
  obtain ⟨e, he, htokens⟩ := src.tokens_eq
  have hstart : us <+: src.words ++ [e] := ⟨more, by rw [← h, htokens]⟩
  rcases List.prefix_concat_iff.mp hstart with rfl | hwords
  · exact absurd he (hus e (by simp))
  · exact hwords

theorem kind_ne_eof_of_tokens {src : Source} {us more : List Token} {t : Token}
    (h : src.tokens = us ++ t :: more) : ∀ u ∈ us, u.kind ≠ .eof := by
  rintro u hu heof
  obtain ⟨before, between, rfl⟩ := List.append_of_mem hu
  have hsplit : src.tokens = before ++ u :: (between ++ t :: more) := by simp [h]
  obtain ⟨e, -, htokens⟩ := src.tokens_eq
  rw [words_eq_of_tokens hsplit heof, hsplit] at htokens
  have hlast := List.append_cancel_left htokens
  simp at hlast

/-- The text up to some of its first tokens, none of which is an error, can go on in any way behind
    a blank. -/
theorem exists_continued {src : Source} {us more : List Token} (h : src.tokens = us ++ more)
    (hus : Clean us) :
    ∃ as rest, src.text = as ++ rest ∧ ∀ cs, (⟨as ++ 0x20 :: cs, src.start⟩ : Source).tokens =
      us ++ tokensFrom (src.start.advance as) (0x20 :: cs) :=
  tokensFrom_continue h hus

/-- Texts that start alike have the same cuts there. -/
theorem cut_of_common {as bs cs : Bytes} {start i j : Position}
    (h : j.offset ≤ start.offset + as.length) :
    (⟨as ++ bs, start⟩ : Source).cut i j = (⟨as ++ cs, start⟩ : Source).cut i j := by
  have hcut : ∀ more, (⟨as ++ more, start⟩ : Source).cut i j =
      if i.offset - start.offset < 0 ∨ j.offset - start.offset < i.offset - start.offset then []
      else Bytes.slice (i.offset - start.offset).toNat (j.offset - start.offset).toNat as := by
    intro more
    have hfits : ¬ ((as ++ more).length : Int) < j.offset - start.offset := by
      rw [List.length_append]
      omega
    simp only [Source.cut, hfits, false_or]
    split
    · rfl
    · rw [Bytes.slice, Bytes.slice, List.drop_append_of_le_length (by omega),
        List.take_append_of_le_length (by rw [List.length_drop]; omega)]
  rw [hcut, hcut]

/-- A text that goes on behind `t` shows the same texts for the tokens before it. -/
theorem sameTexts_of_common {as bs cs : Bytes} {start : Position} {used more : List Token}
    {t : Token} (hcut : (⟨as ++ [0x20], start⟩ : Source).tokens = used ++ t :: more)
    (ht : t.kind ≠ .eof) : SameTexts ⟨as ++ bs, start⟩ ⟨as ++ cs, start⟩ used := by
  -- each token in front of `t` ends before the last byte of `as`
  have hend : ∀ u ∈ used, u.span.stop.offset ≤ start.offset + as.length := by
    intro u hu
    have hstream := (⟨as ++ [0x20], start⟩ : Source).stream_tokens
    rw [hcut] at hstream
    have hle := (List.pairwise_append.mp hstream.ordered).2.2 u hu t (by simp)
    have hlt := hstream.proper t (by simp) ht
    have hbound := (hstream.bounds t (by simp)).2.2
    simp only [List.length_append, List.length_cons, List.length_nil] at hbound
    omega
  intro body hbody hne
  have hlast : body.getLastD default ∈ used := by
    rw [List.getLastD_eq_getLast?, List.getLast?_eq_some_getLast hne]
    exact hbody.subset (List.getLast_mem hne)
  exact cut_of_common (hend _ hlast)

end Source

/-! ### Kinds and literals -/

theorem Grammar.Clean.alike {ts us : List Token} (h : Clean ts)
    (heq : us.map Token.symbol = ts.map Token.symbol) : Clean us := by
  intro u hu
  obtain ⟨t, ht, hsymbol⟩ : ∃ t ∈ ts, t.symbol = u.symbol :=
    List.mem_map.mp (heq ▸ List.mem_map_of_mem hu)
  rw [← (symbol_eq_iff.mp hsymbol).1]
  exact h t ht

/-- What completes a call can be written down. -/
theorem Reader.isLexeme_of_mem_vocabulary : ∀ w ∈ vocabulary, IsLexeme w := by
  simp only [vocabulary, List.forall_mem_cons]
  refine ⟨?_, ?_, ?_, ?_, ?_, ?_, ?_, ?_, ?_, ?_, ?_, by simp⟩
  all_goals exact ⟨by decide, by decide +kernel, by decide, by decide +kernel, by decide +kernel⟩

/-! ### What is accepted -/

namespace Call

theorem accepted_iff {src : Source} :
    (∃ c, Call.parse src = .ok c) ↔ IsSentence (src.words.map Token.symbol) :=
  (parse_exact src).1

theorem accepted_of_words {src src' : Source} {c : Call}
    (heq : src.words.map Token.symbol = src'.words.map Token.symbol)
    (h : Call.parse src' = .ok c) : ∃ c', Call.parse src = .ok c' := by
  rw [accepted_iff, heq, ← accepted_iff]
  exact ⟨c, h⟩

theorem words_alike {src src' : Source}
    (heq : src.tokens.map Token.symbol = src'.tokens.map Token.symbol) :
    src.words.map Token.symbol = src'.words.map Token.symbol := by
  obtain ⟨e, -, htokens⟩ := src.tokens_eq
  obtain ⟨e', -, htokens'⟩ := src'.tokens_eq
  rw [htokens, htokens', List.map_append, List.map_append] at heq
  exact (List.append_inj' heq rfl).1

theorem run_of_parse_error {src : Source} {f : Fault} (h : Call.parse src = .error f) :
    Reader.call src src.tokens = .error f := by
  rw [Call.parse, Reader.run] at h
  cases hrun : Reader.call src src.tokens with
  | error g =>
    rw [hrun] at h
    cases h
    rfl
  | ok r =>
    rw [hrun] at h
    cases h

/-- What the blamed token and those before it say about a text that goes on differently. -/
theorem fails_again {src : Source} {f : Fault} {used rest : List Token} {t : Token}
    (h : Call.parse src = .error f) (htokens : src.tokens = used ++ t :: rest) (hblames : f.Blames t)
    {src' : Source} {rest' : List Token} (htokens' : src'.tokens = used ++ t :: rest')
    (htexts : SameTexts src src' used) (c : Call) : Call.parse src' ≠ .ok c := by
  have hplace : At src [] src.tokens := ⟨rfl, by simp [htokens]⟩
  obtain ⟨-, hfault⟩ := (foresees_call hplace).fault f (run_of_parse_error h)
  obtain ⟨used', rest'', hsplit, -, hagain⟩ := hfault t hblames
  obtain ⟨rfl, -⟩ := Source.split_unique htokens hsplit
  obtain ⟨f', hf'⟩ := hagain src' rest' htexts
  rw [← htokens'] at hf'
  rw [Call.parse, Reader.run, hf']
  intro hok
  cases hok

/-- No call starts with the tokens up to a blamed one: the rest of a call that does could be put
    behind them. -/
theorem not_accepted_from {src : Source} {f : Fault} {used rest : List Token} {t : Token}
    (h : Call.parse src = .error f) (htokens : src.tokens = used ++ t :: rest)
    (hblames : f.Blames t) {src' : Source} {c : Call} (hok : Call.parse src' = .ok c) :
    ¬ (used ++ [t]).map Token.symbol <+: src'.tokens.map Token.symbol := by
  rintro ⟨more, hmore⟩
  obtain ⟨us, more, htokens', hus, rfl⟩ := List.map_eq_append_iff.mp hmore.symm
  have hclean' : Clean src'.words := (parse_eq_ok_iff.mp hok).clean
  by_cases heof : t.kind = .eof
  · -- all tokens are those of a call
    obtain ⟨us, last, rfl, hbefore, hlast⟩ := List.map_eq_append_iff.mp (hus.trans List.map_append)
    obtain ⟨e, rfl, he⟩ := List.map_eq_singleton_iff.mp hlast
    have hwords := Source.words_eq_of_tokens htokens heof
    have hwords' : src'.words = us := by
      refine Source.words_eq_of_tokens (t := e) (show src'.tokens = us ++ e :: more by
        rw [htokens', List.append_assoc]
        rfl) ?_
      rw [(symbol_eq_iff.mp he).1, heof]
    obtain ⟨c', hc'⟩ := accepted_of_words (by rw [hwords, hwords', hbefore]) hok
    rw [h] at hc'
    cases hc'
  have hwords : ∀ u ∈ used ++ [t], u.kind ≠ .eof := by
    intro u hu
    rcases List.mem_append.mp hu with hu | hu
    · exact Source.kind_ne_eof_of_tokens htokens u hu
    · rwa [List.mem_singleton.mp hu]
  have hstart : us <+: src'.words := by
    refine Source.prefix_words htokens' fun u hu => ?_
    obtain ⟨v, hv, hsymbol⟩ := List.mem_map.mp (hus ▸ List.mem_map_of_mem hu)
    rw [← (symbol_eq_iff.mp hsymbol).1]
    exact hwords v hv
  have hclean : Clean (used ++ [t]) :=
    Clean.alike (fun u hu => hclean' u (hstart.subset hu)) hus.symm
  have hne : more ≠ [] := by
    rintro rfl
    obtain ⟨e, -, he⟩ := src'.tokens_eq
    rw [htokens', List.append_nil] at he
    have hlength := hstart.length_le
    rw [he, List.length_append, List.length_singleton] at hlength
    omega
  obtain ⟨before, suf, -, -, hsuf⟩ := tokensFrom_append htokens' hne
  obtain ⟨text, start⟩ := src
  have hsplit : (⟨text, start⟩ : Source).tokens = used ++ [t] ++ rest := by
    rw [htokens, List.append_assoc]
    rfl
  obtain ⟨as, rest', rfl, hcontinued⟩ := Source.exists_continued hsplit hclean
  have hother := hcontinued suf
  have htexts : SameTexts ⟨as ++ rest', start⟩ ⟨as ++ 0x20 :: suf, start⟩ used := by
    have hcut := hcontinued []
    rw [List.append_assoc] at hcut
    exact Source.sameTexts_of_common hcut heof
  have hsymbols : (⟨as ++ 0x20 :: suf, start⟩ : Source).tokens.map Token.symbol =
      src'.tokens.map Token.symbol := by
    rw [hother, List.map_append, symbols_blank _ (src'.start.advance before), hsuf, ← hus, htokens',
      List.map_append]
  obtain ⟨c', hc'⟩ := accepted_of_words (words_alike hsymbols) hok
  rw [List.append_assoc] at hother
  exact fails_again h htokens hblames hother htexts c' hc'

/-- The start of a call can be continued to one in a text. -/
theorem accepted_of_completable {src : Source} {us more : List Token} (htokens : src.tokens = us ++ more)
    (h : Completable src us) : ∃ text c, Call.parse (.at text .origin) = .ok c ∧
      us.map Token.symbol <+: (Source.at text .origin).tokens.map Token.symbol := by
  obtain ⟨ext, c, hext, hcall⟩ := h
  have hclean : Clean us := (clean_append.mp hcall.clean).1
  obtain ⟨as, rest, -, hcontinued⟩ := Source.exists_continued htokens hclean
  have hwords : ∀ w ∈ ext.map Token.symbol, IsLexeme w := by
    rw [List.forall_mem_map]
    exact fun t ht => isLexeme_of_mem_vocabulary _ (hext t ht)
  have hsymbols : (Source.at (as ++ 0x20 :: spaced (ext.map Token.symbol)) .origin).tokens.map
      Token.symbol = (us ++ ext).map Token.symbol ++ [(TokenKind.eof, [])] := by
    rw [Source.tokens, symbols_tokensFrom _ src.start]
    have hall := congrArg (List.map Token.symbol) (hcontinued (spaced (ext.map Token.symbol)))
    rw [List.map_append, symbols_blank _ .origin, spells_spaced hwords, ← List.append_assoc,
      ← List.map_append] at hall
    exact hall
  have hsentence := Source.words_symbols hsymbols
  obtain ⟨c', hc'⟩ := accepted_iff.mpr ⟨src, us ++ ext, c, hsentence.symm, hcall⟩
  refine ⟨_, c', hc', ?_⟩
  rw [hsymbols, List.map_append, List.append_assoc]
  exact List.prefix_append _ _

/-- **Reading fails at the first impossible token.** A fault stands at tokens of the text, from the
    start of one of them to the end of the same or a later one. The token that a fault of the grammar
    names is the first one where no call can go on, wherever the fault itself stands; behind an
    opening bracket and `void` alone it may be one token late. -/
theorem parse_error_first {src : Source} {f : Fault} (h : Call.parse src = .error f) :
    f.On src.tokens ∧
      ∀ used t rest, src.tokens = used ++ t :: rest → f.kind = .grammar → f.got = some t →
        (∀ src' c, Call.parse src' = .ok c →
          ¬ (used ++ [t]).map Token.symbol <+: src'.tokens.map Token.symbol) ∧
        (¬ AtVoid used → ∃ text c, Call.parse (.at text .origin) = .ok c ∧
          used.map Token.symbol <+: (Source.at text .origin).tokens.map Token.symbol) := by
  have hrun := run_of_parse_error h
  have hplace : At src [] src.tokens := by
    obtain ⟨e, -, htokens⟩ := src.tokens_eq
    exact ⟨rfl, by simp [htokens]⟩
  refine ⟨((foresees_call hplace).fault f hrun).1, ?_⟩
  intro used t rest htokens hkind hgot
  constructor
  · intro src' c hok
    exact not_accepted_from h htokens ⟨hkind, hgot⟩ hok
  · intro hvoid
    obtain ⟨used', rest', hsplit, hviable⟩ := viable_call hplace f t hrun ⟨hkind, hgot⟩
    obtain ⟨rfl, -⟩ := Source.split_unique htokens hsplit
    exact accepted_of_completable htokens (hviable.resolve_left hvoid)

/-- In `s.f(int(g(a])` no call goes on with the bracket, and some call goes on in front of it. -/
theorem parse_error_first_mismatched :
    ∃ src f used t rest, src = Source.at "s.f(int(g(a])" .origin ∧ Call.parse src = .error f ∧
      src.tokens = used ++ t :: rest ∧ f.kind = .grammar ∧ f.got = some t ∧ f.span = t.span ∧
      ¬ AtVoid used ∧ t.kind = .rbracket ∧ f.On src.tokens ∧
      (∀ src' c, Call.parse src' = .ok c →
        ¬ (used ++ [t]).map Token.symbol <+: src'.tokens.map Token.symbol) ∧
      ∃ text c, Call.parse (.at text .origin) = .ok c ∧
        used.map Token.symbol <+: (Source.at text .origin).tokens.map Token.symbol := by
  have hf : Call.parse (.at "s.f(int(g(a])" .origin) = .error
      { problem := .mismatchedCloser
        span := ⟨⟨[], 11, 1, 12⟩, ⟨[], 12, 1, 13⟩⟩
        expected := [.rparen]
        got := some ⟨.rbracket, "]", ⟨⟨[], 11, 1, 12⟩, ⟨[], 12, 1, 13⟩⟩⟩ } := by
    decide +kernel
  have htokens : (Source.at "s.f(int(g(a])" .origin).tokens =
      (Source.at "s.f(int(g(a])" .origin).tokens.take 9 ++
        ⟨.rbracket, "]", ⟨⟨[], 11, 1, 12⟩, ⟨[], 12, 1, 13⟩⟩⟩ ::
          (Source.at "s.f(int(g(a])" .origin).tokens.drop 10 := by
    decide +kernel
  have hvoid : ¬ AtVoid ((Source.at "s.f(int(g(a])" .origin).tokens.take 9) := by
    rintro ⟨init, l, v, heq, -, -, hv⟩
    have hlast : ((Source.at "s.f(int(g(a])" .origin).tokens.take 9).getLast? = some v := by
      rw [heq]
      simp
    have ha : (((Source.at "s.f(int(g(a])" .origin).tokens.take 9).getLast?).map Token.literal =
        some ("a" : Bytes) := by
      decide +kernel
    rw [hlast, Option.map_some, hv] at ha
    exact absurd ha (by decide)
  obtain ⟨hon, hfirst⟩ := parse_error_first hf
  obtain ⟨himpossible, hpossible⟩ := hfirst _ _ _ htokens rfl rfl
  exact ⟨_, _, _, _, _, rfl, hf, htokens, rfl, rfl, rfl, hvoid, rfl, hon, himpossible,
    hpossible hvoid⟩

end Call
end BridgeCall
