/-
  BridgeCall/Proofs/Expr/Pieces.lean
  ==================================
  **Cutting tokens out.**  A stretch of tokens with no error among them can be
  cut out of its text: lexed on its own, at the place it had, the piece gives the
  same tokens again (`Source.Stretch.tokens_piece`).  In front the cut drops
  whole tokens and blanks; behind, no token that is kept sees it.
-/
import BridgeCall.Proofs.Expr.Locality
import BridgeCall.Proofs.Expr.Placement

namespace BridgeCall

namespace Lexer

/-! ### Token lists -/

theorem tokensFrom_nil (pos : Position) : tokensFrom pos [] = [endToken pos] := by
  rw [tokensFrom, dif_pos (by rw [List.drop_nil]), List.take_nil, Position.advance_nil]

/-- Blanks and comments in front only move the first token. -/
theorem tokensFrom_skip (pos : Position) (bs : Bytes) :
    tokensFrom (pos.advance (bs.take (triviaSize bs))) (bs.drop (triviaSize bs)) =
      tokensFrom pos bs := by
  rw [tokensFrom.eq_def, tokensFrom.eq_def pos bs, triviaSize_drop]
  simp only [List.take_zero, Position.advance_nil, List.drop_zero]

/-- The place of a text does not matter for the kinds and literals of its tokens. -/
theorem symbols_tokensFrom (pos pos' : Position) (bs : Bytes) :
    (tokensFrom pos bs).map Token.symbol = (tokensFrom pos' bs).map Token.symbol := by
  fun_induction tokensFrom pos bs generalizing pos' with
  | case1 pos bs t start rest hrest =>
    rw [tokensFrom.eq_def pos', dif_pos hrest]
    rfl
  | case2 pos bs t start rest hrest kind size hlex n stop ih =>
    rw [tokensFrom.eq_def pos', dif_neg hrest]
    simp only [rest, t] at hlex
    simp only [hlex, List.map_cons]
    rw [ih]
    rfl

theorem symbols_blank (pos pos' : Position) (bs : Bytes) :
    (tokensFrom pos (0x20 :: bs)).map Token.symbol = (tokensFrom pos' bs).map Token.symbol := by
  rw [← tokensFrom_skip pos, ← tokensFrom_skip pos', triviaSize_blank (by decide),
    Nat.add_comm, List.drop_succ_cons]
  exact symbols_tokensFrom _ _ _

/-- The first token and those behind it. -/
theorem tokensFrom_cons (pos : Position) {skip lit rest : Bytes}
    (hskip : triviaSize (skip ++ (lit ++ rest)) = skip.length) (hne : lit ++ rest ≠ [])
    (hlit : (lit ++ rest).take (max 1 (lexeme (lit ++ rest)).2) = lit) :
    tokensFrom pos (skip ++ (lit ++ rest)) =
      ⟨(lexeme (lit ++ rest)).1, lit, ⟨pos.advance skip, pos.advance (skip ++ lit)⟩⟩ ::
        tokensFrom (pos.advance (skip ++ lit)) rest := by
  have hrest : (lit ++ rest).drop (max 1 (lexeme (lit ++ rest)).2) = rest := by
    have hsplit := List.take_append_drop (max 1 (lexeme (lit ++ rest)).2) (lit ++ rest)
    rw [hlit] at hsplit
    exact List.append_cancel_left hsplit
  have hdrop : (skip ++ (lit ++ rest)).drop skip.length = lit ++ rest := List.drop_left
  have htake : (skip ++ (lit ++ rest)).take skip.length = skip := List.take_left
  rw [tokensFrom]
  simp only [hskip, hdrop, htake, dif_neg hne, hlit, hrest, Position.advance_append]

theorem exists_tokensFrom_cons {pos : Position} {bs : Bytes} {t : Token} {ts : List Token}
    (h : tokensFrom pos bs = t :: ts) (ht : t.kind ≠ .eof ∨ ts ≠ []) :
    ∃ skip lit rest, bs = skip ++ (lit ++ rest) ∧
      triviaSize (skip ++ (lit ++ rest)) = skip.length ∧ lit ++ rest ≠ [] ∧
      (lit ++ rest).take (max 1 (lexeme (lit ++ rest)).2) = lit ∧
      t = ⟨(lexeme (lit ++ rest)).1, lit, ⟨pos.advance skip, pos.advance (skip ++ lit)⟩⟩ ∧
      tokensFrom (pos.advance (skip ++ lit)) rest = ts := by
  have hall := h
  rw [tokensFrom] at h
  by_cases hend : bs.drop (triviaSize bs) = []
  · rw [dif_pos hend] at h
    cases h
    rcases ht with hkind | hne
    · exact absurd rfl hkind
    · exact absurd rfl hne
  · generalize hrest : bs.drop (triviaSize bs) = rest at hend
    have hskip : (bs.take (triviaSize bs)).length = triviaSize bs := by
      rw [List.length_take]
      have hpos : 0 < (bs.drop (triviaSize bs)).length := by
        rw [hrest]
        exact List.length_pos_iff.mpr hend
      rw [List.length_drop] at hpos
      omega
    have hlit : rest.take (max 1 (lexeme rest).2) ++ rest.drop (max 1 (lexeme rest).2) = rest :=
      List.take_append_drop _ _
    have hbs : bs = bs.take (triviaSize bs) ++ (rest.take (max 1 (lexeme rest).2) ++
        rest.drop (max 1 (lexeme rest).2)) := by
      rw [hlit, ← hrest, List.take_append_drop]
    refine ⟨_, _, _, hbs, ?_, ?_, ?_, ?_⟩
    · rw [← hbs, hskip]
    · rwa [hlit]
    · rw [hlit]
    · have hcons := tokensFrom_cons pos (by rw [← hbs, hskip]) (by rwa [hlit]) (by rw [hlit])
      rw [← hbs, hall, List.cons.injEq] at hcons
      exact ⟨hcons.1, hcons.2.symm⟩

/-- Tokens behind others are those of the rest of the text, which can be taken to start with the
    first of them. -/
theorem tokensFrom_append {pos : Position} {bs : Bytes} {as ts : List Token}
    (h : tokensFrom pos bs = as ++ ts) (hne : ts ≠ []) :
    ∃ before rest, bs = before ++ rest ∧ triviaSize rest = 0 ∧
      tokensFrom (pos.advance before) rest = ts := by
  induction as generalizing pos bs with
  | nil =>
    refine ⟨bs.take (triviaSize bs), bs.drop (triviaSize bs), ?_, triviaSize_drop bs, ?_⟩
    · rw [List.take_append_drop]
    · rw [tokensFrom_skip]
      exact h
  | cons t as ih =>
    have hmore : t.kind ≠ .eof ∨ as ++ ts ≠ [] := .inr (by simp [hne])
    obtain ⟨skip, lit, rest, rfl, -, -, -, -, hrest⟩ := exists_tokensFrom_cons h hmore
    obtain ⟨before, rest, rfl, hrest, hts⟩ := ih hrest
    refine ⟨skip ++ lit ++ before, rest, by simp, hrest, ?_⟩
    rw [Position.advance_append]
    exact hts

theorem length_of_take {as bs : Bytes} {n : Nat} (h : (as ++ bs).take n = as) :
    as.length = n ∨ bs = [] := by
  have hlength := congrArg List.length h
  rw [List.length_take, List.length_append] at hlength
  by_cases hbs : bs = []
  · exact .inr hbs
  · have hpos : 0 < bs.length := List.length_pos_iff.mpr hbs
    left
    omega

/-- The text can be cut behind any of its tokens. By induction on the tokens that are kept: the first
    of them does not see the cut, because it ends before it. -/
theorem tokensFrom_cut {pos : Position} {bs : Bytes} {ts more : List Token}
    (h : tokensFrom pos bs = ts ++ more) (hts : ∀ t ∈ ts, t.kind ≠ .eof ∧ t.kind ≠ .error) :
    ∃ as rest, bs = as ++ rest ∧ tokensFrom pos as = ts ++ [endToken (pos.advance as)] ∧
      (ts.getLastD (endToken pos)).span.stop = pos.advance as := by
  induction ts generalizing pos bs with
  | nil => exact ⟨[], bs, rfl, tokensFrom_nil pos, rfl⟩
  | cons t ts ih =>
    obtain ⟨heof, herror⟩ := hts t (by simp)
    obtain ⟨skip, lit, rest, rfl, hskip, hne, hlit, rfl, hrest⟩ :=
      exists_tokensFrom_cons h (.inl heof)
    obtain ⟨as, rest, rfl, has, hstop⟩ := ih hrest fun u hu => hts u (List.mem_cons_of_mem _ hu)
    have hlexeme : lexeme (lit ++ as) = lexeme (lit ++ (as ++ rest)) ∧
        (lit ++ as).take (max 1 (lexeme (lit ++ (as ++ rest))).2) = lit := by
      rcases length_of_take hlit with hlength | hnil
      · constructor
        · rw [← List.append_assoc] at herror hlength ⊢
          exact lexeme_append herror (by rw [List.length_append]; omega)
        · rw [← hlength, List.take_left]
      · obtain ⟨rfl, rfl⟩ := List.append_eq_nil_iff.mp hnil
        exact ⟨rfl, hlit⟩
    have hskip' : triviaSize (skip ++ (lit ++ as)) = skip.length := by
      have hall : skip ++ (lit ++ (as ++ rest)) = skip ++ (lit ++ as) ++ rest := by simp
      rw [hall] at hskip
      rw [local_triviaSize (by rw [hskip, List.length_append]; omega), hskip]
    have hne' : lit ++ as ≠ [] := by
      intro hnil
      rw [List.append_eq_nil_iff] at hnil
      rw [hnil.1, List.take_eq_nil_iff] at hlit
      rcases hlit with hzero | hnil'
      · omega
      · exact hne (by rw [hnil.1, hnil'])
    refine ⟨skip ++ (lit ++ as), rest, by simp, ?_, ?_⟩
    · rw [tokensFrom_cons pos hskip' hne' (by rw [hlexeme.1]; exact hlexeme.2), hlexeme.1, has,
        ← Position.advance_append, List.append_assoc]
      rfl
    · have hend : pos.advance (skip ++ (lit ++ as)) = (pos.advance (skip ++ lit)).advance as := by
        rw [← Position.advance_append, List.append_assoc]
      rw [hend, ← hstop, List.getLastD_cons]
      cases ts with
      | nil => rfl
      | cons u ts => rw [List.getLastD_cons, List.getLastD_cons]

end Lexer

/-! ### Cutting -/

open Lexer Grammar

theorem Position.column_advance {p : Position} (hp : 1 ≤ p.column) (bs : Bytes) :
    1 ≤ (p.advance bs).column := by
  induction bs generalizing p with
  | nil => exact hp
  | cons b bs ih =>
    apply ih
    unfold Position.step
    split
    · exact le_refl _
    · exact le_trans hp (Int.le_add_one (le_refl _))

namespace Source

/-- The part of a text at a span, as a text of its own that stays where it is. -/
def piece (src : Source) (r : Span) : Source := .at (src.cut r.start r.stop) r.start

/-- Some tokens that follow each other in a source, with no error among them. -/
structure Stretch (src : Source) (ts : List Token) : Prop where
  line : 1 ≤ src.start.line
  column : 1 ≤ src.start.column
  tokens : ∃ before more, src.tokens = before ++ (ts ++ more)
  ne_nil : ts ≠ []
  kinds : ∀ t ∈ ts, t.kind ≠ .eof ∧ t.kind ≠ .error

variable {src : Source} {ts : List Token}

theorem Stretch.part {us : List Token} (h : Stretch src ts) (hpart : us <:+: ts) (hne : us ≠ []) :
    Stretch src us := by
  obtain ⟨line, column, ⟨as, bs, htokens⟩, -, kinds⟩ := h
  obtain ⟨before, more, rfl⟩ := hpart
  refine ⟨line, column, ⟨as ++ before, more ++ bs, by simp [htokens]⟩, hne, ?_⟩
  intro t ht
  exact kinds t (by simp [ht])

/-- The text of some tokens, and that it has these tokens on its own. -/
theorem Stretch.exists_body {before more : List Token}
    (htokens : src.tokens = before ++ (ts ++ more)) (hne : ts ≠ [])
    (kinds : ∀ t ∈ ts, t.kind ≠ .eof ∧ t.kind ≠ .error) :
    ∃ skip body tail, src.text = skip ++ (body ++ tail) ∧
      spanOf ts = ⟨src.start.advance skip, src.start.advance (skip ++ body)⟩ ∧
      tokensFrom (src.start.advance skip) body =
        ts ++ [endToken (src.start.advance (skip ++ body))] := by
  obtain ⟨skip, rest, htext, hrest, hfrom⟩ := tokensFrom_append htokens (by simp [hne])
  obtain ⟨body, tail, rfl, hbody, hstop⟩ := tokensFrom_cut hfrom kinds
  have hfirst : triviaSize body = 0 := by
    rw [local_triviaSize (by rw [hrest]; exact Nat.zero_le _), hrest]
  have hstart : (spanOf ts).start = src.start.advance skip := by
    obtain ⟨t, us, rfl⟩ := List.exists_cons_of_ne_nil hne
    obtain ⟨blank, lit, rest, rfl, hblank, -, -, rfl, -⟩ :=
      exists_tokensFrom_cons hbody (.inl (kinds t (by simp)).1)
    rw [hfirst] at hblank
    rw [List.length_eq_zero_iff.mp hblank.symm]
    rfl
  have hspan : (spanOf ts).stop = src.start.advance (skip ++ body) := by
    rw [Position.advance_append, ← hstop, getLastD_of_ne_nil hne _ default]
    rfl
  refine ⟨skip, body, tail, htext, ?_, ?_⟩
  · rw [← hstart, ← hspan]
  · rw [Position.advance_append]
    exact hbody

/-- **Tokens that are cut out stay the same.** -/
theorem Stretch.tokens_piece (h : Stretch src ts) :
    (src.piece (spanOf ts)).tokens = ts ++ [endToken (spanOf ts).stop] := by
  obtain ⟨line, column, ⟨before, more, htokens⟩, hne, kinds⟩ := h
  obtain ⟨skip, body, tail, htext, hspan, hbody⟩ := exists_body htokens hne kinds
  have hcut : src.cut (spanOf ts).start (spanOf ts).stop = body := by
    rw [hspan]
    exact src.cut_advance skip body tail htext
  have hplace : (src.start.advance skip).orFirst = src.start.advance skip := by
    have hline := le_trans line (src.start.line_advance skip)
    have hcolumn := Position.column_advance column skip
    unfold Position.orFirst
    rw [if_neg (by omega), if_neg (by omega)]
  rw [piece, hcut, hspan, Source.at, hplace]
  exact hbody

end Source
end BridgeCall
