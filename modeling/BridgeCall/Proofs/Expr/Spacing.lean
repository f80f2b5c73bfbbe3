/-
  BridgeCall/Proofs/Expr/Spacing.lean
  ===================================
  **Tokens can be written down.**  A blank ends every token that is no error and
  is closed: behind it the lexer finds what it found without it (`lexeme_blank`).
  So the literals of some tokens, each with a blank in front of it, are a text
  with exactly these tokens (`Lexer.spells_spaced`).

  For words and numbers this is a bound: none of their size functions counts the
  blank (`StopsAtBlank`), and what they count does not depend on what follows.
-/
import BridgeCall.Proofs.Expr.Pieces

namespace BridgeCall

/-- No character reaches over a blank. -/
theorem Utf8.decode_blank {as : Bytes} (hne : as ≠ []) (bs : Bytes) :
    (decode (as ++ 0x20 :: bs)).2 ≤ as.length := by
  have hpos : 0 < as.length := List.length_pos_iff.mpr hne
  cases h : decode? (as ++ 0x20 :: bs) with
  | none =>
    rw [decode, h]
    simp only
    omega
  | some r =>
    obtain ⟨s, rest, heq, hs, hw⟩ := exists_sequence (n := r.1) (w := r.2) h
    rw [decode, h, hw]
    rcases hs.ascii_or_high with ⟨a, rfl, -, -⟩ | hhigh
    · exact hpos
    -- a longer sequence has the blank in it, which is an ASCII byte
    by_contra hlong
    have hblank : as ++ [0x20] <+: as ++ 0x20 :: bs := ⟨bs, by simp⟩
    have hstart : as ++ [0x20] <+: s := by
      refine List.prefix_of_prefix_length_le hblank ⟨rest, heq.symm⟩ ?_
      rw [List.length_append, List.length_singleton]
      omega
    exact absurd (hhigh 0x20 (hstart.subset (by simp))) (by decide)

namespace Lexer

/-! ### Sizes -/

/-- A size that does not count a blank nor what is behind it. -/
def StopsAtBlank (size : Bytes → Nat) : Prop := ∀ as bs, size (as ++ 0x20 :: bs) ≤ as.length

theorem StopsAtBlank.drop {size : Bytes → Nat} (h : StopsAtBlank size) {as : Bytes} (bs : Bytes)
    {k : Nat} (hk : k ≤ as.length) : k + size ((as ++ 0x20 :: bs).drop k) ≤ as.length := by
  have hdrop := h (as.drop k) bs
  rw [← List.drop_append_of_le_length hk, List.length_drop] at hdrop
  omega

theorem stops_runSize {p : UInt8 → Bool} (hp : p 0x20 = false) : StopsAtBlank (runSize p) := by
  intro as bs
  induction as with
  | nil => simp [runSize, hp]
  | cons a as ih =>
    rw [List.cons_append]
    by_cases ha : p a = true
    · rw [runSize_cons ha, List.length_cons]
      omega
    · simp [runSize, ha]

theorem stops_wordSize : StopsAtBlank wordSize := by
  intro as bs
  induction hn : as.length using Nat.strongRecOn generalizing as with
  | ind n ih =>
    cases as with
    | nil =>
      rw [List.nil_append, wordSize, decode_of_ascii _ (by decide), if_neg (by decide)]
      exact Nat.zero_le _
    | cons a as =>
      have hwidth := Utf8.decode_blank (List.cons_ne_nil a as) bs
      have hpos := Utf8.decode_width_pos a (as ++ 0x20 :: bs)
      rw [List.cons_append] at hwidth ⊢
      rw [wordSize]
      split
      · generalize (Utf8.decode (a :: (as ++ 0x20 :: bs))).2 = w at *
        have hdrop : (a :: (as ++ 0x20 :: bs)).drop w = (a :: as).drop w ++ 0x20 :: bs :=
          List.drop_append_of_le_length hwidth
        have hlength : ((a :: as).drop w).length = n - w := by rw [List.length_drop, hn]
        have hmore := ih (n - w) (by omega) ((a :: as).drop w) hlength
        rw [hdrop]
        omega
      · exact Nat.zero_le _

theorem stops_fractionSize : StopsAtBlank fractionSize := by
  intro as bs
  match as with
  | [] => simp [fractionSize]
  | [a] =>
    rw [List.cons_append, List.nil_append, fractionSize_cons, if_neg (by simp [Bytes.isDigit])]
    exact Nat.zero_le _
  | a :: d :: as =>
    rw [List.cons_append, List.cons_append, fractionSize_cons]
    split
    · have hrun := stops_runSize (p := isDigitPart) (by decide) as bs
      simp only [List.length_cons]
      omega
    · exact Nat.zero_le _

theorem stops_exponentSize : StopsAtBlank exponentSize := by
  intro as bs
  cases as with
  | nil => simp [exponentSize]
  | cons a as =>
    rw [List.cons_append, exponentSize_cons]
    split
    · have hsign : signSize (as ++ 0x20 :: bs) ≤ as.length := by
        cases as with
        | nil => simp [signSize, at']
        | cons s as =>
          unfold signSize
          split
          · simp
          · exact Nat.zero_le _
      have hrun := (stops_runSize (p := Bytes.isDigit) (by decide)).drop bs hsign
      rw [List.length_cons]
      omega
    · exact Nat.zero_le _

theorem stops_plainNumber : StopsAtBlank fun bs => (plainNumber bs).2 := by
  intro as bs
  unfold plainNumber
  by_cases hhex : isHexMarked (as ++ 0x20 :: bs) = true
  · have htwo : 2 ≤ as.length := by
      match as with
      | [] => simp [isHexMarked] at hhex
      | [a] =>
        by_cases ha : a = 0x30
        · subst ha
          simp [isHexMarked] at hhex
        · simp [isHexMarked, ha] at hhex
      | _ :: _ :: as => simp
    simp only [if_pos hhex]
    exact (stops_runSize (by decide)).drop bs htwo
  · simp only [if_neg hhex]
    have hwhole := stops_runSize (p := isDigitPart) (by decide) as bs
    have hfrac := stops_fractionSize.drop bs hwhole
    exact stops_exponentSize.drop bs hfrac

theorem stops_number : StopsAtBlank fun bs => (number bs).2 := by
  intro as bs
  simp only [number_eq]
  exact (stops_runSize (by decide)).drop bs (stops_plainNumber as bs)

/-! ### Quoted literals and operators -/

theorem quotedTail_closed {quote : UInt8} {as : Bytes} {n : Nat}
    (h : quotedTail quote as = (n, true)) (bs : Bytes) : quotedTail quote (as ++ bs) = (n, true) := by
  fun_induction quotedTail quote as generalizing n with
  | case1 => cases h
  | case2 rest =>
    cases h
    rw [List.cons_append, quotedTail.eq_def]
    exact if_pos rfl
  | case3 b rest hquote hend => cases h
  | case4 => cases h
  | case5 =>
    rename_i c more m closed htail hquote hend ih
    cases h
    rw [List.cons_append, List.cons_append, quotedTail.eq_def]
    simp only [if_neg hquote, if_neg hend, if_true, ih htail]
  | case6 b rest hquote hend =>
    rename_i hslash m closed htail ih
    cases h
    rw [List.cons_append, quotedTail.eq_def]
    simp only [if_neg hquote, if_neg hend, if_neg hslash, ih htail]

theorem rawTail_closed {as : Bytes} {n : Nat} (h : rawTail as = (n, true)) (bs : Bytes) :
    rawTail (as ++ bs) = (n, true) := by
  fun_induction rawTail as generalizing n with
  | case1 => cases h
  | case2 rest =>
    cases h
    rw [List.cons_append, rawTail, if_pos rfl]
  | case3 rest hquote => cases h
  | case4 b rest =>
    rename_i hquote hend m closed htail ih
    cases h
    rw [List.cons_append, rawTail, if_neg hquote, if_neg hend, ih htail]

theorem quotedTail_le (quote : UInt8) (as : Bytes) : (quotedTail quote as).1 ≤ as.length := by
  fun_induction quotedTail quote as with
  | case1 => exact le_refl _
  | case2 rest => simp
  | case3 b rest hquote hend => exact Nat.zero_le _
  | case4 => simp
  | case5 =>
    rename_i htail hquote hend ih
    rw [htail] at ih
    simp only [List.length_cons] at ih ⊢
    omega
  | case6 b rest hquote hend =>
    rename_i htail ih
    rw [htail] at ih
    simp only [List.length_cons] at ih ⊢
    omega

theorem rawTail_le (as : Bytes) : (rawTail as).1 ≤ as.length := by
  fun_induction rawTail as with
  | case1 => exact le_refl _
  | case2 rest => simp
  | case3 rest hquote => exact Nat.zero_le _
  | case4 b rest =>
    rename_i htail ih
    rw [htail] at ih
    simp only [List.length_cons] at ih ⊢
    omega

theorem quotedToken_snd (kind : TokenKind) (r : Nat × Bool) : (quotedToken kind r).2 = 1 + r.1 := by
  obtain ⟨n, closed⟩ := r
  cases closed <;> rfl

theorem quotedToken_closed {kind : TokenKind} {tail : Bytes → Nat × Bool} {as bs : Bytes}
    (htail : ∀ {n}, tail as = (n, true) → tail (as ++ bs) = (n, true))
    (hkind : (quotedToken kind (tail as)).1 ≠ .error) :
    quotedToken kind (tail (as ++ bs)) = quotedToken kind (tail as) := by
  cases hend : tail as with
  | mk n closed =>
  rw [hend] at hkind
  cases closed with
  | false => exact absurd rfl hkind
  | true => rw [htail hend]

theorem operator_blank {as : Bytes} (hne : as ≠ []) (hkind : (operator as).1 ≠ .error)
    (bs : Bytes) :
    operator (as ++ 0x20 :: bs) = operator as ∧ (operator as).2 ≤ as.length := by
  have hpos : 0 < as.length := List.length_pos_iff.mpr hne
  have hbyte : ∀ i, i < as.length ∧ at' (as ++ 0x20 :: bs) i = at' as i ∨
      i = as.length ∧ at' as i = 0 ∧ at' (as ++ 0x20 :: bs) i = 0x20 ∨
      as.length < i ∧ at' as i = 0 := by
    intro i
    rcases Nat.lt_trichotomy i as.length with hlt | rfl | hgt
    · exact .inl ⟨hlt, (at'_append hlt _).symm⟩
    · exact .inr (.inl ⟨rfl, at'_of_le (le_refl _), by simp [at']⟩)
    · exact .inr (.inr ⟨hgt, at'_of_le (le_of_lt hgt)⟩)
  have hfirst : at' (as ++ 0x20 :: bs) 0 = at' as 0 := (at'_append hpos _).symm
  have hnext := hbyte 1
  have hthird := hbyte 2
  unfold operator at hkind ⊢
  rw [hfirst]
  generalize at' as 0 = b at *
  generalize at' as 1 = next at *
  generalize at' as 2 = third at *
  generalize at' (as ++ 0x20 :: bs) 1 = next' at *
  generalize at' (as ++ 0x20 :: bs) 2 = third' at *
  clear hfirst hbyte
  simp only at hkind ⊢
  -- one case for each first byte; four of them look at the bytes behind it
  split
  all_goals simp only at hkind ⊢
  all_goals grind

/-! ### Lexemes -/

/-- A blank behind a token changes nothing, and no token is longer than its text. -/
theorem lexeme_blank {as : Bytes} (hne : as ≠ []) (hkind : (lexeme as).1 ≠ .error) (bs : Bytes) :
    lexeme (as ++ 0x20 :: bs) = lexeme as ∧ (lexeme as).2 ≤ as.length := by
  obtain ⟨a, as, rfl⟩ := List.exists_cons_of_ne_nil hne
  by_cases hword : isWordStart (Utf8.decode (a :: as ++ 0x20 :: bs)).1 = true
  · have hlexeme : lexeme (a :: as ++ 0x20 :: bs) =
        (TokenKind.ofWord ((a :: as ++ 0x20 :: bs).take (leadingWord (a :: as ++ 0x20 :: bs))),
          leadingWord (a :: as ++ 0x20 :: bs)) := by
      unfold lexeme
      simp only [if_pos hword]
      rfl
    have hsize : leadingWord (a :: as ++ 0x20 :: bs) ≤ (a :: as).length :=
      stops_wordSize.drop bs (Utf8.decode_blank hne bs)
    have hnoError : (lexeme (a :: as ++ 0x20 :: bs)).1 ≠ .error := by
      rw [hlexeme]
      unfold TokenKind.ofWord
      split <;> simp
    have heq : lexeme (a :: as) = lexeme (a :: as ++ 0x20 :: bs) := by
      refine lexeme_append hnoError ?_
      rw [hlexeme]
      simp only [List.length_cons] at hsize ⊢
      omega
    rw [heq, hlexeme]
    exact ⟨rfl, hsize⟩
  have hword' := isWordStart_append hne hword
  have hfirst : at' (a :: as) 0 = a := rfl
  have hfirst' : at' (a :: as ++ 0x20 :: bs) 0 = a := rfl
  have hdrop : (a :: as ++ 0x20 :: bs).drop 1 = as ++ 0x20 :: bs := rfl
  unfold lexeme at hkind ⊢
  simp only [hfirst, hfirst', if_neg hword, if_neg hword', hdrop, List.drop_one,
    List.tail_cons] at hkind ⊢
  by_cases hdigit : Bytes.isDigit a = true
  · simp only [if_pos hdigit]
    have hsize := stops_number (a :: as) bs
    have heq := number_append hsize
    rw [heq]
    exact ⟨rfl, hsize⟩
  simp only [if_neg hdigit] at hkind ⊢
  have hquoted : ∀ quote, (quotedTail quote as).1 + 1 ≤ (a :: as).length := by
    intro quote
    rw [List.length_cons]
    exact Nat.succ_le_succ (quotedTail_le quote as)
  by_cases hchar : a = 0x27
  · simp only [if_pos hchar] at hkind ⊢
    rw [quotedToken_closed (fun h => quotedTail_closed h _) hkind, quotedToken_snd, Nat.add_comm]
    exact ⟨rfl, hquoted _⟩
  simp only [if_neg hchar] at hkind ⊢
  by_cases hstring : a = 0x22
  · simp only [if_pos hstring] at hkind ⊢
    rw [quotedToken_closed (fun h => quotedTail_closed h _) hkind, quotedToken_snd, Nat.add_comm]
    exact ⟨rfl, hquoted _⟩
  simp only [if_neg hstring] at hkind ⊢
  by_cases hraw : a = 0x60
  · simp only [if_pos hraw] at hkind ⊢
    rw [quotedToken_closed (fun h => rawTail_closed h _) hkind, quotedToken_snd, Nat.add_comm]
    exact ⟨rfl, Nat.succ_le_succ (rawTail_le as)⟩
  · simp only [if_neg hraw] at hkind ⊢
    exact operator_blank hne hkind bs

/-! ### Blanks and comments -/

/-- A size that does not change when more follows, as long as it leaves something over. -/
def Settled (size : Bytes → Nat) : Prop :=
  ∀ ⦃as⦄, size as < as.length → ∀ bs, size (as ++ bs) = size as

theorem settled_runSize (p : UInt8 → Bool) : Settled (runSize p) := by
  intro as h bs
  induction as with
  | nil => cases h
  | cons a as ih =>
    by_cases ha : p a = true
    · rw [runSize_cons ha, List.length_cons] at h
      rw [List.cons_append, runSize_cons ha, runSize_cons ha, ih (by omega)]
    · simp [runSize, ha]

theorem settled_blockTailSize : Settled blockTailSize := by
  intro as h bs
  fun_induction blockTailSize as with
  | case1 => cases h
  | case2 rest =>
    rw [List.length_cons] at h
    rw [List.cons_append, blockTailSize, List.length_append]
    omega
  | case3 rest => rw [List.cons_append, List.cons_append, blockTailSize]
  | case4 b rest hzero hstar ih =>
    rw [List.length_cons] at h
    rw [List.cons_append, blockTailSize, ih (by omega)]
    · exact hzero
    · rintro more rfl hrest
      cases rest with
      | nil =>
        rw [blockTailSize, List.length_nil] at h
        omega
      | cons c rest =>
        simp only [List.cons_append, List.cons.injEq] at hrest
        exact hstar rest rfl (by rw [hrest.1])

/-- A comment that ends, and what follows it. -/
theorem comment_append_blank {size : Bytes → Nat} (hsize : Settled size) (as : Bytes)
    (h : size as + triviaSize (as.drop (size as)) < as.length) (bs : Bytes)
    (ih : triviaSize (as.drop (size as)) < (as.drop (size as)).length →
      triviaSize (as.drop (size as) ++ 0x20 :: bs) = triviaSize (as.drop (size as))) :
    size (as ++ 0x20 :: bs) + triviaSize ((as ++ 0x20 :: bs).drop (size (as ++ 0x20 :: bs))) =
      size as + triviaSize (as.drop (size as)) := by
  have hle : size as ≤ as.length := by omega
  rw [hsize (by omega), List.drop_append_of_le_length hle, ih (by rw [List.length_drop]; omega)]

/-- A blank behind a text with more in it than blanks and comments. -/
theorem triviaSize_append_blank {as : Bytes} (h : triviaSize as < as.length) (bs : Bytes) :
    triviaSize (as ++ 0x20 :: bs) = triviaSize as := by
  fun_induction triviaSize as with
  | case1 => cases h
  | case2 b rest hb ih =>
    rw [List.length_cons] at h
    rw [List.cons_append, triviaSize_blank hb, ih (by omega)]
  | case3 more n hb =>
    rename_i ih
    simp only [n, drop_comment, List.length_cons] at h ih ⊢
    rw [List.cons_append, List.cons_append, triviaSize_line]
    have hcomment := comment_append_blank (settled_runSize _) more
      (by simp only [lineCommentSize] at h; omega) bs ih
    simp only [lineCommentSize] at hcomment ⊢
    omega
  | case4 more n hb =>
    rename_i ih
    simp only [n, drop_comment, List.length_cons] at h ih ⊢
    rw [List.cons_append, List.cons_append, triviaSize_block]
    have hcomment := comment_append_blank settled_blockTailSize more (by omega) bs ih
    omega
  | case5 rest hline hblock hb =>
    refine triviaSize_none hb fun _ c hc => ?_
    cases rest with
    | nil =>
      cases hc
      decide
    | cons d rest =>
      cases hc
      constructor
      · rintro rfl
        exact hline rest rfl
      · rintro rfl
        exact hblock rest rfl
  | case6 b rest hb hslash => exact triviaSize_none hb fun heq => absurd heq hslash

/-! ### Going on behind a token -/

/-- The literal of a token that is no error has the size that the lexer says. -/
theorem length_of_lexeme {lit rest : Bytes} (hne : lit ++ rest ≠ [])
    (hkind : (lexeme (lit ++ rest)).1 ≠ .error)
    (hlit : (lit ++ rest).take (max 1 (lexeme (lit ++ rest)).2) = lit) :
    lit.length = max 1 (lexeme (lit ++ rest)).2 := by
  rcases length_of_take hlit with hlength | rfl
  · exact hlength
  · have hsize := (lexeme_blank hne hkind []).2
    have hcover := congrArg List.length hlit
    rw [List.append_nil] at hne hsize hcover ⊢
    rw [List.length_take] at hcover
    have hpos : 0 < lit.length := List.length_pos_iff.mpr hne
    omega

/-- **A text can be continued behind any of its tokens**, with a blank in between. By induction on
    the tokens that are kept: what the lexer finds at one of them depends on no byte behind the
    last of them. -/
theorem tokensFrom_continue {pos : Position} {bs : Bytes} {ts more : List Token}
    (h : tokensFrom pos bs = ts ++ more) (hts : ∀ t ∈ ts, t.kind ≠ .eof ∧ t.kind ≠ .error) :
    ∃ as rest, bs = as ++ rest ∧ ∀ cs, tokensFrom pos (as ++ 0x20 :: cs) =
      ts ++ tokensFrom (pos.advance as) (0x20 :: cs) := by
  induction ts generalizing pos bs with
  | nil => exact ⟨[], bs, rfl, fun cs => rfl⟩
  | cons t ts ih =>
    obtain ⟨heof, herror⟩ := hts t (by simp)
    obtain ⟨skip, lit, rest, rfl, hskip, hne, hlit, rfl, hrest⟩ :=
      exists_tokensFrom_cons h (.inl heof)
    obtain ⟨as, rest, rfl, hfrom⟩ := ih hrest fun u hu => hts u (List.mem_cons_of_mem _ hu)
    have hlength := length_of_lexeme hne herror hlit
    have hbody : lit ++ as ≠ [] := by
      intro hnil
      rw [(List.append_eq_nil_iff.mp hnil).1, List.length_nil] at hlength
      omega
    have hcut : lexeme (lit ++ as) = lexeme (lit ++ (as ++ rest)) := by
      rw [← List.append_assoc] at herror hlength ⊢
      exact lexeme_append herror (by rw [List.length_append]; omega)
    have hbare : triviaSize (skip ++ (lit ++ as)) = skip.length := by
      have hall : skip ++ (lit ++ (as ++ rest)) = skip ++ (lit ++ as) ++ rest := by simp
      rw [hall] at hskip
      rw [local_triviaSize (by rw [hskip, List.length_append]; omega), hskip]
    refine ⟨skip ++ (lit ++ as), rest, by simp, ?_⟩
    intro cs
    have hlexeme : lexeme (lit ++ (as ++ 0x20 :: cs)) = lexeme (lit ++ (as ++ rest)) := by
      rw [← hcut, ← List.append_assoc]
      exact (lexeme_blank hbody (by rw [hcut]; exact herror) cs).1
    have hskip' : triviaSize (skip ++ (lit ++ (as ++ 0x20 :: cs))) = skip.length := by
      have hpos : 0 < (lit ++ as).length := List.length_pos_iff.mpr hbody
      have hall : skip ++ (lit ++ (as ++ 0x20 :: cs)) = skip ++ (lit ++ as) ++ 0x20 :: cs := by simp
      rw [hall, triviaSize_append_blank (by rw [hbare, List.length_append]; omega), hbare]
    have hcons := tokensFrom_cons pos hskip' (by simp) (by rw [hlexeme, ← hlength, List.take_left])
    have hall : skip ++ (lit ++ as) ++ 0x20 :: cs = skip ++ (lit ++ (as ++ 0x20 :: cs)) := by simp
    rw [hall, hcons, hlexeme, hfrom, ← Position.advance_append, List.append_assoc]
    rfl

/-! ### Texts with given tokens -/

/-- The tokens of the text show these kinds and literals, wherever it stands. -/
def Spells (bs : Bytes) (ws : List (TokenKind × Bytes)) : Prop :=
  ∀ pos, (tokensFrom pos bs).map Token.symbol = ws ++ [(TokenKind.eof, [])]

theorem spells_nil : Spells [] [] := by
  intro pos
  rw [tokensFrom_nil]
  rfl

section Spells

variable {bs : Bytes} {ws : List (TokenKind × Bytes)}

theorem Spells.cons (h : Spells bs ws) {lit : Bytes} (hne : lit ≠ [])
    (hbare : triviaSize (lit ++ bs) = 0) (hsize : max 1 (lexeme (lit ++ bs)).2 = lit.length) :
    Spells (lit ++ bs) (((lexeme (lit ++ bs)).1, lit) :: ws) := by
  intro pos
  have hskip : triviaSize ([] ++ (lit ++ bs)) = ([] : Bytes).length := hbare
  have hcons := tokensFrom_cons pos hskip (by simp [hne]) (by rw [hsize, List.take_left])
  rw [List.nil_append, List.nil_append] at hcons
  rw [hcons, List.map_cons, h]
  rfl

theorem Spells.blank (h : Spells bs ws) : Spells (0x20 :: bs) ws := by
  intro pos
  rw [symbols_blank pos pos]
  exact h pos

end Spells

/-- A kind and a literal that a token can show. -/
structure IsLexeme (w : TokenKind × Bytes) : Prop where
  ne_nil : w.2 ≠ []
  kind : (lexeme w.2).1 = w.1
  noError : w.1 ≠ .error
  whole : max 1 (lexeme w.2).2 = w.2.length
  bare : triviaSize w.2 = 0

/-- Literals with a blank in front of each. -/
def spaced (ws : List (TokenKind × Bytes)) : Bytes := ws.flatMap fun w => 0x20 :: w.2

theorem IsLexeme.append {w : TokenKind × Bytes} (h : IsLexeme w) (ws : List (TokenKind × Bytes)) :
    lexeme (w.2 ++ spaced ws) = lexeme w.2 ∧ triviaSize (w.2 ++ spaced ws) = 0 := by
  cases ws with
  | nil =>
    rw [spaced, List.flatMap_nil, List.append_nil]
    exact ⟨rfl, h.bare⟩
  | cons v ws =>
    have hspaced : spaced (v :: ws) = 0x20 :: (v.2 ++ spaced ws) := rfl
    rw [hspaced]
    refine ⟨(lexeme_blank h.ne_nil (h.kind ▸ h.noError) _).1, ?_⟩
    rw [triviaSize_append_blank (by rw [h.bare]; exact List.length_pos_iff.mpr h.ne_nil), h.bare]

/-- **Literals with blanks between them have the tokens that they show.** -/
theorem spells_spaced {ws : List (TokenKind × Bytes)} (h : ∀ w ∈ ws, IsLexeme w) :
    Spells (spaced ws) ws := by
  induction ws with
  | nil => exact spells_nil
  | cons w ws ih =>
    rw [List.forall_mem_cons] at h
    obtain ⟨hlexeme, hbare⟩ := h.1.append ws
    have hfirst := (ih h.2).cons h.1.ne_nil hbare (by rw [hlexeme, h.1.whole])
    rw [hlexeme, h.1.kind] at hfirst
    exact hfirst.blank

end Lexer

open Lexer

namespace Source

/-- The words of a text are all that its tokens show but the end. -/
theorem words_symbols {src : Source} {ws : List (TokenKind × Bytes)}
    (h : src.tokens.map Token.symbol = ws ++ [(TokenKind.eof, [])]) : src.words.map Token.symbol = ws := by
  obtain ⟨e, -, htokens⟩ := src.tokens_eq
  rw [htokens, List.map_append] at h
  exact (List.append_inj' h rfl).1

theorem words_of_spells {bs : Bytes} {ws : List (TokenKind × Bytes)} (h : Spells bs ws)
    (start : Position) : (Source.at bs start).words.map Token.symbol = ws :=
  words_symbols (h _)

end Source
end BridgeCall
