/-
  BridgeCall/Proofs/Expr/TokenStream.lean
  =======================================
  **What a token list looks like.**  The lexer cuts a text into skipped bytes and
  literals, in order and without a gap.  `Stream` says so as a relation, one
  constructor per step of the lexer, so that facts about tokens are inductions
  over `Stream` and never unfold the lexer again.

  The main facts: the end-of-input token comes last and nowhere else
  (`Source.tokens_eq`), and the text of a stretch of tokens runs from the first
  byte of its first literal to the last byte of its last (`Stream.stretch`,
  `Source.cut_advance`).
-/
import Mathlib.Algebra.Ring.Int.Defs
import BridgeCall.Expr.Parse

namespace BridgeCall

/-! ### Positions and cuts -/

theorem Position.offset_step (p : Position) (b : UInt8) : (p.step b).offset = p.offset + 1 := by
  unfold Position.step
  split <;> rfl

@[simp] theorem Position.offset_advance (p : Position) (bs : Bytes) :
    (p.advance bs).offset = p.offset + bs.length := by
  induction bs generalizing p with
  | nil => simp
  | cons b bs ih =>
    have hstep : p.advance (b :: bs) = (p.step b).advance bs := rfl
    rw [hstep, ih, Position.offset_step]
    simp only [List.length_cons]
    omega

/-- Cutting between two places reached by advancing gives the bytes in between. -/
theorem Source.cut_advance (src : Source) (pre body tail : Bytes)
    (htext : src.text = pre ++ (body ++ tail)) :
    src.cut (src.start.advance pre) (src.start.advance (pre ++ body)) = body := by
  have hlen : src.text.length = pre.length + (body.length + tail.length) := by
    rw [htext]; simp only [List.length_append]
  have hi : src.start.offset + (pre.length : Int) - src.start.offset = pre.length := by omega
  have hj : src.start.offset + ((pre ++ body).length : Int) - src.start.offset
      = (pre ++ body).length := by omega
  simp only [Source.cut, Position.offset_advance, hi, hj]
  rw [if_neg (by simp only [List.length_append]; omega)]
  have hsize : (pre ++ body).length - pre.length = body.length := by
    simp only [List.length_append]; omega
  simp only [Bytes.slice, Int.toNat_natCast, hsize, htext, List.drop_left, List.take_left]

namespace Lexer

/-! ### Kinds of lexemes -/

theorem number_kind (bs : Bytes) : (number bs).1 = .intLiteral ∨ (number bs).1 = .floatLiteral := by
  simp only [number]
  split
  · exact .inl rfl
  · dsimp only
    split
    · exact .inl rfl
    · exact .inr rfl

theorem quotedToken_kind (k : TokenKind) (r : Nat × Bool) :
    (quotedToken k r).1 = k ∨ (quotedToken k r).1 = .error := by
  obtain ⟨n, closed⟩ := r
  cases closed with
  | true => exact .inl rfl
  | false => exact .inr rfl

theorem operator_kind_ne (bs : Bytes) : (operator bs).1 ≠ .eof ∧ (operator bs).1 ≠ .ident := by
  simp only [operator]
  repeat' split
  all_goals simp

/-- The size of the word at the start of a text. -/
def leadingWord (bs : Bytes) : Nat :=
  (Utf8.decode bs).2 + wordSize (bs.drop (Utf8.decode bs).2)

/-- A lexeme is a word, or it is neither an identifier nor the end of the input. -/
theorem lexeme_cases (bs : Bytes) :
    (isWordStart (Utf8.decode bs).1 = true ∧
      lexeme bs = (TokenKind.ofWord (bs.take (leadingWord bs)), leadingWord bs)) ∨
      ((lexeme bs).1 ≠ .eof ∧ (lexeme bs).1 ≠ .ident) := by
  simp only [lexeme]
  split
  · rename_i hstart
    exact .inl ⟨hstart, rfl⟩
  right
  have hquoted {k : TokenKind} (heof : k ≠ .eof) (hident : k ≠ .ident) (r : Nat × Bool) :
      (quotedToken k r).1 ≠ .eof ∧ (quotedToken k r).1 ≠ .ident := by
    rcases quotedToken_kind k r with h | h
    · rw [h]
      exact ⟨heof, hident⟩
    · simp [h]
  split
  · rcases number_kind bs with h | h <;> simp [h]
  split
  · exact hquoted (by simp) (by simp) _
  split
  · exact hquoted (by simp) (by simp) _
  split
  · exact hquoted (by simp) (by simp) _
  · exact operator_kind_ne bs

theorem lexeme_kind_ne_eof (bs : Bytes) : (lexeme bs).1 ≠ .eof := by
  rcases lexeme_cases bs with ⟨-, h⟩ | ⟨h, -⟩
  · rw [h]
    unfold TokenKind.ofWord
    split <;> simp
  · exact h

/-! ### Streams -/

/-- The tokens of a text from a position on. Each step skips some bytes, takes a literal that is not
    empty, of the kind and size that `lexeme` finds there, and goes on behind it. -/
inductive Stream : Position → Bytes → List Token → Prop
  | done {pos : Position} (skip : Bytes) : Stream pos skip [endToken (pos.advance skip)]
  | token {pos : Position} (skip lit rest : Bytes) (ts : List Token) (hne : lit ≠ [])
      (hlit : lit = (lit ++ rest).take (max 1 (lexeme (lit ++ rest)).2))
      (tail : Stream (pos.advance (skip ++ lit)) rest ts) :
      Stream pos (skip ++ (lit ++ rest))
        (⟨(lexeme (lit ++ rest)).1, lit, ⟨pos.advance skip, pos.advance (skip ++ lit)⟩⟩ :: ts)

theorem stream_tokensFrom (pos : Position) (bs : Bytes) : Stream pos bs (tokensFrom pos bs) := by
  fun_induction tokensFrom pos bs with
  | case1 pos bs t start rest hrest =>
    have hall : bs.take t = bs := List.take_of_length_le (List.drop_eq_nil_iff.mp hrest)
    have hstart : start = pos.advance bs := by simp only [start, hall]
    rw [hstart]
    exact Stream.done bs
  | case2 pos bs t start rest hrest kind size hlex n stop ih =>
    have hbs : bs = bs.take t ++ (rest.take n ++ rest.drop n) := by
      simp only [rest, List.take_append_drop]
    have hstop : stop = pos.advance (bs.take t ++ rest.take n) := by
      simp only [stop, start, Position.advance_append]
    have hn : n = max 1 (lexeme (rest.take n ++ rest.drop n)).2 := by
      rw [List.take_append_drop, hlex]
    have hkind : kind = (lexeme (rest.take n ++ rest.drop n)).1 := by
      rw [List.take_append_drop, hlex]
    have hne : rest.take n ≠ [] := by
      simp only [ne_eq, List.take_eq_nil_iff, hrest, or_false]
      omega
    have hlit : rest.take n = (rest.take n ++ rest.drop n).take
        (max 1 (lexeme (rest.take n ++ rest.drop n)).2) := by
      rw [← hn, List.take_append_drop]
    rw [hstop] at ih
    have hstream := Stream.token (bs.take t) (rest.take n) (rest.drop n) _ hne hlit ih
    rw [← hbs, ← hkind, ← hstop] at hstream
    exact hstream

/-- What is left of a stream after its first tokens is the stream of the text that is left. -/
theorem Stream.append {pos : Position} {bs : Bytes} {as ts : List Token}
    (h : Stream pos bs (as ++ ts)) (hne : ts ≠ []) :
    ∃ pre suf, bs = pre ++ suf ∧ Stream (pos.advance pre) suf ts := by
  induction as generalizing pos bs with
  | nil => exact ⟨[], bs, rfl, h⟩
  | cons a as ih =>
    generalize hall : a :: as ++ ts = all at h
    cases h with
    | done skip =>
      simp only [List.cons_append, List.cons.injEq, List.append_eq_nil_iff] at hall
      exact absurd hall.2.2 hne
    | token skip lit rest more hlitne hlit htail =>
      simp only [List.cons_append, List.cons.injEq] at hall
      obtain ⟨-, rfl⟩ := hall
      obtain ⟨pre, suf, hrest, hsuf⟩ := ih htail
      refine ⟨skip ++ lit ++ pre, suf, by simp [hrest], ?_⟩
      rw [Position.advance_append]
      exact hsuf

/-- The token at the end of the input is the last one and the only one of its kind. -/
theorem Stream.eq_words_append {pos : Position} {bs : Bytes} {ts : List Token}
    (h : Stream pos bs ts) :
    ∃ e : Token, e.kind = .eof ∧ ts = ts.takeWhile (·.kind ≠ .eof) ++ [e] := by
  induction h with
  | @done pos skip => exact ⟨endToken (pos.advance skip), rfl, by simp [endToken]⟩
  | token skip lit rest ts hne hlit tail ih =>
    obtain ⟨e, he, hts⟩ := ih
    refine ⟨e, he, ?_⟩
    have hkind := lexeme_kind_ne_eof (lit ++ rest)
    simp only [ne_eq, hkind, not_false_eq_true, decide_true, List.takeWhile_cons_of_pos,
      List.cons_append, List.cons.injEq, true_and]
    exact hts

/-- A stretch of tokens that starts with `t` covers the literal of `t` and whatever follows it in the
    stretch, which is nothing exactly when `t` is the only token. -/
theorem Stream.stretch {pos : Position} {bs : Bytes} {t : Token} {ts more : List Token}
    (h : Stream pos bs (t :: ts ++ more)) (heof : ∀ u ∈ t :: ts, u.kind ≠ .eof) :
    ∃ skip extra tail,
      bs = skip ++ (t.literal ++ extra ++ tail) ∧
      t.span.start = pos.advance skip ∧
      ((t :: ts).getLast (by simp)).span.stop = pos.advance (skip ++ (t.literal ++ extra)) ∧
      t.kind = (lexeme (t.literal ++ extra ++ tail)).1 ∧
      t.literal = (t.literal ++ extra ++ tail).take
        (max 1 (lexeme (t.literal ++ extra ++ tail)).2) ∧
      t.literal ≠ [] ∧ (extra = [] ↔ ts = []) := by
  induction ts generalizing pos bs t with
  | nil =>
    generalize hall : [t] ++ more = all at h
    cases h with
    | done skip =>
      simp only [List.cons_append, List.nil_append, List.cons.injEq] at hall
      exact absurd (hall.1 ▸ rfl) (heof t (by simp))
    | token skip lit rest us hne hlit htail =>
      simp only [List.cons_append, List.nil_append, List.cons.injEq] at hall
      obtain ⟨rfl, -⟩ := hall
      refine ⟨skip, [], rest, ?_, rfl, ?_, ?_, ?_, hne, by simp⟩
      all_goals simp only [List.append_nil, List.getLast_singleton]
      exact hlit
  | cons u ts ih =>
    generalize hall : t :: u :: ts ++ more = all at h
    cases h with
    | done skip => simp at hall
    | token skip lit rest us hne hlit htail =>
      simp only [List.cons_append, List.cons.injEq] at hall
      obtain ⟨rfl, rfl⟩ := hall
      obtain ⟨skip', extra', tail', hrest, -, hstop, -, -, hune, -⟩ :=
        ih htail (fun v hv => heof v (List.mem_cons_of_mem _ hv))
      have hcover : lit ++ rest = lit ++ (skip' ++ (u.literal ++ extra')) ++ tail' := by
        simp [hrest]
      refine ⟨skip, skip' ++ (u.literal ++ extra'), tail', by rw [hcover], rfl, ?_, ?_, ?_, hne, ?_⟩
      · rw [List.getLast_cons (by simp), hstop]
        simp
      · simp only [hcover]
      · simpa only [hcover] using hlit
      · simp [hune]

/-! ### ASCII words -/

/-- An ASCII character of a word. -/
def isAsciiWord (b : UInt8) : Bool := b < 0x80 && isWordPart b.toNat

theorem decode_of_ascii {b : UInt8} (rest : Bytes) (hb : b < 0x80) :
    Utf8.decode (b :: rest) = (b.toNat, 1) := by
  simp [Utf8.decode, Utf8.decode?, hb]

theorem wordSize_append_of_ascii (w tail : Bytes) (hw : ∀ b ∈ w, isAsciiWord b = true) :
    wordSize (w ++ tail) = w.length + wordSize tail := by
  induction w with
  | nil => simp
  | cons b w ih =>
    have hb := hw b (by simp)
    simp only [isAsciiWord, Bool.and_eq_true, decide_eq_true_eq] at hb
    have htail := ih fun c hc => hw c (List.mem_cons_of_mem _ hc)
    rw [List.cons_append, wordSize, decode_of_ascii _ hb.1]
    simp only [hb.2, if_true, List.drop_succ_cons, List.drop_zero, htail, List.length_cons]
    omega

/-- An ASCII word at the start of a text is read as a word, together with what continues it. -/
theorem lexeme_of_ascii {b : UInt8} {w : Bytes} (tail : Bytes) (hb : b < 0x80)
    (hstart : isWordStart b.toNat = true) (hw : w.all isAsciiWord = true) :
    lexeme (b :: w ++ tail) =
      (TokenKind.ofWord ((b :: w ++ tail).take (w.length + 1 + wordSize tail)),
        w.length + 1 + wordSize tail) := by
  have hsize : 1 + wordSize (w ++ tail) = w.length + 1 + wordSize tail := by
    rw [wordSize_append_of_ascii w tail (List.all_eq_true.mp hw)]; omega
  simp only [List.cons_append, lexeme, decode_of_ascii _ hb, hstart, if_true,
    List.drop_succ_cons, List.drop_zero, hsize]

end Lexer

/-! ### Sources -/

namespace Source

/-- The tokens before the end of the input. -/
def words (s : Source) : List Token := s.tokens.takeWhile (·.kind ≠ .eof)

theorem stream_tokens (s : Source) : Lexer.Stream s.start s.text s.tokens :=
  Lexer.stream_tokensFrom s.start s.text

theorem tokens_eq (s : Source) : ∃ e : Token, e.kind = .eof ∧ s.tokens = s.words ++ [e] :=
  s.stream_tokens.eq_words_append

theorem kind_ne_eof_of_mem_words {s : Source} {t : Token} (h : t ∈ s.words) : t.kind ≠ .eof := by
  have hall : s.words.all (·.kind ≠ .eof) = true := List.all_takeWhile
  simpa using List.all_eq_true.mp hall t h

/-- Whatever ends before the end-of-input token ends with the words. -/
theorem words_eq_of_tokens {s : Source} {used rest : List Token} {t : Token}
    (h : s.tokens = used ++ t :: rest) (ht : t.kind = .eof) : s.words = used := by
  obtain ⟨e, -, htokens⟩ := s.tokens_eq
  rw [htokens] at h
  rcases List.append_eq_append_iff.mp h with ⟨as, hused, hlast⟩ | ⟨as, hwords, hlast⟩
  · have hlength := congrArg List.length hlast
    simp only [List.length_append, List.length_cons, List.length_nil] at hlength
    have has : as = [] := List.length_eq_zero_iff.mp (by omega)
    rw [hused, has, List.append_nil]
  · cases as with
    | nil => rw [hwords, List.append_nil]
    | cons a as =>
      simp only [List.cons_append, List.cons.injEq] at hlast
      have hmem : t ∈ s.words := by simp [hwords, hlast.1]
      exact absurd ht (kind_ne_eof_of_mem_words hmem)

/-- The text of a stretch of tokens, and how its first token was read from it. -/
theorem textOf_stretch {s : Source} {before ts more : List Token} {t : Token}
    (h : s.tokens = before ++ (t :: ts ++ more)) (heof : ∀ u ∈ t :: ts, u.kind ≠ .eof) :
    ∃ extra tail,
      Reader.textOf s (t :: ts) = t.literal ++ extra ∧
      t.kind = (Lexer.lexeme (t.literal ++ extra ++ tail)).1 ∧
      t.literal = (t.literal ++ extra ++ tail).take
        (max 1 (Lexer.lexeme (t.literal ++ extra ++ tail)).2) ∧
      (extra = [] ↔ ts = []) := by
  have hstream := s.stream_tokens
  rw [h] at hstream
  obtain ⟨pre, suf, htext, hsuf⟩ := hstream.append (by simp)
  obtain ⟨skip, extra, tail, hbs, hstart, hstop, hkind, hlit, -, hiff⟩ := hsuf.stretch heof
  refine ⟨extra, tail, ?_, hkind, hlit, hiff⟩
  simp only [Reader.textOf, List.head?_cons, List.getLast?_eq_some_getLast (List.cons_ne_nil t ts)]
  rw [hstart, hstop, ← Position.advance_append, ← Position.advance_append, ← List.append_assoc]
  exact s.cut_advance (pre ++ skip) (t.literal ++ extra) tail (by rw [htext, hbs]; simp)

/-- The text of a single token is its literal. -/
theorem textOf_singleton {s : Source} {before more : List Token} {t : Token}
    (h : s.tokens = before ++ t :: more) (heof : t.kind ≠ .eof) :
    Reader.textOf s [t] = t.literal := by
  have hsplit : s.tokens = before ++ ([t] ++ more) := h
  obtain ⟨extra, tail, htext, -, -, hiff⟩ := textOf_stretch hsplit (by simpa using heof)
  rw [htext, hiff.mpr rfl, List.append_nil]

/-- The text of some tokens is the word `String` exactly when they are this one word. -/
theorem textOf_eq_string_iff {s : Source} {before ts more : List Token} {t : Token}
    (h : s.tokens = before ++ (t :: ts ++ more)) (heof : ∀ u ∈ t :: ts, u.kind ≠ .eof) :
    Reader.textOf s (t :: ts) = ("String" : Bytes) ↔
      ts = [] ∧ t.kind = .ident ∧ t.literal = ("String" : Bytes) := by
  obtain ⟨extra, tail, htext, hkind, hlit, hiff⟩ := textOf_stretch h heof
  constructor
  · intro hstring
    rw [htext] at hstring
    rw [hstring] at hkind hlit
    have hword : Lexer.lexeme ("String" ++ tail) =
        (TokenKind.ofWord (("String" ++ tail).take (6 + Lexer.wordSize tail)),
          6 + Lexer.wordSize tail) :=
      Lexer.lexeme_of_ascii (b := 0x53) (w := [0x74, 0x72, 0x69, 0x6e, 0x67]) tail
        (by decide) (by decide) (by decide)
    -- the word is read with all that continues it, so its literal cannot be shorter than it
    rw [hword] at hkind hlit
    have hsize : max 1 (6 + Lexer.wordSize tail) = 6 + Lexer.wordSize tail := by omega
    simp only [hsize] at hlit
    rw [← hlit] at hkind
    have hsix : 6 ≤ t.literal.length := by
      rw [hlit, List.length_take, List.length_append, show ("String" : Bytes).length = 6 from rfl]
      omega
    have hlength := congrArg List.length hstring
    rw [List.length_append, show ("String" : Bytes).length = 6 from rfl] at hlength
    have hextra : extra = [] := List.length_eq_zero_iff.mp (by omega)
    rw [hextra, List.append_nil] at hstring
    refine ⟨hiff.mp hextra, ?_, hstring⟩
    rw [hkind, hstring]
    exact (by decide : TokenKind.ofWord "String" = .ident)
  · rintro ⟨hts, -, hstring⟩
    rw [htext, hiff.mpr hts, List.append_nil, hstring]

end Source
end BridgeCall
