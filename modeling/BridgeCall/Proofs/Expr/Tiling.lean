/-
  BridgeCall/Proofs/Expr/Tiling.lean
  ==================================
  **Tokens tile the text.**  Every token is the bytes between its two places, the
  tokens are in order, and the end of the input comes last (`Source.tokens_tile`).
  A place is known by the bytes in front of it as a whole: how many there are, how
  many line feeds are among them, and how many come after the last of these
  (`Position.advance_eq_behind`).

  In a text without NUL, whatever lies in no token is a blank or a comment.  For
  this the bytes that the lexer skips are cut into blanks and comments one after
  the other (`gap_triviaSize`).
-/
import BridgeCall.Proofs.Expr.Spans
import Mathlib.Data.List.Induction
import Mathlib.Data.List.TakeWhile
import Mathlib.Order.Basic
import Mathlib.Data.Nat.Basic

namespace BridgeCall

/-! ### Places by counting -/

/-- The place behind some bytes, by counting them. -/
def Position.behind (p : Position) (bs : Bytes) : Position where
  file := p.file
  offset := p.offset + bs.length
  line := p.line + bs.count 0x0a
  column :=
    if 0x0a ∈ bs then (bs.reverse.takeWhile (· ≠ 0x0a)).length + 1 else p.column + bs.length

theorem Position.advance_eq_behind (p : Position) (bs : Bytes) : p.advance bs = p.behind bs := by
  induction bs using List.reverseRecOn with
  | nil => simp [Position.behind]
  | append_singleton bs b ih =>
    have hstep : (p.advance bs).advance [b] = (p.advance bs).step b := rfl
    rw [Position.advance_append, hstep, ih]
    unfold Position.step
    by_cases hb : b = 0x0a
    · subst hb
      simp [Position.behind]
      omega
    · by_cases hmem : 0x0a ∈ bs
      · simp [Position.behind, hb, hmem]
        omega
      · simp [Position.behind, hb, hmem, Ne.symm hb]
        omega

namespace Lexer

/-! ### Blanks and comments -/

/-- A blank or a comment, in front of the text behind it. A line comment goes up to the next line
    feed, a block comment through the first mark that closes it; both may go to the end. -/
inductive IsTrivium : Bytes → Bytes → Prop
  | blank {b : UInt8} (hb : b ∈ [0x20, 0x09, 0x0d, 0x0a]) (rest : Bytes) : IsTrivium [b] rest
  | line {body rest : Bytes} (hbody : 0x0a ∉ body) (hend : ∀ b ∈ rest.head?, b = 0x0a) :
      IsTrivium (0x2f :: 0x2f :: body) rest
  | block {body : Bytes} (hbody : ¬ [0x2a, 0x2f] <:+: body) (rest : Bytes) :
      IsTrivium (0x2f :: 0x2a :: (body ++ [0x2a, 0x2f])) rest
  | unclosed {body : Bytes} (hbody : ¬ [0x2a, 0x2f] <:+: body) :
      IsTrivium (0x2f :: 0x2a :: body) []

/-- Blanks and comments one after the other, in front of the text behind them. -/
inductive Gap : Bytes → Bytes → Prop
  | nil (rest : Bytes) : Gap [] rest
  | cons {piece more rest : Bytes} (hpiece : IsTrivium piece (more ++ rest)) (hmore : Gap more rest) :
      Gap (piece ++ more) rest

theorem Gap.exists_piece {skip rest : Bytes} (h : Gap skip rest) {i : Nat} (hi : i < skip.length) :
    ∃ before piece after, skip = before ++ (piece ++ after) ∧
      before.length ≤ i ∧ i < before.length + piece.length ∧ IsTrivium piece (after ++ rest) := by
  induction h generalizing i with
  | nil rest => cases hi
  | @cons piece more rest hpiece hmore ih =>
    rw [List.length_append] at hi
    by_cases hfirst : i < piece.length
    · exact ⟨[], piece, more, rfl, Nat.zero_le _, by simpa using hfirst, hpiece⟩
    · obtain ⟨before, piece', after, rfl, hle, hlt, hpiece'⟩ := ih (i := i - piece.length) (by omega)
      refine ⟨piece ++ before, piece', after, by simp, ?_, ?_, hpiece'⟩
      · rw [List.length_append]
        omega
      · rw [List.length_append]
        omega

theorem lineCommentSize_split {bs : Bytes} (hnul : 0 ∉ bs) :
    ∃ body rest, bs = body ++ rest ∧ lineCommentSize bs = body.length ∧ 0x0a ∉ body ∧
      ∀ b ∈ rest.head?, b = 0x0a := by
  refine ⟨bs.takeWhile fun b => b ≠ 0 && b ≠ 0x0a, bs.dropWhile fun b => b ≠ 0 && b ≠ 0x0a,
    List.takeWhile_append_dropWhile.symm, rfl, ?_, ?_⟩
  · intro hmem
    simpa using List.mem_takeWhile_imp hmem
  · intro b hb
    have hstop := List.head?_dropWhile_not (fun b => b ≠ 0 && b ≠ 0x0a) bs
    rw [Option.mem_def.mp hb] at hstop
    have hmem : b ∈ bs := (List.dropWhile_sublist _).subset (List.mem_of_mem_head? hb)
    have hne : b ≠ 0 := by
      rintro rfl
      exact hnul hmem
    simpa [hne] using hstop

theorem blockTailSize_split {bs : Bytes} (hnul : 0 ∉ bs) :
    ∃ body, ¬ [0x2a, 0x2f] <:+: body ∧
      ((∃ rest, bs = body ++ [0x2a, 0x2f] ++ rest ∧ blockTailSize bs = (body ++ [0x2a, 0x2f]).length) ∨
        bs = body ∧ blockTailSize bs = body.length) := by
  fun_induction blockTailSize bs with
  | case1 => exact ⟨[], by simp, .inr ⟨rfl, rfl⟩⟩
  | case2 rest => exact absurd (by simp) hnul
  | case3 rest => exact ⟨[], by simp, .inl ⟨rest, rfl, rfl⟩⟩
  | case4 b rest hzero hstar ih =>
    obtain ⟨body, hbody, hend⟩ := ih fun hmem => hnul (List.mem_cons_of_mem b hmem)
    have hhead : ∀ {tail : Bytes}, rest = body ++ tail → ¬ [0x2a, 0x2f] <:+: b :: body := by
      intro tail hrest hinfix
      rcases List.infix_cons_iff.mp hinfix with hfirst | hlater
      · -- the mark would stand at the start, where it was not found
        rw [List.cons_prefix_cons] at hfirst
        obtain ⟨more, rfl⟩ := hfirst.2
        exact hstar (more ++ tail) hfirst.1.symm (by simpa using hrest)
      · exact hbody hlater
    rcases hend with ⟨more, hrest, hsize⟩ | ⟨hrest, hsize⟩
    · refine ⟨b :: body, hhead (by rw [hrest, List.append_assoc]), .inl ⟨more, ?_, ?_⟩⟩
      · rw [hrest]
        rfl
      · rw [hsize, List.cons_append, List.length_cons, Nat.add_comm]
    · refine ⟨b :: body, hhead (by rw [hrest, List.append_nil]), .inr ⟨?_, ?_⟩⟩
      · rw [hrest]
      · rw [hsize, List.length_cons, Nat.add_comm]

theorem Gap.cons_of_eq {bs rest : Bytes} (piece : Bytes) {n : Nat} (hbs : bs = piece ++ rest)
    (hpiece : IsTrivium piece rest) (hn : n = piece.length + triviaSize rest)
    (hrest : Gap (rest.take (triviaSize rest)) (rest.drop (triviaSize rest))) :
    Gap (bs.take n) (bs.drop n) := by
  rw [hbs, hn, List.take_length_add_append, List.drop_length_add_append]
  refine Gap.cons ?_ hrest
  rw [List.take_append_drop]
  exact hpiece

/-- **What is skipped is blanks and comments.** -/
theorem gap_triviaSize {bs : Bytes} (hnul : 0 ∉ bs) :
    Gap (bs.take (triviaSize bs)) (bs.drop (triviaSize bs)) := by
  fun_induction triviaSize bs with
  | case1 => exact Gap.nil []
  | case2 b rest hb ih =>
    have hblank : b ∈ ([0x20, 0x09, 0x0d, 0x0a] : Bytes) := by
      simpa [isTrivia, or_assoc] using hb
    exact Gap.cons_of_eq [b] rfl (.blank hblank rest) rfl
      (ih fun hmem => hnul (List.mem_cons_of_mem b hmem))
  | case3 more n hb =>
    rename_i ih
    have hmore : 0 ∉ more := fun hmem => hnul (by simp [hmem])
    obtain ⟨body, rest, rfl, hsize, hbody, hend⟩ := lineCommentSize_split hmore
    have hdrop : (0x2f :: 0x2f :: (body ++ rest) : Bytes).drop n = rest := by
      simp only [n, drop_comment, hsize, List.drop_left]
    rw [hdrop] at ih ⊢
    refine Gap.cons_of_eq (0x2f :: 0x2f :: body) rfl (.line hbody hend) ?_
      (ih fun hmem => hmore (List.mem_append_right body hmem))
    simp only [n, hsize, List.length_cons]
    omega
  | case4 more n hb =>
    rename_i ih
    have hmore : 0 ∉ more := fun hmem => hnul (by simp [hmem])
    obtain ⟨body, hbody, ⟨rest, rfl, hsize⟩ | ⟨rfl, hsize⟩⟩ := blockTailSize_split hmore
    · have hdrop : (0x2f :: 0x2a :: (body ++ [0x2a, 0x2f] ++ rest) : Bytes).drop n = rest := by
        simp only [n, drop_comment, hsize, List.drop_left]
      rw [hdrop] at ih ⊢
      refine Gap.cons_of_eq (0x2f :: 0x2a :: (body ++ [0x2a, 0x2f])) rfl
        (.block hbody rest) ?_ (ih fun hmem => hmore (List.mem_append_right _ hmem))
      simp only [n, hsize, List.length_cons]
      omega
    · have hdrop : (0x2f :: 0x2a :: more : Bytes).drop n = [] := by
        simp only [n, drop_comment, hsize, List.drop_length]
      rw [hdrop] at ih ⊢
      refine Gap.cons_of_eq (0x2f :: 0x2a :: more) (List.append_nil _).symm
        (.unclosed hbody) ?_ (ih (by simp))
      simp only [n, hsize, List.length_cons]
      omega
  | case5 rest hline hblock hb => exact Gap.nil _
  | case6 b rest hb hslash => exact Gap.nil _

/-! ### The bytes of a token -/

theorem Stream.length_le {pos : Position} {bs : Bytes} {ts : List Token} (h : Stream pos bs ts) :
    ts.length ≤ bs.length + 1 := by
  induction h with
  | done skip => simp
  | token skip lit rest ts hne hlit _ ih =>
    have hpos : 0 < lit.length := List.length_pos_iff.mpr hne
    simp only [List.length_cons, List.length_append]
    omega

theorem Stream.placed {pos : Position} {bs : Bytes} {ts : List Token} (h : Stream pos bs ts) :
    ∀ t ∈ ts, ∃ pre rest, bs = pre ++ (t.literal ++ rest) ∧
      t.span = ⟨pos.advance pre, pos.advance (pre ++ t.literal)⟩ ∧
      (if t.kind = .eof then t.literal = [] ∧ rest = [] else t.literal ≠ []) := by
  induction h with
  | @done pos skip =>
    intro t ht
    rw [List.mem_singleton] at ht
    subst ht
    exact ⟨skip, [], by simp [endToken], by simp [endToken], by simp [endToken]⟩
  | @token pos skip lit rest ts hne hlit _ ih =>
    intro t ht
    rcases List.mem_cons.mp ht with rfl | ht
    · refine ⟨skip, rest, rfl, rfl, ?_⟩
      rw [if_neg (lexeme_kind_ne_eof _)]
      exact hne
    · obtain ⟨pre, tail, rfl, hspan, hlast⟩ := ih t ht
      refine ⟨skip ++ lit ++ pre, tail, by simp, ?_, hlast⟩
      rw [hspan]
      simp

end Lexer

/-- A token covers the places from its start up to its end. -/
def Token.Covers (t : Token) (offset : Int) : Prop :=
  t.span.start.offset ≤ offset ∧ offset < t.span.stop.offset

namespace Lexer

/-- A byte of a text that belongs to a blank or a comment, with no token in it. -/
def InTrivium (pos : Position) (bs : Bytes) (ts : List Token) (i : Nat) : Prop :=
  ∃ before piece rest, bs = before ++ (piece ++ rest) ∧
    before.length ≤ i ∧ i < before.length + piece.length ∧ IsTrivium piece rest ∧
    ∀ j : Nat, before.length ≤ j → j < before.length + piece.length →
      ∀ t ∈ ts, ¬ t.Covers (pos.offset + j)

/-- Bytes in front of all tokens. -/
theorem inTrivium_of_gap {skip rest : Bytes} (hgap : Gap skip rest) {pos : Position}
    {ts : List Token} (hts : ∀ t ∈ ts, pos.offset + skip.length ≤ t.span.start.offset)
    {i : Nat} (hi : i < skip.length) : InTrivium pos (skip ++ rest) ts i := by
  obtain ⟨before, piece, after, rfl, hle, hlt, hpiece⟩ := hgap.exists_piece hi
  refine ⟨before, piece, after ++ rest, by simp, hle, hlt, hpiece, ?_⟩
  intro j hj hj' t ht hcovers
  have hstart := hts t ht
  have hfrom := hcovers.1
  simp only [List.length_append] at hstart
  omega

/-- Bytes behind the first token. -/
theorem InTrivium.behind {pos stop : Position} {front bs : Bytes} {t : Token} {ts : List Token}
    {k : Nat} (h : InTrivium stop bs ts k) (hstop : stop.offset = pos.offset + front.length)
    (ht : t.span.stop = stop) : InTrivium pos (front ++ bs) (t :: ts) (front.length + k) := by
  obtain ⟨before, piece, rest, rfl, hle, hlt, hpiece, hclear⟩ := h
  have hplace : ∀ m : Nat, pos.offset + (front.length + m : Nat) = stop.offset + m := by
    intro m
    rw [hstop]
    omega
  refine ⟨front ++ before, piece, rest, by simp, ?_, ?_, hpiece, ?_⟩
  · rw [List.length_append]
    omega
  · rw [List.length_append]
    omega
  · intro j hj hj' u hu
    rw [List.length_append] at hj hj'
    obtain ⟨m, rfl⟩ := Nat.exists_eq_add_of_le (le_trans (Nat.le_add_right _ _) hj)
    rw [hplace]
    rcases List.mem_cons.mp hu with rfl | hu
    · rintro ⟨-, hend⟩
      rw [ht] at hend
      omega
    · exact hclear m (by omega) (by omega) u hu

/-- **What lies in no token is blanks and comments.** By induction on the tokens: a byte is skipped
    in front of the first of them, belongs to it, or lies behind it. -/
theorem inTrivium_of_uncovered (pos : Position) {bs : Bytes} (hnul : 0 ∉ bs) {i : Nat}
    (hi : i < bs.length) (hout : ∀ t ∈ tokensFrom pos bs, ¬ t.Covers (pos.offset + i)) :
    InTrivium pos bs (tokensFrom pos bs) i := by
  fun_induction tokensFrom pos bs generalizing i with
  | case1 pos bs t start rest =>
    rename_i hrest
    have hgap : Gap (bs.take t) rest := gap_triviaSize hnul
    have hall : bs.take t = bs := List.take_of_length_le (List.drop_eq_nil_iff.mp hrest)
    have hskip : InTrivium pos (bs.take t ++ rest) [endToken start] i := by
      refine inTrivium_of_gap hgap ?_ (by rwa [hall])
      intro u hu
      rw [List.mem_singleton.mp hu]
      simp [endToken, start, hall]
    rwa [List.take_append_drop] at hskip
  | case2 pos bs t start rest hrest kind size hlex n stop =>
    rename_i ih
    have hgap : Gap (bs.take t) rest := gap_triviaSize hnul
    have hbs : bs.take t ++ rest = bs := List.take_append_drop t bs
    have hsplit : rest.take n ++ rest.drop n = rest := List.take_append_drop n rest
    have hlater := (stream_tokensFrom stop (rest.drop n)).bounds
    have hstart : start.offset = pos.offset + (bs.take t).length := by
      simp only [start, Position.offset_advance]
    have hstop : stop.offset = pos.offset + (bs.take t ++ rest.take n).length := by
      simp only [stop, hstart, Position.offset_advance, List.length_append, Nat.cast_add,
        Int.add_assoc]
    have hall : bs.take t ++ rest.take n ++ rest.drop n = bs := by
      rw [List.append_assoc, hsplit, hbs]
    have hlength := congrArg List.length hall
    rw [List.length_append] at hlength
    rcases Nat.lt_or_ge i (bs.take t).length with hskipped | hbehind
    · rw [← hbs]
      refine inTrivium_of_gap hgap ?_ hskipped
      intro u hu
      rcases List.mem_cons.mp hu with rfl | hu
      · exact hstart.ge
      · have hafter := (hlater u hu).1
        rw [List.length_append] at hstop
        omega
    · have hnot := hout _ (List.mem_cons_self ..)
      have hlate : (bs.take t ++ rest.take n).length ≤ i := by
        by_contra hin
        exact hnot ⟨by dsimp only; omega, by dsimp only; omega⟩
      obtain ⟨k, rfl⟩ := Nat.exists_eq_add_of_le hlate
      have hnul' : 0 ∉ rest.drop n := fun hmem =>
        hnul (List.mem_of_mem_drop (List.mem_of_mem_drop hmem))
      have hplace : pos.offset + ((bs.take t ++ rest.take n).length + k : Nat) =
          stop.offset + k := by
        rw [hstop]
        omega
      rw [hplace] at hout
      have hmore := ih hnul' (i := k) (by omega) fun u hu => hout u (List.mem_cons_of_mem _ hu)
      have hwhole := hmore.behind (t := ⟨kind, rest.take n, ⟨start, stop⟩⟩) hstop rfl
      rwa [hall] at hwhole

end Lexer

/-! ### Tilings -/

/-- How some tokens lie in a text that starts at a position. -/
structure Tiles (start : Position) (text : Bytes) (ts : List Token) : Prop where
  size : ts.length ≤ text.length + 1
  /-- The end of the input is the last token and the only one that is empty. -/
  last : ∃ words, ts = words ++ [⟨.eof, [], ⟨start.behind text, start.behind text⟩⟩] ∧
    ∀ t ∈ words, t.kind ≠ .eof ∧ t.literal ≠ []
  /-- A token is the bytes between its two places. -/
  placed : ∀ t ∈ ts, ∃ i j : Nat, i ≤ j ∧ j ≤ text.length ∧
    t.span = ⟨start.behind (text.take i), start.behind (text.take j)⟩ ∧
    t.literal = Bytes.slice i j text
  ordered : ts.Pairwise fun t u => t.span.stop.offset ≤ u.span.start.offset
  gaps : 0 ∉ text → ∀ i < text.length, (∀ t ∈ ts, ¬ t.Covers (start.offset + i)) →
    Lexer.InTrivium start text ts i

/-- **Tokens tile the text.** A line or column that was left out counts as the first. -/
theorem Source.tokens_tile (text : Bytes) (start : Position) :
    Tiles start.orFirst text (Source.at text start).tokens := by
  have hstream := (Source.at text start).stream_tokens
  constructor
  case size => exact hstream.length_le
  case last =>
    obtain ⟨e, hkind, htokens⟩ := (Source.at text start).tokens_eq
    refine ⟨(Source.at text start).words, ?_, ?_⟩
    · have hmem : e ∈ (Source.at text start).tokens := by simp [htokens]
      obtain ⟨pre, rest, htext, hspan, hend⟩ := hstream.placed e hmem
      rw [if_pos hkind] at hend
      obtain ⟨kind, literal, span⟩ := e
      dsimp only at hkind hspan hend htext
      obtain ⟨rfl, rfl⟩ := hend
      have hpre : text = pre := by simpa [Source.at] using htext
      rw [htokens, hkind, hspan, List.append_nil, hpre, ← Position.advance_eq_behind]
      rfl
    · intro t ht
      have hkind := kind_ne_eof_of_mem_words ht
      have hmem : t ∈ (Source.at text start).tokens := (List.takeWhile_sublist _).subset ht
      obtain ⟨pre, rest, -, -, hword⟩ := hstream.placed t hmem
      rw [if_neg hkind] at hword
      exact ⟨hkind, hword⟩
  case placed =>
    intro t ht
    obtain ⟨pre, rest, htext, hspan, -⟩ := hstream.placed t ht
    have hall : text = pre ++ t.literal ++ rest := by rw [List.append_assoc]; exact htext
    refine ⟨pre.length, (pre ++ t.literal).length, by simp, by simp [hall], ?_, ?_⟩
    · have hpre : text.take pre.length = pre := by rw [hall, List.append_assoc, List.take_left]
      have hupto : text.take (pre ++ t.literal).length = pre ++ t.literal := by
        rw [hall, List.take_left]
      rw [hspan, hpre, hupto, ← Position.advance_eq_behind, ← Position.advance_eq_behind]
      rfl
    · rw [Bytes.slice, hall, List.append_assoc, List.drop_left, List.length_append,
        Nat.add_sub_cancel_left, List.take_left]
  case ordered => exact hstream.ordered
  case gaps =>
    intro hnul i hi hout
    exact Lexer.inTrivium_of_uncovered start.orFirst hnul hi hout

end BridgeCall
