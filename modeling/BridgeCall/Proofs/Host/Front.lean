/-
  BridgeCall/Proofs/Host/Front.lean
  =================================
  **What stands in front of the package clause.**  Only blanks and comments do.  `Front` is
  the shape of such a text, and every file that can be read has it (`File.exists_front`).
  Which comments stand there can be told from the text alone, wherever it starts
  (`Lexer.leadTexts`), one piece after the other.
-/
import BridgeCall.Proofs.Host.FileLiterals
import Mathlib.Tactic.Tauto
import Mathlib.Data.List.TakeWhile

namespace BridgeCall

/-- The bytes from an offset up to the end of the line. -/
def Bytes.lineFrom (i : Nat) (bs : Bytes) : Bytes := (bs.drop i).takeWhile (· ≠ 0x0a)

namespace Host

namespace Lexer

/-- Blanks separate lexemes. -/
def isBlank (b : UInt8) : Bool := b = 0x0a || b = 0x20 || b = 0x09 || b = 0x0d

variable {b : UInt8} {bs rest body : Bytes} {i : Nat} {f : Found}

theorem not_blank (h : isBlank b = false) :
    b ≠ 0x0a ∧ ¬ (b = 0x20 ∨ b = 0x09 ∨ b = 0x0d) := by
  simp only [isBlank, Bool.or_eq_false_iff, decide_eq_false_iff_not] at h
  tauto

theorem comment?_eq_none (h : b ≠ 0x2f) (rest : Bytes) : comment? (b :: rest) = none := by
  unfold comment?
  split
  · rename_i heq
    exact absurd (List.cons.inj heq).1 h
  · rename_i heq
    exact absurd (List.cons.inj heq).1 h
  · rfl

/-! ### The first lexeme -/

theorem lexemesFrom_blank (h : isBlank b = true) :
    lexemesFrom i false (b :: rest) = lexemesFrom (i + 1) false rest := by
  rw [lexemesFrom]
  by_cases hbreak : b = 0x0a
  · simp [hbreak]
  · have hblank : b = 0x20 ∨ b = 0x09 ∨ b = 0x0d := by simpa [isBlank, hbreak, or_assoc] using h
    rw [if_neg hbreak, if_pos hblank]

theorem lexemesFrom_comment (h : comment? bs = some f) :
    lexemesFrom i false bs = ⟨i + 1, .comment, f.text, f.faults.map (· + i)⟩
      :: lexemesFrom (i + f.size) false (bs.drop f.size) := by
  have hsize : max 1 f.size = f.size := Nat.max_eq_right (Nat.le_of_succ_le (two_le_of_comment? h))
  cases bs with
  | nil => cases h
  | cons b rest =>
    have hslash : b = 0x2f := by
      by_contra hne
      rw [comment?_eq_none hne] at h
      cases h
    rw [lexemesFrom, if_neg (by rw [hslash]; decide), if_neg (by rw [hslash]; decide), h]
    simp only [hsize, Bool.false_eq_true, if_false]

theorem lexemesFrom_other (hb : isBlank b = false) (h : comment? (b :: rest) = none) :
    ∃ semi n, lexemesFrom i false (b :: rest)
      = ⟨i + 1, (found (b :: rest)).kind, (found (b :: rest)).text,
          (found (b :: rest)).faults.map (· + i)⟩ :: lexemesFrom (i + n) semi ((b :: rest).drop n) := by
  obtain ⟨hbreak, hblank⟩ := not_blank hb
  rw [lexemesFrom, if_neg hbreak, if_neg hblank, h]
  exact ⟨_, _, rfl⟩

theorem kind_found (bs : Bytes) : (found bs).kind ≠ .comment := by
  fun_cases found bs with
  | case1 hname w =>
    intro h
    unfold wordKind at h
    split at h <;> cases h
  | _ =>
    intro h
    cases h

/-- A slash starts no word. -/
theorem kind_found_slash (rest : Bytes) (w : String) : (found (0x2f :: rest)).kind ≠ .keyword w := by
  fun_cases found (0x2f :: rest) with
  | case1 hname =>
    have hstart : startsName (0x2f :: rest) = false := by
      rw [startsName, BridgeCall.Lexer.decode_of_ascii rest (by decide)]
      · decide +kernel
      · intro h
        cases h
    rw [hstart] at hname
    cases hname
  | _ =>
    intro h
    cases h

/-! ### Comments -/

/-- The text of a comment line with the given body. -/
def lineText (body : Bytes) : Bytes := 0x2f :: 0x2f :: body.filter (· ≠ 0x0d)

theorem dropReturns_line (before body : Bytes) :
    dropReturns false before body = before.reverse ++ body.filter (· ≠ 0x0d) := by
  induction body generalizing before with
  | nil => simp [dropReturns]
  | cons b body ih =>
    by_cases hb : b = 0x0d
    · subst hb
      rw [dropReturns, if_neg (by simp), ih]
      simp
    · rw [dropReturns.eq_3 _ _ _ _ (by simpa using hb), ih]
      simp [hb]

theorem takeWhile_line (h : 0x0a ∉ body) (rest : Bytes) :
    (body ++ 0x0a :: rest).takeWhile (· ≠ 0x0a) = body := by
  rw [List.takeWhile_append_of_pos]
  · simp
  · intro b hb
    simp only [decide_eq_true_eq]
    rintro rfl
    exact h hb

/-- A comment line goes up to its end. -/
theorem comment?_line (h : 0x0a ∉ body) (rest : Bytes) :
    comment? (0x2f :: 0x2f :: (body ++ 0x0a :: rest))
      = some ⟨.comment, body.length + 2, lineText body, []⟩ := by
  rw [comment?, takeWhile_line h, dropReturns_line, lineText]
  rfl

/-- The text of a block comment with the given bytes behind its opening mark. -/
def blockText (body : Bytes) : Bytes := dropReturns true [] (0x2f :: 0x2a :: body)

theorem prefix_dropReturns (block : Bool) (before bs : Bytes) :
    before.reverse <+: dropReturns block before bs := by
  fun_induction dropReturns block before bs with
  | case1 before => exact List.prefix_rfl
  | case2 before rest hkept ih =>
    exact List.IsPrefix.trans (by rw [List.reverse_cons]; exact List.prefix_append _ _) ih
  | case3 before rest hkept ih => exact ih
  | case4 before b rest hb ih =>
    exact List.IsPrefix.trans (by rw [List.reverse_cons]; exact List.prefix_append _ _) ih

theorem prefix_blockText (body : Bytes) : [0x2f, 0x2a] <+: blockText body := by
  rw [blockText, dropReturns.eq_3 _ _ _ _ (by decide), dropReturns.eq_3 _ _ _ _ (by decide)]
  exact prefix_dropReturns true [0x2a, 0x2f] body

/-- The bytes of a block comment behind its opening mark, with the closing one. -/
def IsBlock (body : Bytes) : Prop := ∀ rest, blockTail (body ++ rest) = (body.length, true)

theorem comment?_block (h : IsBlock body) (rest : Bytes) :
    comment? (0x2f :: 0x2a :: (body ++ rest))
      = some ⟨.comment, body.length + 2, blockText body, []⟩ := by
  rw [comment?, h rest]
  simp [blockText]

/-- A block comment that is closed has a body. -/
theorem exists_block (h : (blockTail bs).2 = true) :
    ∃ body rest, bs = body ++ rest ∧ IsBlock body ∧ (blockTail bs).1 = body.length := by
  fun_induction blockTail bs with
  | case1 => cases h
  | case2 rest => exact ⟨[0x2a, 0x2f], rest, rfl, fun _ => rfl, rfl⟩
  | case3 b rest hopen r ih =>
    obtain ⟨body, after, rfl, hbody, hlength⟩ := ih h
    refine ⟨b :: body, after, rfl, fun more => ?_, congrArg (· + 1) hlength⟩
    rw [List.cons_append, blockTail.eq_3]
    · rw [hbody more, List.length_cons]
    · rintro rest' rfl heq
      cases body with
      | nil => exact absurd (hbody []) (by simp [blockTail])
      | cons c body =>
        obtain rfl : c = 0x2f := (List.cons.inj heq).1
        exact hopen _ rfl rfl

/-- What a comment is that has no fault: a line up to its end, or a closed block. -/
theorem comment?_cases (h : comment? bs = some f) (hfaults : f.faults = []) :
    (∃ body rest, 0x0a ∉ body ∧ bs = 0x2f :: 0x2f :: (body ++ rest) ∧ (∀ b ∈ rest.head?, b = 0x0a)
        ∧ f = ⟨.comment, body.length + 2, lineText body, []⟩)
      ∨ ∃ body rest, IsBlock body ∧ bs = 0x2f :: 0x2a :: (body ++ rest)
        ∧ f = ⟨.comment, body.length + 2, blockText body, []⟩ := by
  unfold comment? at h
  split at h
  · rename_i rest
    cases h
    refine .inl ⟨rest.takeWhile (· ≠ 0x0a), rest.dropWhile (· ≠ 0x0a), ?_, ?_, ?_, ?_⟩
    · intro hmem
      simpa using List.mem_takeWhile_imp hmem
    · rw [List.takeWhile_append_dropWhile]
    · intro b hb
      have hhead := List.head?_dropWhile_not (· ≠ 0x0a) rest
      rw [hb] at hhead
      simpa using hhead
    · rw [dropReturns_line]
      rfl
  · rename_i rest
    cases h
    have hclosed : (blockTail rest).2 = true := by
      by_contra hopen
      simp [hopen] at hfaults
    obtain ⟨body, after, rfl, hbody, hlength⟩ := exists_block hclosed
    refine .inr ⟨body, after, hbody, rfl, ?_⟩
    rw [hlength, hclosed, List.take_left]
    rfl
  · cases h

/-- A comment of a text whose mark is that of a line goes up to the end of the line. -/
theorem exists_line {text : Bytes} {l : Lexeme} (hl : l ∈ lexemes text) (hkind : l.kind = .comment)
    (hfaults : l.faults = []) (hmark : [0x2f, 0x2f] <+: l.text) :
    ∃ body, text.lineFrom (l.pos - 1) = 0x2f :: 0x2f :: body ∧ l.text = lineText body := by
  obtain ⟨j, rfl⟩ := exists_offset hl (by simp [hasBytes, hkind])
  cases hcomment : comment? (text.drop j) with
  | none =>
    have hother : (foundAt text j).kind = .comment := hkind
    rw [foundAt_found hcomment] at hother
    exact absurd hother (kind_found _)
  | some f =>
    rw [lexemeAt_comment hcomment] at hfaults hmark ⊢
    rcases comment?_cases hcomment (List.map_eq_nil_iff.mp hfaults) with
      ⟨body, rest, hbody, hdrop, hrest, rfl⟩ | ⟨body, rest, -, -, rfl⟩
    · refine ⟨body, ?_, rfl⟩
      have hall : ∀ b ∈ 0x2f :: 0x2f :: body, decide (b ≠ 0x0a) = true := by
        intro b hb
        rw [decide_eq_true_eq]
        rintro rfl
        simp [hbody] at hb
      have hstop : rest.takeWhile (· ≠ 0x0a) = [] := by
        cases rest with
        | nil => rfl
        | cons b rest => simp [hrest b rfl]
      rw [Nat.add_sub_cancel, Bytes.lineFrom, hdrop, ← List.cons_append, ← List.cons_append,
        List.takeWhile_append_of_pos hall, hstop, List.append_nil]
    · have hlead := List.prefix_of_prefix_length_le hmark (prefix_blockText body) (by simp)
      simp at hlead

/-! ### The shape of a front -/

theorem kind_of_mem_nil {l : Lexeme} (h : l ∈ lexemesFrom i false []) : l.kind = .eof := by
  have hend : lexemesFrom i false [] = [⟨i + 1, .eof, [], []⟩] := by simp [lexemesFrom]
  rw [hend, List.mem_singleton] at h
  rw [h]

/-- From offset `i` on, blanks and comments stand in front of a lexeme at offset `k`, which starts with
    no slash. -/
inductive Front : Nat → Bytes → List Comment → Nat → Prop
  | word {i : Nat} {b : UInt8} {rest : Bytes} (hblank : isBlank b = false) (hslash : b ≠ 0x2f) :
      Front i (b :: rest) [] i
  | blank {i k : Nat} {b : UInt8} {rest : Bytes} {cs : List Comment} (hblank : isBlank b = true)
      (h : Front (i + 1) rest cs k) : Front i (b :: rest) cs k
  | line {i k : Nat} {body rest : Bytes} {cs : List Comment} (hbody : 0x0a ∉ body)
      (h : Front (i + body.length + 3) rest cs k) :
      Front i (0x2f :: 0x2f :: (body ++ 0x0a :: rest)) (⟨i + 1, lineText body⟩ :: cs) k
  | block {i k : Nat} {body rest : Bytes} {cs : List Comment} (hbody : IsBlock body)
      (h : Front (i + body.length + 2) rest cs k) :
      Front i (0x2f :: 0x2a :: (body ++ rest)) (⟨i + 1, blockText body⟩ :: cs) k

/-- Comments in front of a word make a front, when they have no faults. By induction on the length of
    the text; the first byte decides. -/
theorem front_of_lexemesFrom {bs : Bytes} {i : Nat} {front rest : List Lexeme} {l : Lexeme} {w : String}
    (h : lexemesFrom i false bs = front ++ l :: rest) (hfront : ∀ m ∈ front, m.kind = .comment)
    (hword : l.kind = .keyword w) (hfaults : ∀ m ∈ front, m.faults = []) :
    Front i bs (front.map Lexeme.toComment) (l.pos - 1) := by
  obtain ⟨n, hn⟩ : ∃ n, bs.length = n := ⟨_, rfl⟩
  induction n using Nat.strong_induction_on generalizing i bs front with
  | _ n ih =>
  cases bs with
  | nil =>
    rw [kind_of_mem_nil (h ▸ List.mem_append_right front List.mem_cons_self)] at hword
    cases hword
  | cons b bs =>
    by_cases hblank : isBlank b = true
    · rw [lexemesFrom_blank hblank] at h
      exact .blank hblank (ih bs.length (by rw [← hn]; simp) h hfront hfaults rfl)
    rw [Bool.not_eq_true] at hblank
    cases hcomment : comment? (b :: bs) with
    | none =>
      obtain ⟨semi, n, hother⟩ := lexemesFrom_other (i := i) hblank hcomment
      rw [hother] at h
      cases front with
      | cons m front =>
        obtain ⟨rfl, -⟩ := List.cons.inj h
        exact absurd (hfront _ List.mem_cons_self) (kind_found _)
      | nil =>
        obtain ⟨rfl, -⟩ := List.cons.inj h
        refine .word hblank ?_
        rintro rfl
        exact kind_found_slash bs w hword
    | some f =>
      rw [lexemesFrom_comment hcomment] at h
      cases front with
      | nil =>
        obtain ⟨rfl, -⟩ := List.cons.inj h
        cases hword
      | cons m front =>
        obtain ⟨rfl, hrest⟩ := List.cons.inj h
        have hnone : f.faults = [] := List.map_eq_nil_iff.mp (hfaults _ List.mem_cons_self)
        have hkinds : ∀ m ∈ front, m.kind = .comment := fun m hm => hfront m (List.mem_cons_of_mem _ hm)
        have hclean : ∀ m ∈ front, m.faults = [] := fun m hm => hfaults m (List.mem_cons_of_mem _ hm)
        rcases comment?_cases hcomment hnone with
          ⟨body, after, hbody, htext, hafter, rfl⟩ | ⟨body, after, hbody, htext, rfl⟩
        · obtain ⟨rfl, rfl⟩ : b = 0x2f ∧ bs = 0x2f :: (body ++ after) := List.cons.inj htext
          simp only [List.drop_succ_cons, List.drop_left] at hrest
          cases after with
          | nil =>
            have hmem : l ∈ lexemesFrom (i + (body.length + 2)) false [] := by
              rw [hrest]
              exact List.mem_append_right front List.mem_cons_self
            rw [kind_of_mem_nil hmem] at hword
            cases hword
          | cons c after =>
            obtain rfl : c = 0x0a := hafter c rfl
            rw [lexemesFrom_blank (by decide)] at hrest
            exact .line hbody (ih after.length (by rw [← hn]; simp; omega) hrest hkinds hclean rfl)
        · obtain ⟨rfl, rfl⟩ : b = 0x2f ∧ bs = 0x2a :: (body ++ after) := List.cons.inj htext
          simp only [List.drop_succ_cons, List.drop_left] at hrest
          exact .block hbody (ih after.length (by rw [← hn]; simp; omega) hrest hkinds hclean rfl)

/-! ### The comments of a front -/

/-- The texts of the comments in front of the first other lexeme. -/
def leadTexts (bs : Bytes) : List Bytes :=
  ((lexemesFrom 0 false bs).takeWhile fun l => l.kind = .comment).map Lexeme.text

/-- They are the same wherever the text starts. -/
theorem leadTexts_from (i : Nat) (bs : Bytes) :
    ((lexemesFrom i false bs).takeWhile fun l => l.kind = .comment).map Lexeme.text = leadTexts bs := by
  obtain ⟨n, hn⟩ : ∃ n, bs.length = n := ⟨_, rfl⟩
  induction n using Nat.strong_induction_on generalizing i bs with
  | _ n ih =>
  rw [leadTexts]
  cases bs with
  | nil => simp [lexemesFrom]
  | cons b bs =>
    by_cases hblank : isBlank b = true
    · have hrest (j : Nat) := ih bs.length (by rw [← hn]; simp) j bs rfl
      rw [lexemesFrom_blank hblank, lexemesFrom_blank hblank, hrest, hrest]
    rw [Bool.not_eq_true] at hblank
    cases hcomment : comment? (b :: bs) with
    | none =>
      have hother (j : Nat) : (lexemesFrom j false (b :: bs)).takeWhile (fun l => l.kind = .comment)
          = [] := by
        obtain ⟨semi, m, hfirst⟩ := lexemesFrom_other (i := j) hblank hcomment
        rw [hfirst, List.takeWhile_cons_of_neg (by simpa using kind_found _)]
      rw [hother, hother]
    | some f =>
      have hsize := two_le_of_comment? hcomment
      have hrest (j : Nat) := ih ((b :: bs).drop f.size).length
        (by rw [← hn, List.length_drop, List.length_cons]; omega) j _ rfl
      rw [lexemesFrom_comment hcomment, lexemesFrom_comment hcomment]
      simp only [decide_true, List.takeWhile_cons_of_pos, List.map_cons, hrest]

theorem leadTexts_blank (h : isBlank b = true) : leadTexts (b :: rest) = leadTexts rest := by
  rw [leadTexts, lexemesFrom_blank h, leadTexts_from]

theorem leadTexts_comment (h : comment? bs = some f) :
    leadTexts bs = f.text :: leadTexts (bs.drop f.size) := by
  rw [leadTexts, lexemesFrom_comment h, List.takeWhile_cons_of_pos (by simp), List.map_cons,
    leadTexts_from]

theorem leadTexts_other (hb : isBlank b = false) (hslash : b ≠ 0x2f) : leadTexts (b :: rest) = [] := by
  obtain ⟨semi, n, h⟩ := lexemesFrom_other (i := 0) hb (comment?_eq_none hslash rest)
  rw [leadTexts, h, List.takeWhile_cons_of_neg (by simpa using kind_found _), List.map_nil]

theorem leadTexts_line (h : 0x0a ∉ body) (rest : Bytes) :
    leadTexts (0x2f :: 0x2f :: (body ++ 0x0a :: rest)) = lineText body :: leadTexts rest := by
  rw [leadTexts_comment (comment?_line h rest)]
  simp only [List.drop_succ_cons, List.drop_left]
  rw [leadTexts_blank (by decide)]

theorem leadTexts_block (h : IsBlock body) (rest : Bytes) :
    leadTexts (0x2f :: 0x2a :: (body ++ rest)) = blockText body :: leadTexts rest := by
  rw [leadTexts_comment (comment?_block h rest)]
  simp only [List.drop_succ_cons, List.drop_left]

end Lexer

/-! ### The front of a file -/

namespace File.IsRead

variable {text : Bytes} {f : File} {front rest : List Lexeme} {package : Lexeme}

theorem before (h : f.IsRead text front package rest) : ∀ l ∈ front, l.pos < f.package := by
  intro l hl
  have hordered := Lexer.pairwise_lt_lexemes text
  rw [h.lexemes, List.pairwise_append] at hordered
  rw [h.place]
  exact hordered.2.2 l hl package List.mem_cons_self (by simp [Lexer.hasBytes, h.skipped l hl])

theorem behind (h : f.IsRead text front package rest) : ∀ l ∈ rest, f.package < l.pos := by
  intro l hl
  have hordered := Lexer.pairwise_lt_lexemes text
  rw [h.lexemes, List.pairwise_append, List.pairwise_cons] at hordered
  rw [h.place]
  exact hordered.2.1.1 l hl (by simp [Lexer.hasBytes, h.word])

/-- A file has a front, at its start or behind the mark of its encoding. -/
theorem exists_front (h : f.IsRead text front package rest)
    (hfaults : ∀ l ∈ Lexer.lexemes text, l.faults = []) :
    ∃ i, Lexer.Front i (text.drop i) (front.map Lexeme.toComment) (f.package - 1)
      ∧ (i = 0 ∨ 0 < i ∧ text.head? = some 0xEF) := by
  have hclean : ∀ l ∈ front, l.faults = [] := by
    intro l hl
    refine hfaults l ?_
    rw [h.lexemes]
    exact List.mem_append_left _ hl
  have hlexemes := h.lexemes
  rw [h.place]
  unfold Lexer.lexemes at hlexemes
  split at hlexemes
  · exact ⟨3, Lexer.front_of_lexemesFrom hlexemes h.skipped h.word hclean, .inr ⟨by decide, rfl⟩⟩
  · exact ⟨0, Lexer.front_of_lexemesFrom hlexemes h.skipped h.word hclean, .inl rfl⟩

/-- The comments in front of the package clause are those that the text starts with. -/
theorem leadTexts_eq (h : f.IsRead text front package rest) (htext : text.head? ≠ some 0xEF) :
    Lexer.leadTexts text = front.map Lexeme.text := by
  have hlexemes := h.lexemes
  unfold Lexer.lexemes at hlexemes
  split at hlexemes
  · exact absurd rfl htext
  · have hword : (decide (package.kind = .comment)) = false := by simp [h.word]
    rw [Lexer.leadTexts, hlexemes, List.takeWhile_append_of_pos (by simpa using h.skipped),
      List.takeWhile_cons_of_neg (by simp [hword]), List.append_nil]

end File.IsRead

end Host
end BridgeCall
