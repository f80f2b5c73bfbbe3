/-
  BridgeCall/Proofs/Expr/Locality.lean
  ====================================
  **Tokens do not depend on what follows.**  The lexer decides on a token by its
  own bytes, as long as it is no error: cutting the text off behind it, or behind
  any later byte, leaves kind and size as they were (`lexeme_append`).  Blanks
  and comments behave the same way (`local_triviaSize`).  `Local` says this of
  one size function, and each size function of the lexer has it.
-/
import BridgeCall.Proofs.Expr.Names
import Mathlib.Data.List.GetD

namespace BridgeCall

/-! ### Characters -/

namespace Utf8

theorem decode?_append {as bs : Bytes} {r : Nat × Nat} (h : decode? as = some r) :
    decode? (as ++ bs) = some r := by
  obtain ⟨n, w⟩ := r
  obtain ⟨s, rest, rfl, hs, rfl⟩ := exists_sequence h
  rw [List.append_assoc]
  exact hs.decode? (rest ++ bs)

theorem decode?_of_append {as bs : Bytes} {c w : Nat} (h : decode? (as ++ bs) = some (c, w))
    (hw : w ≤ as.length) : decode? as = some (c, w) := by
  obtain ⟨s, rest, heq, hs, rfl⟩ := exists_sequence h
  obtain ⟨more, rfl⟩ : s <+: as :=
    List.prefix_of_prefix_length_le ⟨rest, heq.symm⟩ (List.prefix_append as bs) hw
  exact hs.decode? more

/-- A character that was cut off stands for the replacement character. -/
theorem decode_append_cases {as : Bytes} (hne : as ≠ []) (bs : Bytes) :
    decode as = decode (as ++ bs) ∨ decode as = (replacement, 1) := by
  cases h : decode? as with
  | some r =>
    left
    rw [decode, decode, h, decode?_append h]
  | none =>
    right
    have hpos : 0 < as.length := List.length_pos_iff.mpr hne
    rw [decode, h]
    exact congrArg (Prod.mk replacement) (by omega)

theorem decode_append {as bs : Bytes} (hne : as ≠ []) (hw : (decode (as ++ bs)).2 ≤ as.length) :
    decode as = decode (as ++ bs) := by
  have hpos : 0 < as.length := List.length_pos_iff.mpr hne
  cases h : decode? (as ++ bs) with
  | some r =>
    obtain ⟨c, w⟩ := r
    have hwidth : w ≤ as.length := by
      rw [decode, h] at hw
      exact hw
    rw [decode, decode, h, decode?_of_append h hwidth]
  | none =>
    have hnone : decode? as = none := by
      cases has : decode? as with
      | none => rfl
      | some r =>
        rw [decode?_append has] at h
        cases h
    rw [decode, decode, h, hnone]
    simp only [List.length_append, Prod.mk.injEq, true_and]
    omega

end Utf8

namespace Lexer

/-! ### Sizes -/

/-- A size that depends on no byte behind those it counts. -/
def Local (size : Bytes → Nat) : Prop :=
  ∀ ⦃as bs : Bytes⦄, size (as ++ bs) ≤ as.length → size as = size (as ++ bs)

theorem Local.drop {size : Bytes → Nat} (h : Local size) {as bs : Bytes} {k : Nat}
    (hk : k + size ((as ++ bs).drop k) ≤ as.length) :
    size (as.drop k) = size ((as ++ bs).drop k) := by
  have hdrop : (as ++ bs).drop k = as.drop k ++ bs := List.drop_append_of_le_length (by omega)
  rw [hdrop] at hk ⊢
  apply h
  rw [List.length_drop]
  omega

theorem local_runSize (p : UInt8 → Bool) : Local (runSize p) := by
  intro as bs h
  induction as with
  | nil => exact (Nat.le_zero.mp h).symm
  | cons a as ih =>
    unfold runSize at h ih ⊢
    rw [List.cons_append, List.takeWhile_cons] at h ⊢
    rw [List.takeWhile_cons]
    split at h
    · rename_i ha
      rw [if_pos ha, if_pos ha, List.length_cons, List.length_cons,
        ih (Nat.le_of_succ_le_succ h)]
    · rename_i ha
      rw [if_neg ha, if_neg ha]

theorem exists_cons_of_append {as bs rest : Bytes} {b : UInt8} (h : as ++ bs = b :: rest)
    (hpos : 0 < as.length) : ∃ as', as = b :: as' ∧ rest = as' ++ bs := by
  rcases List.append_eq_cons_iff.mp h with ⟨rfl, -⟩ | hcons
  · exact absurd hpos (Nat.lt_irrefl 0)
  · exact hcons

/-! ### Blanks and comments -/

theorem local_blockTailSize : Local blockTailSize := by
  intro as bs h
  generalize hcs : as ++ bs = cs at h ⊢
  fun_induction blockTailSize cs generalizing as with
  | case1 =>
    rw [(List.append_eq_nil_iff.mp hcs).1]
    rfl
  | case2 rest =>
    obtain ⟨as', rfl, rfl⟩ := exists_cons_of_append hcs (by omega)
    simp only [List.length_append, List.length_cons] at h ⊢
    rw [blockTailSize]
    omega
  | case3 rest =>
    obtain ⟨as', rfl, hrest⟩ := exists_cons_of_append hcs (by omega)
    rw [List.length_cons] at h
    obtain ⟨as'', rfl, -⟩ := exists_cons_of_append hrest.symm (by omega)
    rw [blockTailSize]
  | case4 b rest hzero hstar ih =>
    obtain ⟨as', rfl, rfl⟩ := exists_cons_of_append hcs (by omega)
    rw [List.length_cons] at h
    rw [blockTailSize, ih rfl (by omega)]
    · exact hzero
    · rintro more hb rfl
      exact hstar (more ++ bs) hb rfl

theorem local_lineCommentSize : Local lineCommentSize := local_runSize _

theorem triviaSize_blank {b : UInt8} (hb : isTrivia b = true) (rest : Bytes) :
    triviaSize (b :: rest) = 1 + triviaSize rest := by
  rw [triviaSize.eq_def]
  simp only [if_pos hb]

theorem drop_comment (a b : UInt8) (more : Bytes) (n : Nat) :
    (a :: b :: more).drop (2 + n) = more.drop n := by
  rw [Nat.add_comm]
  rfl

theorem triviaSize_line (more : Bytes) :
    triviaSize (0x2f :: 0x2f :: more) =
      2 + lineCommentSize more + triviaSize (more.drop (lineCommentSize more)) := by
  rw [triviaSize.eq_def]
  simp only [if_neg (show ¬ isTrivia 0x2f = true by decide), if_true, drop_comment]

theorem triviaSize_block (more : Bytes) :
    triviaSize (0x2f :: 0x2a :: more) =
      2 + blockTailSize more + triviaSize (more.drop (blockTailSize more)) := by
  rw [triviaSize.eq_def]
  simp only [if_neg (show ¬ isTrivia 0x2f = true by decide), if_true, drop_comment]

theorem triviaSize_none {b : UInt8} (hb : ¬ isTrivia b = true) {rest : Bytes}
    (hrest : b = 0x2f → ∀ c ∈ rest.head?, c ≠ 0x2f ∧ c ≠ 0x2a) : triviaSize (b :: rest) = 0 := by
  rw [triviaSize.eq_def]
  simp only [if_neg hb]
  split
  · rename_i hslash
    split
    · exact absurd rfl (hrest hslash 0x2f rfl).1
    · exact absurd rfl (hrest hslash 0x2a rfl).2
    · rfl
  · rfl

/-- What opens no comment in a text opens none in a part of it. -/
theorem no_comment {rest as bs : Bytes} (hrest : rest = as ++ bs)
    (hline : ∀ more, rest = 0x2f :: more → False) (hblock : ∀ more, rest = 0x2a :: more → False) :
    ∀ c ∈ as.head?, c ≠ 0x2f ∧ c ≠ 0x2a := by
  intro c hc
  cases as with
  | nil => cases hc
  | cons a as =>
    cases hc
    constructor
    · rintro rfl
      exact hline _ hrest
    · rintro rfl
      exact hblock _ hrest

/-- A comment with what follows it; `size` measures the comment behind its opening mark. -/
theorem comment_append {size : Bytes → Nat} (hsize : Local size) {as bs : Bytes}
    (h : size (as ++ bs) + triviaSize ((as ++ bs).drop (size (as ++ bs))) ≤ as.length)
    (ih : ∀ ⦃cs : Bytes⦄, cs ++ bs = (as ++ bs).drop (size (as ++ bs)) →
      triviaSize ((as ++ bs).drop (size (as ++ bs))) ≤ cs.length →
        triviaSize cs = triviaSize ((as ++ bs).drop (size (as ++ bs)))) :
    size as + triviaSize (as.drop (size as)) =
      size (as ++ bs) + triviaSize ((as ++ bs).drop (size (as ++ bs))) := by
  have hle : size (as ++ bs) ≤ as.length := by omega
  have hdrop : (as ++ bs).drop (size (as ++ bs)) = as.drop (size (as ++ bs)) ++ bs :=
    List.drop_append_of_le_length hle
  rw [hsize hle, ih hdrop.symm (by rw [List.length_drop]; omega)]

theorem local_triviaSize : Local triviaSize := by
  intro as bs h
  generalize hcs : as ++ bs = cs at h ⊢
  fun_induction triviaSize cs generalizing as with
  | case1 => rw [(List.append_eq_nil_iff.mp hcs).1, triviaSize]
  | case2 b rest hb ih =>
    obtain ⟨as', rfl, rfl⟩ := exists_cons_of_append hcs (by omega)
    rw [List.length_cons] at h
    rw [triviaSize_blank hb, ih rfl (by omega)]
  | case3 more n hb =>
    rename_i ih
    rw [drop_comment] at h ih ⊢
    obtain ⟨as', rfl, hrest⟩ := exists_cons_of_append hcs (by omega)
    rw [List.length_cons] at h
    obtain ⟨as'', rfl, rfl⟩ := exists_cons_of_append hrest.symm (by omega)
    rw [List.length_cons] at h
    have hcomment := comment_append local_lineCommentSize (by omega) ih
    rw [triviaSize_line]
    omega
  | case4 more n hb =>
    rename_i ih
    rw [drop_comment] at h ih ⊢
    obtain ⟨as', rfl, hrest⟩ := exists_cons_of_append hcs (by omega)
    rw [List.length_cons] at h
    obtain ⟨as'', rfl, rfl⟩ := exists_cons_of_append hrest.symm (by omega)
    rw [List.length_cons] at h
    have hcomment := comment_append local_blockTailSize (by omega) ih
    rw [triviaSize_block]
    omega
  | case5 rest hline hblock hb =>
    cases as with
    | nil => rw [triviaSize]
    | cons a as =>
      cases hcs
      exact triviaSize_none hb fun _ => no_comment rfl hline hblock
  | case6 b rest hb hslash =>
    cases as with
    | nil => rw [triviaSize]
    | cons a as =>
      cases hcs
      exact triviaSize_none hb fun heq => absurd heq hslash

/-- Behind the blanks and comments stands no other one. -/
theorem triviaSize_drop (bs : Bytes) : triviaSize (bs.drop (triviaSize bs)) = 0 := by
  fun_induction triviaSize bs with
  | case1 => rw [List.drop_nil, triviaSize]
  | case2 b rest hb ih => rw [Nat.add_comm, List.drop_succ_cons, ih]
  | case3 more n hb =>
    rename_i ih
    rw [← List.drop_drop, ih]
  | case4 more n hb =>
    rename_i ih
    rw [← List.drop_drop, ih]
  | case5 rest hline hblock hb =>
    rw [List.drop_zero]
    exact triviaSize_none hb fun _ => no_comment (List.append_nil rest).symm hline hblock
  | case6 b rest hb hslash =>
    rw [List.drop_zero]
    exact triviaSize_none hb fun heq => absurd heq hslash

/-! ### Words -/

theorem local_wordSize : Local wordSize := by
  intro as bs h
  generalize hcs : as ++ bs = cs at h ⊢
  fun_induction wordSize cs generalizing as with
  | case1 => rw [(List.append_eq_nil_iff.mp hcs).1, wordSize]
  | case2 b rest r hpart =>
    rename_i ih
    have hpos : 0 < r.2 := Utf8.decode_width_pos b rest
    obtain ⟨as', rfl, rfl⟩ := exists_cons_of_append hcs (by omega)
    have hwidth : r.2 ≤ (b :: as').length := le_trans (Nat.le_add_right _ _) h
    have hdecode : Utf8.decode (b :: as') = r := Utf8.decode_append (by simp) hwidth
    have hdrop : (b :: (as' ++ bs)).drop r.2 = (b :: as').drop r.2 ++ bs :=
      List.drop_append_of_le_length hwidth
    rw [wordSize, hdecode]
    simp only [hpart, if_true]
    rw [ih hdrop.symm (by rw [List.length_drop]; omega)]
  | case3 b rest r =>
    rename_i hpart
    cases as with
    | nil => rw [wordSize]
    | cons a as =>
      cases hcs
      rw [wordSize]
      rcases Utf8.decode_append_cases (List.cons_ne_nil b as) bs with heq | heq
      · rw [heq]
        exact if_neg hpart
      · rw [heq]
        exact if_neg (by rw [isWordPart_replacement]; decide)

/-! ### Numbers -/

theorem runSize_cons {p : UInt8 → Bool} {d : UInt8} (hd : p d = true) (rest : Bytes) :
    runSize p (d :: rest) = 1 + runSize p rest := by
  rw [runSize, List.takeWhile_cons_of_pos hd, List.length_cons, Nat.add_comm]
  rfl

theorem fractionSize_cons (a d : UInt8) (rest : Bytes) :
    fractionSize (a :: d :: rest) =
      if a = 0x2e ∧ Bytes.isDigit d = true then 2 + runSize isDigitPart rest else 0 := by
  by_cases ha : a = 0x2e
  · subst ha
    rw [fractionSize]
    by_cases hd : Bytes.isDigit d = true
    · have hpart : isDigitPart d = true := by simp [isDigitPart, hd]
      rw [if_pos hd, if_pos ⟨rfl, hd⟩, runSize_cons hpart]
      omega
    · rw [if_neg hd, if_neg (fun h => hd h.2)]
  · simp [fractionSize, ha]

theorem local_fractionSize : Local fractionSize := by
  intro as bs h
  match as with
  | [] => exact (Nat.le_zero.mp h).symm
  | [a] =>
    have hshort : fractionSize [a] = 0 := by simp [fractionSize]
    cases bs with
    | nil => rfl
    | cons d bs =>
      rw [List.cons_append, List.nil_append, fractionSize_cons] at h ⊢
      rw [hshort]
      split at h
      · rw [List.length_singleton] at h
        omega
      · rename_i hdigit
        rw [if_neg hdigit]
  | a :: d :: as =>
    rw [List.cons_append, List.cons_append, fractionSize_cons] at h ⊢
    rw [fractionSize_cons]
    split at h
    · rename_i hdigit
      rw [List.length_cons, List.length_cons] at h
      have hrun : runSize isDigitPart as = runSize isDigitPart (as ++ bs) :=
        local_runSize isDigitPart (by omega)
      rw [if_pos hdigit, if_pos hdigit, hrun]
    · rename_i hdigit
      rw [if_neg hdigit, if_neg hdigit]

/-- The size of the sign of an exponent. -/
def signSize (rest : Bytes) : Nat := if at' rest 0 = 0x2b ∨ at' rest 0 = 0x2d then 1 else 0

theorem exponentSize_cons (a : UInt8) (rest : Bytes) :
    exponentSize (a :: rest) =
      if a = 0x65 ∨ a = 0x45 then
        1 + signSize rest + runSize Bytes.isDigit (rest.drop (signSize rest))
      else 0 := by
  by_cases ha : a = 0x65
  · subst ha
    rfl
  by_cases hb : a = 0x45
  · subst hb
    rfl
  · rw [if_neg (by simp [ha, hb])]
    simp [exponentSize, ha, hb]

theorem local_signSize : Local signSize := by
  intro as bs h
  cases as with
  | nil => exact (Nat.le_zero.mp h).symm
  | cons a as => rfl

theorem local_exponentSize : Local exponentSize := by
  intro as bs h
  cases as with
  | nil => exact (Nat.le_zero.mp h).symm
  | cons a as =>
    rw [List.cons_append, exponentSize_cons] at h ⊢
    rw [exponentSize_cons]
    split at h
    · rename_i hmark
      rw [List.length_cons] at h
      have hsign : signSize as = signSize (as ++ bs) := local_signSize (by omega)
      have hrun : runSize Bytes.isDigit (as.drop (signSize (as ++ bs)))
          = runSize Bytes.isDigit ((as ++ bs).drop (signSize (as ++ bs))) :=
        (local_runSize _).drop (by omega)
      rw [if_pos hmark, if_pos hmark, hsign, hrun]
    · rename_i hmark
      rw [if_neg hmark, if_neg hmark]

theorem isHexMarked_append {as bs : Bytes} (h : isHexMarked (as ++ bs) = true → 2 ≤ as.length) :
    isHexMarked as = isHexMarked (as ++ bs) := by
  match as with
  | [] =>
    cases hmark : isHexMarked ([] ++ bs) with
    | false => rfl
    | true => exact absurd (h hmark) (by simp)
  | [a] =>
    cases hmark : isHexMarked ([a] ++ bs) with
    | false => simp [isHexMarked]
    | true => exact absurd (h hmark) (by simp)
  | a :: b :: as =>
    by_cases ha : a = 0x30
    · subst ha
      rfl
    · simp [isHexMarked, ha]

/-- The kind and size of a number before the letters and digits that stick to it. -/
def plainNumber (bs : Bytes) : TokenKind × Nat :=
  if isHexMarked bs then
    (.intLiteral, 2 + runSize (fun b => Bytes.isHexDigit b || b = 0x5f) (bs.drop 2))
  else
    let whole := runSize isDigitPart bs
    let frac := fractionSize (bs.drop whole)
    let exp := exponentSize (bs.drop (whole + frac))
    (if frac + exp = 0 then .intLiteral else .floatLiteral, whole + frac + exp)

theorem number_eq (bs : Bytes) :
    number bs = ((plainNumber bs).1, (plainNumber bs).2 +
      runSize (fun b => Bytes.isWordStart b || Bytes.isDigit b) (bs.drop (plainNumber bs).2)) := rfl

theorem plainNumber_append {as bs : Bytes} (h : (plainNumber (as ++ bs)).2 ≤ as.length) :
    plainNumber as = plainNumber (as ++ bs) := by
  unfold plainNumber at h ⊢
  by_cases hhex : isHexMarked (as ++ bs) = true
  · simp only [hhex, if_true] at h ⊢
    have hmark : isHexMarked as = true := by
      rw [isHexMarked_append fun _ => by omega]
      exact hhex
    rw [if_pos hmark, (local_runSize _).drop h]
  · have hmark : ¬ isHexMarked as = true := by
      rw [isHexMarked_append fun h => absurd h hhex]
      exact hhex
    simp only [if_neg hhex, if_neg hmark] at h ⊢
    have hwhole : runSize isDigitPart as = runSize isDigitPart (as ++ bs) :=
      local_runSize isDigitPart (by omega)
    have hfrac : fractionSize (as.drop (runSize isDigitPart (as ++ bs)))
        = fractionSize ((as ++ bs).drop (runSize isDigitPart (as ++ bs))) :=
      local_fractionSize.drop (by omega)
    rw [hwhole, hfrac, local_exponentSize.drop h]

theorem number_append {as bs : Bytes} (h : (number (as ++ bs)).2 ≤ as.length) :
    number as = number (as ++ bs) := by
  rw [number_eq] at h ⊢
  have hplain : plainNumber as = plainNumber (as ++ bs) :=
    plainNumber_append (le_trans (Nat.le_add_right _ _) h)
  rw [number_eq, hplain, (local_runSize _).drop h]

/-! ### Quoted literals -/

theorem quotedTail_append {quote : UInt8} {as bs : Bytes} {n : Nat}
    (h : quotedTail quote (as ++ bs) = (n, true)) (hn : n ≤ as.length) :
    quotedTail quote as = (n, true) := by
  generalize hcs : as ++ bs = cs at h
  fun_induction quotedTail quote cs generalizing as n with
  | case1 => cases h
  | case2 rest =>
    cases h
    obtain ⟨as', rfl, -⟩ := exists_cons_of_append hcs hn
    rw [quotedTail.eq_def]
    exact if_pos rfl
  | case3 b rest hquote hend => cases h
  | case4 => cases h
  | case5 =>
    rename_i c more m closed htail hquote hend ih
    cases h
    obtain ⟨as', rfl, hrest⟩ := exists_cons_of_append hcs (by omega)
    rw [List.length_cons] at hn
    obtain ⟨as'', rfl, rfl⟩ := exists_cons_of_append hrest.symm (by omega)
    rw [List.length_cons] at hn
    rw [quotedTail.eq_def]
    simp only [if_neg hquote, if_neg hend, if_true, ih (by omega) rfl htail]
  | case6 b rest hquote hend =>
    rename_i hslash m closed htail ih
    cases h
    obtain ⟨as', rfl, rfl⟩ := exists_cons_of_append hcs (by omega)
    rw [List.length_cons] at hn
    rw [quotedTail.eq_def]
    simp only [if_neg hquote, if_neg hend, if_neg hslash, ih (by omega) rfl htail]

theorem rawTail_append {as bs : Bytes} {n : Nat} (h : rawTail (as ++ bs) = (n, true))
    (hn : n ≤ as.length) : rawTail as = (n, true) := by
  generalize hcs : as ++ bs = cs at h
  fun_induction rawTail cs generalizing as n with
  | case1 => cases h
  | case2 rest =>
    cases h
    obtain ⟨as', rfl, -⟩ := exists_cons_of_append hcs hn
    rw [rawTail, if_pos rfl]
  | case3 rest hquote => cases h
  | case4 b rest =>
    rename_i hquote hend m closed htail ih
    cases h
    obtain ⟨as', rfl, rfl⟩ := exists_cons_of_append hcs (by omega)
    rw [List.length_cons] at hn
    rw [rawTail, if_neg hquote, if_neg hend, ih (by omega) rfl htail]

/-! ### Operators -/

theorem at'_append {as : Bytes} {i : Nat} (hi : i < as.length) (bs : Bytes) :
    at' as i = at' (as ++ bs) i := by
  unfold at'
  exact (List.getD_append _ _ _ _ hi).symm

theorem at'_of_le {as : Bytes} {i : Nat} (hi : as.length ≤ i) : at' as i = 0 := by
  unfold at'
  exact List.getD_eq_default _ _ hi

theorem operator_append {as bs : Bytes} (hkind : (operator (as ++ bs)).1 ≠ .error)
    (h : max 1 (operator (as ++ bs)).2 ≤ as.length) : operator as = operator (as ++ bs) := by
  have hfirst : at' as 0 = at' (as ++ bs) 0 := at'_append (by omega) bs
  have hnext : at' as 1 = at' (as ++ bs) 1 ∨ at' as 1 = 0 ∧ as.length ≤ 1 := by
    rcases Nat.lt_or_ge 1 as.length with hlt | hge
    · exact .inl (at'_append hlt bs)
    · exact .inr ⟨at'_of_le hge, hge⟩
  have hthird : at' as 2 = at' (as ++ bs) 2 ∨ at' as 2 = 0 ∧ as.length ≤ 2 := by
    rcases Nat.lt_or_ge 2 as.length with hlt | hge
    · exact .inl (at'_append hlt bs)
    · exact .inr ⟨at'_of_le hge, hge⟩
  unfold operator at hkind h ⊢
  rw [hfirst]
  generalize at' (as ++ bs) 0 = b at *
  generalize at' (as ++ bs) 1 = next at *
  generalize at' (as ++ bs) 2 = third at *
  clear hfirst
  simp only at hkind h ⊢
  -- one case for each first byte; four of them look at the bytes behind it
  split
  all_goals simp only at hkind h ⊢
  all_goals grind

/-! ### Lexemes -/

theorem isWordStart_append {as : Bytes} (hne : as ≠ []) {bs : Bytes}
    (h : ¬ isWordStart (Utf8.decode (as ++ bs)).1 = true) :
    ¬ isWordStart (Utf8.decode as).1 = true := by
  rcases Utf8.decode_append_cases hne bs with heq | heq
  · rw [heq]
    exact h
  · rw [heq]
    intro hstart
    have hpart := isWordPart_of_isWordStart hstart
    rw [isWordPart_replacement] at hpart
    cases hpart

theorem quotedToken_append {kind : TokenKind} {tail : Bytes → Nat × Bool} {as bs : Bytes}
    (htail : ∀ {n}, tail (as ++ bs) = (n, true) → n ≤ as.length → tail as = (n, true))
    (hkind : (quotedToken kind (tail (as ++ bs))).1 ≠ .error)
    (h : (quotedToken kind (tail (as ++ bs))).2 ≤ as.length + 1) :
    quotedToken kind (tail as) = quotedToken kind (tail (as ++ bs)) := by
  cases hend : tail (as ++ bs) with
  | mk n closed =>
  rw [hend] at hkind h
  cases closed with
  | false => exact absurd rfl hkind
  | true =>
    have hn : n ≤ as.length := by
      simp only [quotedToken] at h
      omega
    rw [htail hend hn]

/-- A token that is no error is known by its own bytes. -/
theorem lexeme_append {as bs : Bytes} (hkind : (lexeme (as ++ bs)).1 ≠ .error)
    (h : max 1 (lexeme (as ++ bs)).2 ≤ as.length) : lexeme as = lexeme (as ++ bs) := by
  obtain ⟨a, as, rfl⟩ := List.exists_cons_of_ne_nil (List.length_pos_iff.mp (by omega : 0 < as.length))
  have hfirst : at' (a :: as) 0 = a := rfl
  have hfirst' : at' (a :: as ++ bs) 0 = a := rfl
  unfold lexeme at hkind h ⊢
  simp only [hfirst, hfirst'] at hkind h ⊢
  by_cases hword : isWordStart (Utf8.decode (a :: as ++ bs)).1 = true
  · simp only [if_pos hword] at h ⊢
    have hdecode : Utf8.decode (a :: as) = Utf8.decode (a :: as ++ bs) :=
      Utf8.decode_append (by simp) (by omega)
    have hsize : wordSize ((a :: as).drop (Utf8.decode (a :: as ++ bs)).2)
        = wordSize ((a :: as ++ bs).drop (Utf8.decode (a :: as ++ bs)).2) :=
      local_wordSize.drop (by omega)
    rw [hdecode, if_pos hword, hsize, List.take_append_of_le_length (by omega)]
  have hword' := isWordStart_append (List.cons_ne_nil a as) hword
  simp only [if_neg hword, if_neg hword'] at hkind h ⊢
  by_cases hdigit : Bytes.isDigit a = true
  · simp only [if_pos hdigit] at h ⊢
    exact number_append (le_trans (le_max_right _ _) h)
  simp only [if_neg hdigit] at hkind h ⊢
  have hdrop : (a :: as ++ bs).drop 1 = as ++ bs := rfl
  have hlength : (a :: as).length = as.length + 1 := rfl
  simp only [hdrop, hlength, List.drop_one, List.tail_cons] at hkind h ⊢
  by_cases hchar : a = 0x27
  · simp only [if_pos hchar] at hkind h ⊢
    exact quotedToken_append quotedTail_append hkind (le_trans (le_max_right _ _) h)
  simp only [if_neg hchar] at hkind h ⊢
  by_cases hstring : a = 0x22
  · simp only [if_pos hstring] at hkind h ⊢
    exact quotedToken_append quotedTail_append hkind (le_trans (le_max_right _ _) h)
  simp only [if_neg hstring] at hkind h ⊢
  by_cases hraw : a = 0x60
  · simp only [if_pos hraw] at hkind h ⊢
    exact quotedToken_append rawTail_append hkind (le_trans (le_max_right _ _) h)
  · simp only [if_neg hraw] at hkind h ⊢
    exact operator_append hkind h

end Lexer
end BridgeCall
