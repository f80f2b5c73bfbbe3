/-
  BridgeCall/Proofs/Expr/Spelling.lean
  ====================================
  **Words and separators.**  A text that spells a list of kinds and literals
  (`Lexer.Spells`) is put together from the right: a word or a separator in front
  of a text is its first token.

  For a word the text behind it must not go on with a byte of words.  This is
  enough because the lexer takes nothing else into a word, so it stops where the
  word ended when it stood alone (`IsWord.lexeme_append`).  For a separator it is
  enough that no dot and no hyphen follows.
-/
import BridgeCall.Proofs.Expr.Names
import BridgeCall.Proofs.Expr.Spacing

namespace BridgeCall

open Grammar

namespace Lexer

/-! ### Words -/

/-- A text that is one identifier. -/
structure IsWord (w : Bytes) : Prop where
  name : IsName w
  alone : lexeme w = (.ident, w.length)

/-- Nothing at the start of the text continues a word. -/
def EndsWord (bs : Bytes) : Prop := ∀ b ∈ bs.head?, isNameByte b = false

@[simp] theorem endsWord_nil : EndsWord [] := by simp [EndsWord]

@[simp] theorem endsWord_cons {b : UInt8} {bs : Bytes} :
    EndsWord (b :: bs) ↔ isNameByte b = false := by
  simp [EndsWord]

/-- A word at the start of a text that goes on reaches no further than one that ends there. -/
theorem leadingWord_le {w : Bytes} {b : UInt8} {bs : Bytes} (hb : isNameByte b = false)
    (hstart : isWordStart (Utf8.decode (w ++ b :: bs)).1 = true) :
    leadingWord (w ++ b :: bs) ≤ w.length := by
  by_contra hlt
  obtain ⟨k, hk⟩ := Nat.exists_eq_add_of_lt (Nat.lt_of_not_le hlt)
  have hmem : b ∈ (w ++ b :: bs).take (leadingWord (w ++ b :: bs)) := by
    rw [hk, Nat.add_assoc, List.take_length_add_append, List.take_succ_cons]
    simp
  have hname := isNameByte_of_mem_leadingWord hstart b hmem
  rw [hb] at hname
  cases hname

theorem IsWord.isWordStart {w : Bytes} (h : IsWord w) :
    isWordStart (Utf8.decode w).1 = true := by
  rcases lexeme_cases w with ⟨hstart, -⟩ | ⟨-, hkind⟩
  · exact hstart
  · exact absurd (congrArg Prod.fst h.alone) hkind

/-- **A word ends where nothing continues it.** -/
theorem IsWord.lexeme_append {w bs : Bytes} (h : IsWord w) (hbs : EndsWord bs) :
    lexeme (w ++ bs) = (.ident, w.length) := by
  cases bs with
  | nil =>
    rw [List.append_nil]
    exact h.alone
  | cons b bs =>
    have hstart : Lexer.isWordStart (Utf8.decode (w ++ b :: bs)).1 = true := by
      by_contra hno
      exact isWordStart_append h.name.1 hno h.isWordStart
    have hword : lexeme (w ++ b :: bs) =
        (TokenKind.ofWord ((w ++ b :: bs).take (leadingWord (w ++ b :: bs))),
          leadingWord (w ++ b :: bs)) := by
      unfold lexeme
      simp only [if_pos hstart]
      rfl
    have hsize := leadingWord_le (endsWord_cons.mp hbs) hstart
    have hpos : 0 < w.length := List.length_pos_iff.mpr h.name.1
    have hnoError : (lexeme (w ++ b :: bs)).1 ≠ .error := by
      rw [hword]
      unfold TokenKind.ofWord
      split <;> simp
    rw [← Lexer.lexeme_append hnoError (by rw [hword]; omega)]
    exact h.alone

/-- No blank and no comment starts a word. -/
theorem triviaSize_name {w : Bytes} (h : IsName w) (bs : Bytes) : triviaSize (w ++ bs) = 0 := by
  obtain ⟨b, w, rfl⟩ := List.exists_cons_of_ne_nil h.1
  have hname : isNameByte b = true := h.2 b (by simp)
  have hslash : b ≠ 0x2f := by
    rintro rfl
    exact absurd hname (by decide)
  have hblank : ¬ isTrivia b = true := by
    intro hb
    simp only [isTrivia, Bool.or_eq_true, decide_eq_true_eq] at hb
    rcases hb with ((rfl | rfl) | rfl) | rfl
    all_goals exact absurd hname (by decide)
  rw [List.cons_append]
  exact triviaSize_none hblank fun heq => absurd heq hslash

/-- An ASCII word that is no keyword. -/
theorem isWord_of_ascii {b : UInt8} {w : Bytes} (hb : b < 0x80)
    (hstart : Lexer.isWordStart b.toNat = true) (hw : w.all isAsciiWord = true)
    (hstatic : b :: w ≠ ("static" : Bytes)) : IsWord (b :: w) := by
  have hname : ∀ d ∈ b :: w, isNameByte d = true := by
    refine List.forall_mem_cons.mpr ⟨?_, fun d hd => ?_⟩
    · simp [isNameByte, isAsciiWord, hb, isWordPart_of_isWordStart hstart]
    · simp [isNameByte, List.all_eq_true.mp hw d hd]
  have hlexeme := lexeme_of_ascii [] hb hstart hw
  have hend : wordSize [] = 0 := by rw [wordSize]
  rw [List.append_nil, hend, Nat.add_zero] at hlexeme
  refine ⟨⟨by simp, hname⟩, ?_⟩
  rw [hlexeme, List.length_cons, List.take_of_length_le (by simp), TokenKind.ofWord,
    if_neg hstatic]

/-- Every identifier that the lexer finds is a word by itself. -/
theorem isWord_of_tokensFrom {pos : Position} {bs : Bytes} {t : Token} {before more : List Token}
    (h : tokensFrom pos bs = before ++ t :: more) (hkind : t.kind = .ident) :
    IsWord t.literal := by
  have hname := (stream_tokensFrom pos bs).isName t (by simp [h]) hkind
  obtain ⟨_, _, _, _, hfrom⟩ := tokensFrom_append h (by simp)
  obtain ⟨skip, lit, rest, rfl, -, hne, hlit, rfl, -⟩ :=
    exists_tokensFrom_cons hfrom (.inl (by simp [hkind]))
  simp only at hkind hname ⊢
  have hnoError : (lexeme (lit ++ rest)).1 ≠ .error := by simp [hkind]
  have hsize := length_of_lexeme hne hnoError hlit
  have hword : 0 < (lexeme (lit ++ rest)).2 := by
    rcases lexeme_cases (lit ++ rest) with ⟨-, hword⟩ | ⟨-, hno⟩
    · obtain ⟨b, bs, hbs⟩ := List.exists_cons_of_ne_nil hne
      have hwidth := Utf8.decode_width_pos b bs
      rw [hword, hbs, leadingWord]
      exact Nat.lt_of_lt_of_le hwidth (Nat.le_add_right _ _)
    · exact absurd hkind hno
  refine ⟨hname, ?_⟩
  rw [Lexer.lexeme_append hnoError (le_of_eq hsize.symm)]
  exact Prod.ext hkind (by rw [hsize]; omega)

/-! ### Spelt texts -/

section Spells

variable {bs : Bytes} {ws : List (TokenKind × Bytes)}

theorem Spells.token (h : Spells bs ws) {kind : TokenKind} {lit : Bytes} (hne : lit ≠ [])
    (hbare : triviaSize (lit ++ bs) = 0) (hlexeme : lexeme (lit ++ bs) = (kind, lit.length)) :
    Spells (lit ++ bs) ((kind, lit) :: ws) := by
  have hpos : 0 < lit.length := List.length_pos_iff.mpr hne
  have hfirst := h.cons hne hbare (by rw [hlexeme]; exact Nat.max_eq_right hpos)
  rwa [hlexeme] at hfirst

theorem Spells.word (h : Spells bs ws) {w : Bytes} (hw : IsWord w) (hbs : EndsWord bs) :
    Spells (w ++ bs) ((.ident, w) :: ws) :=
  h.token hw.name.1 (triviaSize_name hw.name bs) (hw.lexeme_append hbs)

/-- The kind of a separator that is one byte. -/
def separator? : UInt8 → Option TokenKind
  | 0x2e => some .dot
  | 0x24 => some .dollar
  | 0x3c => some .lt
  | 0x3e => some .gt
  | 0x2c => some .comma
  | _ => none

/-- Nothing at the start of the text continues a separator. -/
def EndsSeparator (bs : Bytes) : Prop := ∀ b ∈ bs.head?, b ≠ 0x2e ∧ b ≠ 0x2d

@[simp] theorem endsSeparator_nil : EndsSeparator [] := by simp [EndsSeparator]

@[simp] theorem endsSeparator_cons {b : UInt8} {bs : Bytes} :
    EndsSeparator (b :: bs) ↔ b ≠ 0x2e ∧ b ≠ 0x2d := by
  simp [EndsSeparator]

theorem IsName.endsSeparator {w : Bytes} (h : IsName w) (bs : Bytes) : EndsSeparator (w ++ bs) := by
  obtain ⟨b, w, rfl⟩ := List.exists_cons_of_ne_nil h.1
  have hname : isNameByte b = true := h.2 b (by simp)
  rw [List.cons_append, endsSeparator_cons]
  constructor
  · rintro rfl
    exact absurd hname (by decide)
  · rintro rfl
    exact absurd hname (by decide)

theorem separator?_cases {b : UInt8} {kind : TokenKind} (h : separator? b = some kind) :
    (b = 0x2e ∧ kind = .dot) ∨ (b = 0x24 ∧ kind = .dollar) ∨ (b = 0x3c ∧ kind = .lt) ∨
      (b = 0x3e ∧ kind = .gt) ∨ (b = 0x2c ∧ kind = .comma) := by
  unfold separator? at h
  split at h
  all_goals simp_all

theorem lexeme_separator {b : UInt8} {kind : TokenKind} (h : separator? b = some kind)
    (hbs : EndsSeparator bs) : lexeme (b :: bs) = (kind, 1) := by
  have hnext : at' (b :: bs) 1 ≠ 0x2e ∧ at' (b :: bs) 1 ≠ 0x2d := by
    cases bs with
    | nil => simp [at']
    | cons c bs => exact endsSeparator_cons.mp hbs
  have hfirst : at' (b :: bs) 0 = b := rfl
  have hcases := separator?_cases h
  have hword : ¬ Lexer.isWordStart (Utf8.decode (b :: bs)).1 = true := by
    rcases hcases with h | h | h | h | h
    all_goals
      rw [h.1, decode_of_ascii bs (by decide)]
      decide
  unfold lexeme
  simp only [if_neg hword, hfirst]
  rcases hcases with ⟨rfl, rfl⟩ | ⟨rfl, rfl⟩ | ⟨rfl, rfl⟩ | ⟨rfl, rfl⟩ | ⟨rfl, rfl⟩
  all_goals simp [Bytes.isDigit, operator, hfirst, hnext]

theorem Spells.separator (h : Spells bs ws) {b : UInt8} {kind : TokenKind}
    (hb : separator? b = some kind) (hbs : EndsSeparator bs) :
    Spells (b :: bs) ((kind, [b]) :: ws) := by
  have hbare : triviaSize (b :: bs) = 0 := by
    have hcases := separator?_cases hb
    refine triviaSize_none ?_ ?_
    · rcases hcases with h | h | h | h | h
      all_goals
        rw [h.1]
        decide
    · rintro rfl
      simp at hcases
  exact h.token (List.cons_ne_nil b []) hbare (lexeme_separator hb hbs)

end Spells
end Lexer

open Lexer

/-! ### Sources -/

namespace Source

/-- Every identifier of a text is a word. -/
theorem isWord_of_mem_words {src : Source} {t : Token} (h : t ∈ src.words)
    (hkind : t.kind = .ident) : IsWord t.literal := by
  obtain ⟨before, more, htokens⟩ := List.append_of_mem ((List.takeWhile_sublist _).subset h)
  exact isWord_of_tokensFrom htokens hkind

end Source
end BridgeCall
