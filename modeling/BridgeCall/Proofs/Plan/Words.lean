/-
  BridgeCall/Proofs/Plan/Words.lean
  =================================
  **Words among literals.**  A primitive that is not bound is read as a literal,
  and some literals are identifiers too.  `ValueType.HasWord` lists them for each
  type, and `readLiteral_word` says that the list is complete: the readers of
  numbers refuse a text that starts like a name, but for the words for infinity
  and not-a-number.
-/
import BridgeCall.Proofs.Plan.Binding
import BridgeCall.Proofs.Expr.Spelling
import Mathlib.Data.FinEnum
import Mathlib.Tactic.Choose

namespace BridgeCall

/-- The identifiers that are literals of the type. -/
def ValueType.HasWord (ty : ValueType) (x : Bytes) : Prop :=
  match ty with
  | .java .boolean _ | .host .bool _ =>
    x ∈ (["t", "T", "true", "TRUE", "True"] : List Bytes) ∨
      x ∈ (["f", "F", "false", "FALSE", "False"] : List Bytes)
  | .java .float _ | .java .double _ | .host .f32 _ | .host .f64 _ =>
    Bytes.toLower x ∈ (["inf", "infinity", "nan"] : List Bytes)
  | .host .char _ => (Utf8.runes x).length = 1
  | _ => False

/-! ### The first byte of a name -/

/-- The byte can stand at the start of a name. -/
def StartsName (b : UInt8) : Prop := 0x80 ≤ b ∨ Bytes.isWordStart b = true

theorem Lexer.IsWord.startsName {b : UInt8} {bs : Bytes} (h : Lexer.IsWord (b :: bs)) :
    StartsName b := by
  by_cases hb : b < 0x80
  · have hstart := h.isWordStart
    rw [Lexer.decode_of_ascii bs hb] at hstart
    have hascii : ∀ b : UInt8, b < 0x80 → Lexer.isWordStart b.toNat = true →
        Bytes.isWordStart b = true := by decide +kernel
    exact .inr (hascii b hb hstart)
  · exact .inl (UInt8.not_lt.mp hb)

/-- No sign, no point, no quote and no digit starts a name, and a letter is a digit above nine. -/
theorem StartsName.not_number {b : UInt8} (h : StartsName b) :
    (b ≠ 0x2b ∧ b ≠ 0x2d ∧ b ≠ 0x2e ∧ b ≠ 0x27 ∧ b ≠ 0x5c) ∧ Bytes.isDigit b = false ∧
      ∀ d ∈ Number.digit? b, 10 ≤ d := by
  have hbytes : ∀ b : UInt8, (0x80 ≤ b ∨ Bytes.isWordStart b = true) →
      (b ≠ 0x2b ∧ b ≠ 0x2d ∧ b ≠ 0x2e ∧ b ≠ 0x27 ∧ b ≠ 0x5c) ∧ Bytes.isDigit b = false ∧
        ∀ d ∈ Number.digit? b, 10 ≤ d := by decide +kernel
  exact hbytes b h

theorem StartsName.ne_zero {b : UInt8} (h : StartsName b) : b ≠ 0x30 := by
  rintro rfl
  exact absurd h.not_number.2.1 (by decide)

namespace Number

variable {b : UInt8} {bs : Bytes}

theorem dropSign_name (hb : StartsName b) : dropSign (b :: bs) = b :: bs := by
  obtain ⟨⟨hplus, hminus, -⟩, -⟩ := hb.not_number
  unfold dropSign
  split
  · rename_i heq
    exact absurd (List.cons.inj heq).1 hplus
  · rename_i heq
    exact absurd (List.cons.inj heq).1 hminus
  · rfl

/-- No base mark starts a name. -/
theorem splitBase_name (hb : StartsName b) : splitBase (b :: bs) = (10, b :: bs) := by
  unfold splitBase
  split
  · rename_i heq
    exact absurd (List.cons.inj heq).1 hb.ne_zero
  · rename_i heq
    exact absurd (List.cons.inj heq).1 hb.ne_zero
  · rfl

/-- No number starts with an underscore. -/
theorem underscoresOk_name : underscoresOk (0x5f :: bs) = false := by
  simp [underscoresOk, dropSign, separated, Bytes.isDigit]

theorem readDigits_name (hb : StartsName b) (hunderscore : b ≠ 0x5f) (most : Nat) :
    readDigits 10 most 0 (b :: bs) = .error .form := by
  obtain ⟨-, -, hlarge⟩ := hb.not_number
  rw [readDigits, if_neg hunderscore]
  cases hdigit : digit? b with
  | none => rfl
  | some d => exact if_pos (hlarge d hdigit)

theorem readUnsigned_name (hb : StartsName b) (width : Nat) :
    ∃ e, readUnsigned width (b :: bs) = .error e := by
  simp only [readUnsigned, splitBase_name hb]
  by_cases hunderscore : b = 0x5f
  · subst hunderscore
    cases readDigits 10 (Nat.pow 2 width - 1) 0 (0x5f :: bs) with
    | error e => exact ⟨e, rfl⟩
    | ok v => exact ⟨.form, if_pos (by simp [underscoresOk_name])⟩
  · rw [readDigits_name hb hunderscore]
    exact ⟨.form, rfl⟩

theorem readSigned_name (hb : StartsName b) (width : Nat) :
    ∃ e, readSigned width (b :: bs) = .error e := by
  obtain ⟨e, he⟩ : ∃ e, readUnsigned width (b :: bs) = .error e := readUnsigned_name hb width
  simp only [readSigned, dropSign_name hb, he]
  cases e with
  | form => exact ⟨_, rfl⟩
  | range => exact ⟨_, rfl⟩

namespace Format

variable {f : Format}

theorem special?_name (hb : StartsName b) : (∃ v, f.special? (b :: bs) = some v) ↔
    Bytes.toLower (b :: bs) ∈ (["inf", "infinity", "nan"] : List Bytes) := by
  simp only [special?, dropSign_name hb, List.mem_cons, List.not_mem_nil, or_false]
  by_cases hinf : Bytes.toLower (b :: bs) = "inf" ∨ Bytes.toLower (b :: bs) = "infinity"
  · rw [if_pos hinf]
    exact ⟨fun _ => hinf.imp_right .inl, fun _ => ⟨_, rfl⟩⟩
  · rw [if_neg hinf, ← or_assoc, or_iff_right hinf]
    by_cases hnan : Bytes.toLower (b :: bs) = "nan"
    · simp [hnan]
    · simp [hnan]

/-- Without a digit in front there is no number. -/
theorem readMantissa_name (hb : StartsName b) (hunderscore : b ≠ 0x5f) :
    readMantissa 10 {} (b :: bs) = ({}, b :: bs) := by
  obtain ⟨⟨-, -, hpoint, -⟩, hdigit, -⟩ := hb.not_number
  simp [readMantissa, hunderscore, hpoint, hdigit]

/-- A name that is no word for infinity or not-a-number is no number. -/
theorem read_name_error (hb : StartsName b) (hspecial : f.special? (b :: bs) = none) :
    ∃ e, f.read (b :: bs) = .error e := by
  cases hread : f.read (b :: bs) with
  | error e => exact ⟨e, rfl⟩
  | ok v =>
    exfalso
    unfold read at hread
    split at hread
    · rename_i hsome
      rw [hspecial] at hsome
      cases hsome
    extract_lets negative body at hread
    have hbody : body = b :: bs := dropSign_name hb
    split at hread
    rename_i base ds hbase
    obtain ⟨rfl, rfl⟩ : base = 10 ∧ ds = b :: bs := by
      rw [hbody] at hbase
      split at hbase
      · rename_i heq
        exact absurd (List.cons.inj heq).1 hb.ne_zero
      · cases hbase
        exact ⟨rfl, rfl⟩
    split at hread
    rename_i m rest hmantissa
    -- whatever comes behind the mantissa, it is refused or its underscores are
    extract_lets mark tail at hread
    clear_value tail
    split at hread
    · cases hread
    · rename_i e after
      by_cases hunderscore : b = 0x5f
      · subst hunderscore
        split at hread
        · cases hread
        · rw [if_pos (by simp [underscoresOk_name])] at hread
          cases hread
      · rw [readMantissa_name hb hunderscore] at hmantissa
        cases hmantissa
        rw [if_pos (by simp)] at hread
        cases hread

theorem read_name (hb : StartsName b) : (∃ v, f.read (b :: bs) = .ok v) ↔
    Bytes.toLower (b :: bs) ∈ (["inf", "infinity", "nan"] : List Bytes) := by
  rw [← special?_name (f := f) hb]
  cases hspecial : f.special? (b :: bs) with
  | some v => simp [read, hspecial]
  | none =>
    obtain ⟨e, he⟩ := read_name_error hb hspecial
    simp [he]

end Format
end Number

/-! ### Single characters -/

theorem Utf8.length_runes_one {b : UInt8} {bs : Bytes} : (Utf8.runes (b :: bs)).length = 1 ↔
    (b :: bs).drop (Utf8.decode (b :: bs)).2 = [] := by
  rw [Utf8.runes, List.length_cons, Nat.add_eq_right, List.length_eq_zero_iff]
  cases (b :: bs).drop (Utf8.decode (b :: bs)).2 with
  | nil => simp [Utf8.runes]
  | cons d ds => simp [Utf8.runes]

/-- A name of one character is read as that character. -/
theorem unquoteChar_name {b : UInt8} {bs : Bytes} (hb : StartsName b) :
    (∃ u, Quoted.unquoteChar? 0x27 (dropCharQuotes (b :: bs)) = some (u, [])) ↔
      (Utf8.runes (b :: bs)).length = 1 := by
  obtain ⟨⟨-, -, -, hquote, hbackslash⟩, -⟩ := hb.not_number
  have hbare : dropCharQuotes (b :: bs) = b :: bs := by
    unfold dropCharQuotes
    split
    · rename_i heq
      exact absurd (List.cons.inj heq).1 hquote
    · rfl
  rw [hbare, Utf8.length_runes_one, Quoted.unquoteChar?, if_neg fun h => hquote h.1]
  by_cases hascii : 0x80 ≤ b
  · rw [if_pos hascii]
    simp
  · have hdecode := Lexer.decode_of_ascii bs (UInt8.not_le.mp hascii)
    rw [if_neg hascii, if_pos hbackslash, hdecode]
    simp

/-! ### Literals -/

/-- The words for true and false that are no digits. -/
theorem readBool_name {b : UInt8} {bs : Bytes} (hb : StartsName b) :
    (∃ v, Number.readBool (b :: bs) = .ok v) ↔
      b :: bs ∈ (["t", "T", "true", "TRUE", "True"] : List Bytes) ∨
        b :: bs ∈ (["f", "F", "false", "FALSE", "False"] : List Bytes) := by
  have hdigit : ∀ d : UInt8, Bytes.isDigit d = true → b :: bs ≠ [d] := by
    rintro d hd heq
    obtain ⟨rfl, -⟩ := List.cons.inj heq
    rw [hb.not_number.2.1] at hd
    cases hd
  have hone : b :: bs ∈ (["1", "t", "T", "true", "TRUE", "True"] : List Bytes) ↔
      b :: bs ∈ (["t", "T", "true", "TRUE", "True"] : List Bytes) := by
    exact List.mem_cons.trans (or_iff_right (hdigit 0x31 rfl))
  have hzero : b :: bs ∈ (["0", "f", "F", "false", "FALSE", "False"] : List Bytes) ↔
      b :: bs ∈ (["f", "F", "false", "FALSE", "False"] : List Bytes) := by
    exact List.mem_cons.trans (or_iff_right (hdigit 0x30 rfl))
  simp only [Number.readBool, hone, hzero]
  by_cases htrue : b :: bs ∈ (["t", "T", "true", "TRUE", "True"] : List Bytes)
  · rw [if_pos htrue]
    exact ⟨fun _ => .inl htrue, fun _ => ⟨_, rfl⟩⟩
  · rw [if_neg htrue, or_iff_right htrue]
    by_cases hfalse : b :: bs ∈ (["f", "F", "false", "FALSE", "False"] : List Bytes)
    · rw [if_pos hfalse]
      exact ⟨fun _ => hfalse, fun _ => ⟨_, rfl⟩⟩
    · rw [if_neg hfalse]
      constructor
      · rintro ⟨v, hv⟩
        cases hv
      · intro h
        exact absurd h hfalse

/-- **Words among literals.** An identifier is a literal of a type just when it is a word of it. -/
theorem readLiteral_word {ty : ValueType} {x : Bytes} (h : Lexer.IsWord x) :
    (∃ v, readLiteral ty x = .ok v) ↔ ty.HasWord x := by
  obtain ⟨b, bs, rfl⟩ := List.exists_cons_of_ne_nil h.name.1
  have hb := h.startsName
  have hnoSigned : ∀ width, ∃ e, Number.readSigned width (b :: bs) = .error e :=
    Number.readSigned_name hb
  have hnoUnsigned : ∀ width, ∃ e, Number.readUnsigned width (b :: bs) = .error e :=
    Number.readUnsigned_name hb
  choose why hsigned using hnoSigned
  choose why' hunsigned using hnoUnsigned
  have hbool : (∃ v, readLiteral (.host .bool default) (b :: bs) = .ok v) ↔
      ValueType.HasWord (.host .bool default) (b :: bs) := by
    rw [ValueType.HasWord, ← readBool_name hb]
    simp only [readLiteral]
    cases Number.readBool (b :: bs) <;> simp
  have hsingle : (∃ v, readLiteral (.host .f32 default) (b :: bs) = .ok v) ↔
      ValueType.HasWord (.host .f32 default) (b :: bs) := by
    rw [ValueType.HasWord, ← Number.Format.read_name (f := Number.single) hb]
    simp only [readLiteral]
    cases Number.single.read (b :: bs) <;> simp
  have hdouble : (∃ v, readLiteral (.host .f64 default) (b :: bs) = .ok v) ↔
      ValueType.HasWord (.host .f64 default) (b :: bs) := by
    rw [ValueType.HasWord, ← Number.Format.read_name (f := Number.double) hb]
    simp only [readLiteral]
    cases Number.double.read (b :: bs) <;> simp
  cases ty with
  | object c => simp [readLiteral, ValueType.HasWord]
  | java p s =>
    cases p with
    | boolean => exact hbool
    | float => exact hsingle
    | double => exact hdouble
    | _ => simp [readLiteral, ValueType.HasWord, hsigned, hunsigned]
  | host k s =>
    cases k with
    | bool => exact hbool
    | f32 => exact hsingle
    | f64 => exact hdouble
    | char =>
      rw [ValueType.HasWord, ← unquoteChar_name hb]
      simp only [readLiteral]
      split
      · rename_i u hu
        simp [hu]
      · rename_i hno
        constructor
        · rintro ⟨v, hv⟩
          cases hv
        · rintro ⟨u, hu⟩
          exact (hno u hu).elim
    | _ => simp [readLiteral, ValueType.HasWord, hsigned, hunsigned]

/-- What is read as a literal of a type is a value of it. -/
theorem readLiteral_admits {ty : ValueType} {text : Bytes} {v : HostValue}
    (h : readLiteral ty text = .ok v) : ty.Admits v := by
  unfold readLiteral at h
  simp only at h
  split at h <;> first
    | (split at h <;> cases h; rfl)
    | cases h

end BridgeCall
