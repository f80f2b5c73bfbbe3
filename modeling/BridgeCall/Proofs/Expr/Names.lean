/-
  BridgeCall/Proofs/Expr/Names.lean
  =================================
  **What a parsed name can hold.**  A word is made of letters, digits and
  underscores of any script.  In bytes this leaves the ASCII word characters and
  everything from 0x80 on, so no mark of a signature or of a format text can
  stand inside a name (`isNameByte`).  From the lexer the fact goes over the
  grammar to every name of a parsed call (`Call.parse_wellFormed`).
-/
import BridgeCall.Proofs.Expr.Exactness
import Mathlib.Data.List.Basic

namespace BridgeCall

/-! ### Bytes of words -/

/-- A well-formed sequence is one ASCII byte, or has no ASCII byte in it. -/
theorem Utf8.decode?_bytes {b : UInt8} {bs : Bytes} {c w : Nat}
    (h : Utf8.decode? (b :: bs) = some (c, w)) :
    (b < 0x80 ∧ c = b.toNat ∧ w = 1) ∨ ∀ d ∈ (b :: bs).take w, 0x80 ≤ d := by
  obtain ⟨s, rest, heq, hs, rfl⟩ := exists_sequence h
  rw [heq, List.take_left]
  rcases hs.ascii_or_high with ⟨a, rfl, hc, ha⟩ | hhigh
  · obtain ⟨rfl, -⟩ := List.cons.inj heq
    exact .inl ⟨UInt8.lt_iff_toNat_lt.mpr ha, hc, rfl⟩
  · exact .inr fun d hd => UInt8.le_iff_toNat_le.mpr (hhigh d hd)

namespace Lexer

/-- A byte that can stand in a word. -/
def isNameByte (b : UInt8) : Bool := 0x80 ≤ b || isAsciiWord b

/-- A text that is not empty and has only bytes of words in it. -/
def IsName (bs : Bytes) : Prop := bs ≠ [] ∧ ∀ b ∈ bs, isNameByte b = true

theorem isWordPart_replacement : isWordPart Utf8.replacement = false := by decide +kernel

/-- The bytes of a character that can stand in a word. -/
theorem isNameByte_of_isWordPart {b : UInt8} {bs : Bytes}
    (h : isWordPart (Utf8.decode (b :: bs)).1 = true) :
    ∀ d ∈ (b :: bs).take (Utf8.decode (b :: bs)).2, isNameByte d = true := by
  unfold Utf8.decode at h ⊢
  cases hdecode : Utf8.decode? (b :: bs) with
  | none =>
    rw [hdecode, isWordPart_replacement] at h
    cases h
  | some r =>
    obtain ⟨c, w⟩ := r
    rw [hdecode] at h
    simp only at h ⊢
    rcases Utf8.decode?_bytes hdecode with ⟨hb, rfl, rfl⟩ | hhigh
    · simp [isNameByte, isAsciiWord, hb, h]
    · intro d hd
      simp [isNameByte, hhigh d hd]

theorem isNameByte_of_mem_word {bs : Bytes} :
    ∀ d ∈ bs.take (wordSize bs), isNameByte d = true := by
  fun_induction wordSize bs with
  | case1 => simp
  | case2 b rest r hpart ih =>
    intro d hd
    rw [List.take_add, List.mem_append] at hd
    rcases hd with hd | hd
    · exact isNameByte_of_isWordPart hpart d hd
    · exact ih d hd
  | case3 => simp

theorem isWordPart_of_isWordStart {c : Nat} (h : isWordStart c = true) : isWordPart c = true := by
  simp [isWordPart, h]

/-! ### Names among the tokens -/

/-- The bytes of a word at the start of a text. -/
theorem isNameByte_of_mem_leadingWord {bs : Bytes}
    (h : isWordStart (Utf8.decode bs).1 = true) :
    ∀ d ∈ bs.take (leadingWord bs), isNameByte d = true := by
  intro d hd
  cases bs with
  | nil => simp at hd
  | cons b bs =>
    rw [leadingWord, List.take_add] at hd
    rcases List.mem_append.mp hd with hd | hd
    · exact isNameByte_of_isWordPart (isWordPart_of_isWordStart h) d hd
    · exact isNameByte_of_mem_word d hd

/-- A lexeme that is an identifier is a word. -/
theorem isNameByte_of_lexeme {b : UInt8} {bs : Bytes} (h : (lexeme (b :: bs)).1 = .ident) :
    ∀ d ∈ (b :: bs).take (max 1 (lexeme (b :: bs)).2), isNameByte d = true := by
  rcases lexeme_cases (b :: bs) with ⟨hstart, hword⟩ | ⟨-, hne⟩
  · have hpos := Utf8.decode_width_pos b bs
    rw [hword, Nat.max_eq_right (by simp only [leadingWord]; omega)]
    exact isNameByte_of_mem_leadingWord hstart
  · exact absurd h hne

theorem Stream.isName {pos : Position} {bs : Bytes} {ts : List Token} (h : Stream pos bs ts) :
    ∀ t ∈ ts, t.kind = .ident → IsName t.literal := by
  induction h with
  | done skip => simp [endToken]
  | token skip lit rest ts hne hlit _ ih =>
    intro t ht
    rcases List.mem_cons.mp ht with rfl | ht
    · intro hkind
      refine ⟨hne, ?_⟩
      obtain ⟨b, lit, rfl⟩ := List.exists_cons_of_ne_nil hne
      simp only at hkind ⊢
      rw [hlit]
      exact isNameByte_of_lexeme hkind
    · exact ih t ht

end Lexer

/-- Every identifier of a text is a name. -/
theorem Source.isName_of_mem_words {s : Source} {t : Token} (h : t ∈ s.words)
    (hkind : t.kind = .ident) : Lexer.IsName t.literal :=
  s.stream_tokens.isName t ((List.takeWhile_sublist _).subset h) hkind

/-! ### Names of a call -/

/-- Every part of the path is a name. -/
structure ClassPath.WellFormed (c : ClassPath) : Prop where
  packages : ∀ w ∈ c.packages, Lexer.IsName w
  outer : Lexer.IsName c.outer
  nested : ∀ w ∈ c.nested, Lexer.IsName w

/-- Only separators and names stand in a written path. -/
theorem ClassPath.mem_write {c : ClassPath} (hc : c.WellFormed) {sep inner : Bytes} {b : UInt8}
    (h : b ∈ c.write sep inner) : b ∈ sep ∨ b ∈ inner ∨ Lexer.isNameByte b = true := by
  simp only [ClassPath.write, List.mem_append, List.mem_flatMap] at h
  rcases h with (⟨w, hw, hb | hb⟩ | hb) | ⟨w, hw, hb | hb⟩
  · exact .inr (.inr ((hc.packages w hw).2 b hb))
  · exact .inl hb
  · exact .inr (.inr (hc.outer.2 b hb))
  · exact .inr (.inl hb)
  · exact .inr (.inr ((hc.nested w hw).2 b hb))

/-- A byte that stands in no name is replaced in the separators alone. -/
theorem ClassPath.replaceByte_write {c : ClassPath} (hc : c.WellFormed) {a : UInt8}
    (ha : Lexer.isNameByte a = false) (b : UInt8) (sep inner : Bytes) :
    Bytes.replaceByte a b (c.write sep inner) =
      c.write (Bytes.replaceByte a b sep) (Bytes.replaceByte a b inner) := by
  have hname {w : Bytes} (hw : Lexer.IsName w) : Bytes.replaceByte a b w = w := by
    have hsame : ∀ d ∈ w, (if d = a then b else d) = d := by
      intro d hd
      refine if_neg ?_
      rintro rfl
      rw [hw.2 d hd] at ha
      cases ha
    rw [Bytes.replaceByte, List.map_congr_left hsame, List.map_id']
  have happend (as bs : Bytes) : Bytes.replaceByte a b (as ++ bs) =
      Bytes.replaceByte a b as ++ Bytes.replaceByte a b bs := List.map_append
  have hflat (ws : List Bytes) (f : Bytes → Bytes) : Bytes.replaceByte a b (ws.flatMap f) =
      ws.flatMap fun w => Bytes.replaceByte a b (f w) := List.map_flatMap ..
  have hpackages : ∀ w ∈ c.packages, Bytes.replaceByte a b w ++ Bytes.replaceByte a b sep =
      w ++ Bytes.replaceByte a b sep := fun w hw => by rw [hname (hc.packages w hw)]
  have hnested : ∀ w ∈ c.nested, Bytes.replaceByte a b inner ++ Bytes.replaceByte a b w =
      Bytes.replaceByte a b inner ++ w := fun w hw => by rw [hname (hc.nested w hw)]
  simp only [ClassPath.write, happend, hflat, hname hc.outer]
  rw [List.flatMap_congr hpackages, List.flatMap_congr hnested]

/-- A class type has a path of names. -/
def ValueType.WellFormed : ValueType → Prop
  | .object c => c.WellFormed
  | .java _ _ | .host _ _ => True

/-- What a parsed call promises: names are names, and no parameter is void. -/
structure Call.WellFormed (c : Call) : Prop where
  method : Lexer.IsName c.method
  static : ∀ p s, c.target = .static p s → p.WellFormed
  params : ∀ p ∈ c.params, p.ty.WellFormed ∧ p.ty.isVoid = false
  payload : c.ret.payload.WellFormed

namespace Grammar

/-- The identifiers among the tokens are names. -/
def Named (ts : List Token) : Prop := ∀ t ∈ ts, t.kind = .ident → Lexer.IsName t.literal

theorem Named.of_subset {ts us : List Token} (h : Named us) (hsub : ts ⊆ us) : Named ts :=
  fun t ht => h t (hsub ht)

theorem IsSegments.of_mem_names {sep : TokenKind} {ts names : List Token}
    (h : IsSegments sep ts names) : ∀ t ∈ names, t ∈ ts ∧ t.kind = .ident := by
  induction h with
  | nil => simp
  | cons _ hname _ ih =>
    intro t ht
    rcases List.mem_cons.mp ht with rfl | ht
    · exact ⟨by simp, hname⟩
    · exact ⟨by simp [ih t ht], (ih t ht).2⟩

/-- What holds of every identifier among the tokens holds of every part of the path. -/
theorem IsPath.forall_names {ts : List Token} {c : ClassPath} {P : Bytes → Prop} (h : IsPath ts c)
    (hts : ∀ t ∈ ts, t.kind = .ident → P t.literal) :
    (∀ w ∈ c.packages, P w) ∧ P c.outer ∧ ∀ w ∈ c.nested, P w := by
  cases h with
  | @mk first ds ns dotted nested _ hfirst hdotted _ hnested houter hinner _ =>
    have hall : ∀ w ∈ c.packages ++ [c.outer], P w := by
      rw [houter]
      intro w hw
      obtain ⟨t, ht, rfl⟩ := List.mem_map.mp hw
      rcases List.mem_cons.mp ht with rfl | ht
      · exact hts t (by simp) hfirst
      · obtain ⟨hmem, hkind⟩ := hdotted.of_mem_names t ht
        exact hts t (by simp [hmem]) hkind
    refine ⟨fun w hw => hall w (by simp [hw]), hall c.outer (by simp), ?_⟩
    rw [hinner]
    intro w hw
    obtain ⟨t, ht, rfl⟩ := List.mem_map.mp hw
    obtain ⟨hmem, hkind⟩ := hnested.of_mem_names t ht
    exact hts t (by simp [hmem]) hkind

theorem IsPath.wellFormed {ts : List Token} {c : ClassPath} (h : IsPath ts c) (hts : Named ts) :
    c.WellFormed := by
  obtain ⟨hpackages, houter, hnested⟩ := h.forall_names hts
  exact ⟨hpackages, houter, hnested⟩

theorem IsType.wellFormed {ts : List Token} {ty : ValueType} (h : IsType ts ty) (hts : Named ts) :
    ty.WellFormed := by
  cases h with
  | host => trivial
  | java => trivial
  | object _ _ hpath => exact hpath.wellFormed hts

theorem IsParameter.wellFormed {src : Source} {ts : List Token} {p : Parameter}
    (h : IsParameter src ts p) (hts : Named ts) : p.ty.WellFormed ∧ p.ty.isVoid = false := by
  cases h with
  | single hty hvoid => exact ⟨hty.wellFormed (hts.of_subset (by simp)), hvoid⟩
  | array _ hty hvoid =>
    refine ⟨hty.wellFormed (hts.of_subset ?_), hvoid⟩
    exact List.subset_cons_of_subset _ (List.subset_append_left _ _)
  | literal _ hty hvoid =>
    refine ⟨hty.wellFormed (hts.of_subset ?_), hvoid⟩
    exact List.subset_cons_of_subset _ (List.subset_append_left _ _)

theorem IsParameters.wellFormed {src : Source} {ts : List Token} {ps : List Parameter}
    (h : IsParameters src ts ps) (hts : Named ts) :
    ∀ p ∈ ps, p.ty.WellFormed ∧ p.ty.isVoid = false := by
  induction h with
  | nil => simp
  | last hp =>
    intro p hmem
    rw [List.mem_singleton.mp hmem]
    exact hp.wellFormed hts
  | more hp _ _ ih =>
    intro p hmem
    rcases List.mem_cons.mp hmem with rfl | hmem
    · exact hp.wellFormed (hts.of_subset (by simp))
    · refine ih (hts.of_subset ?_) p hmem
      exact List.subset_append_of_subset_right _ (List.subset_cons_self _ _)

theorem IsReturn.wellFormed {ts : List Token} {r : ReturnSpec} (h : IsReturn ts r)
    (hts : Named ts) : r.payload.WellFormed := by
  have hsuccess {us : List Token} {ok : Success} (hok : IsSuccess us ok) (hus : Named us) :
      ok.payload.WellFormed := by
    cases hok with
    | value hty => exact hty.wellFormed hus
    | option _ _ _ hty => exact hty.wellFormed (hus.of_subset fun t ht => by simp [ht])
  cases h with
  | plain hok => exact hsuccess hok hts
  | result _ _ _ hok => exact hsuccess hok (hts.of_subset fun t ht => by simp [ht])

theorem IsTarget.wellFormed {src : Source} {ts : List Token} {tg : Target} {m : Token}
    (h : IsTarget src ts tg m) (hts : Named ts) :
    Lexer.IsName m.literal ∧ ∀ p s, tg = .static p s → p.WellFormed := by
  cases h with
  | static _ hpath _ hname =>
    refine ⟨hts m (by simp) hname, ?_⟩
    rintro p s ⟨⟩
    exact hpath.wellFormed (hts.of_subset fun t ht => by simp [ht])
  | name _ _ hname => exact ⟨hts m (by simp) hname, by simp⟩
  | group _ _ _ _ _ hname => exact ⟨hts m (by simp) hname, by simp⟩

theorem IsCall.wellFormed {src : Source} {ts : List Token} {c : Call} (h : IsCall src ts c)
    (hts : Named ts) : c.WellFormed := by
  cases h with
  | mk htarget _ hparams _ _ hret =>
    obtain ⟨hmethod, hstatic⟩ := htarget.wellFormed (hts.of_subset fun t ht => by simp [ht])
    exact ⟨hmethod, hstatic, hparams.wellFormed (hts.of_subset fun t ht => by simp [ht]),
      hret.wellFormed (hts.of_subset fun t ht => by simp [ht])⟩

end Grammar

theorem Call.parse_wellFormed {src : Source} {c : Call} (h : Call.parse src = .ok c) :
    c.WellFormed :=
  (Call.parse_eq_ok_iff.mp h).wellFormed fun _ => Source.isName_of_mem_words

end BridgeCall
