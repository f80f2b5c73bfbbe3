/-
  BridgeCall/Proofs/Host/Unquoted.lean
  ====================================
  **What a literal and its body have in common.**  Up to the first backslash between
  double quotes, and up to the first carriage return between back quotes, every byte of a
  literal's body stands for itself; so the text that a literal stands for starts with
  these bytes (`startsPlain_unquote?`), and it is the body when all bytes stand for
  themselves.  An escape has at least as many bytes as it stands for, so the text is never
  longer than the body (`length_unquote?_le`).
-/
import BridgeCall.Proofs.Host.Lexemes
import BridgeCall.Proofs.Text.WellFormed
import BridgeCall.Text.Quoted
import Mathlib.Tactic.SplitIfs

namespace BridgeCall

/-- Whether a byte stands for itself in a literal with the quote `q`. -/
def isPlain (q b : UInt8) : Bool := if q = 0x60 then b ≠ 0x0d else b ≠ 0x5c

/-- A text starts with the bytes at the start of a body that stand for themselves, and it is the body
    when all of them do. -/
def StartsPlain (q : UInt8) (body text : Bytes) : Prop :=
  ∃ more, text = body.takeWhile (isPlain q) ++ more ∧ (body.all (isPlain q) = true → more = [])

theorem StartsPlain.append {q : UInt8} {body text : Bytes} (h : StartsPlain q body text) (as : Bytes)
    (has : ∀ b ∈ as, isPlain q b = true) : StartsPlain q (as ++ body) (as ++ text) := by
  obtain ⟨more, htext, hmore⟩ := h
  refine ⟨more, ?_, ?_⟩
  · rw [List.takeWhile_append_of_pos has, List.append_assoc, htext]
  · intro hall
    rw [List.all_append, Bool.and_eq_true] at hall
    exact hmore hall.2

theorem startsPlain_of_escape {q b : UInt8} (hb : isPlain q b = false) (body text : Bytes) :
    StartsPlain q (b :: body) text := by
  refine ⟨text, ?_, ?_⟩
  · rw [List.takeWhile_cons, hb]
    rfl
  · intro hall
    rw [List.all_cons, hb] at hall
    cases hall

/-! ### Double quotes -/

namespace Quoted

theorem unquoteBody?_succ {fuel : Nat} {b : UInt8} {bs : Bytes} (hbs : bs ≠ []) :
    unquoteBody? (fuel + 1) (b :: bs) =
      if b = 0x0a then none
      else (unquoteChar? 0x22 (b :: bs)).bind fun (u, r) =>
        (unquoteBody? fuel r).map (u.bytes ++ ·) := by
  rw [unquoteBody?]
  · simp only [List.head?_cons, Option.some.injEq]
  · intro h
    cases h
  · intro h
    exact hbs (List.cons.inj h).2

theorem exists_byte {n : Nat} (hn : n < 0x80) : ∃ b : UInt8, Utf8.encode n = [b] ∧ b < 0x80 := by
  refine ⟨n.toUInt8, by rw [Utf8.encode, if_pos hn], ?_⟩
  rw [UInt8.lt_iff_toNat_lt, ModifiedUtf8.toNat_toUInt8 (by omega)]
  exact hn

/-- A character that is no ASCII byte is read as it is. -/
theorem unquoteChar?_point {c : Char} (hc : 0x80 ≤ c.toNat) (rest : Bytes) :
    unquoteChar? 0x22 (Utf8.encode c.toNat ++ rest) = some (.point c.toNat, rest) := by
  have hdecode := Utf8.decode_encode c rest
  obtain ⟨b, bs, hbytes⟩ := Utf8.encode_ne_nil c.toNat
  have hhigh : 0x80 ≤ b := by
    rw [UInt8.le_iff_toNat_le]
    exact Utf8.le_of_mem_encode hc (by rw [hbytes]; exact List.mem_cons_self)
  have hquote : b ≠ 0x22 := by
    rintro rfl
    exact absurd hhigh (by decide)
  have hdrop : (Utf8.encode c.toNat ++ rest).drop (Utf8.encode c.toNat).length = rest :=
    List.drop_left
  rw [hbytes, List.cons_append] at hdecode hdrop ⊢
  rw [unquoteChar?, if_neg (fun h => hquote h.1), if_pos hhigh, hdecode]
  dsimp only
  rw [hdrop]

theorem unquoteChar?_byte {b : UInt8} (hb : b < 0x80) (hquote : b ≠ 0x22) (hslash : b ≠ 0x5c)
    (rest : Bytes) : unquoteChar? 0x22 (b :: rest) = some (.byte b.toNat, rest) := by
  rw [unquoteChar?, if_neg (fun h => hquote h.1), if_neg (UInt8.not_le.mpr hb), if_pos hslash]

theorem unquoteBody?_plain {fuel : Nat} {cs : List Char} {text : Bytes}
    (h : unquoteBody? fuel (Utf8.ofChars cs ++ [0x22]) = some text) :
    StartsPlain 0x22 (Utf8.ofChars cs) text := by
  induction cs generalizing fuel text with
  | nil =>
    rcases fuel with _ | fuel
    · cases h
    · rw [Utf8.ofChars_nil, List.nil_append, unquoteBody?] at h
      cases h
      exact ⟨[], rfl, fun _ => rfl⟩
  | cons c cs ih =>
    rcases fuel with _ | fuel
    · cases h
    have hrest : Utf8.ofChars cs ++ [0x22] ≠ [] := by simp
    rw [Utf8.ofChars_cons, List.append_assoc] at h
    rw [Utf8.ofChars_cons]
    by_cases hc : 0x80 ≤ c.toNat
    · have hplain : ∀ b ∈ Utf8.encode c.toNat, isPlain 0x22 b = true := by
        intro b hb
        have hhigh := Utf8.le_of_mem_encode hc hb
        have hslash : b ≠ 0x5c := by
          rintro rfl
          exact absurd hhigh (by decide)
        simp [isPlain, hslash]
      have hchar := unquoteChar?_point hc (Utf8.ofChars cs ++ [0x22])
      obtain ⟨b, bs, hbytes⟩ := Utf8.encode_ne_nil c.toNat
      rw [hbytes, List.cons_append] at h hchar
      rw [unquoteBody?_succ (by simp), hchar, Option.bind_some] at h
      obtain ⟨text', htext', rfl⟩ := Option.map_eq_some_iff.mp (Option.ite_none_left_eq_some.mp h).2
      exact (ih htext').append _ hplain
    · obtain ⟨b, hb, hlow⟩ := exists_byte (Nat.lt_of_not_le hc)
      rw [hb, List.singleton_append] at h ⊢
      by_cases hslash : b = 0x5c
      · rw [hslash]
        exact startsPlain_of_escape rfl _ _
      · rw [unquoteBody?_succ hrest] at h
        have h := (Option.ite_none_left_eq_some.mp h).2
        have hquote : b ≠ 0x22 := by
          rintro rfl
          cases h
        rw [unquoteChar?_byte hlow hquote hslash, Option.bind_some] at h
        obtain ⟨text', htext', rfl⟩ := Option.map_eq_some_iff.mp h
        have hbyte : (Unit.byte b.toNat).bytes = [b] := congrArg (· :: []) (Utf8.toUInt8_eq rfl)
        rw [hbyte]
        exact (ih htext').append [b] (by simp [isPlain, hslash])

end Quoted

/-! ### Whole literals -/

theorem forall_of_foldl {α β : Type} {step : List Nat × β → α → List Nat × β} (ok : α → Prop)
    (hstep : ∀ a x, (step a x).1 = [] → a.1 = [] ∧ ok x) {xs : List α} {a : List Nat × β}
    (h : (xs.foldl step a).1 = []) : a.1 = [] ∧ ∀ x ∈ xs, ok x := by
  induction xs generalizing a with
  | nil => exact ⟨h, nofun⟩
  | cons x xs ih =>
    obtain ⟨hx, hxs⟩ := ih h
    obtain ⟨ha, hok⟩ := hstep a x hx
    exact ⟨ha, List.forall_mem_cons.mpr ⟨hok, hxs⟩⟩

/-- A file without faulty bytes is text. -/
theorem Host.isText_of_encodingFaults {file : Bytes} (h : Host.Lexer.encodingFaults file = []) :
    IsText file := by
  have hrunes := (forall_of_foldl
    (fun r : Nat × Bytes => ¬ (r.1 = Utf8.replacement ∧ r.2.length = 1)) (by
      intro a r hstep
      dsimp only at hstep
      split at hstep
      · simp at hstep
      · rename_i hright
        exact ⟨hstep, fun hwrong => hright (.inr (.inl hwrong))⟩) h).2
  apply isText_of_isValid
  rw [Utf8.isValid, List.all_eq_true]
  rintro ⟨c, w⟩ hr
  simpa [imp_iff_not_or] using hrunes (c, w) hr

/-- Between back quotes only the carriage returns are dropped. -/
theorem unquote?_raw {body text : Bytes}
    (h : Quoted.unquote? (0x60 :: (Host.keptBody 0x60 body ++ [0x60])) = some text) :
    text = body.filter (· ≠ 0x0d) := by
  have hkept : Host.keptBody 0x60 body = body.filter (· ≠ 0x0d) := rfl
  rw [hkept] at h
  unfold Quoted.unquote? at h
  simp only [List.reverse_append, List.reverse_cons, List.reverse_nil, List.nil_append,
    List.singleton_append, List.reverse_reverse] at h
  have h := (Option.ite_none_left_eq_some.mp h).2
  rw [List.filter_filter] at h
  simp only [Bool.and_self, Option.some.injEq] at h
  exact h.symm

theorem startsPlain_filter (body : Bytes) : StartsPlain 0x60 body (body.filter (· ≠ 0x0d)) := by
  induction body with
  | nil => exact ⟨[], rfl, fun _ => rfl⟩
  | cons b body ih =>
    by_cases hb : b = 0x0d
    · rw [hb]
      exact startsPlain_of_escape rfl _ _
    · rw [List.filter_cons_of_pos (by simpa using hb)]
      exact ih.append [b] (by simp [isPlain, hb])

/-- The text that a literal stands for starts with the bytes of its body that stand for themselves. -/
theorem startsPlain_unquote? {q : UInt8} (hq : q = 0x22 ∨ q = 0x60) {body text : Bytes}
    (hbody : IsText body) (h : Quoted.unquote? (q :: (Host.keptBody q body ++ [q])) = some text) :
    StartsPlain q body text := by
  rcases hq with rfl | rfl
  · obtain ⟨cs, rfl⟩ := hbody
    exact Quoted.unquoteBody?_plain h
  · rw [unquote?_raw h]
    exact startsPlain_filter body

/-- A place in a text behind bytes that stand for themselves is the same place in the body. -/
theorem StartsPlain.take_eq {q : UInt8} {body text : Bytes} (h : StartsPlain q body text) {k : Nat}
    (hk : k ≤ text.length) (post : Bytes) (hplain : ((body ++ post).take k).all (isPlain q) = true) :
    k ≤ body.length ∧ text.take k = body.take k := by
  obtain ⟨more, rfl, hmore⟩ := h
  have hsplit := List.takeWhile_append_dropWhile (p := isPlain q) (l := body)
  have hstop := List.head?_dropWhile_not (isPlain q) body
  have hfirst := List.all_takeWhile (p := isPlain q) (l := body)
  generalize body.takeWhile (isPlain q) = plain at hsplit hfirst hk ⊢
  generalize body.dropWhile (isPlain q) = rest at hsplit hstop
  rcases rest with _ | ⟨b, rest⟩
  · rw [List.append_nil] at hsplit
    rw [hsplit] at hfirst hk ⊢
    rw [hmore hfirst, List.append_nil] at hk ⊢
    exact ⟨hk, rfl⟩
  · have hle : k ≤ plain.length := by
      by_contra hlt
      have hmem : b ∈ (body ++ post).take k := by
        obtain ⟨n, rfl⟩ := Nat.exists_eq_add_of_lt (Nat.lt_of_not_le hlt)
        rw [← hsplit, List.append_assoc, Nat.add_assoc, List.take_length_add_append]
        simp
      have hb := List.all_eq_true.mp hplain b hmem
      rw [List.head?_cons] at hstop
      simp [hb] at hstop
    refine ⟨?_, ?_⟩
    · rw [← hsplit, List.length_append]
      omega
    · rw [← hsplit, List.take_append_of_le_length hle, List.take_append_of_le_length hle]

/-! ### How long the text is -/

theorem Utf8.length_encode_le (c : Nat) : (Utf8.encode c).length ≤ 4 := by
  unfold Utf8.encode
  split_ifs <;> simp

theorem IsText.tail {b : UInt8} {bs : Bytes} (h : IsText (b :: bs)) (hb : b < 0x80) : IsText bs :=
  (@IsText.split [] bs b (UInt8.lt_iff_toNat_lt.mp hb) h).2

theorem IsText.append {as bs : Bytes} (has : IsText as) (hbs : IsText bs) : IsText (as ++ bs) := by
  obtain ⟨cs, rfl⟩ := has
  obtain ⟨ds, rfl⟩ := hbs
  exact ⟨cs ++ ds, by simp [Utf8.ofChars, Utf8.ofCodePoints]⟩

/-- What is left of a text behind at least `n` bytes of it is a text. -/
structure Behind (bs : Bytes) (n : Nat) (rest : Bytes) : Prop where
  isText : IsText rest
  length : n + rest.length ≤ bs.length

theorem Behind.cons {b : UInt8} {bs rest : Bytes} {n k : Nat} (h : Behind bs n rest)
    (hk : k ≤ n + 1) : Behind (b :: bs) k rest :=
  ⟨h.isText, by rw [List.length_cons]; have := h.length; omega⟩

theorem Behind.mono {bs rest : Bytes} {n k : Nat} (h : Behind bs n rest) (hk : k ≤ n) :
    Behind bs k rest :=
  ⟨h.isText, (Nat.add_le_add_right hk _).trans h.length⟩

namespace Quoted

theorem lt_of_hexValue? {b : UInt8} {d : Nat} (h : Bytes.hexValue? b = some d) : b < 0x80 := by
  unfold Bytes.hexValue? Bytes.isDigit at h
  rw [UInt8.lt_iff_toNat_lt]
  split_ifs at h with h1 h2 h3
  all_goals
    simp only [Bool.and_eq_true, decide_eq_true_eq, UInt8.le_iff_toNat_le, UInt8.reduceToNat] at *
    omega

theorem lt_of_octal? {b : UInt8} {d : Nat} (h : octal? b = some d) : b < 0x80 := by
  unfold octal? at h
  rw [UInt8.lt_iff_toNat_lt]
  split_ifs at h with h1
  simp only [Bool.and_eq_true, decide_eq_true_eq, UInt8.le_iff_toNat_le, UInt8.reduceToNat] at *
  omega

theorem behind_hexDigits? {n acc v : Nat} {bs rest : Bytes} (hbs : IsText bs)
    (h : hexDigits? n acc bs = some (v, rest)) : Behind bs n rest := by
  fun_induction hexDigits? n acc bs with
  | case1 acc bs =>
    cases h
    exact ⟨hbs, by rw [Nat.zero_add]⟩
  | case2 n acc b bs ih =>
    obtain ⟨d, hd, h⟩ := Option.bind_eq_some_iff.mp h
    exact (ih d (hbs.tail (lt_of_hexValue? hd)) h).cons (Nat.le_refl _)
  | case3 => cases h

theorem behind_scalar {n : Nat} {bs rest : Bytes} {u : Unit} (hn : 4 ≤ n) (hbs : IsText bs)
    (h : ((hexDigits? n 0 bs).bind fun (v, r) =>
      if Utf8.isScalar v then some (.point v, r) else none) = some (u, rest)) :
    Behind bs u.bytes.length rest := by
  obtain ⟨⟨v, r⟩, hdigits, h⟩ := Option.bind_eq_some_iff.mp h
  obtain ⟨-, h⟩ := Option.ite_none_right_eq_some.mp h
  cases h
  exact (behind_hexDigits? hbs hdigits).mono ((Utf8.length_encode_le v).trans hn)

theorem behind_octal {c : UInt8} {bs rest : Bytes} {u : Unit}
    (h : (match octal? c, bs with
      | some a, d :: e :: r =>
        match octal? d, octal? e with
        | some x, some y =>
          let v := (a * 8 + x) * 8 + y
          if v ≤ 255 then some (Unit.byte v, r) else none
        | _, _ => none
      | _, _ => none) = some (u, rest))
    (hbs : IsText bs) : Behind bs u.bytes.length rest := by
  split at h
  · rename_i a d e r ha
    split at h
    · rename_i x y hd he
      obtain ⟨-, h⟩ := Option.ite_none_right_eq_some.mp h
      cases h
      have hrest := (hbs.tail (lt_of_octal? hd)).tail (lt_of_octal? he)
      exact ⟨hrest, by simp [Unit.bytes]; omega⟩
    · cases h
  · cases h

theorem behind_unescape? {bs rest : Bytes} {u : Unit} (hbs : IsText bs)
    (h : unescape? 0x22 bs = some (u, rest)) : Behind bs u.bytes.length rest := by
  unfold unescape? at h
  split at h
  · cases h
  rename_i c bs
  have hletter (n : Nat) (hc : c < 0x80) : Behind (c :: bs) (Unit.byte n).bytes.length bs :=
    ⟨hbs.tail hc, by simp [Unit.bytes]; omega⟩
  split at h
  case h_8 =>
    obtain ⟨⟨v, r⟩, hdigits, h⟩ := Option.map_eq_some_iff.mp h
    cases h
    exact (behind_hexDigits? (hbs.tail (by decide)) hdigits).cons (by simp [Unit.bytes])
  case h_9 | h_10 => exact (behind_scalar (by decide) (hbs.tail (by decide)) h).cons (Nat.le_succ _)
  case h_12 =>
    split at h
    · rename_i hquote
      obtain ⟨rfl, h⟩ := Option.ite_none_right_eq_some.mp h
      cases h
      exact hletter _ (by decide)
    · cases hc : octal? c with
      | none =>
        rw [hc] at h
        cases h
      | some a =>
        exact (behind_octal h (hbs.tail (lt_of_octal? hc))).cons (Nat.le_succ _)
  all_goals
    cases h
    exact hletter _ (by decide)

/-- A character is written with at least as many bytes as it stands for. -/
theorem behind_unquoteChar? {bs rest : Bytes} {u : Unit} (hbs : IsText bs)
    (h : unquoteChar? 0x22 bs = some (u, rest)) : Behind bs u.bytes.length rest := by
  obtain ⟨_ | ⟨c, cs⟩, rfl⟩ := hbs
  · cases h
  rw [Utf8.ofChars_cons] at h ⊢
  by_cases hc : 0x80 ≤ c.toNat
  · rw [unquoteChar?_point hc] at h
    cases h
    exact ⟨⟨cs, rfl⟩, by rw [List.length_append]; rfl⟩
  · obtain ⟨b, hb, hlow⟩ := exists_byte (Nat.lt_of_not_le hc)
    rw [hb, List.singleton_append] at h ⊢
    rw [unquoteChar?] at h
    obtain ⟨-, h⟩ := Option.ite_none_left_eq_some.mp h
    rw [if_neg (UInt8.not_le.mpr hlow)] at h
    split at h
    · cases h
      exact ⟨⟨cs, rfl⟩, by simp [Unit.bytes]; omega⟩
    · exact (behind_unescape? ⟨cs, rfl⟩ h).cons (Nat.le_succ _)

theorem length_unquoteBody? {fuel : Nat} {bs text : Bytes} (hbs : IsText bs)
    (h : unquoteBody? fuel bs = some text) : text.length + 1 ≤ bs.length := by
  fun_induction unquoteBody? fuel bs generalizing text with
  | case1 => cases h
  | case2 => cases h
  | case3 =>
    cases h
    exact Nat.le_refl _
  | case4 => cases h
  | case5 fuel bs _ _ _ ih =>
    obtain ⟨⟨u, rest⟩, hchar, h⟩ := Option.bind_eq_some_iff.mp h
    obtain ⟨text, htext, rfl⟩ := Option.map_eq_some_iff.mp h
    obtain ⟨hrest, hlength⟩ := behind_unquoteChar? hbs hchar
    have hbehind := ih rest hrest htext
    rw [List.length_append]
    omega

end Quoted

/-- A text is not longer than the body of the literal that stands for it. -/
theorem length_unquote?_le {q : UInt8} (hq : q = 0x22 ∨ q = 0x60) {body text : Bytes}
    (hbody : IsText body) (h : Quoted.unquote? (q :: (Host.keptBody q body ++ [q])) = some text) :
    text.length ≤ body.length := by
  rcases hq with rfl | rfl
  · have htext : IsText (body ++ [0x22]) := hbody.append ⟨['"'], rfl⟩
    have hlength := Quoted.length_unquoteBody? htext h
    rw [List.length_append] at hlength
    exact Nat.le_of_succ_le_succ hlength
  · rw [unquote?_raw h]
    exact List.length_filter_le _ _

end BridgeCall
