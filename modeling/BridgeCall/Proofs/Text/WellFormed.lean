/-
  BridgeCall/Proofs/Text/WellFormed.lean
  ======================================
  **Well-formed UTF-8 is text.**  A sequence of bytes that can be decoded is what encoding
  the decoded character gives (`Utf8.exists_char`), so a text without a byte that starts
  no such sequence is the text of some characters (`isText_of_isValid`).
-/
import BridgeCall.Proofs.Machine.DecodedText

namespace BridgeCall

namespace Utf8

theorem toUInt8_eq {b : UInt8} {n : Nat} (h : n = b.toNat) : n.toUInt8 = b := by
  rw [h]
  exact UInt8.ofNat_toNat

theorem Sequence.isScalar {s : Bytes} {n : Nat} (h : Sequence s n) : isScalar n = true := by
  rw [isScalar_iff]
  cases h <;> omega

/-- A sequence is what encoding its code point gives. -/
theorem Sequence.encode_eq {s : Bytes} {n : Nat} (h : Sequence s n) : encode n = s := by
  rw [encode, h.isScalar]
  cases h with
  | one ha hn => rw [if_pos (by omega), toUInt8_eq hn]
  | @two a b n ha hb hn =>
    rw [if_neg (by omega), if_pos (by omega), toUInt8_eq (b := a) (by omega),
      toUInt8_eq (b := b) (by omega)]
  | @three a b c n ha hb hc hlong hpair hn =>
    rw [if_neg (by omega), if_neg (by omega), if_neg (by simp), if_pos (by omega),
      toUInt8_eq (b := a) (by omega), toUInt8_eq (b := b) (by omega),
      toUInt8_eq (b := c) (by omega)]
  | @four a b c d n ha hb hc hd hlong hlast hn =>
    rw [if_neg (by omega), if_neg (by omega), if_neg (by simp), if_neg (by omega),
      toUInt8_eq (b := a) (by omega), toUInt8_eq (b := b) (by omega),
      toUInt8_eq (b := c) (by omega), toUInt8_eq (b := d) (by omega)]

theorem exists_toNat {n : Nat} (h : isScalar n = true) : ∃ c : Char, c.toNat = n :=
  ⟨Char.ofNatAux n (isScalar_iff.mp h), rfl⟩

/-- What is decoded is a character, and its bytes are those it was decoded from. -/
theorem exists_char {bs : Bytes} {n w : Nat} (h : decode? bs = some (n, w)) :
    ∃ c : Char, ∃ rest, c.toNat = n ∧ bs = encode n ++ rest ∧ w = (encode n).length := by
  obtain ⟨s, rest, rfl, hs, rfl⟩ := exists_sequence h
  obtain ⟨c, hc⟩ := exists_toNat hs.isScalar
  rw [← hs.encode_eq]
  exact ⟨c, rest, hc, rfl, rfl⟩

end Utf8

/-- A well-formed text is the text of some characters. -/
theorem isText_of_isValid {bs : Bytes} (h : Utf8.isValid bs = true) : IsText bs := by
  unfold Utf8.isValid at h
  fun_induction Utf8.runes bs with
  | case1 => exact ⟨[], rfl⟩
  | case2 b rest r ih =>
    rw [List.all_cons, Bool.and_eq_true] at h
    obtain ⟨hfirst, hrest⟩ := h
    cases hdecode : Utf8.decode? (b :: rest) with
    | none =>
      have hr : r = (Utf8.replacement, 1) := by simp [r, Utf8.decode, hdecode]
      simp [hr] at hfirst
    | some d =>
      have hr : r = d := by simp [r, Utf8.decode, hdecode]
      obtain ⟨c, more, hc, hbytes, hwidth⟩ := Utf8.exists_char (n := d.1) (w := d.2) hdecode
      obtain ⟨cs, hcs⟩ := ih hrest
      refine ⟨c :: cs, ?_⟩
      rw [hr, hwidth, hbytes, List.drop_left] at hcs
      rw [hbytes, hcs, Utf8.ofChars_cons, hc]

end BridgeCall
