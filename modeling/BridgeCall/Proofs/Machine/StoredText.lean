/-
  BridgeCall/Proofs/Machine/StoredText.lean
  =========================================
  **Stored texts read back.**  `ModifiedUtf8.encode` writes a text the way the
  machine stores it: UTF-16 units one by one, NUL in two bytes, a character
  beyond the first plane as a pair of surrogates.  Decoding undoes it
  (`ModifiedUtf8.decode_encode`): what comes out is the text in UTF-8.
-/
import BridgeCall.Machine.ModifiedUtf8

namespace BridgeCall

/-! ### UTF-16 -/

/-- A code point that is a character. -/
theorem char_toNat_cases (c : Char) : c.toNat < 0xD800 ∨ 0xDFFF < c.toNat ∧ c.toNat < 0x110000 :=
  c.valid

namespace Utf16

theorem decode_single {u : Nat} (hhigh : isHigh u = false) (hlow : isLow u = false)
    (rest : List Nat) : decode (u :: rest) = u :: decode rest := by
  cases rest with
  | nil => simp [decode, hhigh, hlow]
  | cons v rest => simp [decode, hhigh, hlow]

theorem decode_pair {u v : Nat} (hhigh : isHigh u = true) (hlow : isLow v = true)
    (rest : List Nat) :
    decode (u :: v :: rest) = ((u - 0xD800) * 0x400 + (v - 0xDC00) + 0x10000) :: decode rest := by
  simp [decode, hhigh, hlow]

theorem decode_encode (c : Char) (rest : List Nat) :
    decode (encode c.toNat ++ rest) = c.toNat :: decode rest := by
  have hc := char_toNat_cases c
  unfold encode
  split
  · rename_i hwide
    have hhigh : isHigh (0xD800 + (c.toNat - 0x10000) / 0x400) = true := by
      simp only [isHigh, Bool.and_eq_true, decide_eq_true_eq]
      omega
    have hlow : isLow (0xDC00 + (c.toNat - 0x10000) % 0x400) = true := by
      simp only [isLow, Bool.and_eq_true, decide_eq_true_eq]
      omega
    have hjoin : (0xD800 + (c.toNat - 0x10000) / 0x400 - 0xD800) * 0x400
        + (0xDC00 + (c.toNat - 0x10000) % 0x400 - 0xDC00) + 0x10000 = c.toNat := by omega
    rw [List.cons_append, List.singleton_append, decode_pair hhigh hlow, hjoin]
  · rename_i hnarrow
    have hhigh : isHigh c.toNat = false := by
      simp only [isHigh, Bool.and_eq_false_iff, decide_eq_false_iff_not]
      omega
    have hlow : isLow c.toNat = false := by
      simp only [isLow, Bool.and_eq_false_iff, decide_eq_false_iff_not]
      omega
    rw [List.singleton_append, decode_single hhigh hlow]

theorem encode_lt {c : Char} {u : Nat} (hu : u ∈ encode c.toNat) : u < 0x10000 := by
  have hc := char_toNat_cases c
  unfold encode at hu
  split at hu
  · simp only [List.mem_cons, List.not_mem_nil, or_false] at hu
    omega
  · simp only [List.mem_singleton] at hu
    omega

end Utf16

/-! ### Units in bytes -/

namespace ModifiedUtf8

/-- A unit as it is stored. Zero takes two bytes, so no stored text holds a zero byte. -/
def encodeUnit (u : Nat) : Bytes :=
  if 0 < u ∧ u < 0x80 then [u.toUInt8]
  else if u < 0x800 then [(0xC0 + u / 0x40).toUInt8, (0x80 + u % 0x40).toUInt8]
  else
    [(0xE0 + u / 0x1000).toUInt8, (0x80 + u / 0x40 % 0x40).toUInt8, (0x80 + u % 0x40).toUInt8]

/-- A text as it is stored. -/
def encode (text : List Char) : Bytes :=
  (text.flatMap fun c => Utf16.encode c.toNat).flatMap encodeUnit

theorem units_one {c : UInt8} (hc : c.toNat < 0x80) (rest : Bytes) :
    units (c :: rest) = c.toNat :: units rest := by
  cases rest with
  | nil => simp [units, hc]
  | cons d rest =>
    cases rest with
    | nil => simp only [units, if_pos hc]
    | cons e rest => rw [units, if_pos hc]

theorem units_two {c : UInt8} (hc : c.toNat / 0x20 = 6) (d : UInt8) (rest : Bytes) :
    units (c :: d :: rest) = ((c.toNat % 0x20) * 0x40 + d.toNat % 0x40) :: units rest := by
  have hlarge : ¬ c.toNat < 0x80 := by omega
  cases rest with
  | nil => simp only [units, if_neg hlarge, if_pos hc]
  | cons e rest => rw [units, if_neg hlarge, if_pos hc]

theorem units_three {c : UInt8} (hc : c.toNat / 0x10 = 14) (d e : UInt8) (rest : Bytes) :
    units (c :: d :: e :: rest)
      = ((c.toNat % 0x10) * 0x1000 + (d.toNat % 0x40) * 0x40 + e.toNat % 0x40) :: units rest := by
  have hlarge : ¬ c.toNat < 0x80 := by omega
  have hpair : ¬ c.toNat / 0x20 = 6 := by omega
  rw [units, if_neg hlarge, if_neg hpair, if_pos hc]

theorem toNat_toUInt8 {n : Nat} (h : n < 256) : n.toUInt8.toNat = n := by
  simp [Nat.mod_eq_of_lt h]

theorem units_encodeUnit {u : Nat} (hu : u < 0x10000) (rest : Bytes) :
    units (encodeUnit u ++ rest) = u :: units rest := by
  unfold encodeUnit
  split
  · rename_i hone
    have hbyte : u.toUInt8.toNat = u := toNat_toUInt8 (by omega)
    rw [List.singleton_append, units_one (by omega), hbyte]
  · split
    · rename_i htwo
      have hlead : (0xC0 + u / 0x40).toUInt8.toNat = 0xC0 + u / 0x40 := toNat_toUInt8 (by omega)
      have htail : (0x80 + u % 0x40).toUInt8.toNat = 0x80 + u % 0x40 := toNat_toUInt8 (by omega)
      rw [List.cons_append, List.singleton_append, units_two (by omega), hlead, htail]
      congr 1
      omega
    · have hlead : (0xE0 + u / 0x1000).toUInt8.toNat = 0xE0 + u / 0x1000 := toNat_toUInt8 (by omega)
      have hmid : (0x80 + u / 0x40 % 0x40).toUInt8.toNat = 0x80 + u / 0x40 % 0x40 :=
        toNat_toUInt8 (by omega)
      have htail : (0x80 + u % 0x40).toUInt8.toNat = 0x80 + u % 0x40 := toNat_toUInt8 (by omega)
      rw [List.cons_append, List.cons_append, List.singleton_append, units_three (by omega), hlead,
        hmid, htail]
      congr 1
      omega

/-- Every list of 16-bit units comes back, half pairs included. -/
theorem units_encode {us : List Nat} (hus : ∀ u ∈ us, u < 0x10000) :
    units (us.flatMap encodeUnit) = us := by
  induction us with
  | nil => simp [units]
  | cons u us ih =>
    have hrest : ∀ v ∈ us, v < 0x10000 := fun v hv => hus v (by simp [hv])
    rw [List.flatMap_cons, units_encodeUnit (hus u (by simp)), ih hrest]

end ModifiedUtf8

/-! ### Texts -/

theorem Utf8.encode_char (c : Char) : Utf8.encode c.toNat = String.utf8EncodeChar c := by
  have hc := char_toNat_cases c
  have hval : c.val.toNat = c.toNat := rfl
  simp only [String.utf8EncodeChar, hval]
  generalize c.toNat = n at hc
  have hscalar : Utf8.isScalar n = true := Utf8.isScalar_iff.mpr hc
  have hone : n < 0x80 ↔ n ≤ 127 := by omega
  have htwo : n < 0x800 ↔ n ≤ 2047 := by omega
  have hthree : n < 0x10000 ↔ n ≤ 65535 := by omega
  simp only [Utf8.encode, hscalar, hone, htwo, hthree, Bool.not_true, Bool.false_eq_true, if_false]
  split
  · rfl
  · split
    · have h : n / 64 % 32 + 192 = 192 + n / 64 := by omega
      rw [h, Nat.add_comm (n % 64)]
    · split
      · have h : n / 4096 % 16 + 224 = 224 + n / 4096 := by omega
        rw [h, Nat.add_comm (n / 64 % 64), Nat.add_comm (n % 64)]
      · have h : n / 262144 % 8 + 240 = 240 + n / 262144 := by omega
        rw [h, Nat.add_comm (n / 4096 % 64), Nat.add_comm (n / 64 % 64), Nat.add_comm (n % 64)]

theorem Utf16.decode_flatMap (text : List Char) :
    Utf16.decode (text.flatMap fun c => Utf16.encode c.toNat) = text.map Char.toNat := by
  induction text with
  | nil => simp [Utf16.decode]
  | cons c text ih => rw [List.flatMap_cons, Utf16.decode_encode, ih, List.map_cons]

theorem Bytes.ofString_eq (s : String) :
    Bytes.ofString s = s.toList.flatMap String.utf8EncodeChar := by
  conv => lhs; rw [← String.ofList_toList (s := s)]
  simp only [Bytes.ofString, String.toUTF8, String.toByteArray_ofList, List.utf8Encode]
  simp

/-- **A stored text reads back.** -/
theorem ModifiedUtf8.decode_encode (text : String) :
    ModifiedUtf8.decode (ModifiedUtf8.encode text.toList) = text := by
  have hlt : ∀ u ∈ text.toList.flatMap (fun c => Utf16.encode c.toNat), u < 0x10000 := by
    intro u hu
    obtain ⟨c, -, hmem⟩ := List.mem_flatMap.mp hu
    exact Utf16.encode_lt hmem
  rw [ModifiedUtf8.decode, ModifiedUtf8.encode, ModifiedUtf8.units_encode hlt, Utf16.decode_flatMap,
    Utf8.ofCodePoints, List.flatMap_map, Bytes.ofString_eq]
  congr 1
  exact funext Utf8.encode_char

end BridgeCall
