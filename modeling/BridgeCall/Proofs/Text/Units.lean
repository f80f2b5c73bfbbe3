/-
  BridgeCall/Proofs/Text/Units.lean
  =================================
  **Bytes and UTF-16 units of a text.**  A text has as many UTF-16 units as its characters
  have together (`Utf16.units_ofChars`).  There are never more of them than bytes
  (`Utf16.length_units_le`), and as many only in a text of ASCII bytes
  (`Utf16.length_units_eq_iff`).
-/
import BridgeCall.Proofs.Text.WellFormed

namespace BridgeCall

namespace Utf8

/-- Whether a character was decoded, and not a byte that starts none. -/
def isWhole (r : Nat × Bytes) : Bool := !(r.1 == replacement && r.2.length == 1)

/-- A text that starts with no character loses its first byte. -/
theorem runes_stray {b : UInt8} {rest : Bytes} (h : decode? (b :: rest) = none) :
    runes (b :: rest) = (replacement, [b]) :: runes rest := by
  have hdecode : decode (b :: rest) = (replacement, 1) := by simp [decode, h]
  rw [runes]
  simp only [hdecode]
  rfl

theorem isWhole_encode (c : Char) : isWhole (c.toNat, encode c.toNat) = true := by
  rw [isWhole, Bool.not_eq_true', Bool.and_eq_false_iff]
  by_cases hc : c.toNat = replacement
  · refine .inr ?_
    rw [hc]
    decide
  · exact .inl (by simpa using hc)

theorem isWhole_stray (b : UInt8) : isWhole (replacement, [b]) = false := by
  simp [isWhole]

end Utf8

namespace Utf16

/-- The units of the characters of a text. Bytes that are no character count for none. -/
def units (bs : Bytes) : List Nat :=
  ((Utf8.runes bs).filter Utf8.isWhole).flatMap fun r => encode r.1

theorem units_nil : units [] = [] := by
  simp [units, Utf8.runes]

theorem units_encode (c : Char) (rest : Bytes) :
    units (Utf8.encode c.toNat ++ rest) = encode c.toNat ++ units rest := by
  rw [units, Utf8.runes_encode, List.filter_cons_of_pos (Utf8.isWhole_encode c), List.flatMap_cons]
  rfl

theorem units_stray {b : UInt8} {rest : Bytes} (h : Utf8.decode? (b :: rest) = none) :
    units (b :: rest) = units rest := by
  rw [units, Utf8.runes_stray h, List.filter_cons_of_neg (by simp [Utf8.isWhole_stray])]
  rfl

theorem units_ofChars (cs : List Char) :
    units (Utf8.ofChars cs) = cs.flatMap fun c => encode c.toNat := by
  induction cs with
  | nil => exact units_nil
  | cons c cs ih => rw [Utf8.ofChars_cons, units_encode, ih, List.flatMap_cons]

/-- An ASCII character is one byte and one unit; every other one has more bytes than units. -/
theorem length_encode_cases (c : Char) :
    (∃ b : UInt8, b.toNat < 0x80 ∧ Utf8.encode c.toNat = [b] ∧ (encode c.toNat).length = 1)
      ∨ (encode c.toNat).length < (Utf8.encode c.toNat).length
        ∧ ∀ b ∈ Utf8.encode c.toNat, 0x80 ≤ b.toNat := by
  have hc := char_toNat_cases c
  have hscalar : Utf8.isScalar c.toNat = true := Utf8.isScalar_iff.mpr hc
  by_cases hascii : c.toNat < 0x80
  · refine .inl ⟨c.toNat.toUInt8, ?_, ?_, ?_⟩
    · rwa [ModifiedUtf8.toNat_toUInt8 (by omega)]
    · rw [Utf8.encode, if_pos hascii]
    · rw [encode, if_neg (by omega)]
      rfl
  · refine .inr ⟨?_, fun b hb => Utf8.le_of_mem_encode (by omega) hb⟩
    unfold encode Utf8.encode
    rw [if_neg hascii, hscalar]
    by_cases htwo : c.toNat < 0x800
    · rw [if_neg (by omega), if_pos htwo]
      simp
    by_cases hthree : c.toNat < 0x10000
    · rw [if_neg (by omega), if_neg htwo, if_neg (by simp), if_pos hthree]
      simp
    · rw [if_pos (by omega), if_neg htwo, if_neg (by simp), if_neg hthree]
      simp

/-- A text starts with an ASCII byte, a longer character, or a byte that starts none. -/
theorem cons_cases (b : UInt8) (rest : Bytes) :
    (b.toNat < 0x80 ∧ (units (b :: rest)).length = (units rest).length + 1)
      ∨ 0x80 ≤ b.toNat ∧ ∃ front back : Bytes, b :: rest = front ++ back
        ∧ (units (b :: rest)).length < front.length + (units back).length
        ∧ back.length < (b :: rest).length := by
  cases hdecode : Utf8.decode? (b :: rest) with
  | none =>
    have hhigh : 0x80 ≤ b.toNat := by
      by_contra hlow
      have hone := (Utf8.Sequence.one (a := b) (by omega) rfl).decode? rest
      rw [List.singleton_append, hdecode] at hone
      cases hone
    refine .inr ⟨hhigh, [b], rest, rfl, ?_, by simp⟩
    rw [units_stray hdecode, List.length_singleton]
    omega
  | some r =>
    obtain ⟨c, back, hc, hbytes, -⟩ := Utf8.exists_char (n := r.1) (w := r.2) hdecode
    rw [← hc] at hbytes
    rcases length_encode_cases c with ⟨d, hd, hone, hunits⟩ | ⟨hlonger, hhigh⟩
    · rw [hone, List.singleton_append, List.cons.injEq] at hbytes
      obtain ⟨rfl, rfl⟩ := hbytes
      refine .inl ⟨hd, ?_⟩
      have hsplit := units_encode c rest
      rw [hone, List.singleton_append] at hsplit
      rw [hsplit, List.length_append, hunits, Nat.add_comm]
    · obtain ⟨d, ds, hencode⟩ := Utf8.encode_ne_nil c.toNat
      have hfirst : b = d := by
        rw [hencode, List.cons_append, List.cons.injEq] at hbytes
        exact hbytes.1
      refine .inr ⟨hhigh b (by rw [hencode, hfirst]; exact List.mem_cons_self),
        Utf8.encode c.toNat, back, hbytes, ?_, ?_⟩
      · rw [hbytes, units_encode, List.length_append]
        omega
      · rw [hbytes, List.length_append, hencode, List.length_cons]
        omega

/-- A text has no more units than bytes. -/
theorem length_units_le (bs : Bytes) : (units bs).length ≤ bs.length := by
  induction hsize : bs.length using Nat.strong_induction_on generalizing bs with
  | _ n ih =>
    cases bs with
    | nil => simp [units_nil]
    | cons b rest =>
      rcases cons_cases b rest with ⟨-, hunits⟩ | ⟨-, front, back, hbytes, hunits, hback⟩
      · have hrest := ih rest.length (by rw [← hsize, List.length_cons]; omega) rest rfl
        rw [← hsize, List.length_cons, hunits]
        omega
      · have hrest := ih back.length (by omega) back rfl
        have hlength := congrArg List.length hbytes
        rw [List.length_append] at hlength
        omega

/-- A text has as many units as bytes only when all its bytes are ASCII. -/
theorem length_units_eq_iff (bs : Bytes) :
    (units bs).length = bs.length ↔ ∀ b ∈ bs, b.toNat < 0x80 := by
  induction bs with
  | nil => simp [units_nil]
  | cons b rest ih =>
    rw [List.forall_mem_cons, ← ih, List.length_cons]
    rcases cons_cases b rest with ⟨hb, hunits⟩ | ⟨hb, front, back, hbytes, hunits, -⟩
    · rw [hunits, Nat.add_right_cancel_iff]
      exact (and_iff_right hb).symm
    · refine iff_of_false ?_ fun h => absurd h.1 (by omega)
      have hback := length_units_le back
      have hlength := congrArg List.length hbytes
      rw [List.length_append, List.length_cons] at hlength
      omega

end Utf16
end BridgeCall
