/-
  BridgeCall/Text/Utf8.lean
  =========================
  **UTF-8.**  Decoding never fails: a byte that starts no well-formed sequence
  stands for the replacement character and is one byte wide.  A code point is
  decoded exactly from the sequences of it (`Utf8.exists_sequence`,
  `Utf8.Sequence.decode?`).
-/
import BridgeCall.Text.Bytes

namespace BridgeCall.Utf8

/-- The code point that stands for anything that cannot be decoded. -/
def replacement : Nat := 0xFFFD

/-- A continuation byte in the given range. -/
def tail (lo hi b : UInt8) : Bool := lo ≤ b && b ≤ hi

/-- The first code point and its width in bytes, when the text starts with a well-formed sequence. -/
def decode? : Bytes → Option (Nat × Nat)
  | [] => none
  | a :: rest =>
    if a < 0x80 then some (a.toNat, 1)
    else if 0xC2 ≤ a && a ≤ 0xDF then
      match rest with
      | b :: _ =>
        if tail 0x80 0xBF b then some ((a.toNat - 0xC0) * 0x40 + (b.toNat - 0x80), 2) else none
      | _ => none
    else if 0xE0 ≤ a && a ≤ 0xEF then
      let lo : UInt8 := if a = 0xE0 then 0xA0 else 0x80
      let hi : UInt8 := if a = 0xED then 0x9F else 0xBF
      match rest with
      | b :: c :: _ =>
        if tail lo hi b && tail 0x80 0xBF c then
          some ((a.toNat - 0xE0) * 0x1000 + (b.toNat - 0x80) * 0x40 + (c.toNat - 0x80), 3)
        else none
      | _ => none
    else if 0xF0 ≤ a && a ≤ 0xF4 then
      let lo : UInt8 := if a = 0xF0 then 0x90 else 0x80
      let hi : UInt8 := if a = 0xF4 then 0x8F else 0xBF
      match rest with
      | b :: c :: d :: _ =>
        if tail lo hi b && tail 0x80 0xBF c && tail 0x80 0xBF d then
          some ((a.toNat - 0xF0) * 0x40000 + (b.toNat - 0x80) * 0x1000
            + (c.toNat - 0x80) * 0x40 + (d.toNat - 0x80), 4)
        else none
      | _ => none
    else none

/-- The first code point and its width: the replacement character, one byte wide, for a byte that
    starts no well-formed sequence, and zero bytes wide at the end of the text. -/
def decode (bs : Bytes) : Nat × Nat :=
  match decode? bs with
  | some r => r
  | none => (replacement, min 1 bs.length)

/-- Surrogates and numbers above the last code point encode no character. -/
def isScalar (c : Nat) : Bool := c < 0xD800 || (0xDFFF < c && c ≤ 0x10FFFF)

theorem isScalar_iff {c : Nat} :
    isScalar c = true ↔ c < 0xD800 ∨ 0xDFFF < c ∧ c < 0x110000 := by
  simp only [isScalar, Bool.or_eq_true, Bool.and_eq_true, decide_eq_true_eq]
  omega

/-- The bytes of a code point; those of the replacement character for a number that is none. -/
def encode (c : Nat) : Bytes :=
  if c < 0x80 then [c.toUInt8]
  else if c < 0x800 then [(0xC0 + c / 0x40).toUInt8, (0x80 + c % 0x40).toUInt8]
  else if !isScalar c then [0xEF, 0xBF, 0xBD]
  else if c < 0x10000 then
    [(0xE0 + c / 0x1000).toUInt8, (0x80 + c / 0x40 % 0x40).toUInt8, (0x80 + c % 0x40).toUInt8]
  else
    [(0xF0 + c / 0x40000).toUInt8, (0x80 + c / 0x1000 % 0x40).toUInt8,
      (0x80 + c / 0x40 % 0x40).toUInt8, (0x80 + c % 0x40).toUInt8]

/-! ### Well-formed sequences -/

/-- The well-formed sequences, each with its code point. No code point has two of them and a surrogate
    has none, so the second byte has narrower bounds behind some first bytes. -/
inductive Sequence : Bytes → Nat → Prop
  | one {a : UInt8} {n : Nat} (ha : a.toNat < 0x80) (hn : n = a.toNat) : Sequence [a] n
  | two {a b : UInt8} {n : Nat} (ha : 0xC2 ≤ a.toNat ∧ a.toNat ≤ 0xDF)
      (hb : 0x80 ≤ b.toNat ∧ b.toNat ≤ 0xBF)
      (hn : n = (a.toNat - 0xC0) * 0x40 + (b.toNat - 0x80)) : Sequence [a, b] n
  | three {a b c : UInt8} {n : Nat} (ha : 0xE0 ≤ a.toNat ∧ a.toNat ≤ 0xEF)
      (hb : 0x80 ≤ b.toNat ∧ b.toNat ≤ 0xBF) (hc : 0x80 ≤ c.toNat ∧ c.toNat ≤ 0xBF)
      (hlong : a.toNat = 0xE0 → 0xA0 ≤ b.toNat) (hpair : a.toNat = 0xED → b.toNat ≤ 0x9F)
      (hn : n = (a.toNat - 0xE0) * 0x1000 + (b.toNat - 0x80) * 0x40 + (c.toNat - 0x80)) :
      Sequence [a, b, c] n
  | four {a b c d : UInt8} {n : Nat} (ha : 0xF0 ≤ a.toNat ∧ a.toNat ≤ 0xF4)
      (hb : 0x80 ≤ b.toNat ∧ b.toNat ≤ 0xBF) (hc : 0x80 ≤ c.toNat ∧ c.toNat ≤ 0xBF)
      (hd : 0x80 ≤ d.toNat ∧ d.toNat ≤ 0xBF)
      (hlong : a.toNat = 0xF0 → 0x90 ≤ b.toNat) (hlast : a.toNat = 0xF4 → b.toNat ≤ 0x8F)
      (hn : n = (a.toNat - 0xF0) * 0x40000 + (b.toNat - 0x80) * 0x1000 + (c.toNat - 0x80) * 0x40
        + (d.toNat - 0x80)) : Sequence [a, b, c, d] n

theorem tail_iff {lo hi b : UInt8} :
    tail lo hi b = true ↔ lo.toNat ≤ b.toNat ∧ b.toNat ≤ hi.toNat := by
  simp [tail, UInt8.le_iff_toNat_le]

theorem tail_ite_iff {a b x y lo hi : UInt8} (hlo : 0x80 ≤ lo.toNat) (hhi : hi.toNat ≤ 0xBF) :
    tail (if a = x then lo else 0x80) (if a = y then hi else 0xBF) b = true ↔
      (0x80 ≤ b.toNat ∧ b.toNat ≤ 0xBF) ∧ (a.toNat = x.toNat → lo.toNat ≤ b.toNat)
        ∧ (a.toNat = y.toNat → b.toNat ≤ hi.toNat) := by
  rw [tail_iff, apply_ite UInt8.toNat, apply_ite UInt8.toNat]
  simp only [← UInt8.toNat_inj, UInt8.reduceToNat]
  split <;> split <;> omega

/-- What is decoded has a sequence at the start of the text. -/
theorem exists_sequence {bs : Bytes} {n w : Nat} (h : decode? bs = some (n, w)) :
    ∃ s rest, bs = s ++ rest ∧ Sequence s n ∧ w = s.length := by
  rcases bs with _ | ⟨a, rest⟩
  · cases h
  simp only [decode?, Bool.and_eq_true, decide_eq_true_eq, UInt8.le_iff_toNat_le,
    UInt8.lt_iff_toNat_lt, UInt8.reduceToNat] at h
  by_cases hone : a.toNat < 0x80
  · rw [if_pos hone] at h
    cases h
    exact ⟨[a], rest, rfl, .one hone rfl, rfl⟩
  rw [if_neg hone] at h
  by_cases htwo : 0xC2 ≤ a.toNat ∧ a.toNat ≤ 0xDF
  · rw [if_pos htwo] at h
    rcases rest with _ | ⟨b, rest⟩
    · cases h
    simp only [Option.ite_none_right_eq_some, Option.some.injEq, Prod.mk.injEq] at h
    obtain ⟨hb, hn, rfl⟩ := h
    exact ⟨[a, b], rest, rfl, .two htwo (tail_iff.mp hb) hn.symm, rfl⟩
  rw [if_neg htwo] at h
  by_cases hthree : 0xE0 ≤ a.toNat ∧ a.toNat ≤ 0xEF
  · rw [if_pos hthree] at h
    rcases rest with _ | ⟨b, _ | ⟨c, rest⟩⟩
    · cases h
    · cases h
    simp only [Option.ite_none_right_eq_some, Option.some.injEq, Prod.mk.injEq] at h
    obtain ⟨⟨hb, hc⟩, hn, rfl⟩ := h
    obtain ⟨hb, hlong, hpair⟩ := (tail_ite_iff (by decide) (by decide)).mp hb
    exact ⟨[a, b, c], rest, rfl, .three hthree hb (tail_iff.mp hc) hlong hpair hn.symm, rfl⟩
  rw [if_neg hthree] at h
  by_cases hfour : 0xF0 ≤ a.toNat ∧ a.toNat ≤ 0xF4
  · rw [if_pos hfour] at h
    rcases rest with _ | ⟨b, _ | ⟨c, _ | ⟨d, rest⟩⟩⟩
    · cases h
    · cases h
    · cases h
    simp only [Option.ite_none_right_eq_some, Option.some.injEq, Prod.mk.injEq] at h
    obtain ⟨⟨⟨hb, hc⟩, hd⟩, hn, rfl⟩ := h
    obtain ⟨hb, hlong, hlast⟩ := (tail_ite_iff (by decide) (by decide)).mp hb
    exact ⟨[a, b, c, d], rest, rfl,
      .four hfour hb (tail_iff.mp hc) (tail_iff.mp hd) hlong hlast hn.symm, rfl⟩
  · rw [if_neg hfour] at h
    cases h

/-- A sequence is decoded whatever stands behind it. -/
theorem Sequence.decode? {s : Bytes} {n : Nat} (h : Sequence s n) (rest : Bytes) :
    decode? (s ++ rest) = some (n, s.length) := by
  cases h with
  | one ha hn =>
    simp only [List.cons_append, Utf8.decode?, UInt8.lt_iff_toNat_lt, UInt8.reduceToNat]
    rw [if_pos ha, hn]
    rfl
  | @two a b n ha hb hn =>
    have htail : tail 0x80 0xBF b = true := tail_iff.mpr hb
    simp only [List.cons_append, Utf8.decode?, UInt8.lt_iff_toNat_lt, UInt8.le_iff_toNat_le,
      UInt8.reduceToNat, Bool.and_eq_true, decide_eq_true_eq]
    rw [if_neg (by omega), if_pos ha, if_pos htail, hn]
    rfl
  | three ha hb hc hlong hpair hn =>
    simp only [List.cons_append, Utf8.decode?, UInt8.lt_iff_toNat_lt, UInt8.le_iff_toNat_le,
      UInt8.reduceToNat, Bool.and_eq_true, decide_eq_true_eq]
    rw [if_neg (by omega), if_neg (by omega), if_pos ha,
      if_pos ⟨(tail_ite_iff (by decide) (by decide)).mpr ⟨hb, hlong, hpair⟩, tail_iff.mpr hc⟩, hn]
    rfl
  | four ha hb hc hd hlong hlast hn =>
    simp only [List.cons_append, Utf8.decode?, UInt8.lt_iff_toNat_lt, UInt8.le_iff_toNat_le,
      UInt8.reduceToNat, Bool.and_eq_true, decide_eq_true_eq]
    rw [if_neg (by omega), if_neg (by omega), if_neg (by omega), if_pos ha,
      if_pos ⟨⟨(tail_ite_iff (by decide) (by decide)).mpr ⟨hb, hlong, hlast⟩, tail_iff.mpr hc⟩,
        tail_iff.mpr hd⟩, hn]
    rfl

theorem Sequence.length_pos {s : Bytes} {n : Nat} (h : Sequence s n) : 0 < s.length := by
  cases h <;> exact Nat.succ_pos _

/-- A sequence is one ASCII byte, or has no ASCII byte in it. -/
theorem Sequence.ascii_or_high {s : Bytes} {n : Nat} (h : Sequence s n) :
    (∃ a : UInt8, s = [a] ∧ n = a.toNat ∧ a.toNat < 0x80) ∨ ∀ b ∈ s, 0x80 ≤ b.toNat := by
  cases h with
  | one ha hn => exact .inl ⟨_, rfl, hn, ha⟩
  | two ha hb =>
    refine .inr fun d hd => ?_
    simp only [List.mem_cons, List.not_mem_nil, or_false] at hd
    rcases hd with rfl | rfl <;> omega
  | three ha hb hc =>
    refine .inr fun d hd => ?_
    simp only [List.mem_cons, List.not_mem_nil, or_false] at hd
    rcases hd with rfl | rfl | rfl <;> omega
  | four ha hb hc hd =>
    refine .inr fun e he => ?_
    simp only [List.mem_cons, List.not_mem_nil, or_false] at he
    rcases he with rfl | rfl | rfl | rfl <;> omega

theorem decode?_width_pos {bs : Bytes} {c w : Nat} (h : decode? bs = some (c, w)) : 0 < w := by
  obtain ⟨s, rest, -, hs, rfl⟩ := exists_sequence h
  exact hs.length_pos

theorem decode_width_pos (b : UInt8) (bs : Bytes) : 0 < (decode (b :: bs)).2 := by
  unfold decode
  split
  · rename_i r h
    exact decode?_width_pos (c := r.1) (w := r.2) h
  · simp

/-- The code points of a text with their bytes, in order. -/
def runes (bs : Bytes) : List (Nat × Bytes) :=
  match bs with
  | [] => []
  | b :: rest =>
    let r := decode (b :: rest)
    (r.1, (b :: rest).take r.2) :: runes ((b :: rest).drop r.2)
termination_by bs.length
decreasing_by
  have := decode_width_pos b rest
  simp only [List.length_drop, List.length_cons]
  omega

def codePoints (bs : Bytes) : List Nat := (runes bs).map (·.1)

def ofCodePoints (cs : List Nat) : Bytes := cs.flatMap encode

/-- Whether the whole text is well-formed. -/
def isValid (bs : Bytes) : Bool :=
  (runes bs).all fun (c, w) => !(c == replacement && w.length == 1)

/-- The number of UTF-16 code units a code point takes. -/
def units (c : Nat) : Nat := if 0x10000 ≤ c then 2 else 1

end BridgeCall.Utf8
