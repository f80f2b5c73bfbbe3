/-
  BridgeCall/Proofs/Machine/UnitLoop.lean
  =======================================
  **Stored texts, read by position.**  `ModifiedUtf8.units` takes a stored text
  apart from its front.  Here the same is done with a position in the bytes and
  with the masks and shifts of the encoding, and every byte is read with a check:
  a position behind the end gives no unit at all (`turn?`).

  The loop over the turns never comes to such a position, and it has no more turns
  than there are bytes (`loop?_eq`).  So it ends on all bytes, well-formed or not,
  and on stored units it gives them back (`units_round_trip`).
-/
import BridgeCall.Proofs.Machine.StoredText
import Mathlib.Algebra.Group.Nat.Defs

namespace BridgeCall.ModifiedUtf8

/-! ### The loop -/

/-- The unit at a position and the position after it; none when a byte is asked for that is not
    there. -/
def turn? (bs : Bytes) (i : Nat) : Option (UInt16 × Nat) := do
  let c ← bs[i]?
  if c &&& 0x80 = 0 then return (c.toUInt16, i + 1)
  else if c &&& 0xE0 = 0xC0 ∧ i + 1 < bs.length then
    let d ← bs[i + 1]?
    return ((c &&& 0x1F).toUInt16 <<< 6 ||| (d &&& 0x3F).toUInt16, i + 2)
  else if c &&& 0xF0 = 0xE0 ∧ i + 2 < bs.length then
    let d ← bs[i + 1]?
    let e ← bs[i + 2]?
    return ((c &&& 0x0F).toUInt16 <<< 12 ||| (d &&& 0x3F).toUInt16 <<< 6 ||| (e &&& 0x3F).toUInt16,
      i + 3)
  else return (0xFFFD, i + 1)

/-- The units from a position on; none when a turn gives none or the turns run out. -/
def loop? (bs : Bytes) (turns i : Nat) : Option (List UInt16) :=
  if i < bs.length then
    match turns with
    | 0 => none
    | turns + 1 => (turn? bs i).bind fun (u, j) => (loop? bs turns j).map (u :: ·)
  else some []

/-! ### Masks and shifts -/

theorem isSingle_iff (c : UInt8) : c &&& 0x80 = 0 ↔ c.toNat < 0x80 := by
  have hbyte : ∀ n < 256, n &&& 0x80 = 0 ↔ n < 0x80 := by decide +kernel
  rw [← UInt8.toNat_inj, UInt8.toNat_and]
  exact hbyte c.toNat c.toNat_lt

theorem isPair_iff (c : UInt8) : c &&& 0xE0 = 0xC0 ↔ c.toNat / 0x20 = 6 := by
  have hbyte : ∀ n < 256, n &&& 0xE0 = 0xC0 ↔ n / 0x20 = 6 := by decide +kernel
  rw [← UInt8.toNat_inj, UInt8.toNat_and]
  exact hbyte c.toNat c.toNat_lt

theorem isTriple_iff (c : UInt8) : c &&& 0xF0 = 0xE0 ↔ c.toNat / 0x10 = 14 := by
  have hbyte : ∀ n < 256, n &&& 0xF0 = 0xE0 ↔ n / 0x10 = 14 := by decide +kernel
  rw [← UInt8.toNat_inj, UInt8.toNat_and]
  exact hbyte c.toNat c.toNat_lt

/-- A mask of low bits. -/
theorem toNat_low (c : UInt8) {m : UInt8} {k : Nat} (hm : m.toNat = 2 ^ k - 1) :
    (c &&& m).toUInt16.toNat = c.toNat % 2 ^ k := by
  rw [UInt8.toNat_toUInt16, UInt8.toNat_and, hm, Nat.and_two_pow_sub_one_eq_mod]

/-- Bits that are shifted inside a unit, next to lower bits. -/
theorem toNat_shifted_or {u v k : UInt16} {n p : Nat} (hk : k.toNat = n) (hp : 2 ^ n = p)
    (hu : u.toNat * p < 2 ^ 16) (hn : n < 16) (hv : v.toNat < p) :
    (u <<< k ||| v).toNat = u.toNat * p + v.toNat := by
  subst hp
  have hshift : (u <<< k).toNat = u.toNat <<< n := by
    rw [UInt16.toNat_shiftLeft, hk, Nat.mod_eq_of_lt hn, Nat.shiftLeft_eq, Nat.mod_eq_of_lt hu]
  rw [UInt16.toNat_or, hshift, ← Nat.shiftLeft_add_eq_or_of_lt hv, Nat.shiftLeft_eq]

theorem toNat_pair (c d : UInt8) : ((c &&& 0x1F).toUInt16 <<< 6 ||| (d &&& 0x3F).toUInt16).toNat
    = (c.toNat % 0x20) * 0x40 + d.toNat % 0x40 := by
  have hc : (c &&& 0x1F).toUInt16.toNat = c.toNat % 0x20 := toNat_low c (k := 5) rfl
  have hd : (d &&& 0x3F).toUInt16.toNat = d.toNat % 0x40 := toNat_low d (k := 6) rfl
  rw [toNat_shifted_or (n := 6) (p := 0x40) rfl rfl (by omega) (by omega) (by omega), hc, hd]

theorem toNat_triple (c d e : UInt8) :
    ((c &&& 0x0F).toUInt16 <<< 12 ||| (d &&& 0x3F).toUInt16 <<< 6 ||| (e &&& 0x3F).toUInt16).toNat
      = (c.toNat % 0x10) * 0x1000 + (d.toNat % 0x40) * 0x40 + e.toNat % 0x40 := by
  have hc : (c &&& 0x0F).toUInt16.toNat = c.toNat % 0x10 := toNat_low c (k := 4) rfl
  have hd : (d &&& 0x3F).toUInt16.toNat = d.toNat % 0x40 := toNat_low d (k := 6) rfl
  have he : (e &&& 0x3F).toUInt16.toNat = e.toNat % 0x40 := toNat_low e (k := 6) rfl
  have hlow : ((d &&& 0x3F).toUInt16 <<< 6 ||| (e &&& 0x3F).toUInt16).toNat
      = (d.toNat % 0x40) * 0x40 + e.toNat % 0x40 := by
    rw [toNat_shifted_or (n := 6) (p := 0x40) rfl rfl (by omega) (by omega) (by omega), hd, he]
  rw [UInt16.or_assoc, toNat_shifted_or (n := 12) (p := 0x1000) rfl rfl (by omega) (by omega)
    (by omega), hc, hlow, Nat.add_assoc]

/-! ### Turns -/

/-- A byte that starts no whole sequence. -/
theorem units_other {c : UInt8} {bs : Bytes} (hone : ¬ c.toNat < 0x80)
    (htwo : ¬(c.toNat / 0x20 = 6 ∧ 1 ≤ bs.length))
    (hthree : ¬(c.toNat / 0x10 = 14 ∧ 2 ≤ bs.length)) :
    units (c :: bs) = Utf8.replacement :: units bs := by
  match bs with
  | [] => simp only [units, if_neg hone]
  | [d] =>
    have hlead : ¬ c.toNat / 0x20 = 6 := fun h => htwo ⟨h, by simp⟩
    simp only [units, if_neg hone, if_neg hlead]
  | d :: e :: rest =>
    have hlead : ¬ c.toNat / 0x20 = 6 := fun h => htwo ⟨h, by simp⟩
    have hlong : ¬ c.toNat / 0x10 = 14 := fun h => hthree ⟨h, by simp⟩
    rw [units, if_neg hone, if_neg hlead, if_neg hlong]

/-- A turn takes the first unit from the bytes that are left, and never more than there are. -/
theorem turn?_eq (before : Bytes) {bs : Bytes} (hbs : bs ≠ []) :
    ∃ u n, turn? (before ++ bs) before.length = some (u, before.length + n) ∧
      0 < n ∧ n ≤ bs.length ∧ units bs = u.toNat :: units (bs.drop n) := by
  obtain ⟨c, bs, rfl⟩ := List.exists_cons_of_ne_nil hbs
  have hread (k : Nat) : (before ++ c :: bs)[before.length + k]? = (c :: bs)[k]? := by
    rw [List.getElem?_append_right (Nat.le_add_right _ _), Nat.add_sub_cancel_left]
  have hfirst : (before ++ c :: bs)[before.length]? = some c := hread 0
  have hinside (k : Nat) : before.length + k < (before ++ c :: bs).length ↔ k ≤ bs.length := by
    rw [List.length_append, List.length_cons]
    omega
  simp only [turn?, hfirst, hread, Option.bind_eq_bind, Option.bind_some, hinside, isSingle_iff,
    isPair_iff, isTriple_iff]
  by_cases hone : c.toNat < 0x80
  · rw [if_pos hone]
    refine ⟨c.toUInt16, 1, rfl, by omega, by simp, ?_⟩
    rw [units_one hone, UInt8.toNat_toUInt16]
    rfl
  rw [if_neg hone]
  by_cases htwo : c.toNat / 0x20 = 6 ∧ 1 ≤ bs.length
  · obtain ⟨hlead, hlength⟩ := htwo
    obtain ⟨d, bs, rfl⟩ := List.exists_cons_of_length_pos hlength
    rw [if_pos ⟨hlead, hlength⟩]
    refine ⟨_, 2, rfl, by omega, by simp, ?_⟩
    rw [units_two hlead, toNat_pair]
    rfl
  rw [if_neg htwo]
  by_cases hthree : c.toNat / 0x10 = 14 ∧ 2 ≤ bs.length
  · obtain ⟨hlead, hlength⟩ := hthree
    match bs, hlength with
    | d :: e :: bs, hlength =>
      rw [if_pos ⟨hlead, hlength⟩]
      refine ⟨_, 3, rfl, by omega, by simp, ?_⟩
      rw [units_three hlead, toNat_triple]
      rfl
  · rw [if_neg hthree]
    refine ⟨0xFFFD, 1, rfl, by omega, by simp, ?_⟩
    rw [units_other hone htwo hthree]
    rfl

/-- The loop gives the units of the bytes from its position on, in at most as many turns as there
    are bytes left. -/
theorem loop?_eq (before bs : Bytes) {turns : Nat} (hturns : bs.length ≤ turns) :
    (loop? (before ++ bs) turns before.length).map (List.map UInt16.toNat) = some (units bs) := by
  -- each turn leaves fewer bytes, so the turns that are left stay enough
  induction turns generalizing before bs with
  | zero =>
    obtain rfl : bs = [] := List.length_eq_zero_iff.mp (Nat.le_zero.mp hturns)
    simp [loop?, units]
  | succ turns ih =>
    by_cases hbs : bs = []
    · subst hbs
      simp [loop?, units]
    obtain ⟨u, n, hturn, hpos, hle, hunits⟩ := turn?_eq before hbs
    have hinside : before.length < (before ++ bs).length := by
      rw [List.length_append]
      omega
    have hrest := ih (before ++ bs.take n) (bs.drop n) (by rw [List.length_drop]; omega)
    rw [List.append_assoc, List.take_append_drop, List.length_append, List.length_take,
      Nat.min_eq_left hle] at hrest
    obtain ⟨us, hus, hmap⟩ := Option.map_eq_some_iff.mp hrest
    rw [loop?, if_pos hinside, hturn, Option.bind_some]
    simp only [hus, Option.map_some, List.map_cons, hmap, hunits]

/-- **Stored units come back.** Whatever units are stored, half pairs included, decoding gives the text
    that they stand for, so every text comes back as it was. On any bytes at all the loop ends within
    as many turns as there are bytes, reads none behind the end, and finds the units that are
    decoded. -/
theorem units_round_trip :
    (∀ us : List UInt16, decode ((us.map UInt16.toNat).flatMap encodeUnit)
      = Utf8.ofCodePoints (Utf16.decode (us.map UInt16.toNat))) ∧
    (∀ text : String, decode (encode text.toList) = text) ∧
    ∀ bs : Bytes, ∃ us, loop? bs bs.length 0 = some us ∧
      decode bs = Utf8.ofCodePoints (Utf16.decode (us.map UInt16.toNat)) := by
  refine ⟨?_, decode_encode, ?_⟩
  · intro us
    have hus : ∀ u ∈ us.map UInt16.toNat, u < 0x10000 := by
      intro u hu
      obtain ⟨v, -, rfl⟩ := List.mem_map.mp hu
      exact v.toNat_lt
    rw [decode, units_encode hus]
  · intro bs
    obtain ⟨us, hus, hunits⟩ := Option.map_eq_some_iff.mp (loop?_eq [] bs (Nat.le_refl _))
    exact ⟨us, hus, by rw [decode, hunits]⟩

end BridgeCall.ModifiedUtf8
