/-
  BridgeCall/Proofs/Machine/SymbolDecoding.lean
  =============================================
  **Symbols can be read back.**  An underscore of a symbol is a separator, or it
  starts an escape: the digit behind it decides.  `Symbol.units` reads a symbol
  from the left into the UTF-16 units it stands for.  A separator is mistaken
  for an escape only if the name has a digit from 0 to 3 right behind it; where
  it has none the reader gives the name back, dots read as slashes
  (`Symbol.units_mangleChars`, `Symbol.unmangle_mangle`), and mangling loses
  nothing else (`Symbol.mangle_injective`).
-/
import BridgeCall.Machine.Descriptor
import BridgeCall.Machine.Symbol
import BridgeCall.Proofs.Machine.DecodedText

namespace BridgeCall

/-- Nothing is replaced where the byte does not occur. -/
theorem Bytes.replaceByte_of_ne {a b : UInt8} {bs : Bytes} (h : ∀ c ∈ bs, c ≠ a) :
    Bytes.replaceByte a b bs = bs := by
  rw [Bytes.replaceByte]
  conv_rhs => rw [← List.map_id bs]
  exact List.map_congr_left fun c hc => if_neg (h c hc)

/-! ### Hexadecimal numbers -/

namespace Bytes

/-- The number that hexadecimal digits spell. -/
def hexNumber (ds : Bytes) : Nat := ds.foldl (fun n d => n * 16 + (hexValue? d).getD 0) 0

/-- A hexadecimal digit as a byte. -/
def hexByte (d : Nat) : UInt8 := d.digitChar.toNat.toUInt8

theorem hexValue?_hexByte : ∀ d < 16, hexValue? (hexByte d) = some d := by decide

theorem digits_of_lt {n : Nat} (hn : n < 16) : digits 16 n = [hexByte n] := by
  rw [digits, Nat.toDigits_of_lt_base hn]
  rfl

theorem digits_of_le {n : Nat} (hn : 16 ≤ n) :
    digits 16 n = digits 16 (n / 16) ++ [hexByte (n % 16)] := by
  rw [digits, Nat.toDigits_of_base_le (by decide) hn, List.map_append]
  rfl

theorem hex_one {n : Nat} (hn : n < 16) : hex 1 n = [hexByte n] := by
  simp [hex, digits_of_lt hn]

/-- The last digit stands apart from the others, filled up or not. -/
theorem hex_succ (k n : Nat) : hex (k + 2) n = hex (k + 1) (n / 16) ++ [hexByte (n % 16)] := by
  rcases Nat.lt_or_ge n 16 with hn | hn
  · have hdiv : n / 16 = 0 := by omega
    have hmod : n % 16 = n := by omega
    have hzero : hexByte 0 = 0x30 := by decide
    rw [hdiv, hmod]
    simp [hex, digits_of_lt hn, digits_of_lt (show 0 < 16 by decide), hzero, List.replicate_succ']
  · simp [hex, digits_of_le hn]

theorem length_hex {k n : Nat} (hn : n < 16 ^ (k + 1)) : (hex (k + 1) n).length = k + 1 := by
  induction k generalizing n with
  | zero => rw [hex_one (by simpa using hn), List.length_singleton]
  | succ k ih =>
    have hdiv : n / 16 < 16 ^ (k + 1) := by
      rw [Nat.pow_succ] at hn
      omega
    rw [hex_succ, List.length_append, ih hdiv, List.length_singleton]

theorem hexNumber_snoc (ds : Bytes) {d : Nat} (hd : d < 16) :
    hexNumber (ds ++ [hexByte d]) = hexNumber ds * 16 + d := by
  simp [hexNumber, hexValue?_hexByte d hd]

theorem hexNumber_hex {k n : Nat} (hn : n < 16 ^ (k + 1)) : hexNumber (hex (k + 1) n) = n := by
  induction k generalizing n with
  | zero =>
    have hone := hexNumber_snoc [] (show n < 16 by simpa using hn)
    rw [List.nil_append] at hone
    rw [hex_one (by simpa using hn), hone]
    simp [hexNumber]
  | succ k ih =>
    have hdiv : n / 16 < 16 ^ (k + 1) := by
      rw [Nat.pow_succ] at hn
      omega
    rw [hex_succ, hexNumber_snoc _ (by omega), ih hdiv]
    omega

end Bytes

/-! ### Reading symbols -/

namespace Symbol

/-- A digit that makes an escape of the underscore before it. -/
def isMark (b : UInt8) : Bool := 0x30 ≤ b && b ≤ 0x33

/-- The UTF-16 units that a mangled name stands for. An underscore that starts no escape stands for
    a slash. -/
def units (bs : Bytes) : List Nat :=
  match bs with
  | [] => []
  | [b] => [if b = 0x5f then 0x2f else b.toNat]
  | b :: m :: rest =>
    if b ≠ 0x5f then b.toNat :: units (m :: rest)
    else if m = 0x30 then Bytes.hexNumber (rest.take 4) :: units (rest.drop 4)
    else if m = 0x31 then 0x5f :: units rest
    else if m = 0x32 then 0x3b :: units rest
    else if m = 0x33 then 0x5b :: units rest
    else 0x2f :: units (m :: rest)
termination_by bs.length
decreasing_by all_goals (simp only [List.length_cons, List.length_drop]; omega)

theorem units_nil : units [] = [] := by rw [units]

theorem units_cons {b : UInt8} (hb : b ≠ 0x5f) (rest : Bytes) :
    units (b :: rest) = b.toNat :: units rest := by
  cases rest with
  | nil => rw [units_nil, units, if_neg hb]
  | cons m rest => rw [units, if_pos hb]

theorem units_separator {rest : Bytes} (h : ∀ m ∈ rest.head?, isMark m = false) :
    units (0x5f :: rest) = 0x2f :: units rest := by
  cases rest with
  | nil => rw [units_nil, units, if_pos rfl]
  | cons m rest =>
    have hm : isMark m = false := h m (by simp)
    have hne {k : UInt8} (hk : isMark k = true) : m ≠ k := by
      rintro rfl
      rw [hm] at hk
      cases hk
    rw [units, if_neg (by simp), if_neg (hne (by decide)), if_neg (hne (by decide)),
      if_neg (hne (by decide)), if_neg (hne (by decide))]

theorem units_hex {u : Nat} (hu : u < 0x10000) (rest : Bytes) :
    units (("_0" : Bytes) ++ Bytes.hex 4 u ++ rest) = u :: units rest := by
  have hlead : ("_0" : Bytes) = [0x5f, 0x30] := by decide
  have hlength : (Bytes.hex 4 u).length = 4 := Bytes.length_hex (by simpa using hu)
  have hnumber : Bytes.hexNumber (Bytes.hex 4 u) = u := Bytes.hexNumber_hex (by simpa using hu)
  rw [hlead, List.append_assoc, List.cons_append, List.singleton_append, units, if_neg (by simp),
    if_pos rfl]
  have htake : (Bytes.hex 4 u ++ rest).take 4 = Bytes.hex 4 u := List.take_left' hlength
  have hdrop : (Bytes.hex 4 u ++ rest).drop 4 = rest := List.drop_left' hlength
  rw [htake, hdrop, hnumber]

/-! ### Mangled characters -/

/-- A character that separates the parts of a name. -/
def isSeparator (c : Char) : Bool := c == '/' || c == '.'

/-- A separator read as a slash. -/
def slashed (c : Char) : Char := if isSeparator c then '/' else c

theorem mangleChar_separator {c : Char} (h : isSeparator c = true) :
    mangleChar c.toNat = [0x5f] := by
  simp only [isSeparator, Bool.or_eq_true, beq_iff_eq] at h
  rcases h with rfl | rfl <;> decide

theorem units_escaped {us : List Nat} (hus : ∀ u ∈ us, u < 0x10000) (rest : Bytes) :
    units ((us.flatMap fun u => ("_0" : Bytes) ++ Bytes.hex 4 u) ++ rest) = us ++ units rest := by
  induction us with
  | nil => rfl
  | cons u us ih =>
    rw [List.flatMap_cons, List.append_assoc, units_hex (hus u (by simp)),
      ih fun v hv => hus v (List.mem_cons_of_mem _ hv)]
    rfl

theorem toNat_ne {c d : Char} (h : c ≠ d) : c.toNat ≠ d.toNat :=
  fun heq => h (Char.toNat_inj.mp heq)

theorem units_mangleChar {c : Char} (h : isSeparator c = false) (rest : Bytes) :
    units (mangleChar c.toNat ++ rest) = Utf16.encode c.toNat ++ units rest := by
  simp only [isSeparator, Bool.or_eq_false_iff, beq_eq_false_iff_ne] at h
  have hslash : c.toNat ≠ 0x2f := toNat_ne h.1
  have hdot : c.toNat ≠ 0x2e := toNat_ne h.2
  have hescaped := units_escaped (fun _ => Utf16.encode_lt (c := c)) rest
  generalize c.toNat = n at hslash hdot hescaped
  -- the three short escapes, each an underscore and a digit
  have hshort {m : UInt8} (u : Nat) (hu : u < 0x80) (hm : units (0x5f :: m :: rest) = u :: units rest) :
      units ([0x5f, m] ++ rest) = Utf16.encode u ++ units rest := by
    rw [Utf16.encode, if_neg (by omega)]
    exact hm
  unfold mangleChar
  rw [if_neg (by omega)]
  split
  · rename_i hn
    subst hn
    exact hshort (m := 0x31) 0x5f (by decide) (by simp [units])
  split
  · rename_i hn
    subst hn
    exact hshort (m := 0x32) 0x3b (by decide) (by simp [units])
  split
  · rename_i hn
    subst hn
    exact hshort (m := 0x33) 0x5b (by decide) (by simp [units])
  split
  · rename_i hword
    have hbyte : n.toUInt8.toNat = n := ModifiedUtf8.toNat_toUInt8 (by omega)
    have hne : n.toUInt8 ≠ 0x5f := by
      intro heq
      rw [heq] at hbyte
      simp at hbyte
      omega
    rw [List.singleton_append, units_cons hne, hbyte, Utf16.encode, if_neg (by omega)]
    rfl
  · exact hescaped

theorem isMark_eq_false {m : UInt8} (h : ¬ (0x30 ≤ m.toNat ∧ m.toNat ≤ 0x33)) :
    isMark m = false := by
  simpa [isMark, UInt8.le_iff_toNat_le] using h

/-- A mangled character is an ASCII letter or digit, or starts with an underscore. -/
theorem mangleChar_cases (n : Nat) :
    (∃ bs, mangleChar n = 0x5f :: bs) ∨ (n < 0x80 ∧ mangleChar n = [n.toUInt8]) := by
  unfold mangleChar
  split
  · exact .inl ⟨[], by decide⟩
  split
  · exact .inl ⟨[0x31], by decide⟩
  split
  · exact .inl ⟨[0x32], by decide⟩
  split
  · exact .inl ⟨[0x33], by decide⟩
  split
  · exact .inr ⟨by omega, rfl⟩
  · have hlead : ("_0" : Bytes) = [0x5f, 0x30] := by decide
    obtain ⟨u, us, hunits⟩ : ∃ u us, Utf16.encode n = u :: us := by
      unfold Utf16.encode
      split
      · exact ⟨_, _, rfl⟩
      · exact ⟨_, _, rfl⟩
    rw [hunits, List.flatMap_cons, hlead]
    exact .inl ⟨_, rfl⟩

theorem head_mangleChar {c : Char} (h : ¬ (0x30 ≤ c.toNat ∧ c.toNat ≤ 0x33)) (rest : Bytes) :
    ∀ m ∈ (mangleChar c.toNat ++ rest).head?, isMark m = false := by
  intro m hm
  rcases mangleChar_cases c.toNat with ⟨bs, hbs⟩ | ⟨hlow, hone⟩
  · rw [hbs] at hm
    cases hm
    decide
  · have hbyte : c.toNat.toUInt8.toNat = c.toNat := ModifiedUtf8.toNat_toUInt8 (by omega)
    rw [hone] at hm
    cases hm
    exact isMark_eq_false (by rw [hbyte]; exact h)

/-- No separator is followed by a digit from 0 to 3. -/
def Unambiguous (cs : List Char) : Prop :=
  cs.IsChain fun c d => isSeparator c = true → ¬ (0x30 ≤ d.toNat ∧ d.toNat ≤ 0x33)

/-- Some characters, mangled. -/
def mangleChars (cs : List Char) : Bytes := cs.flatMap fun c => mangleChar c.toNat

theorem mangle_ofChars (cs : List Char) : mangle (Utf8.ofChars cs) = mangleChars cs := by
  rw [mangle, Utf8.codePoints_ofChars, List.flatMap_map, mangleChars]

/-- Reading what was mangled gives the units of the name, its separators read as slashes. What
    follows a separator decides whether it is taken for one, hence the condition on `rest`. -/
theorem units_mangleChars {cs : List Char} (h : Unambiguous cs) {rest : Bytes}
    (hrest : ∀ c ∈ cs.getLast?, isSeparator c = true → ∀ m ∈ rest.head?, isMark m = false) :
    units (mangleChars cs ++ rest) =
      (cs.map slashed).flatMap (fun c => Utf16.encode c.toNat) ++ units rest := by
  induction cs with
  | nil => rfl
  | cons c cs ih =>
    have htail : units (mangleChars cs ++ rest) =
        (cs.map slashed).flatMap (fun c => Utf16.encode c.toNat) ++ units rest := by
      apply ih h.tail
      intro d hd
      cases cs with
      | nil => cases hd
      | cons e es => exact hrest d (by rwa [List.getLast?_cons_cons])
    have hsplit : mangleChars (c :: cs) ++ rest = mangleChar c.toNat ++ (mangleChars cs ++ rest) := by
      simp [mangleChars]
    rw [hsplit, List.map_cons, List.flatMap_cons, List.append_assoc, ← htail]
    cases hc : isSeparator c with
    | false => rw [units_mangleChar hc, slashed, if_neg (by simp [hc])]
    | true =>
      have hnext : ∀ m ∈ (mangleChars cs ++ rest).head?, isMark m = false := by
        cases cs with
        | nil => exact hrest c rfl hc
        | cons d ds =>
          have hd := (List.isChain_cons_cons.mp h).1 hc
          have hsplit : mangleChars (d :: ds) ++ rest
              = mangleChar d.toNat ++ (mangleChars ds ++ rest) := by simp [mangleChars]
          rw [hsplit]
          exact head_mangleChar hd _
      rw [mangleChar_separator hc, List.singleton_append, units_separator hnext, slashed, if_pos hc]
      rfl

theorem map_slashed {cs : List Char} (h : ∀ c ∈ cs, c ≠ '.') : cs.map slashed = cs := by
  conv_rhs => rw [← List.map_id cs]
  apply List.map_congr_left
  intro c hc
  by_cases hslash : c = '/'
  · rw [hslash]
    rfl
  · simp [slashed, isSeparator, hslash, h c hc]

/-- Names with the same units are the same. -/
theorem eq_of_units {cs ds : List Char}
    (h : cs.flatMap (fun c => Utf16.encode c.toNat) = ds.flatMap (fun c => Utf16.encode c.toNat)) :
    cs = ds := by
  have hdecode := congrArg Utf16.decode h
  rw [Utf16.decode_flatMap, Utf16.decode_flatMap] at hdecode
  exact List.map_injective_iff.mpr (fun _ _ => Char.toNat_inj.mp) hdecode

/-! ### Names and texts -/

theorem mem_ofChars {cs : List Char} {c : Char} (h : c ∈ cs) (hc : c.toNat < 0x80) :
    c.toNat.toUInt8 ∈ Utf8.ofChars cs := by
  induction cs with
  | nil => cases h
  | cons d cs ih =>
    rw [Utf8.ofChars_cons, List.mem_append]
    rcases List.mem_cons.mp h with rfl | h
    · left
      rw [Utf8.encode, if_pos hc]
      simp
    · exact .inr (ih h)

/-- A name without separators, mangled, is what stands before the first slash when the symbol is
    read, whether argument types follow or not. -/
theorem takeWhile_units {cs : List Char} (h : ∀ c ∈ cs, isSeparator c = false) {suffix : Bytes}
    (hsuffix : suffix = [] ∨ ∃ args, suffix = ("__" : Bytes) ++ args) :
    (units (mangleChars cs ++ suffix)).takeWhile (· ≠ 0x2f) =
      cs.flatMap fun c => Utf16.encode c.toNat := by
  have hchain : Unambiguous cs := by
    apply List.Pairwise.isChain
    apply List.pairwise_of_forall_mem_list
    intro c hc d _ hsep
    rw [h c hc] at hsep
    cases hsep
  have hlast : ∀ c ∈ cs.getLast?, isSeparator c = true →
      ∀ m ∈ suffix.head?, isMark m = false := by
    intro c hc hsep
    rw [h c (List.mem_of_getLast? hc)] at hsep
    cases hsep
  have hplain : cs.map slashed = cs := by
    apply map_slashed
    rintro c hc rfl
    exact absurd (h _ hc) (by decide)
  have hunits : ∀ u ∈ cs.flatMap (fun c => Utf16.encode c.toNat), decide (u ≠ 0x2f) = true := by
    intro u hu
    obtain ⟨c, hc, hmem⟩ := List.mem_flatMap.mp hu
    have hslash : c.toNat ≠ 0x2f := by
      intro heq
      have hc' : c = '/' := Char.toNat_inj.mp heq
      rw [hc'] at hc
      exact absurd (h _ hc) (by decide)
    unfold Utf16.encode at hmem
    split at hmem
    · simp only [List.mem_cons, List.not_mem_nil, or_false] at hmem
      simp only [decide_eq_true_eq]
      omega
    · simp only [List.mem_singleton] at hmem
      rw [hmem]
      simpa using hslash
  have hnext : (units suffix).takeWhile (· ≠ 0x2f) = [] := by
    rcases hsuffix with rfl | ⟨args, rfl⟩
    · rw [units_nil]
      rfl
    · have hlead : ("__" : Bytes) = [0x5f, 0x5f] := by decide
      have hmark : ∀ m ∈ (0x5f :: args).head?, isMark m = false := by
        intro m hm
        cases hm
        decide
      rw [hlead, List.cons_append, List.singleton_append, units_separator hmark]
      simp
  rw [units_mangleChars hchain hlast, hplain, List.takeWhile_append_of_pos hunits, hnext,
    List.append_nil]

/-- No slash is followed by a digit from 0 to 3. -/
def Spaced (bs : Bytes) : Prop := bs.IsChain fun a b => a = 0x2f → isMark b = false

theorem spaced_of_not_mem {bs : Bytes} (h : 0x2f ∉ bs) : Spaced bs := by
  apply List.Pairwise.isChain
  apply List.pairwise_of_forall_mem_list
  rintro a ha b - rfl
  exact absurd ha h

theorem Spaced.append {as bs : Bytes} (has : Spaced as) (hbs : Spaced bs)
    (h : (∀ a ∈ as.getLast?, a ≠ 0x2f) ∨ ∀ b ∈ bs.head?, isMark b = false) :
    Spaced (as ++ bs) := by
  refine List.isChain_append.mpr ⟨has, hbs, ?_⟩
  intro a ha b hb heq
  rcases h with h | h
  · exact absurd heq (h a ha)
  · exact h b hb

/-- No dot and no slash is followed by a digit from 0 to 3. -/
def Readable (bs : Bytes) : Prop := bs.IsChain fun a b => a = 0x2e ∨ a = 0x2f → isMark b = false

instance (bs : Bytes) : Decidable (Readable bs) :=
  inferInstanceAs (Decidable (bs.IsChain fun a b => a = 0x2e ∨ a = 0x2f → isMark b = false))

theorem Spaced.readable {bs : Bytes} (hdot : 0x2e ∉ bs) (h : Spaced bs) : Readable bs := by
  refine h.imp_of_mem_imp ?_
  rintro a b ha - hab (rfl | rfl)
  · exact absurd ha hdot
  · exact hab rfl

theorem unambiguous_of_readable {cs : List Char} (h : Readable (Utf8.ofChars cs)) :
    Unambiguous cs := by
  induction cs with
  | nil => exact .nil
  | cons c cs ih =>
    rw [Utf8.ofChars_cons] at h
    have htail : Unambiguous cs := ih (List.isChain_append.mp h).2.1
    cases cs with
    | nil => exact .singleton c
    | cons d ds =>
      refine List.isChain_cons_cons.mpr ⟨?_, htail⟩
      intro hsep hdigit
      obtain ⟨b, hone, hb⟩ : ∃ b : UInt8, Utf8.encode c.toNat = [b] ∧ (b = 0x2e ∨ b = 0x2f) := by
        simp only [isSeparator, Bool.or_eq_true, beq_iff_eq] at hsep
        rcases hsep with rfl | rfl
        · exact ⟨0x2f, by decide, .inr rfl⟩
        · exact ⟨0x2e, by decide, .inl rfl⟩
      have hnext : Utf8.encode d.toNat = [d.toNat.toUInt8] := by rw [Utf8.encode, if_pos (by omega)]
      have hbyte : d.toNat.toUInt8.toNat = d.toNat := ModifiedUtf8.toNat_toUInt8 (by omega)
      rw [Utf8.ofChars_cons, hone, hnext] at h
      have hmark := (List.isChain_cons_cons.mp h).1 hb
      simp only [isMark, Bool.and_eq_false_iff, decide_eq_false_iff_not, UInt8.le_iff_toNat_le, hbyte,
        UInt8.reduceToNat] at hmark
      omega

/-- The name that a symbol stands for, with slashes between its parts. -/
def unmangle (symbol : Bytes) : Bytes := Utf8.ofCodePoints (Utf16.decode (units symbol))

theorem sourceToInternal_encode (c : Char) :
    sourceToInternal (Utf8.encode c.toNat) = Utf8.encode (slashed c).toNat := by
  by_cases hdot : c = '.'
  · subst hdot
    decide
  have hkeep : slashed c = c := by
    by_cases hslash : c = '/'
    · rw [hslash]
      rfl
    · simp [slashed, isSeparator, hslash, hdot]
  have hbytes : ∀ b ∈ Utf8.encode c.toNat, b ≠ 0x2e := by
    rintro b hb rfl
    exact hdot (Char.toNat_inj.mp (Utf8.eq_of_mem_encode hb (by decide)).2)
  rw [hkeep]
  exact Bytes.replaceByte_of_ne hbytes

theorem sourceToInternal_ofChars (cs : List Char) :
    sourceToInternal (Utf8.ofChars cs) = Utf8.ofChars (cs.map slashed) := by
  induction cs with
  | nil => rfl
  | cons c cs ih =>
    rw [Utf8.ofChars_cons, List.map_cons, Utf8.ofChars_cons, ← ih, ← sourceToInternal_encode]
    simp [sourceToInternal, Bytes.replaceByte]

/-- **A name reads back from its symbol**, its dots as slashes. -/
theorem unmangle_mangle {name : Bytes} (htext : IsText name) (h : Readable name) :
    unmangle (mangle name) = sourceToInternal name := by
  obtain ⟨cs, rfl⟩ := htext
  have hunits : units (mangleChars cs ++ []) = _ :=
    units_mangleChars (unambiguous_of_readable h) (by simp)
  rw [List.append_nil, units_nil, List.append_nil] at hunits
  rw [unmangle, mangle_ofChars, hunits, Utf16.decode_flatMap, sourceToInternal_ofChars]
  rfl

/-- A text whose parts between slashes start with no digit from 0 to 3 can be told from its mangled
    form. -/
theorem mangle_injective {as bs : Bytes} (has : IsText as) (hbs : IsText bs) (hdots : 0x2e ∉ as)
    (hdots' : 0x2e ∉ bs) (hspaced : Spaced as) (hspaced' : Spaced bs)
    (h : mangle as = mangle bs) : as = bs := by
  have hread {name : Bytes} (htext : IsText name) (hdot : 0x2e ∉ name) (hsp : Spaced name) :
      unmangle (mangle name) = name := by
    rw [unmangle_mangle htext (hsp.readable hdot)]
    exact Bytes.replaceByte_of_ne fun b hb heq => hdot (heq ▸ hb)
  rw [← hread has hdots hspaced, h, hread hbs hdots' hspaced']

end Symbol

end BridgeCall
