/-
  BridgeCall/Proofs/Machine/DecodedText.lean
  ==========================================
  **What a class file names is text.**  A class file can store any bytes, but its
  names are decoded before anybody sees them: bytes to UTF-16 units, units to
  code points, and these to UTF-8.  Half of a surrogate pair does not survive, so
  the result is always the UTF-8 of some characters (`ClassFile.parse_decoded`).
  Such a text gives its characters back (`Utf8.codePoints_ofChars`), and it can
  be taken apart at any ASCII byte (`IsText.split`).
-/
import BridgeCall.Proofs.Machine.Truncation

namespace BridgeCall

/-! ### UTF-8 -/

namespace Utf8

/-- A character is encoded as a sequence of its code point. -/
theorem sequence_encode (c : Char) : Sequence (encode c.toNat) c.toNat := by
  have hc := char_toNat_cases c
  generalize c.toNat = n at hc
  have hbyte {k : Nat} (hk : k < 256) : k.toUInt8.toNat = k :=
    ModifiedUtf8.toNat_toUInt8 hk
  rw [encode, isScalar_iff.mpr hc]
  split
  · have h0 := hbyte (k := n) (by omega)
    exact .one (by omega) h0.symm
  split
  · have h0 := hbyte (k := 0xC0 + n / 0x40) (by omega)
    have h1 := hbyte (k := 0x80 + n % 0x40) (by omega)
    exact .two (by omega) (by omega) (by omega)
  rw [if_neg (by simp)]
  split
  · have h0 := hbyte (k := 0xE0 + n / 0x1000) (by omega)
    have h1 := hbyte (k := 0x80 + n / 0x40 % 0x40) (by omega)
    have h2 := hbyte (k := 0x80 + n % 0x40) (by omega)
    exact .three (by omega) (by omega) (by omega) (by omega) (by omega) (by omega)
  · have h0 := hbyte (k := 0xF0 + n / 0x40000) (by omega)
    have h1 := hbyte (k := 0x80 + n / 0x1000 % 0x40) (by omega)
    have h2 := hbyte (k := 0x80 + n / 0x40 % 0x40) (by omega)
    have h3 := hbyte (k := 0x80 + n % 0x40) (by omega)
    exact .four (by omega) (by omega) (by omega) (by omega) (by omega) (by omega) (by omega)

/-- A character is decoded from its own bytes, whatever follows them. -/
theorem decode_encode (c : Char) (rest : Bytes) :
    decode (encode c.toNat ++ rest) = (c.toNat, (encode c.toNat).length) := by
  rw [decode, (sequence_encode c).decode?]

theorem encode_ne_nil (c : Nat) : ∃ b bs, encode c = b :: bs := by
  unfold encode
  repeat' split
  all_goals exact ⟨_, _, rfl⟩

/-- The bytes of some characters. -/
def ofChars (cs : List Char) : Bytes := ofCodePoints (cs.map Char.toNat)

@[simp] theorem ofChars_nil : ofChars [] = [] := rfl

@[simp] theorem ofChars_cons (c : Char) (cs : List Char) :
    ofChars (c :: cs) = encode c.toNat ++ ofChars cs := rfl

/-- A text that starts with a character is that character and a rest. -/
theorem runes_encode (c : Char) (rest : Bytes) :
    runes (encode c.toNat ++ rest) = (c.toNat, encode c.toNat) :: runes rest := by
  obtain ⟨b, bs, hbytes⟩ := encode_ne_nil c.toNat
  have hdecode := decode_encode c rest
  rw [hbytes, List.cons_append] at hdecode
  rw [hbytes, List.cons_append, runes]
  simp only [hdecode]
  rw [← List.cons_append, List.take_left, List.drop_left]

theorem codePoints_ofChars (cs : List Char) : codePoints (ofChars cs) = cs.map Char.toNat := by
  induction cs with
  | nil => simp [codePoints, runes]
  | cons c cs ih =>
    rw [ofChars_cons, codePoints, runes_encode, List.map_cons, List.map_cons, ← ih]
    rfl

theorem le_of_mem_encode {c : Char} {b : UInt8} (hc : 0x80 ≤ c.toNat) (h : b ∈ encode c.toNat) :
    0x80 ≤ b.toNat := by
  rcases (sequence_encode c).ascii_or_high with ⟨a, -, hn, ha⟩ | hhigh
  · omega
  · exact hhigh b h

/-- An ASCII byte stands for itself and is part of no other character. -/
theorem eq_of_mem_encode {c : Char} {b : UInt8} (h : b ∈ encode c.toNat) (hb : b.toNat < 0x80) :
    encode c.toNat = [b] ∧ c.toNat = b.toNat := by
  rcases (sequence_encode c).ascii_or_high with ⟨a, hone, hn, -⟩ | hhigh
  · rw [hone, List.mem_singleton] at h
    rw [h]
    exact ⟨hone, hn⟩
  · have hle := hhigh b h
    omega

/-- An ASCII byte in the bytes of some characters is one of the characters. -/
theorem ofChars_split {cs : List Char} {as bs : Bytes} {b : UInt8} (hb : b.toNat < 0x80)
    (h : ofChars cs = as ++ b :: bs) :
    ∃ xs d ys, cs = xs ++ d :: ys ∧ d.toNat = b.toNat ∧ ofChars xs = as ∧ ofChars ys = bs := by
  induction cs generalizing as with
  | nil => simp at h
  | cons c cs ih =>
    rw [ofChars_cons] at h
    rcases List.append_eq_append_iff.mp h with ⟨more, has, hmore⟩ | ⟨more, hbytes, hmore⟩
    · obtain ⟨xs, d, ys, rfl, hd, hxs, hys⟩ := ih hmore
      exact ⟨c :: xs, d, ys, rfl, hd, by rw [ofChars_cons, hxs, has], hys⟩
    · cases more with
      | nil =>
        -- the byte is the first one behind `c`
        rw [List.append_nil] at hbytes
        have hnext : ofChars cs = [] ++ b :: bs := hmore.symm
        obtain ⟨xs, d, ys, rfl, hd, hxs, hys⟩ := ih hnext
        exact ⟨c :: xs, d, ys, rfl, hd, by rw [ofChars_cons, hxs, hbytes, List.append_nil], hys⟩
      | cons b' more =>
        simp only [List.cons_append, List.cons.injEq] at hmore
        obtain ⟨rfl, hbs⟩ := hmore
        obtain ⟨hone, hc⟩ := eq_of_mem_encode (b := b) (by rw [hbytes]; simp) hb
        rw [hone] at hbytes
        have hlength := congrArg List.length hbytes
        simp only [List.length_append, List.length_cons, List.length_nil] at hlength
        have has : as = [] := List.length_eq_zero_iff.mp (by omega)
        have hnil : more = [] := List.length_eq_zero_iff.mp (by omega)
        refine ⟨[], c, cs, rfl, hc, has.symm, ?_⟩
        rw [hbs, hnil, List.nil_append]

end Utf8

/-! ### Texts -/

/-- The bytes of some characters. -/
def IsText (bs : Bytes) : Prop := ∃ cs, bs = Utf8.ofChars cs

theorem IsText.split {as bs : Bytes} {b : UInt8} (hb : b.toNat < 0x80)
    (h : IsText (as ++ b :: bs)) : IsText as ∧ IsText bs := by
  obtain ⟨cs, hcs⟩ := h
  obtain ⟨xs, -, ys, -, -, hxs, hys⟩ := Utf8.ofChars_split hb hcs.symm
  exact ⟨⟨xs, hxs.symm⟩, ⟨ys, hys.symm⟩⟩

theorem Utf16.exists_chars {us : List Nat} (hus : ∀ u ∈ us, u < 0x10000) :
    ∃ cs : List Char, Utf16.decode us = cs.map Char.toNat := by
  have hchar {n : Nat} (hn : n < 0xD800 ∨ 0xDFFF < n ∧ n < 0x110000) : ∃ c : Char, c.toNat = n :=
    ⟨Char.ofNatAux n hn, rfl⟩
  have hsingle {u : Nat} (hu : u < 0x10000) :
      ∃ c : Char, c.toNat = if isHigh u || isLow u then Utf8.replacement else u := by
    split
    · exact hchar (.inr (by decide))
    · rename_i h
      simp only [isHigh, isLow, Bool.or_eq_true, Bool.and_eq_true, decide_eq_true_eq] at h
      exact hchar (by omega)
  fun_induction Utf16.decode us with
  | case1 => exact ⟨[], rfl⟩
  | case2 u =>
    obtain ⟨c, hc⟩ := hsingle (hus u (by simp))
    exact ⟨[c], by simp [hc]⟩
  | case3 u v rest hpair ih =>
    obtain ⟨cs, hcs⟩ := ih fun w hw => hus w (by simp [hw])
    simp only [isHigh, isLow, Bool.and_eq_true, decide_eq_true_eq] at hpair
    obtain ⟨c, hc⟩ := hchar (n := (u - 0xD800) * 0x400 + (v - 0xDC00) + 0x10000) (by omega)
    exact ⟨c :: cs, by simp [hc, hcs]⟩
  | case4 u v rest hpair ih =>
    obtain ⟨cs, hcs⟩ := ih fun w hw => hus w (List.mem_cons_of_mem _ hw)
    obtain ⟨c, hc⟩ := hsingle (hus u (by simp))
    exact ⟨c :: cs, by simp [hc, hcs]⟩

theorem ModifiedUtf8.units_lt (bs : Bytes) : ∀ u ∈ ModifiedUtf8.units bs, u < 0x10000 := by
  have hbyte (b : UInt8) : b.toNat < 256 := b.toNat_lt
  have hreplacement : Utf8.replacement < 0x10000 := by decide
  fun_induction ModifiedUtf8.units bs with
  | case1 => simp
  | case2 c =>
    have := hbyte c
    simp only [List.mem_singleton, forall_eq]
    split <;> omega
  | case3 c d h ih => simpa using ⟨by omega, ih⟩
  | case4 c d h h' =>
    have := hbyte c
    have := hbyte d
    simp only [List.mem_singleton, forall_eq]
    omega
  | case5 c d h h' ih => simpa [hreplacement] using ih
  | case6 c d e rest h ih => simpa using ⟨by omega, ih⟩
  | case7 c d e rest h h' ih =>
    have := hbyte d
    simpa using ⟨by omega, ih⟩
  | case8 c d e rest h h' h'' ih =>
    have := hbyte d
    simpa using ⟨by omega, ih⟩
  | case9 c d e rest h h' h'' ih => simpa [hreplacement] using ih

theorem ModifiedUtf8.isText_decode (bs : Bytes) : IsText (ModifiedUtf8.decode bs) := by
  obtain ⟨cs, hcs⟩ := Utf16.exists_chars (ModifiedUtf8.units_lt bs)
  exact ⟨cs, by rw [ModifiedUtf8.decode, hcs, Utf8.ofChars]⟩

/-! ### Class files -/

/-- Every text of the pool was decoded. -/
def Pool.Decoded (p : Pool) : Prop := ∀ e ∈ p.texts, IsText e.2

namespace Pool

theorem Decoded.text {p : Pool} (hp : p.Decoded) {i : Nat} {t : Bytes} (h : p.text i = .ok t) :
    IsText t := by
  unfold Pool.text at h
  split at h
  · rename_i found hfound
    cases h
    obtain ⟨before, after, htexts, -⟩ := List.lookup_eq_some_iff.mp hfound
    exact hp (i.toUInt16, t) (by rw [htexts]; simp)
  · cases h

theorem readEntry_decoded {p p' : Pool} {slot last : UInt16} {bs rest : Bytes} (hp : p.Decoded)
    (h : readEntry p slot bs = .ok ((p', last), rest)) : p'.Decoded := by
  obtain ⟨tag, mid, -, h⟩ := read_bind_ok h
  split at h
  · obtain ⟨length, mid, -, h⟩ := read_bind_ok h
    obtain ⟨text, mid, -, h⟩ := read_bind_ok h
    cases h
    intro e he
    rcases List.mem_cons.mp he with rfl | he
    · exact ModifiedUtf8.isText_decode text
    · exact hp e he
  · obtain ⟨name, mid, -, h⟩ := read_bind_ok h
    cases h
    exact hp
  · cases hsize : skippedSize? tag with
    | none =>
      simp only [hsize] at h
      cases h
    | some n =>
      simp only [hsize] at h
      obtain ⟨_, mid, -, h⟩ := read_bind_ok h
      cases h
      exact hp

theorem readEntries_decoded {count fuel : Nat} {p p' : Pool} {slot : UInt16} {bs rest : Bytes}
    (hp : p.Decoded) (h : readEntries count fuel p slot bs = .ok (p', rest)) : p'.Decoded := by
  induction fuel generalizing p slot bs with
  | zero =>
    cases h
    exact hp
  | succ fuel ih =>
    rw [readEntries] at h
    split at h
    · obtain ⟨⟨next, last⟩, mid, hentry, h⟩ := read_bind_ok h
      exact ih (readEntry_decoded hp hentry) h
    · cases h
      exact hp

theorem read_decoded {p : Pool} {bs rest : Bytes} (h : Pool.read bs = .ok (p, rest)) :
    p.Decoded := by
  obtain ⟨count, mid, -, h⟩ := read_bind_ok h
  obtain ⟨left, mid, -, h⟩ := read_bind_ok h
  exact readEntries_decoded (by simp [Decoded]) h

end Pool

/-- Name and descriptor of a method are texts. -/
def ClassMethod.Decoded (m : ClassMethod) : Prop := IsText m.name ∧ IsText m.descriptor

namespace ClassFile

theorem readMethod_decoded {p : Pool} (hp : p.Decoded) {i : Nat} {bs rest : Bytes} {m : ClassMethod}
    (h : readMethod p i bs = .ok (m, rest)) : m.Decoded := by
  obtain ⟨⟨flags, name, desc⟩, mid, -, h⟩ := read_bind_ok h
  cases hname : p.text name with
  | error e =>
    simp only [hname] at h
    cases h
  | ok t =>
    cases hdesc : p.text desc with
    | error e =>
      simp only [hname, hdesc] at h
      cases h
    | ok u =>
      simp only [hname, hdesc] at h
      cases h
      exact ⟨hp.text hname, hp.text hdesc⟩

theorem readMethods_decoded {p : Pool} (hp : p.Decoded) {i n : Nat} {bs rest : Bytes}
    {ms : List ClassMethod} (h : readMethods p i n bs = .ok (ms, rest)) :
    ∀ m ∈ ms, m.Decoded := by
  induction n generalizing i bs ms with
  | zero =>
    cases h
    simp
  | succ n ih =>
    obtain ⟨m, mid, hm, h⟩ := read_bind_ok h
    obtain ⟨more, mid, hmore, h⟩ := read_bind_ok h
    cases h
    intro x hx
    rcases List.mem_cons.mp hx with rfl | hx
    · exact readMethod_decoded hp hm
    · exact ih hmore x hx

theorem readHead_decoded {bs rest : Bytes} {p : Pool} {c : ClassFile}
    (h : readHead bs = .ok ((p, c), rest)) : p.Decoded := by
  obtain ⟨magic, mid, -, h⟩ := read_bind_ok h
  split at h
  · cases h
  obtain ⟨minor, mid, -, h⟩ := read_bind_ok h
  obtain ⟨major, mid, -, h⟩ := read_bind_ok h
  obtain ⟨pool, mid, hpool, h⟩ := read_bind_ok h
  obtain ⟨header, mid, -, h⟩ := read_bind_ok h
  obtain ⟨name, mid, -, h⟩ := read_bind_ok h
  obtain ⟨super, mid, -, h⟩ := read_bind_ok h
  obtain ⟨_, mid, -, h⟩ := read_bind_ok h
  cases h
  exact Pool.read_decoded hpool

/-- **What a class file names is text**, whatever bytes it stores. -/
theorem parse_decoded {file : Bytes} {c : ClassFile} (h : ClassFile.parse file = .ok c) :
    ∀ m ∈ c.methods, m.Decoded := by
  obtain ⟨rest, hread⟩ := parse_eq_ok h
  obtain ⟨⟨p, head⟩, mid, hhead, hread⟩ := read_bind_ok hread
  obtain ⟨ms, mid, htable, hread⟩ := read_bind_ok hread
  cases hread
  obtain ⟨count, mid, -, htable⟩ := read_bind_ok htable
  exact readMethods_decoded (readHead_decoded hhead) htable

end ClassFile
end BridgeCall
