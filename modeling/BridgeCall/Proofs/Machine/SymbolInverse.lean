/-
  BridgeCall/Proofs/Machine/SymbolInverse.lean
  ============================================
  **Which names a symbol can stand for.**  A symbol is made of ASCII letters, digits
  and underscores, whatever bytes the name has (`Symbol.isSymbolByte_mangle`).  A
  text without a digit from 0 to 3 behind a separator reads back from its symbol,
  so that two of them share a symbol only if they differ in how their parts are
  separated.

  The symbol of a native method is that of the class and the method with a separator
  between them (`Symbol.ofNative_eq`).  The name of a method has no separator, so the
  last one of what reads back is this one, and both names can be told
  (`Symbol.mangle_decodable`).
-/
import BridgeCall.Proofs.Machine.SymbolDecoding
import Mathlib.Data.FinEnum

namespace BridgeCall.Symbol

/-! ### The characters of a symbol -/

/-- What a symbol is made of: ASCII letters, digits and underscores. -/
def isSymbolByte (b : UInt8) : Bool := Bytes.isWordStart b || Bytes.isDigit b

/-- By induction on the number: the last digit stands apart from the others. -/
theorem isSymbolByte_digits (n : Nat) : ∀ b ∈ Bytes.digits 16 n, isSymbolByte b = true := by
  have hdigit : ∀ d < 16, isSymbolByte (Bytes.hexByte d) = true := by decide
  induction n using Nat.strongRecOn with
  | ind n ih =>
    intro b hb
    rcases Nat.lt_or_ge n 16 with hn | hn
    · rw [Bytes.digits_of_lt hn, List.mem_singleton] at hb
      rw [hb]
      exact hdigit n hn
    · rw [Bytes.digits_of_le hn, List.mem_append, List.mem_singleton] at hb
      rcases hb with hb | rfl
      · exact ih (n / 16) (by omega) b hb
      · exact hdigit _ (Nat.mod_lt _ (by decide))

theorem isSymbolByte_escape (u : Nat) :
    ∀ b ∈ ("_0" : Bytes) ++ Bytes.hex 4 u, isSymbolByte b = true := by
  have hlead : ("_0" : Bytes) = [0x5f, 0x30] := by decide
  intro b hb
  rw [hlead, Bytes.hex, List.mem_append, List.mem_append] at hb
  rcases hb with hb | hb | hb
  · exact (by decide +kernel : ∀ b ∈ ([0x5f, 0x30] : Bytes), isSymbolByte b = true) b hb
  · rw [List.eq_of_mem_replicate hb]
    decide
  · exact isSymbolByte_digits u b hb

theorem isSymbolByte_mangleChar (n : Nat) : ∀ b ∈ mangleChar n, isSymbolByte b = true := by
  unfold mangleChar
  split
  · decide +kernel
  split
  · decide +kernel
  split
  · decide +kernel
  split
  · decide +kernel
  split
  · rename_i hword
    have hbyte : n.toUInt8.toNat = n := ModifiedUtf8.toNat_toUInt8 (by omega)
    intro b hb
    rw [List.mem_singleton] at hb
    simp only [isSymbolByte, Bytes.isWordStart, Bytes.isDigit, Bool.or_eq_true, Bool.and_eq_true,
      decide_eq_true_eq, UInt8.le_iff_toNat_le, hb, hbyte, UInt8.reduceToNat]
    omega
  · intro b hb
    obtain ⟨u, -, hu⟩ := List.mem_flatMap.mp hb
    exact isSymbolByte_escape u b hu

theorem isSymbolByte_mangle (name : Bytes) : ∀ b ∈ mangle name, isSymbolByte b = true := by
  intro b hb
  obtain ⟨n, -, hn⟩ := List.mem_flatMap.mp hb
  exact isSymbolByte_mangleChar n b hn

/-! ### Native methods -/

theorem eq_of_last_slash {as as' bs bs' : Bytes} (hbs : 0x2f ∉ bs) (hbs' : 0x2f ∉ bs')
    (h : as ++ 0x2f :: bs = as' ++ 0x2f :: bs') : as = as' ∧ bs = bs' := by
  rcases List.append_eq_append_iff.mp h with ⟨more, rfl, hmore⟩ | ⟨more, rfl, hmore⟩
  · cases more with
    | nil => simpa using hmore
    | cons b more =>
      simp only [List.cons_append, List.cons.injEq] at hmore
      exact absurd (by rw [hmore.2]; simp) hbs
  · cases more with
    | nil => simpa [eq_comm] using hmore
    | cons b more =>
      simp only [List.cons_append, List.cons.injEq] at hmore
      exact absurd (by rw [hmore.2]; simp) hbs'

theorem mangle_append {as bs : Bytes} (has : IsText as) (hbs : IsText bs) :
    mangle (as ++ bs) = mangle as ++ mangle bs := by
  obtain ⟨cs, rfl⟩ := has
  obtain ⟨ds, rfl⟩ := hbs
  have hjoin : Utf8.ofChars cs ++ Utf8.ofChars ds = Utf8.ofChars (cs ++ ds) := by
    simp [Utf8.ofChars, Utf8.ofCodePoints]
  rw [hjoin, mangle_ofChars, mangle_ofChars, mangle_ofChars, mangleChars, mangleChars, mangleChars,
    List.flatMap_append]

/-- The name of a class with its package, which may be empty. -/
def qualified (pkg cls : Bytes) : Bytes := if pkg.isEmpty then cls else pkg ++ "." ++ cls

/-- A native method whose names read back from its symbol: both are texts, no separator of the class
    has a digit from 0 to 3 behind it, and the method has no separator and does not start with such a
    digit. -/
structure Exportable (pkg cls fn : Bytes) : Prop where
  class_text : IsText (qualified pkg cls)
  class_readable : Readable (qualified pkg cls)
  method_text : IsText fn
  method_plain : 0x2e ∉ fn ∧ 0x2f ∉ fn
  method_head : ∀ b ∈ fn.head?, isMark b = false

namespace Exportable

variable {pkg cls fn pkg' cls' fn' : Bytes}

theorem isText_method (h : Exportable pkg cls fn) : IsText (0x2f :: fn) := by
  obtain ⟨cs, hcs⟩ := h.method_text
  refine ⟨'/' :: cs, ?_⟩
  rw [Utf8.ofChars_cons, ← hcs]
  rfl

/-- The symbol of a native method is that of both names with a slash between them. -/
theorem ofNative_eq (h : Exportable pkg cls fn) :
    ofNative pkg cls fn = ("Java_" : Bytes) ++ mangle (qualified pkg cls ++ 0x2f :: fn) := by
  have hslash : mangle [0x2f] = ("_" : Bytes) := by decide +kernel
  have hmethod : mangle (0x2f :: fn) = ("_" : Bytes) ++ mangle fn := by
    have hsep : IsText [0x2f] := ⟨['/'], by decide⟩
    rw [← List.singleton_append, mangle_append hsep h.method_text, hslash]
  rw [mangle_append h.class_text h.isText_method, hmethod, ← List.append_assoc, ← List.append_assoc]
  rfl

theorem isText (h : Exportable pkg cls fn) : IsText (qualified pkg cls ++ 0x2f :: fn) := by
  obtain ⟨cs, hcs⟩ := h.class_text
  obtain ⟨ds, hds⟩ := h.isText_method
  refine ⟨cs ++ ds, ?_⟩
  rw [hcs, hds]
  simp [Utf8.ofChars, Utf8.ofCodePoints]

theorem readable (h : Exportable pkg cls fn) : Readable (qualified pkg cls ++ 0x2f :: fn) := by
  have hplain : Readable fn := by
    apply List.Pairwise.isChain
    apply List.pairwise_of_forall_mem_list
    rintro a ha b - (rfl | rfl)
    · exact absurd ha h.method_plain.1
    · exact absurd ha h.method_plain.2
  have hmethod : Readable (0x2f :: fn) :=
    List.isChain_cons.mpr ⟨fun b hb _ => h.method_head b hb, hplain⟩
  refine List.isChain_append.mpr ⟨h.class_readable, hmethod, ?_⟩
  intro a _ b hb _
  cases hb
  decide

/-- Both names read back, with a slash between them. -/
theorem unmangle_ofNative (h : Exportable pkg cls fn) :
    unmangle ((ofNative pkg cls fn).drop 5) = sourceToInternal (qualified pkg cls) ++ 0x2f :: fn := by
  have hlead : ("Java_" : Bytes).length = 5 := by decide +kernel
  have hmethod : sourceToInternal fn = fn :=
    Bytes.replaceByte_of_ne fun b hb heq => h.method_plain.1 (heq ▸ hb)
  rw [h.ofNative_eq, ← hlead, List.drop_left, unmangle_mangle h.isText h.readable]
  conv_rhs => rw [← hmethod]
  simp [sourceToInternal, Bytes.replaceByte]

/-- Equal symbols have equal names, their dots read as slashes: the last slash is the one before the
    method. -/
theorem names_eq (h : Exportable pkg cls fn) (h' : Exportable pkg' cls' fn')
    (heq : ofNative pkg cls fn = ofNative pkg' cls' fn') :
    sourceToInternal (qualified pkg cls) = sourceToInternal (qualified pkg' cls') ∧ fn = fn' := by
  have hread : unmangle ((ofNative pkg cls fn).drop 5) = unmangle ((ofNative pkg' cls' fn').drop 5) := by
    rw [heq]
  rw [h.unmangle_ofNative, h'.unmangle_ofNative] at hread
  exact eq_of_last_slash h.method_plain.2 h'.method_plain.2 hread

end Exportable

/-- **Symbols can be decoded uniquely.** A symbol has nothing but ASCII letters, digits and underscores,
    whatever the name is. A text without a digit from 0 to 3 behind a separator reads back from its
    symbol, its dots as slashes, so that two of them with one symbol differ in nothing else. And the
    symbol of a native method tells its class, dots as slashes, and its name. -/
theorem mangle_decodable :
    (∀ name, ∀ b ∈ mangle name, isSymbolByte b = true)
    ∧ (∀ name, IsText name → Readable name → unmangle (mangle name) = sourceToInternal name)
    ∧ (∀ a b, IsText a → IsText b → Readable a → Readable b → mangle a = mangle b →
      sourceToInternal a = sourceToInternal b)
    ∧ ∀ pkg cls fn pkg' cls' fn', Exportable pkg cls fn → Exportable pkg' cls' fn' →
      ofNative pkg cls fn = ofNative pkg' cls' fn' →
      sourceToInternal (qualified pkg cls) = sourceToInternal (qualified pkg' cls') ∧ fn = fn' := by
  refine ⟨isSymbolByte_mangle, fun _ => unmangle_mangle, ?_, fun _ _ _ _ _ _ => Exportable.names_eq⟩
  intro a b ha hb hra hrb heq
  rw [← unmangle_mangle ha hra, ← unmangle_mangle hb hrb, heq]

/-- A class in a package and the same class with the package in its name, both with an accent and a
    character beyond the first plane. -/
theorem mangle_decodable_accented :
    Exportable "me.é" "A_𝄞" "draw_1" ∧ Exportable "" "me/é/A_𝄞" "draw_1"
    ∧ ofNative "me.é" "A_𝄞" "draw_1" = ofNative "" "me/é/A_𝄞" "draw_1"
    ∧ unmangle (mangle "me.é.A_𝄞") = "me/é/A_𝄞"
    ∧ sourceToInternal (qualified "me.é" "A_𝄞") = sourceToInternal (qualified "" "me/é/A_𝄞") := by
  obtain ⟨-, hread, -, hnames⟩ := mangle_decodable
  have hdotted : Exportable "me.é" "A_𝄞" "draw_1" :=
    ⟨⟨"me.é.A_𝄞".toList, by decide +kernel⟩, by decide +kernel, ⟨"draw_1".toList, by decide +kernel⟩,
      by decide +kernel, by decide +kernel⟩
  have hslashed : Exportable "" "me/é/A_𝄞" "draw_1" :=
    ⟨⟨"me/é/A_𝄞".toList, by decide +kernel⟩, by decide +kernel, ⟨"draw_1".toList, by decide +kernel⟩,
      by decide +kernel, by decide +kernel⟩
  have hsymbol : ofNative "me.é" "A_𝄞" "draw_1" = ofNative "" "me/é/A_𝄞" "draw_1" := by decide +kernel
  have hunmangled := hread "me.é.A_𝄞" ⟨"me.é.A_𝄞".toList, by decide +kernel⟩ (by decide +kernel)
  refine ⟨hdotted, hslashed, hsymbol, ?_, (hnames _ _ _ _ _ _ hdotted hslashed hsymbol).1⟩
  rw [hunmangled]
  decide +kernel

/-- A digit behind a separator is taken for a part of an escape. -/
example : mangle "a/1" = mangle "a_" := by decide +kernel

end BridgeCall.Symbol
