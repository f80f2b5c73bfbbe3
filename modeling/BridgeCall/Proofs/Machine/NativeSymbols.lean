/-
  BridgeCall/Proofs/Machine/NativeSymbols.lean
  ============================================
  **No two native methods share a symbol.**  The symbols of a class start alike,
  and what follows the name of the class reads back as the name of the method up
  to the first slash: a name has none, and the two underscores before the
  argument types read as one.  So equal symbols have equal names.  Natives with
  equal names are overloaded, both symbols are long, and the argument types read
  back from what is left (`ClassFile.symbols_nodup`).
-/
import BridgeCall.Proofs.Expr.Names
import BridgeCall.Proofs.Machine.DescriptorExactness
import BridgeCall.Proofs.Machine.SymbolDecoding
import Mathlib.Data.FinEnum

namespace BridgeCall

/-! ### Class names -/

/-- A class name with parts between slashes, of letters, digits, underscores and dollar signs, that do
    not start with a digit from 0 to 3. Beyond ASCII every character counts as a letter. -/
def IsSegmented (name : Bytes) : Prop :=
  ∀ part ∈ Bytes.splitOn 0x2f name,
    (∀ b ∈ part, Lexer.isNameByte b = true ∨ b = 0x24) ∧ ∀ b ∈ part.head?, Symbol.isMark b = false

instance (name : Bytes) : Decidable (IsSegmented name) :=
  inferInstanceAs (Decidable (∀ part ∈ Bytes.splitOn 0x2f name,
    (∀ b ∈ part, Lexer.isNameByte b = true ∨ b = 0x24) ∧ ∀ b ∈ part.head?, Symbol.isMark b = false))

theorem splitOn_cons (sep c : UInt8) (cs : Bytes) :
    ∃ part parts, Bytes.splitOn sep cs = part :: parts ∧
      Bytes.splitOn sep (c :: cs) =
        if c = sep then [] :: part :: parts else (c :: part) :: parts := by
  have hne : ∀ bs : Bytes, Bytes.splitOn sep bs ≠ [] := by
    intro bs
    cases bs with
    | nil => simp [Bytes.splitOn]
    | cons d ds =>
      rw [Bytes.splitOn]
      split
      · simp
      · split <;> simp
  obtain ⟨part, parts, hparts⟩ := List.exists_cons_of_ne_nil (hne cs)
  refine ⟨part, parts, hparts, ?_⟩
  rw [Bytes.splitOn, hparts]

theorem mem_splitOn {sep b : UInt8} {bs : Bytes} (h : b ∈ bs) :
    b = sep ∨ ∃ part ∈ Bytes.splitOn sep bs, b ∈ part := by
  induction bs with
  | nil => cases h
  | cons c cs ih =>
    obtain ⟨part, parts, hparts, hcons⟩ := splitOn_cons sep c cs
    rw [hparts] at ih
    rw [hcons]
    split
    · rename_i hc
      rcases List.mem_cons.mp h with rfl | h
      · exact .inl hc
      · rcases ih h with heq | ⟨found, hfound, hb⟩
        · exact .inl heq
        · exact .inr ⟨found, List.mem_cons_of_mem _ hfound, hb⟩
    · rcases List.mem_cons.mp h with rfl | h
      · exact .inr ⟨b :: part, by simp, by simp⟩
      · rcases ih h with heq | ⟨found, hfound, hb⟩
        · exact .inl heq
        · rcases List.mem_cons.mp hfound with rfl | hfound
          · exact .inr ⟨c :: found, by simp, by simp [hb]⟩
          · exact .inr ⟨found, by simp [hfound], hb⟩

/-- A text does not start with a mark if its first part does not. -/
theorem head_splitOn {bs part : Bytes} {parts : List Bytes}
    (hparts : Bytes.splitOn 0x2f bs = part :: parts)
    (h : ∀ b ∈ part.head?, Symbol.isMark b = false) :
    ∀ b ∈ bs.head?, Symbol.isMark b = false := by
  cases bs with
  | nil => simp
  | cons c cs =>
    intro b hb
    cases hb
    obtain ⟨part', parts', -, hcons⟩ := splitOn_cons 0x2f c cs
    rw [hparts] at hcons
    split at hcons
    · rename_i hc
      rw [hc]
      decide
    · simp only [List.cons.injEq] at hcons
      exact h c (by simp [hcons.1])

/-- Only the parts behind a slash matter: the first part may start with anything. -/
theorem spaced_of_splitOn {bs : Bytes}
    (h : ∀ part ∈ (Bytes.splitOn 0x2f bs).tail, ∀ b ∈ part.head?, Symbol.isMark b = false) :
    Symbol.Spaced bs := by
  induction bs with
  | nil => exact .nil
  | cons c cs ih =>
    obtain ⟨part, parts, hparts, hcons⟩ := splitOn_cons 0x2f c cs
    rw [hparts, List.tail_cons] at ih
    rw [hcons] at h
    split at h
    · rw [List.tail_cons] at h
      have htail := ih fun p hp => h p (List.mem_cons_of_mem _ hp)
      have hhead := head_splitOn hparts (h part (by simp))
      exact List.isChain_cons.mpr ⟨fun b hb _ => hhead b hb, htail⟩
    · rename_i hc
      rw [List.tail_cons] at h
      exact List.isChain_cons.mpr ⟨fun b _ heq => absurd heq hc, ih h⟩

theorem IsSegmented.spaced {name : Bytes} (h : IsSegmented name) : Symbol.Spaced name :=
  spaced_of_splitOn fun part hpart => (h part (List.mem_of_mem_tail hpart)).2

theorem IsSegmented.mem {name : Bytes} (h : IsSegmented name) {b : UInt8} (hb : b ∈ name) :
    b = 0x2f ∨ b = 0x24 ∨ Lexer.isNameByte b = true := by
  have hcases : b = 0x2f ∨ ∃ part ∈ Bytes.splitOn 0x2f name, b ∈ part := mem_splitOn hb
  rcases hcases with heq | ⟨part, hpart, hmem⟩
  · exact .inl heq
  · rcases (h part hpart).1 b hmem with hname | heq
    · exact .inr (.inr hname)
    · exact .inr (.inl heq)

/-! ### Argument types -/

namespace FieldType

/-- The class that the type names, if any, has a name in segments. -/
def Segmented (f : FieldType) : Prop := ∀ name, f.base = .cls name → IsSegmented name

instance (f : FieldType) : Decidable f.Segmented :=
  match f with
  | ⟨.primitive _, _⟩ => isTrue nofun
  | ⟨.cls name, _⟩ =>
    decidable_of_iff (IsSegmented name) ⟨by rintro h _ ⟨⟩; exact h, fun h => h name rfl⟩

theorem mem_encode {f : FieldType} (hf : f.Segmented) {b : UInt8} (hb : b ∈ f.encode) :
    b ≠ 0x2e ∧ b ≠ 0x29 := by
  obtain ⟨base, depth⟩ := f
  simp only [encode, List.mem_append, List.mem_replicate] at hb
  rcases hb with ⟨-, rfl⟩ | hb
  · decide
  cases base with
  | primitive p =>
    rw [List.mem_singleton] at hb
    rw [hb]
    cases p <;> decide
  | cls name =>
    simp only [List.cons_append, List.mem_cons, List.mem_append, List.not_mem_nil, or_false] at hb
    rcases hb with rfl | hb | rfl
    · decide
    · rcases (hf name rfl).mem hb with rfl | rfl | hname
      · decide
      · decide
      · constructor
        · rintro rfl
          exact absurd hname (by decide)
        · rintro rfl
          exact absurd hname (by decide)
    · decide

/-- A type does not end in a slash, so that another can follow it. -/
theorem spaced_encode {f : FieldType} (hf : f.Segmented) :
    Symbol.Spaced f.encode ∧ ∀ b ∈ f.encode.getLast?, b ≠ 0x2f := by
  obtain ⟨base, depth⟩ := f
  have hmarks : 0x2f ∉ List.replicate depth (0x5b : UInt8) := by
    intro h
    exact absurd (List.eq_of_mem_replicate h) (by decide)
  have hlast : ∀ b ∈ (List.replicate depth (0x5b : UInt8)).getLast?, b ≠ 0x2f := by
    rintro b hb rfl
    exact hmarks (List.mem_of_getLast? hb)
  cases base with
  | primitive p =>
    have hletter : p.letter ≠ 0x2f := by cases p <;> decide
    rw [encode]
    constructor
    · refine (Symbol.spaced_of_not_mem hmarks).append ?_ (.inl hlast)
      exact Symbol.spaced_of_not_mem (by simpa [eq_comm] using hletter)
    · simpa using hletter
  | cls name =>
    have hname : Symbol.Spaced (name ++ [0x3b]) := by
      refine (hf name rfl).spaced.append (.singleton _) (.inr ?_)
      intro b hb
      cases hb
      decide
    have hclass : Symbol.Spaced ([0x4c] ++ (name ++ [0x3b])) := by
      refine Symbol.Spaced.append (.singleton _) hname (.inl ?_)
      intro b hb
      cases hb
      decide
    rw [encode_class]
    constructor
    · exact (Symbol.spaced_of_not_mem hmarks).append hclass (.inl hlast)
    · intro b hb
      rw [← List.append_assoc, List.getLast?_concat] at hb
      cases hb
      decide

end FieldType

/-- The argument types of a method, as its descriptor spells them. -/
def MethodType.arguments (t : MethodType) : Bytes := t.params.flatMap FieldType.encode

namespace MethodType

theorem encode_eq (t : MethodType) : t.encode = 0x28 :: (t.arguments ++ 0x29 :: t.ret.encode) := rfl

theorem mem_arguments {t : MethodType} (ht : ∀ f ∈ t.params, f.Segmented) {b : UInt8}
    (hb : b ∈ t.arguments) : b ≠ 0x2e ∧ b ≠ 0x29 := by
  obtain ⟨f, hf, hmem⟩ := List.mem_flatMap.mp hb
  exact FieldType.mem_encode (ht f hf) hmem

theorem spaced_arguments {t : MethodType} (ht : ∀ f ∈ t.params, f.Segmented) :
    Symbol.Spaced t.arguments := by
  obtain ⟨params, ret⟩ := t
  induction params with
  | nil => exact .nil
  | cons f fs ih =>
    obtain ⟨hspaced, hlast⟩ := FieldType.spaced_encode (ht f (by simp))
    have hrest : Symbol.Spaced (fs.flatMap FieldType.encode) :=
      ih fun g hg => ht g (List.mem_cons_of_mem _ hg)
    exact hspaced.append hrest (.inl hlast)

theorem argumentPart_encode {t : MethodType} (ht : ∀ f ∈ t.params, f.Segmented) :
    Symbol.argumentPart t.encode = t.arguments := by
  have hall : ∀ b ∈ t.arguments, decide (b ≠ 0x29) = true := by
    intro b hb
    simpa using (mem_arguments ht hb).2
  have hend : (t.arguments ++ 0x29 :: t.ret.encode).contains 0x29 = true := by simp
  rw [encode_eq, Symbol.argumentPart, if_pos hend, List.takeWhile_append_of_pos hall]
  simp

end MethodType

/-! ### Symbols of a class -/

namespace ClassFile

/-- What a class promises about its native methods. `type` gives the types that the descriptor of a
    method spells. -/
structure Promises (c : ClassFile) (type : ClassMethod → MethodType) : Prop where
  descriptor : ∀ m ∈ c.natives, m.descriptor = (type m).encode
  classes : ∀ m ∈ c.natives, ∀ f ∈ (type m).params, f.Segmented
  name : ∀ m ∈ c.natives, m.name ≠ [] ∧ ∀ b ∈ m.name, b ∉ (".;[/" : Bytes)
  distinct : (c.natives.map fun m => (m.name, (type m).arguments)).Nodup

theorem isOverloaded_of_ne {c : ClassFile} {m n : ClassMethod} (hm : m ∈ c.natives)
    (hn : n ∈ c.natives) (hne : m ≠ n) (hname : m.name = n.name) :
    c.isOverloaded m.name = true := by
  have hm' : m ∈ c.natives.filter fun x => x.name = m.name := by simp [hm]
  have hn' : n ∈ c.natives.filter fun x => x.name = m.name := by simp [hn, hname]
  rw [isOverloaded, decide_eq_true_eq]
  generalize c.natives.filter (fun x => x.name = m.name) = found at hm' hn'
  match found, hm', hn' with
  | [x], hm', hn' =>
    rw [List.mem_singleton] at hm' hn'
    exact absurd (hm'.trans hn'.symm) hne
  | _ :: _ :: _, _, _ => simp

/-- What follows the name of the class in a symbol. -/
def symbolTail (c : ClassFile) (m : ClassMethod) : Bytes :=
  Symbol.mangle m.name ++
    if c.isOverloaded m.name then ("__" : Bytes) ++ Symbol.mangle (Symbol.argumentPart m.descriptor)
    else []

theorem symbol_eq (c : ClassFile) (m : ClassMethod) :
    c.symbol m = ("Java_" : Bytes) ++ Symbol.mangle c.name ++ ("_" : Bytes) ++ c.symbolTail m := by
  unfold symbol symbolTail
  split
  · simp [Symbol.ofOverloaded, Symbol.ofNative]
  · simp [Symbol.ofNative]

variable {c : ClassFile} {type : ClassMethod → MethodType} {m n : ClassMethod}

/-- The name of a method reads back from its symbol. -/
theorem Promises.takeWhile_symbolTail (hc : c.Promises type) (hm : m ∈ c.natives) {cs : List Char}
    (hcs : m.name = Utf8.ofChars cs) :
    (Symbol.units (c.symbolTail m)).takeWhile (· ≠ 0x2f) =
      cs.flatMap fun c => Utf16.encode c.toNat := by
  have hplain : ∀ d ∈ cs, Symbol.isSeparator d = false := by
    intro d hd
    have hbytes := (hc.name m hm).2
    rw [hcs] at hbytes
    rw [Symbol.isSeparator, Bool.or_eq_false_iff, beq_eq_false_iff_ne, beq_eq_false_iff_ne]
    constructor
    · rintro rfl
      exact hbytes _ (Symbol.mem_ofChars hd (by decide)) (by decide)
    · rintro rfl
      exact hbytes _ (Symbol.mem_ofChars hd (by decide)) (by decide)
  rw [symbolTail, hcs, Symbol.mangle_ofChars]
  apply Symbol.takeWhile_units hplain
  split
  · exact .inr ⟨_, rfl⟩
  · exact .inl rfl

theorem Promises.name_eq (hc : c.Promises type) (hm : m ∈ c.natives) (hn : n ∈ c.natives)
    (hmtext : IsText m.name) (hntext : IsText n.name) (h : c.symbolTail m = c.symbolTail n) :
    m.name = n.name := by
  obtain ⟨cs, hcs⟩ := hmtext
  obtain ⟨ds, hds⟩ := hntext
  have hunits := hc.takeWhile_symbolTail hm hcs
  rw [h, hc.takeWhile_symbolTail hn hds] at hunits
  rw [hcs, hds, Symbol.eq_of_units hunits]

theorem Promises.isText_arguments (hc : c.Promises type) (hm : m ∈ c.natives)
    (htext : IsText m.descriptor) : IsText (type m).arguments := by
  rw [hc.descriptor m hm, MethodType.encode_eq, ← List.nil_append (0x28 :: _)] at htext
  have hopen : (0x28 : UInt8).toNat < 0x80 := by decide
  have hclose : (0x29 : UInt8).toNat < 0x80 := by decide
  exact (IsText.split hclose (IsText.split hopen htext).2).1

theorem Promises.symbol_ne (hc : c.Promises type) (hm : m ∈ c.natives) (hn : n ∈ c.natives)
    (hmtext : m.Decoded) (hntext : n.Decoded)
    (hne : (m.name, (type m).arguments) ≠ (n.name, (type n).arguments)) :
    c.symbol m ≠ c.symbol n := by
  intro h
  rw [symbol_eq, symbol_eq, List.append_cancel_left_eq] at h
  have hname : m.name = n.name := hc.name_eq hm hn hmtext.1 hntext.1 h
  have hmn : m ≠ n := by
    rintro rfl
    exact hne rfl
  have hlong : c.isOverloaded n.name = true := hname ▸ isOverloaded_of_ne hm hn hmn hname
  have hmangled : Symbol.mangle (type m).arguments = Symbol.mangle (type n).arguments := by
    rw [symbolTail, symbolTail, hname, if_pos hlong, if_pos hlong, List.append_cancel_left_eq,
      List.append_cancel_left_eq, hc.descriptor m hm, hc.descriptor n hn,
      MethodType.argumentPart_encode (hc.classes m hm),
      MethodType.argumentPart_encode (hc.classes n hn)] at h
    exact h
  have harguments : (type m).arguments = (type n).arguments := by
    apply Symbol.mangle_injective (hc.isText_arguments hm hmtext.2) (hc.isText_arguments hn hntext.2)
    · exact fun hdot => (MethodType.mem_arguments (hc.classes m hm) hdot).1 rfl
    · exact fun hdot => (MethodType.mem_arguments (hc.classes n hn) hdot).1 rfl
    · exact MethodType.spaced_arguments (hc.classes m hm)
    · exact MethodType.spaced_arguments (hc.classes n hn)
    · exact hmangled
  exact hne (by rw [hname, harguments])

/-- The native methods of a class that was read have different symbols, however many of them share a
    name. -/
theorem symbols_nodup {file : Bytes} (h : ClassFile.parse file = .ok c) (hc : c.Promises type) :
    (c.natives.map c.symbol).Nodup := by
  have htexts : ∀ m ∈ c.natives, m.Decoded := by
    intro m hm
    exact parse_decoded h m (List.mem_of_mem_filter hm)
  refine List.pairwise_map.mpr ((List.pairwise_map.mp hc.distinct).imp_of_mem ?_)
  intro m n hm hn hne
  exact hc.symbol_ne hm hn (htexts m hm) (htexts n hn) hne

theorem symbols_nodup_overloads :
    ClassImage.overloads.view.natives.length = 3 ∧
      (ClassImage.overloads.view.natives.map ClassImage.overloads.view.symbol).Nodup := by
  have hparse : ClassFile.parse ClassImage.overloads.encode = .ok ClassImage.overloads.view := by
    apply parse_of_read
    rw [← List.append_nil (ClassImage.encode _)]
    exact read_written _ []
  have hpromises : ClassImage.overloads.view.Promises fun m =>
      (MethodType.parse m.descriptor).toOption.getD ⟨[], ⟨.primitive .void, 0⟩⟩ := by
    constructor
    · decide +kernel
    · decide +kernel
    · decide +kernel
    · decide +kernel
  exact ⟨by decide, symbols_nodup hparse hpromises⟩

end ClassFile
end BridgeCall
