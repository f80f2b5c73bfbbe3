/-
  BridgeCall/Proofs/Machine/DescriptorExactness.lean
  ==================================================
  **Descriptors are read exactly.**  The reader of descriptors accepts what
  `encode` writes and nothing else.  One half is `MethodType.parse_encode`; this
  module has the other: whatever was read is written as the text that was
  consumed (`FieldType.readFrom_sound`, `MethodType.readParams_sound`).  Both
  together make `encode` and `parse` inverse to each other on the types that a
  descriptor can describe.
-/
import BridgeCall.Proofs.Machine.Signature
import Mathlib.Data.List.TakeWhile

namespace BridgeCall

/-- A composed reading gives a result exactly when both of its parts do. -/
theorem Except.bind_eq_ok {ε α β : Type} {x : Except ε α} {f : α → Except ε β} {r : β} :
    (x >>= f) = .ok r ↔ ∃ a, x = .ok a ∧ f a = .ok r := by
  cases x with
  | error e => simp [bind, Except.bind]
  | ok a => simp [bind, Except.bind]

/-! ### Field types -/

namespace FieldType

/-- A type that a field or a parameter can have. -/
structure Describable (f : FieldType) : Prop where
  wellFormed : f.WellFormed
  notVoid : f.isVoid = false

theorem encode_class (name : Bytes) (depth : Nat) :
    encode ⟨.cls name, depth⟩ = List.replicate depth 0x5b ++ (0x4c :: name ++ [0x3b]) := rfl

/-- What was read, with the marks that were passed before, is the consumed text. The number of marks
    is the only thing that the reader carries along. -/
theorem readFrom_sound {depth offset : Nat} {bs rest : Bytes} {f : FieldType}
    (h : readFrom depth offset bs = .ok (f, rest)) :
    f.WellFormed ∧ List.replicate depth 0x5b ++ bs = f.encode ++ rest := by
  fun_induction readFrom depth offset bs with
  | case1 => cases h
  | case2 depth offset tail ih =>
    obtain ⟨hf, heq⟩ := ih h
    refine ⟨hf, ?_⟩
    rw [← heq, List.replicate_succ']
    simp
  | case3 depth offset b tail hb p hp =>
    cases h
    refine ⟨trivial, ?_⟩
    simp [encode, Primitive.ofLetter?_eq_some_iff.mp hp]
  | case4 => cases h
  | case5 => cases h
  | case6 => cases h
  | case7 depth offset b tail hb hp hclass name c after hafter hname =>
    obtain ⟨rfl, rfl⟩ : ⟨.cls name, depth⟩ = f ∧ after = rest := by simpa using h
    have hb : b = 0x4c := by simpa using hclass
    have hc : c = 0x3b := by
      have hhead := List.head?_dropWhile_not (fun b : UInt8 => decide (b ≠ 0x3b)) tail
      rw [hafter] at hhead
      simpa using hhead
    have htail : tail = name ++ c :: after := by
      rw [← hafter]
      exact (List.takeWhile_append_dropWhile (p := (· ≠ (0x3b : UInt8)))).symm
    constructor
    · refine ⟨by simpa using hname, ?_⟩
      intro hmem
      simpa using List.mem_takeWhile_imp hmem
    · rw [encode_class, htail, hb, hc]
      simp

theorem parse_eq_ok_iff {desc : Bytes} {f : FieldType} :
    FieldType.parse desc = .ok f ↔ f.Describable ∧ desc = f.encode := by
  constructor
  · intro h
    obtain ⟨⟨g, rest⟩, hread, h⟩ := Except.bind_eq_ok.mp h
    obtain ⟨hg, heq⟩ := readFrom_sound hread
    by_cases hvoid : g.isVoid = true
    · simp [hvoid] at h
    by_cases hrest : rest.isEmpty = true
    · simp only [hvoid, hrest] at h
      cases h
      refine ⟨⟨hg, by simpa using hvoid⟩, ?_⟩
      simpa [List.isEmpty_iff.mp hrest] using heq
    · simp [hvoid, hrest] at h
  · rintro ⟨hf, rfl⟩
    have hread := readFrom_encode hf.wellFormed 0 []
    rw [List.append_nil] at hread
    simp [FieldType.parse, hread, bind, Except.bind, hf.notVoid]

end FieldType

/-! ### Methods -/

namespace MethodType

/-- A method that a descriptor can describe: only what it returns may be void, and no array is an
    array of nothing. -/
structure Describable (m : MethodType) : Prop where
  params : ∀ f ∈ m.params, f.Describable
  ret : m.ret.WellFormed
  void : m.ret.isVoid = true → m.ret.depth = 0

theorem readParams_sound {total fuel : Nat} {bs rest : Bytes} {fs : List FieldType}
    (h : readParams total fuel bs = .ok (fs, rest)) :
    (∀ f ∈ fs, f.Describable) ∧ bs = fs.flatMap FieldType.encode ++ 0x29 :: rest := by
  induction fuel generalizing bs fs with
  | zero => cases h
  | succ fuel ih =>
    cases bs with
    | nil => cases h
    | cons b bs =>
      rw [readParams] at h
      by_cases hend : b = 0x29
      · rw [if_pos hend] at h
        cases h
        exact ⟨by simp, by simp [hend]⟩
      rw [if_neg hend] at h
      obtain ⟨⟨f, tail⟩, hread, h⟩ := Except.bind_eq_ok.mp h
      obtain ⟨hf, heq⟩ := FieldType.readFrom_sound hread
      by_cases hvoid : f.isVoid = true
      · simp [hvoid] at h
      simp only [hvoid] at h
      obtain ⟨⟨gs, last⟩, hmore, h⟩ := Except.bind_eq_ok.mp h
      cases h
      obtain ⟨hgs, htail⟩ := ih hmore
      constructor
      · intro g hg
        rcases List.mem_cons.mp hg with rfl | hg
        · exact ⟨hf, by simpa using hvoid⟩
        · exact hgs g hg
      · rw [List.replicate_zero, List.nil_append] at heq
        rw [heq, htail]
        simp

theorem parse_sound {desc : Bytes} {m : MethodType} (h : MethodType.parse desc = .ok m) :
    m.Describable ∧ desc = m.encode := by
  unfold MethodType.parse at h
  split at h
  · rename_i body
    obtain ⟨⟨params, tail⟩, hparams, h⟩ := Except.bind_eq_ok.mp h
    obtain ⟨hps, hbody⟩ := readParams_sound hparams
    obtain ⟨⟨ret, after⟩, hret, h⟩ := Except.bind_eq_ok.mp h
    obtain ⟨hf, heq⟩ := FieldType.readFrom_sound hret
    by_cases hvoid : (ret.isVoid && ret.isArray) = true
    · simp only [hvoid] at h
      cases h
    by_cases hafter : after.isEmpty = true
    · simp only [hvoid, hafter] at h
      cases h
      refine ⟨⟨hps, hf, ?_⟩, ?_⟩
      · intro hv
        simpa [FieldType.isArray, hv] using hvoid
      · rw [List.replicate_zero, List.nil_append, List.isEmpty_iff.mp hafter,
          List.append_nil] at heq
        simp [encode, hbody, heq]
    · simp only [hvoid, hafter] at h
      cases h
  · cases h

theorem parse_eq_ok_iff {desc : Bytes} {m : MethodType} :
    MethodType.parse desc = .ok m ↔ m.Describable ∧ desc = m.encode := by
  constructor
  · exact parse_sound
  · rintro ⟨hm, rfl⟩
    exact parse_encode (fun f hf => ⟨(hm.params f hf).wellFormed, (hm.params f hf).notVoid⟩) hm.ret
      hm.void

/-- **Descriptors are read exactly.** A text is a method descriptor if and only if it is what some
    describable method is written as; there is only one such method, and it is the one that is read.
    The same holds of field types. -/
theorem descriptors_exact (desc : Bytes) :
    ((∃ m, MethodType.parse desc = .ok m) ↔ ∃ m : MethodType, m.Describable ∧ desc = m.encode) ∧
      (∀ m : MethodType, m.Describable → desc = m.encode →
        MethodType.parse desc = .ok m ∧
          ∀ n : MethodType, n.Describable → desc = n.encode → n = m) ∧
      ((∃ f, FieldType.parse desc = .ok f) ↔ ∃ f : FieldType, f.Describable ∧ desc = f.encode) ∧
      (∀ f : FieldType, f.Describable → desc = f.encode →
        FieldType.parse desc = .ok f ∧
          ∀ g : FieldType, g.Describable → desc = g.encode → g = f) := by
  refine ⟨exists_congr fun m => parse_eq_ok_iff, ?_, exists_congr fun f => FieldType.parse_eq_ok_iff,
    ?_⟩
  · intro m hm hdesc
    have hread : MethodType.parse desc = .ok m := parse_eq_ok_iff.mpr ⟨hm, hdesc⟩
    refine ⟨hread, ?_⟩
    intro n hn hdesc'
    have hread' : MethodType.parse desc = .ok n := parse_eq_ok_iff.mpr ⟨hn, hdesc'⟩
    rw [hread] at hread'
    exact (Except.ok.inj hread').symm
  · intro f hf hdesc
    have hread : FieldType.parse desc = .ok f := FieldType.parse_eq_ok_iff.mpr ⟨hf, hdesc⟩
    refine ⟨hread, ?_⟩
    intro g hg hdesc'
    have hread' : FieldType.parse desc = .ok g := FieldType.parse_eq_ok_iff.mpr ⟨hg, hdesc'⟩
    rw [hread] at hread'
    exact (Except.ok.inj hread').symm

end MethodType
end BridgeCall
