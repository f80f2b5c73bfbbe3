/-
  BridgeCall/Proofs/Machine/DescriptorOffsets.lean
  ================================================
  **Where a descriptor stops making sense.**  A descriptor that cannot be read is
  refused with an offset inside of it.  What stands before the offset is whole types
  and, at most, the array marks of one more: `FieldType.readFrom_error` says so of one
  type, `MethodType.readParams_error` of the parameters.  With a type behind the marks
  this is the start of a descriptor that can be read (`MethodType.offsets_sensible`).
-/
import BridgeCall.Proofs.Machine.DescriptorExactness

namespace BridgeCall

/-- A composed reading fails exactly when its first part does, or its second one behind it. -/
theorem Except.bind_eq_error {ε α β : Type} {x : Except ε α} {f : α → Except ε β} {e : ε} :
    (x >>= f) = .error e ↔ x = .error e ∨ ∃ a, x = .ok a ∧ f a = .error e := by
  cases x with
  | error e => simp [bind, Except.bind]
  | ok a => simp [bind, Except.bind]

/-- The offset lies in the text, and what stands before it is the start of a text that can be read. -/
def SensibleUpTo {α : Type} (read : Bytes → Except DescriptorError α) (desc : Bytes)
    (offset : Nat) : Prop :=
  offset ≤ desc.length ∧ ∃ whole x, read whole = .ok x ∧ desc.take offset <+: whole

theorem SensibleUpTo.of_start {α : Type} {read : Bytes → Except DescriptorError α}
    {desc start whole : Bytes} {x : α} {offset : Nat} (hoffset : offset = start.length)
    (hstart : start <+: desc) (hread : read whole = .ok x) (hwhole : start <+: whole) :
    SensibleUpTo read desc offset := by
  refine ⟨hoffset ▸ hstart.length_le, whole, x, hread, ?_⟩
  rwa [hoffset, ← List.prefix_iff_eq_take.mp hstart]

/-! ### Field types -/

namespace FieldType

/-- A number behind some array marks. -/
def numbers (depth : Nat) : FieldType := ⟨.primitive .int, depth⟩

theorem describable_numbers (depth : Nat) : (numbers depth).Describable := ⟨trivial, rfl⟩

theorem encode_numbers (depth : Nat) :
    (numbers depth).encode = List.replicate depth 0x5b ++ [Primitive.int.letter] := rfl

/-- Only array marks stand between the start of a type and what is wrong with it. -/
theorem readFrom_error {depth offset : Nat} {bs : Bytes} {e : DescriptorError}
    (h : readFrom depth offset bs = .error e) :
    ∃ n, e.offset = offset + n ∧ List.replicate n 0x5b <+: bs := by
  have hhere : ∀ bs : Bytes, ∃ n, offset = offset + n ∧ List.replicate n 0x5b <+: bs :=
    fun _ => ⟨0, rfl, List.nil_prefix⟩
  fun_induction readFrom depth offset bs with
  | case2 depth offset tail ih =>
    obtain ⟨n, hn, hmarks⟩ := ih h fun _ => ⟨0, rfl, List.nil_prefix⟩
    exact ⟨n + 1, by omega, List.cons_prefix_cons.mpr ⟨rfl, hmarks⟩⟩
  | case3 => cases h
  | case7 => cases h
  | case1 | case4 | case5 | case6 =>
    cases h
    exact hhere _

theorem sensible_of_error {desc : Bytes} {e : DescriptorError}
    (h : FieldType.parse desc = .error e) : SensibleUpTo FieldType.parse desc e.offset := by
  have hnumbers (n : Nat) : FieldType.parse (numbers n).encode = .ok (numbers n) :=
    parse_eq_ok_iff.mpr ⟨describable_numbers n, rfl⟩
  rcases Except.bind_eq_error.mp h with hread | ⟨⟨f, rest⟩, hread, h⟩
  · obtain ⟨n, hn, hmarks⟩ := readFrom_error hread
    exact .of_start (by simpa using hn) hmarks (hnumbers n) (List.prefix_append _ _)
  obtain ⟨hf, hdesc⟩ := readFrom_sound hread
  rw [List.replicate_zero, List.nil_append] at hdesc
  by_cases hvoid : f.isVoid = true
  · simp only [hvoid, if_true] at h
    cases h
    exact .of_start (by rfl) List.nil_prefix (hnumbers 0) List.nil_prefix
  by_cases hrest : rest.isEmpty = true
  · simp [hvoid, hrest] at h
  · simp only [hvoid, hrest] at h
    cases h
    have hparse : FieldType.parse f.encode = .ok f :=
      parse_eq_ok_iff.mpr ⟨⟨hf, by simpa using hvoid⟩, rfl⟩
    refine .of_start ?_ ⟨rest, hdesc.symm⟩ hparse (List.prefix_refl _)
    simp [hdesc]

end FieldType

/-! ### Methods -/

namespace MethodType

/-- Some parameters and the array marks of one more. -/
def paramsUpTo (fs : List FieldType) (n : Nat) : Bytes :=
  fs.flatMap FieldType.encode ++ List.replicate n 0x5b

theorem paramsUpTo_cons (f : FieldType) (fs : List FieldType) (n : Nat) :
    paramsUpTo (f :: fs) n = f.encode ++ paramsUpTo fs n := by
  simp [paramsUpTo]

/-- Parameters and array marks stand between the opening parenthesis and a fault of the parameters. By
    induction on the parameters that were read before it. -/
theorem readParams_error {total fuel : Nat} {bs : Bytes} {e : DescriptorError}
    (h : readParams total fuel bs = .error e) (hle : bs.length ≤ total) :
    ∃ fs n, (∀ f ∈ fs, f.Describable) ∧ e.offset = total - bs.length + (paramsUpTo fs n).length
      ∧ paramsUpTo fs n <+: bs := by
  have hhere : ∀ bs : Bytes, ∃ (fs : List FieldType) (n : Nat), (∀ f ∈ fs, f.Describable)
      ∧ total - bs.length = total - bs.length + (paramsUpTo fs n).length
      ∧ paramsUpTo fs n <+: bs := fun _ => ⟨[], 0, by simp, rfl, List.nil_prefix⟩
  induction fuel generalizing bs with
  | zero =>
    cases h
    exact hhere bs
  | succ fuel ih =>
    cases bs with
    | nil =>
      cases h
      exact hhere []
    | cons b bs =>
      rw [readParams] at h
      split at h
      · cases h
      rcases Except.bind_eq_error.mp h with hread | ⟨⟨f, rest⟩, hread, h⟩
      · obtain ⟨n, hn, hmarks⟩ := FieldType.readFrom_error hread
        exact ⟨[], n, by simp, by simpa [paramsUpTo] using hn, hmarks⟩
      obtain ⟨hf, hbs⟩ := FieldType.readFrom_sound hread
      rw [List.replicate_zero, List.nil_append] at hbs
      by_cases hvoid : f.isVoid = true
      · simp only [hvoid, if_true] at h
        cases h
        exact hhere _
      simp only [hvoid] at h
      rcases Except.bind_eq_error.mp h with hmore | ⟨_, _, h⟩
      · rw [hbs, List.length_append] at hle ⊢
        obtain ⟨fs, n, hfs, he, hrest⟩ := ih hmore (by omega)
        refine ⟨f :: fs, n, List.forall_mem_cons.mpr ⟨⟨hf, by simpa using hvoid⟩, hfs⟩, ?_, ?_⟩
        · rw [he, paramsUpTo_cons, List.length_append]
          omega
        · rw [paramsUpTo_cons]
          exact (List.prefix_append_right_inj _).mpr hrest
      · cases h

variable {fs : List FieldType}

theorem parse_encode_numbers (hfs : ∀ f ∈ fs, f.Describable) (n : Nat) :
    MethodType.parse (encode ⟨fs, .numbers n⟩) = .ok ⟨fs, .numbers n⟩ :=
  parse_eq_ok_iff.mpr ⟨⟨hfs, trivial, nofun⟩, rfl⟩

/-- Parameters with marks behind them are completed by a number behind the marks. -/
theorem exists_parse_params (hfs : ∀ f ∈ fs, f.Describable) (n : Nat) :
    ∃ whole m, MethodType.parse whole = .ok m ∧ 0x28 :: paramsUpTo fs n <+: whole := by
  have hall : ∀ f ∈ fs ++ [FieldType.numbers n], f.Describable := by
    intro f hf
    rcases List.mem_append.mp hf with hf | hf
    · exact hfs f hf
    · rw [List.mem_singleton.mp hf]
      exact FieldType.describable_numbers n
  refine ⟨_, _, parse_encode_numbers hall 0, ?_⟩
  rw [encode, List.flatMap_append, List.flatMap_singleton, FieldType.encode_numbers,
    ← List.append_assoc, List.cons_append]
  exact List.cons_prefix_cons.mpr ⟨rfl, (List.prefix_append _ _).trans (List.prefix_append _ _)⟩

/-- All parameters and the marks of a return type are completed by a number behind the marks. -/
theorem ret_prefix_encode (fs : List FieldType) (n : Nat) :
    0x28 :: (fs.flatMap FieldType.encode ++ 0x29 :: List.replicate n 0x5b)
      <+: encode ⟨fs, .numbers n⟩ := by
  refine ⟨[Primitive.int.letter], ?_⟩
  simp [encode, FieldType.encode_numbers]

theorem sensible_of_error {desc : Bytes} {e : DescriptorError}
    (h : MethodType.parse desc = .error e) : SensibleUpTo MethodType.parse desc e.offset := by
  unfold MethodType.parse at h
  split at h
  · rename_i body
    rcases Except.bind_eq_error.mp h with hparams | ⟨⟨fs, rest⟩, hparams, h⟩
    · obtain ⟨fs, n, hfs, he, hbody⟩ := readParams_error hparams (by simp)
      obtain ⟨whole, m, hparse, hwhole⟩ := exists_parse_params hfs n
      refine .of_start ?_ (List.cons_prefix_cons.mpr ⟨rfl, hbody⟩) hparse hwhole
      rw [he, List.length_cons, List.length_cons]
      omega
    obtain ⟨hfs, hbody⟩ := readParams_sound hparams
    have hret {n : Nat} (hmarks : List.replicate n 0x5b <+: rest) {offset : Nat}
        (hoffset : offset = (0x28 :: body).length - rest.length + n) :
        SensibleUpTo MethodType.parse (0x28 :: body) offset := by
      refine .of_start ?_ ?_ (parse_encode_numbers hfs n) (ret_prefix_encode fs n)
      · rw [hoffset, hbody]
        simp only [List.length_cons, List.length_append, List.length_replicate]
        omega
      · rw [hbody]
        refine List.cons_prefix_cons.mpr ⟨rfl, (List.prefix_append_right_inj _).mpr ?_⟩
        exact List.cons_prefix_cons.mpr ⟨rfl, hmarks⟩
    rcases Except.bind_eq_error.mp h with hread | ⟨⟨ret, after⟩, hread, h⟩
    · obtain ⟨n, hn, hmarks⟩ := FieldType.readFrom_error hread
      exact hret hmarks hn
    obtain ⟨hwell, hrest⟩ := FieldType.readFrom_sound hread
    rw [List.replicate_zero, List.nil_append] at hrest
    by_cases hvoid : (ret.isVoid && ret.isArray) = true
    · simp only [hvoid, if_true] at h
      cases h
      exact hret (n := 0) List.nil_prefix rfl
    by_cases hafter : after.isEmpty = true
    · simp [hvoid, hafter] at h
    · simp only [hvoid, hafter] at h
      cases h
      have hm : Describable ⟨fs, ret⟩ := by
        refine ⟨hfs, hwell, fun hv => ?_⟩
        simpa [FieldType.isArray, hv] using hvoid
      have hdesc : 0x28 :: body = encode ⟨fs, ret⟩ ++ after := by
        rw [hbody, hrest]
        simp [encode]
      refine .of_start ?_ ⟨after, hdesc.symm⟩ (parse_eq_ok_iff.mpr ⟨hm, rfl⟩) (List.prefix_refl _)
      rw [hdesc, List.length_append]
      simp
  · cases h
    exact .of_start (by rfl) List.nil_prefix (@parse_encode_numbers [] (by simp) 0)
      List.nil_prefix

/-- **Offsets of faults are meaningful.** Where a text is no descriptor of a method, the offset of its
    fault lies in the text, and what stands before it is the start of a descriptor of some method. The
    same holds of field types. -/
theorem offsets_sensible (desc : Bytes) (e : DescriptorError) :
    (MethodType.parse desc = .error e → SensibleUpTo MethodType.parse desc e.offset)
    ∧ (FieldType.parse desc = .error e → SensibleUpTo FieldType.parse desc e.offset) :=
  ⟨sensible_of_error, FieldType.sensible_of_error⟩

/-- A class name without an end, behind an array mark and a whole parameter. -/
theorem offsets_sensible_unterminated :
    MethodType.parse "(I[Lfoo)V" = .error ⟨3, .unterminatedClass⟩
    ∧ SensibleUpTo MethodType.parse "(I[Lfoo)V" 3
    ∧ FieldType.parse "[[Q" = .error ⟨2, .unknownType 0x51⟩
    ∧ SensibleUpTo FieldType.parse "[[Q" 2 := by
  have hmethod : MethodType.parse "(I[Lfoo)V" = .error ⟨3, .unterminatedClass⟩ := by decide +kernel
  have hfield : FieldType.parse "[[Q" = .error ⟨2, .unknownType 0x51⟩ := by decide +kernel
  exact ⟨hmethod, (offsets_sensible _ _).1 hmethod, hfield, (offsets_sensible _ _).2 hfield⟩

end MethodType
end BridgeCall
