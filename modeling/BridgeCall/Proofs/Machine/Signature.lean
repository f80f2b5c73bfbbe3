/-
  BridgeCall/Proofs/Machine/Signature.lean
  ========================================
  **Signatures and descriptors agree.**  A call writes its signature from the
  declared types; the descriptor reader knows nothing of calls.  Reading what
  `encode` writes gives the method back (`MethodType.parse_encode`), and the
  signature of a call is what `encode` writes for the method it calls
  (`Call.encode_methodType`), so the reader finds the declared types again.
-/
import BridgeCall.Machine.Descriptor
import BridgeCall.Proofs.Expr.Names

namespace BridgeCall

/-! ### Reading what was written -/

namespace FieldType

/-- A class name that a descriptor can hold: not empty, and without the mark that ends it. -/
def WellFormed (f : FieldType) : Prop :=
  match f.base with
  | .primitive _ => True
  | .cls name => name ≠ [] ∧ 0x3b ∉ name

theorem readFrom_replicate (n depth offset : Nat) (bs : Bytes) :
    readFrom depth offset (List.replicate n 0x5b ++ bs) = readFrom (depth + n) (offset + n) bs := by
  induction n generalizing depth offset with
  | zero => rfl
  | succ n ih =>
    rw [List.replicate_succ, List.cons_append, readFrom, if_pos rfl, ih]
    congr 1 <;> omega

theorem readFrom_primitive (p : Primitive) (depth offset : Nat) (rest : Bytes) :
    readFrom depth offset (p.letter :: rest) = .ok (⟨.primitive p, depth⟩, rest) := by
  have hbracket : p.letter ≠ 0x5b := by cases p <;> decide
  have hletter : Primitive.ofLetter? p.letter = some p := Primitive.ofLetter?_eq_some_iff.mpr rfl
  rw [readFrom, if_neg hbracket]
  simp only [hletter]

theorem readFrom_class {name : Bytes} (hne : name ≠ []) (hname : 0x3b ∉ name)
    (depth offset : Nat) (rest : Bytes) :
    readFrom depth offset (0x4c :: name ++ 0x3b :: rest) = .ok (⟨.cls name, depth⟩, rest) := by
  have hletter : Primitive.ofLetter? 0x4c = none := by decide
  have hall : ∀ b ∈ name, decide (b ≠ 0x3b) = true := by
    intro b hb
    simp only [ne_eq, decide_not, Bool.not_eq_true', decide_eq_false_iff_not]
    rintro rfl
    exact hname hb
  have htake : (name ++ 0x3b :: rest).takeWhile (· ≠ 0x3b) = name := by
    rw [List.takeWhile_append_of_pos hall]
    simp
  have hdrop : (name ++ 0x3b :: rest).dropWhile (· ≠ 0x3b) = 0x3b :: rest := by
    rw [List.dropWhile_append_of_pos hall]
    simp
  rw [List.cons_append, readFrom, if_neg (by decide)]
  simp only [hletter, htake, hdrop]
  simp [hne]

theorem readFrom_encode {f : FieldType} (hf : f.WellFormed) (offset : Nat) (rest : Bytes) :
    readFrom 0 offset (f.encode ++ rest) = .ok (f, rest) := by
  obtain ⟨base, depth⟩ := f
  rw [encode, List.append_assoc, readFrom_replicate, Nat.zero_add]
  cases base with
  | primitive p => exact readFrom_primitive p depth _ rest
  | cls name =>
    obtain ⟨hne, hname⟩ := hf
    have hread := readFrom_class hne hname depth (offset + depth) rest
    simpa using hread

theorem encode_eq_cons (f : FieldType) : ∃ b bs, f.encode = b :: bs ∧ b ≠ 0x29 := by
  obtain ⟨base, depth⟩ := f
  cases depth with
  | succ n => exact ⟨0x5b, _, by rw [encode, List.replicate_succ, List.cons_append], by decide⟩
  | zero =>
    cases base with
    | primitive p => exact ⟨p.letter, [], rfl, by cases p <;> decide⟩
    | cls name => exact ⟨0x4c, name ++ [0x3b], rfl, by decide⟩

end FieldType

namespace MethodType

theorem readParams_encode {fs : List FieldType}
    (hfs : ∀ f ∈ fs, f.WellFormed ∧ f.isVoid = false) (total fuel : Nat) (hfuel : fs.length < fuel)
    (rest : Bytes) :
    readParams total fuel (fs.flatMap FieldType.encode ++ 0x29 :: rest) = .ok (fs, rest) := by
  induction fs generalizing fuel with
  | nil =>
    obtain ⟨n, rfl⟩ : ∃ n, fuel = n + 1 := ⟨fuel - 1, by simp at hfuel; omega⟩
    rw [List.flatMap_nil, List.nil_append, readParams, if_pos rfl]
  | cons f fs ih =>
    obtain ⟨n, rfl⟩ : ∃ n, fuel = n + 1 := ⟨fuel - 1, by simp at hfuel; omega⟩
    obtain ⟨hf, hvoid⟩ := hfs f (by simp)
    have hrest := ih (fun g hg => hfs g (by simp [hg])) n (by simpa using hfuel)
    obtain ⟨b, bs, hencode, hb⟩ := f.encode_eq_cons
    -- the next byte opens a field type, so the reader takes one and goes on behind it
    have hread := fun offset =>
      FieldType.readFrom_encode hf offset (fs.flatMap FieldType.encode ++ 0x29 :: rest)
    rw [List.flatMap_cons, List.append_assoc]
    rw [hencode, List.cons_append] at hread ⊢
    rw [readParams, if_neg hb]
    simp only [bind, Except.bind, hread, hvoid, hrest]
    rfl

theorem length_le_flatMap_encode (fs : List FieldType) :
    fs.length ≤ (fs.flatMap FieldType.encode).length := by
  induction fs with
  | nil => simp
  | cons f fs ih =>
    obtain ⟨b, bs, hencode, -⟩ := f.encode_eq_cons
    simp only [List.flatMap_cons, List.length_append, List.length_cons, hencode]
    omega

/-- **A method reads back from its descriptor.** -/
theorem parse_encode {m : MethodType} (hparams : ∀ f ∈ m.params, f.WellFormed ∧ f.isVoid = false)
    (hret : m.ret.WellFormed) (hvoid : m.ret.isVoid = true → m.ret.depth = 0) :
    MethodType.parse m.encode = .ok m := by
  obtain ⟨params, ret⟩ := m
  simp only at hparams hret hvoid
  have hfuel : params.length
      < (params.flatMap FieldType.encode ++ 0x29 :: ret.encode).length + 1 := by
    have hlength := length_le_flatMap_encode params
    simp only [List.length_append]
    omega
  have hread := fun total => readParams_encode hparams total _ hfuel ret.encode
  have hlast := fun offset => FieldType.readFrom_encode hret offset []
  simp only [List.append_nil] at hlast
  have harray : (ret.isVoid && ret.isArray) = false := by
    cases hv : ret.isVoid with
    | false => rfl
    | true => simp [FieldType.isArray, hvoid hv]
  simp only [encode, List.cons_append, MethodType.parse, bind, Except.bind, hread, hlast, harray]
  rfl

end MethodType

/-! ### The method of a call -/

/-- The bottom of a declared type: the primitive it travels as, or its class. -/
def ValueType.fieldBase : ValueType → FieldBase
  | .java p _ => .primitive p
  | .host h _ => .primitive h.java
  | .object c => .cls c.internalName

/-- A parameter as a field type. -/
def Parameter.fieldType (p : Parameter) : FieldType := ⟨p.ty.fieldBase, if p.isArray then 1 else 0⟩

/-- The method that a call calls. -/
def Call.methodType (c : Call) : MethodType :=
  ⟨c.params.map Parameter.fieldType, ⟨c.ret.payload.fieldBase, 0⟩⟩

theorem ValueType.encode_fieldBase (ty : ValueType) (depth : Nat) :
    FieldType.encode ⟨ty.fieldBase, depth⟩ = List.replicate depth 0x5b ++ ty.signature := by
  cases ty <;> rfl

theorem Parameter.encode_fieldType (p : Parameter) : p.fieldType.encode = p.signature := by
  rw [Parameter.fieldType, ValueType.encode_fieldBase, Parameter.signature]
  split <;> rfl

/-- The signature of a call is the descriptor of its method. -/
theorem Call.encode_methodType (c : Call) : c.methodType.encode = c.signature := by
  have hparams : (c.params.map Parameter.fieldType).flatMap FieldType.encode
      = c.params.flatMap Parameter.signature := by
    rw [List.flatMap_map]
    congr 1
    exact funext Parameter.encode_fieldType
  simp only [methodType, MethodType.encode, ValueType.encode_fieldBase, hparams]
  simp [Call.signature]
  rfl

/-! ### Names in signatures -/

theorem ClassPath.write_ne_nil {c : ClassPath} (hc : c.WellFormed) (sep inner : Bytes) :
    c.write sep inner ≠ [] := by
  intro h
  simp only [ClassPath.write, List.append_eq_nil_iff] at h
  exact hc.outer.1 h.1.2

theorem ValueType.wellFormed_fieldType {ty : ValueType} (h : ty.WellFormed) (depth : Nat) :
    FieldType.WellFormed ⟨ty.fieldBase, depth⟩ := by
  cases ty with
  | java => trivial
  | host => trivial
  | object c =>
    refine ⟨ClassPath.write_ne_nil h _ _, fun hmem => ?_⟩
    rcases ClassPath.mem_write h hmem with hb | hb | hb <;> exact absurd hb (by decide)

theorem ValueType.isVoid_fieldType (ty : ValueType) (depth : Nat) :
    FieldType.isVoid ⟨ty.fieldBase, depth⟩ = ty.isVoid := by
  cases ty with
  | java p _ => cases p <;> rfl
  | host h _ => cases h <;> rfl
  | object c => rfl

/-- The internal name of a class, written for people, is the path with dots. -/
theorem ClassPath.internalToSource_internalName {c : ClassPath} (hc : c.WellFormed) :
    internalToSource c.internalName = c.display := by
  rw [internalToSource, ClassPath.internalName, ClassPath.replaceByte_write hc (by decide),
    ClassPath.replaceByte_write hc (by decide)]
  rfl

theorem ValueType.display_fieldType {ty : ValueType} (h : ty.WellFormed) (depth : Nat) :
    FieldType.display ⟨ty.fieldBase, depth⟩
      = ty.display ++ (List.replicate depth ("[]" : Bytes)).flatten := by
  cases ty with
  | java => rfl
  | host => rfl
  | object c =>
    simp only [FieldType.display, ValueType.fieldBase, ValueType.display,
      ClassPath.internalToSource_internalName h]

/-! ### Agreement -/

namespace Call

theorem declaration_methodType {c : Call} (h : c.WellFormed) :
    c.methodType.declaration c.method =
      c.ret.payload.display ++ " " ++ c.method ++ "(" ++
        Bytes.join ", " (c.params.map fun p => p.ty.display ++ if p.isArray then "[]" else "")
        ++ ")" := by
  have hparams : (c.params.map Parameter.fieldType).map FieldType.display
      = c.params.map fun p => p.ty.display ++ if p.isArray then ("[]" : Bytes) else "" := by
    rw [List.map_map]
    apply List.map_congr_left
    intro p hp
    simp only [Function.comp, Parameter.fieldType, ValueType.display_fieldType (h.params p hp).1]
    split <;> rfl
  simp only [methodType, MethodType.declaration, hparams, ValueType.display_fieldType h.payload,
    List.replicate_zero, List.flatten_nil, List.append_nil]

theorem parse_signature {c : Call} (h : c.WellFormed) :
    MethodType.parse c.signature = .ok c.methodType := by
  rw [← encode_methodType]
  refine MethodType.parse_encode ?_ (ValueType.wellFormed_fieldType h.payload 0) fun _ => rfl
  intro f hf
  obtain ⟨p, hp, rfl⟩ := List.mem_map.mp hf
  obtain ⟨hty, hvoid⟩ := h.params p hp
  refine ⟨ValueType.wellFormed_fieldType hty _, ?_⟩
  rw [Parameter.fieldType, ValueType.isVoid_fieldType, hvoid]

/-- **The signature of a parsed call reads back.** The descriptor reader accepts it and finds the
    declared parameters and the payload of the return specification, and the method it finds is
    declared with the types as they are shown to people. -/
theorem signature_reads_back {src : Source} {c : Call} (h : Call.parse src = .ok c) :
    ∃ m, MethodType.parse c.signature = .ok m ∧
      m.params.length = c.params.length ∧
      (∀ (i : Nat) (p : Parameter) (f : FieldType), c.params[i]? = some p →
        m.params[i]? = some f →
        f.depth = (if p.isArray then 1 else 0) ∧ f.base = p.ty.fieldBase) ∧
      m.ret.depth = 0 ∧ m.ret.base = c.ret.payload.fieldBase ∧
      m.declaration c.method =
        c.ret.payload.display ++ " " ++ c.method ++ "(" ++
          Bytes.join ", " (c.params.map fun p => p.ty.display ++ if p.isArray then "[]" else "")
          ++ ")" := by
  have hc := parse_wellFormed h
  refine ⟨c.methodType, parse_signature hc, by simp [methodType], ?_, rfl, rfl,
    declaration_methodType hc⟩
  intro i p f hp hf
  simp only [methodType, List.getElem?_map, hp, Option.map_some, Option.some.injEq] at hf
  subst hf
  exact ⟨rfl, rfl⟩

theorem signature_reads_back_entry :
    ∃ c m, Call.parse (.at "a.b(u8(x), [c.D$E]([y])) -> Option<a.B>" .origin) = .ok c ∧
      MethodType.parse c.signature = .ok m ∧ m.params.length = c.params.length := by
  have hok : (Call.parse (.at "a.b(u8(x), [c.D$E]([y])) -> Option<a.B>" .origin)).isOk = true := by
    decide +kernel
  cases h : Call.parse (.at "a.b(u8(x), [c.D$E]([y])) -> Option<a.B>" .origin) with
  | error e => simp [h, Except.isOk, Except.toBool] at hok
  | ok c =>
    obtain ⟨m, hm, hlength, -⟩ := signature_reads_back h
    exact ⟨c, m, rfl, hm, hlength⟩

end Call
end BridgeCall
