/-
  BridgeCall/Proofs/Plan/Binding.lean
  ===================================
  **Bindings of the declared types.**  `Call.Bound` says that every expression of
  a call is bound to a value of the host type that its declared type requires.
  Then all look-ups of a run succeed and leave the bridge alone, whatever the
  bridge is: `argValues_run` and `elementWires_run` give their results as
  functions of the bindings.
-/
import BridgeCall.Proofs.Plan.Steps
import Mathlib.Data.List.Forall2

namespace BridgeCall

/-! ### Types of bound values -/

/-- The name under which a host type is reported: a rune is a signed 32-bit number. -/
def hostTypeName (t : Bytes) : Bytes := if t = ("rune" : Bytes) then "int32" else t

/-- A reference, or no value at all. -/
def HostValue.IsReference (v : HostValue) : Prop := v = .absent ∨ ∃ o, v = .object o

/-- The values of the host type of a declared type. -/
def ValueType.Admits (ty : ValueType) (v : HostValue) : Prop :=
  match ty with
  | .object _ => v.IsReference
  | .java _ _ | .host _ _ => v.typeName = hostTypeName ty.hostType

/-- The expression is bound to a reference. -/
def Bindings.HasReference (b : Bindings) (e : Bytes) : Prop :=
  ∃ v, b.lookup e = some v ∧ v.IsReference

/-- The expression is bound to a value of the declared type. -/
def Bindings.HasValue (b : Bindings) (ty : ValueType) (e : Bytes) : Prop :=
  ∃ v, b.lookup e = some v ∧ ty.Admits v

/-- Every expression of the parameter is bound to a value of its type; an array is a reference. -/
def Parameter.Bound (b : Bindings) (p : Parameter) : Prop :=
  match p.arg with
  | .single v => b.HasValue p.ty v
  | .array v => b.HasReference v
  | .literal es => ∀ e ∈ es, b.HasValue p.ty e

/-- Every expression of the call is bound to a value of its declared type. -/
structure Call.Bound (b : Bindings) (c : Call) : Prop where
  receiver : ∀ r s, c.target = .object r s → b.HasReference r
  params : ∀ p ∈ c.params, p.Bound b

instance (v : HostValue) : Decidable v.IsReference :=
  match v with
  | .absent => isTrue (.inl rfl)
  | .object o => isTrue (.inr ⟨o, rfl⟩)
  | .bool _ | .int8 _ | .int16 _ | .int32 _ | .int64 _ | .uint8 _ | .uint16 _ | .uint32 _
  | .uint64 _ | .float32 _ | .float64 _ | .string _ =>
    isFalse (by rintro (h | ⟨_, h⟩) <;> cases h)

instance (ty : ValueType) (v : HostValue) : Decidable (ty.Admits v) :=
  match ty with
  | .object _ => inferInstanceAs (Decidable v.IsReference)
  | .java p s => inferInstanceAs (Decidable (v.typeName = hostTypeName (ValueType.java p s).hostType))
  | .host k s => inferInstanceAs (Decidable (v.typeName = hostTypeName (ValueType.host k s).hostType))

/-- A property of the value that an expression is bound to. -/
instance (b : Bindings) (e : Bytes) (P : HostValue → Prop) [DecidablePred P] :
    Decidable (∃ v, b.lookup e = some v ∧ P v) :=
  match h : b.lookup e with
  | some v => decidable_of_iff (P v) ⟨fun hv => ⟨v, rfl, hv⟩, fun ⟨_, hw, hv⟩ => by cases hw; exact hv⟩
  | none => isFalse fun ⟨_, hw, _⟩ => by cases hw

instance (b : Bindings) (ty : ValueType) (e : Bytes) : Decidable (b.HasValue ty e) :=
  inferInstanceAs (Decidable (∃ v, b.lookup e = some v ∧ ty.Admits v))

instance (b : Bindings) (e : Bytes) : Decidable (b.HasReference e) :=
  inferInstanceAs (Decidable (∃ v, b.lookup e = some v ∧ v.IsReference))

instance (b : Bindings) (p : Parameter) : Decidable (p.Bound b) :=
  match p with
  | ⟨ty, .single v, _⟩ => inferInstanceAs (Decidable (b.HasValue ty v))
  | ⟨_, .array v, _⟩ => inferInstanceAs (Decidable (b.HasReference v))
  | ⟨ty, .literal es, _⟩ => inferInstanceAs (Decidable (∀ e ∈ es, b.HasValue ty e))

instance (b : Bindings) (c : Call) : Decidable (c.Bound b) :=
  match h : c.target with
  | .static _ _ =>
    decidable_of_iff (∀ p ∈ c.params, p.Bound b)
      ⟨fun hp => ⟨fun r s hr => by simp [h] at hr, hp⟩, fun hb => hb.params⟩
  | .object r s =>
    decidable_of_iff (b.HasReference r ∧ ∀ p ∈ c.params, p.Bound b)
      ⟨fun hp => ⟨fun r' s' hr => by rw [h] at hr; cases hr; exact hp.1, hp.2⟩,
        fun hb => ⟨hb.receiver r s h, hb.params⟩⟩

/-! ### Crossing by declared type -/

/-- The values of each primitive type with the wire values they cross as. -/
inductive Crosses : ValueType → HostValue → Wire → Prop
  | boolean (s : Span) (v : Bool) : Crosses (.java .boolean s) (.bool v) (.boolean (boolToWire v))
  | byte (s : Span) (v : Int8) : Crosses (.java .byte s) (.int8 v) (.byte v)
  | char (s : Span) (v : UInt16) : Crosses (.java .char s) (.uint16 v) (.char v)
  | short (s : Span) (v : Int16) : Crosses (.java .short s) (.int16 v) (.short v)
  | int (s : Span) (v : Int32) : Crosses (.java .int s) (.int32 v) (.int v)
  | long (s : Span) (v : Int64) : Crosses (.java .long s) (.int64 v) (.long v)
  | float (s : Span) (v : UInt32) : Crosses (.java .float s) (.float32 v) (.float v)
  | double (s : Span) (v : UInt64) : Crosses (.java .double s) (.float64 v) (.double v)
  | hostBool (s : Span) (v : Bool) : Crosses (.host .bool s) (.bool v) (.boolean (boolToWire v))
  | hostChar (s : Span) (v : Int32) : Crosses (.host .char s) (.int32 v) (.char (encodeChar v))
  | u8 (s : Span) (v : UInt8) : Crosses (.host .u8 s) (.uint8 v) (.byte (u8ToWire v))
  | i8 (s : Span) (v : Int8) : Crosses (.host .i8 s) (.int8 v) (.byte v)
  | u16 (s : Span) (v : UInt16) : Crosses (.host .u16 s) (.uint16 v) (.short (u16ToWire v))
  | i16 (s : Span) (v : Int16) : Crosses (.host .i16 s) (.int16 v) (.short v)
  | u32 (s : Span) (v : UInt32) : Crosses (.host .u32 s) (.uint32 v) (.int (u32ToWire v))
  | i32 (s : Span) (v : Int32) : Crosses (.host .i32 s) (.int32 v) (.int v)
  | u64 (s : Span) (v : UInt64) : Crosses (.host .u64 s) (.uint64 v) (.long (u64ToWire v))
  | i64 (s : Span) (v : Int64) : Crosses (.host .i64 s) (.int64 v) (.long v)
  | f32 (s : Span) (v : UInt32) : Crosses (.host .f32 s) (.float32 v) (.float v)
  | f64 (s : Span) (v : UInt64) : Crosses (.host .f64 s) (.float64 v) (.double v)

/-- A value of the host type of a primitive type crosses the bridge. The name of its type decides
    how the value was made. -/
theorem ValueType.Admits.crosses {ty : ValueType} {v : HostValue} (h : ty.Admits v)
    (hty : ty.isObject = false) : ∃ w, Crosses ty v w := by
  cases ty with
  | object c => cases hty
  | java p s =>
    cases p <;> cases v <;> first
      | exact ⟨_, by constructor⟩
      | (simp +decide [ValueType.Admits, ValueType.hostType, Primitive.hostType, hostTypeName,
          HostValue.typeName] at h; done)
      | (rename_i o; cases o <;> simp +decide [ValueType.Admits, ValueType.hostType,
          Primitive.hostType, hostTypeName, HostValue.typeName] at h)
  | host k s =>
    cases k <;> cases v <;> first
      | exact ⟨_, by constructor⟩
      | (simp +decide [ValueType.Admits, ValueType.hostType, HostPrimitive.hostType, hostTypeName,
          HostValue.typeName] at h; done)
      | (rename_i o; cases o <;> simp +decide [ValueType.Admits, ValueType.hostType,
          HostPrimitive.hostType, hostTypeName, HostValue.typeName] at h)

theorem Crosses.toWire?_eq {ty : ValueType} {v : HostValue} {w : Wire} (h : Crosses ty v w) :
    toWire? ty v = some w := by
  cases h <;> rfl

/-! ### What bound expressions stand for -/

/-- The reference that a value is. -/
inductive Refers : HostValue → Obj → Prop
  | absent : Refers .absent .null
  | object (o : Obj) : Refers (.object o) o

/-- The expression is bound to the reference. -/
def Bindings.Names (b : Bindings) (e : Bytes) (o : Obj) : Prop :=
  ∃ v, b.lookup e = some v ∧ Refers v o

/-- The expression is bound to a value that crosses as the wire value. -/
def Bindings.Sends (b : Bindings) (ty : ValueType) (e : Bytes) (w : Wire) : Prop :=
  ∃ v, b.lookup e = some v ∧ Crosses ty v w

theorem Bindings.HasReference.names {b : Bindings} {e : Bytes} (h : b.HasReference e) :
    ∃ o, b.Names e o := by
  obtain ⟨v, hv, rfl | ⟨o, rfl⟩⟩ := h
  · exact ⟨_, _, hv, .absent⟩
  · exact ⟨o, _, hv, .object o⟩

theorem Bindings.HasValue.sends {b : Bindings} {ty : ValueType} {e : Bytes} (h : b.HasValue ty e)
    (hty : ty.isObject = false) : ∃ w, b.Sends ty e w := by
  obtain ⟨v, hv, hadmits⟩ := h
  obtain ⟨w, hw⟩ := hadmits.crosses hty
  exact ⟨w, v, hv, hw⟩

theorem Bindings.HasValue.names {b : Bindings} {ty : ValueType} {e : Bytes} (h : b.HasValue ty e)
    (hty : ty.isObject = true) : ∃ o, b.Names e o := by
  obtain ⟨v, hv, hadmits⟩ := h
  cases ty with
  | java p s => cases hty
  | host k s => cases hty
  | object c => exact Bindings.HasReference.names ⟨v, hv, hadmits⟩

theorem Bindings.Names.object {b : Bindings} {e : Bytes} {o : Obj} (h : b.Names e o) :
    b.object e = .ok o := by
  obtain ⟨v, hv, hrefers⟩ := h
  cases hrefers <;> rw [Bindings.object, hv]

theorem Bindings.Sends.wire {b : Bindings} {ty : ValueType} {e : Bytes} {w : Wire}
    (h : b.Sends ty e w) (heap : Heap) : b.wire heap ty e = .ok w := by
  obtain ⟨v, hv, hcrosses⟩ := h
  simp only [Bindings.wire, hv, pure_bind, hcrosses.toWire?_eq]
  rfl

/-- What the argument with index `i` sends, when the arrays of literals are those of `g`. -/
def Arg.Sends (b : Bindings) (g : Progress) (a : Arg) (i : Nat) (w : Wire) : Prop :=
  match a.param.arg with
  | .literal _ => w = .object (Plan.arrayAt g i)
  | .array v => ∃ o, w = .object o ∧ b.Names v o
  | .single v =>
    if a.param.ty.isObject then ∃ o, w = .object o ∧ b.Names v o else b.Sends a.param.ty v w

theorem Parameter.Bound.sends {b : Bindings} {a : Arg} (h : a.param.Bound b) (g : Progress)
    (i : Nat) : ∃ w, a.Sends b g i w := by
  unfold Parameter.Bound at h
  unfold Arg.Sends
  cases harg : a.param.arg with
  | literal es => exact ⟨_, rfl⟩
  | array v =>
    rw [harg] at h
    obtain ⟨o, ho⟩ := h.names
    exact ⟨_, o, rfl, ho⟩
  | single v =>
    rw [harg] at h
    cases hty : a.param.ty.isObject with
    | true =>
      obtain ⟨o, ho⟩ := h.names hty
      exact ⟨.object o, o, rfl, ho⟩
    | false => exact h.sends hty

theorem exists_forall₂ {α β : Type} {R : α → β → Prop} {as : List α} (h : ∀ a ∈ as, ∃ b, R a b) :
    ∃ bs, List.Forall₂ R as bs := by
  induction as with
  | nil => exact ⟨[], .nil⟩
  | cons a as ih =>
    obtain ⟨b, hb⟩ := h a (by simp)
    obtain ⟨bs, hbs⟩ := ih fun a ha => h a (by simp [ha])
    exact ⟨b :: bs, .cons hb hbs⟩

/-! ### Look-ups of a run -/

namespace Plan

section Run

variable {σ : Type} {B : Bridge σ} {b : Bindings} {g : Progress}

theorem argValue_run {a : Arg} {i : Nat} {w : Wire} (h : a.Sends b g i w) (s : σ) :
    argValue B b g i a s = (.ok w, s) := by
  unfold Arg.Sends at h
  unfold argValue
  cases harg : a.param.arg with
  | literal es =>
    rw [harg] at h
    rw [h]
    rfl
  | array v =>
    rw [harg] at h
    obtain ⟨o, rfl, ho⟩ := h
    simp only [ho.object]
    rfl
  | single v =>
    rw [harg] at h
    simp only at h ⊢
    split
    · rename_i hty
      rw [if_pos hty] at h
      obtain ⟨o, rfl, ho⟩ := h
      simp only [ho.object]
      rfl
    · rename_i hty
      rw [if_neg hty] at h
      simp only [wire, h.wire]

/-- The arguments of a call, from index `i` on. -/
theorem argValues_run {args : List Arg} {i : Nat} {ws : List Wire}
    (h : List.Forall₂ (fun (x : Arg × Nat) w => x.1.Sends b g x.2 w) (args.zipIdx i) ws) (s : σ) :
    argValues B b g i args s = (.ok ws, s) := by
  induction args generalizing i ws with
  | nil =>
    cases h
    rfl
  | cons a args ih =>
    rw [List.zipIdx_cons] at h
    cases h with
    | cons ha hargs =>
      rw [argValues, bind_run_ok (argValue_run ha s), bind_run_ok (ih hargs)]
      rfl

/-- The elements of an array literal, each with a value whatever arrays there are. -/
theorem elementWires_eq {ty : ValueType} {es : List Bytes} {ws : List Wire}
    (h : List.Forall₂ (fun e w => ∀ heap, b.wire heap ty e = .ok w) es ws) (s : σ) :
    elementWires B b ty es s = (.ok ws, s) := by
  induction h with
  | nil => rfl
  | @cons e w es ws he hes ih =>
    have hwire : wire B b ty e s = (.ok w, s) := by simp only [wire, he]
    rw [elementWires, bind_run_ok hwire, bind_run_ok ih]
    rfl

theorem elementWires_run {ty : ValueType} {es : List Bytes} {ws : List Wire}
    (h : List.Forall₂ (b.Sends ty) es ws) (s : σ) :
    elementWires B b ty es s = (.ok ws, s) :=
  elementWires_eq (h.imp fun _ _ he => he.wire) s

end Run

/-- Every argument of a bound call sends something. -/
theorem exists_sends {b : Bindings} {c : Call} (h : c.Bound b) (g : Progress) :
    ∃ ws, List.Forall₂ (fun (x : Arg × Nat) w => x.1.Sends b g x.2 w) ((lower c).args.zipIdx 0)
      ws := by
  apply exists_forall₂
  rintro ⟨a, i⟩ ha
  have hmem : a ∈ (lower c).args := by
    obtain ⟨-, -, hget⟩ := List.mem_zipIdx ha
    rw [hget]
    exact List.getElem_mem _
  rw [lower_args, List.mem_map] at hmem
  obtain ⟨⟨p, j⟩, hp, rfl⟩ := hmem
  have hparam : p ∈ c.params := by
    obtain ⟨-, -, hget⟩ := List.mem_zipIdx hp
    rw [hget]
    exact List.getElem_mem _
  have hbound : (argOf j p).param.Bound b := by
    rw [argOf_param]
    exact h.params p hparam
  exact hbound.sends g i

end Plan
end BridgeCall
