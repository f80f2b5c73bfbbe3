/-
  BridgeCall/Proofs/Plan/Refusal.lean
  ===================================
  **Values of another type are refused.**  Twenty-one primitive types travel as
  nine kinds of wire values, so that a value of one type could pass for one of
  another.  It does not, with one exception: a signed 32-bit number is taken for
  an unsigned one (`ValueType.Confuses`).  The typed functions of expanded code
  know no exception.
-/
import BridgeCall.Proofs.Plan.Evaluation
import BridgeCall.Proofs.Plan.Lookups

namespace BridgeCall

/-- The values of another type that a declared type takes: `u32` travels as Java's `int`, and a
    signed 32-bit value is asked for no more than that. -/
def ValueType.Confuses (ty : ValueType) (v : HostValue) : Prop :=
  (∃ s, ty = .host .u32 s) ∧ ∃ i, v = .int32 i

/-! ### Conversions -/

theorem admits_of_toWire? {ty : ValueType} {v : HostValue} {w : Wire} (h : toWire? ty v = some w) :
    ty.Admits v ∨ ty.Confuses v := by
  unfold toWire? at h
  split at h
  case h_1 b =>
    split at h
    · rename_i hprimitive
      cases ty with
      | java p s => cases hprimitive; exact .inl rfl
      | host k s => cases k <;> cases hprimitive; exact .inl rfl
      | object c => cases hprimitive
    · cases h
  case h_3 i _ =>
    split at h
    · rename_i hprimitive
      cases ty with
      | java p s => cases hprimitive; exact .inl rfl
      | host k s =>
        cases k <;> cases hprimitive
        · exact .inr ⟨⟨s, rfl⟩, i, rfl⟩
        · exact .inl rfl
      | object c => cases hprimitive
    · cases h
  all_goals first
    | exact .inl rfl
    | cases h

theorem toWire?_isSome_iff {ty : ValueType} {v : HostValue} (hty : ty.isObject = false) :
    (∃ w, toWire? ty v = some w) ↔ ty.Admits v ∨ ty.Confuses v := by
  constructor
  · rintro ⟨w, hw⟩
    exact admits_of_toWire? hw
  · rintro (h | ⟨⟨s, rfl⟩, i, rfl⟩)
    · obtain ⟨w, hw⟩ := h.crosses hty
      exact ⟨w, hw.toWire?_eq⟩
    · exact ⟨.int i, rfl⟩

theorem Bindings.wire_bound {b : Bindings} {e : Bytes} {v : HostValue} (hv : b.lookup e = some v)
    (ty : ValueType) (heap : Heap) :
    b.wire heap ty e = match toWire? ty v with
      | some w => .ok w
      | none => .error (.wrongHostType (v.text heap) v.typeName ty.hostType) := by
  simp only [Bindings.wire, hv, pure_bind]
  rfl

namespace Code

variable {b : Bindings} {l : Locals} {x : Expr}

/-- What the typed functions of the bridge make of a value. -/
def typed? (ty : ValueType) (v : HostValue) : Option Value :=
  let raw : Option Value := match toWireName? ty with
    | some fn => (functions.lookup fn).bind fun f => f (.host v)
    | none => some (.host v)
  raw.bind fun u => (functions.lookup (typeStem ty)).bind fun f => f u

theorem typed_eval {ty : ValueType} {v : HostValue} (hx : x.eval b l = some (.host v)) :
    (bridge (typeStem ty) [toWire ty x]).eval b l = typed? ty v := by
  have heval {y : Expr} (fn : Bytes) : (bridge fn [y]).eval b l
      = (y.eval b l).bind fun u => (functions.lookup fn).bind fun f => f u := by
    cases hy : y.eval b l with
    | some u => exact bridge_eval hy fn
    | none => simp only [bridge, Expr.eval, evalList, hy, Option.bind_eq_bind, Option.bind_none]
  rw [heval, typed?]
  unfold toWire convertBy
  cases toWireName? ty with
  | none => rw [hx]
  | some fn => rw [heval, hx, Option.bind_some]

/-- The typed functions take the values of the declared type only. -/
theorem admits_of_typed? {ty : ValueType} {v : HostValue} {w : Value} (hty : ty.isObject = false)
    (h : typed? ty v = some w) : ty.Admits v := by
  cases ty with
  | object c => cases hty
  | java p s =>
    cases p <;> cases v <;> first
      | rfl
      | cases h
  | host k s =>
    cases k <;> cases v <;> first
      | rfl
      | cases h

theorem typed_eval_iff {ty : ValueType} {v : HostValue} (hty : ty.isObject = false)
    (hx : x.eval b l = some (.host v)) :
    (∃ w, (bridge (typeStem ty) [toWire ty x]).eval b l = some (.wire w)) ↔ ty.Admits v := by
  constructor
  · rintro ⟨w, hw⟩
    rw [typed_eval hx] at hw
    exact admits_of_typed? hty hw
  · intro h
    obtain ⟨w, hw⟩ := h.crosses hty
    exact ⟨w, typeStem_eval hw (toWire_eval hw hx)⟩

end Code

/-! ### Runs -/

namespace Plan

/-- **Values of another type are refused.** A value is taken for a primitive type just when it is of
    the host type of that type, or it is a signed 32-bit number for `u32`; the typed functions of
    expanded code take the former only. A bound value that is refused is reported with its type, and
    on no bridge does a run with it get to its method. -/
theorem foreign_refused {ty : ValueType} (hty : ty.isObject = false) (v : HostValue) :
    ((∃ w, toWire? ty v = some w) ↔ ty.Admits v ∨ ty.Confuses v) ∧
    (∀ (b : Bindings) (l : Code.Locals) (x : Code.Expr), x.eval b l = some (.host v) →
      ((∃ w, (Code.bridge (Code.typeStem ty) [Code.toWire ty x]).eval b l = some (.wire w)) ↔
        ty.Admits v)) ∧
    (¬ ty.Admits v → ¬ ty.Confuses v → ∀ (b : Bindings) (e : Bytes), b.lookup e = some v →
      (∀ heap, b.wire heap ty e = .error (.wrongHostType (v.text heap) v.typeName ty.hostType)) ∧
      ∀ (σ : Type) (B : Bridge σ) (s : σ) (c : Call), ∀ p ∈ c.params, p.ty = ty → e ∈ p.primitives →
        ∃ f q s' rs, (lower c).runOn B.traced b (s, []) = (.error f, s', rs) ∧
          f.cause = some q ∧ c.Breaks b (fun _ => True) q ∧ ∀ r ∈ rs, c.Builds b r) := by
  have htaken := toWire?_isSome_iff (v := v) hty
  refine ⟨htaken, fun b l x hx => Code.typed_eval_iff hty hx, ?_⟩
  intro hforeign hconfused b e hv
  have hnone : toWire? ty v = none := by
    cases hw : toWire? ty v with
    | none => rfl
    | some w => exact ((htaken.mp ⟨w, hw⟩).elim hforeign hconfused).elim
  have hrefused (heap : Heap) :
      b.wire heap ty e = .error (.wrongHostType (v.text heap) v.typeName ty.hostType) := by
    rw [Bindings.wire_bound hv, hnone]
  refine ⟨hrefused, ?_⟩
  rintro σ B s c p hp rfl he
  apply run_breaks B.keeps_any hp he _ trivial
  rintro ⟨heap, w, hw⟩
  rw [hrefused heap] at hw
  cases hw

/-- A signed byte in a literal of unsigned ones. -/
theorem foreign_refused_byte :
    let c : Call :=
      { target := .object "x" default, method := "m", methodSpan := default
        params := [⟨.host .u8 default, .literal ["y"], default⟩]
        ret := .plain (.value (.java .void default)), span := default }
    let b : Bindings := [("x", .absent), ("y", .int8 (-1))]
    (ValueType.host .u8 default).isObject = false ∧
    ¬ (ValueType.host .u8 default).Admits (.int8 (-1)) ∧
    ¬ (ValueType.host .u8 default).Confuses (.int8 (-1)) ∧
    ∃ f q s' rs, (lower c).runOn Recorder.bridge.traced b ({}, []) = (.error f, s', rs) ∧
      f.cause = some q ∧ c.Breaks b (fun _ => True) q ∧ ∀ r ∈ rs, c.Builds b r := by
  intro c b
  have hforeign : ¬ (ValueType.host .u8 default).Admits (.int8 (-1)) := by decide
  have hconfused : ¬ (ValueType.host .u8 default).Confuses (.int8 (-1)) := by
    rintro ⟨-, i, hi⟩
    cases hi
  have hprimitive : (ValueType.host .u8 default).isObject = false := rfl
  obtain ⟨-, -, hrefused⟩ := foreign_refused hprimitive (.int8 (-1))
  obtain ⟨-, hrun⟩ := hrefused hforeign hconfused b "y" rfl
  exact ⟨hprimitive, hforeign, hconfused, hrun _ Recorder.bridge {} c _
    (List.mem_singleton.mpr rfl) rfl (List.mem_singleton.mpr rfl)⟩

/-- A signed number is passed for an unsigned one, which the typed functions refuse. -/
theorem u32_takes_signed :
    ¬ (ValueType.host .u32 default).Admits (.int32 1) ∧
    toWire? (.host .u32 default) (.int32 1) = some (.int 1) ∧
    Code.typed? (.host .u32 default) (.int32 1) = none ∧
    ∃ c s', Call.parse (.at "obj.m(u32(x)) -> void" .origin) = .ok c ∧
      (lower c).run [("obj", .object (.ref "obj" false)), ("x", .int32 1)] { result := .void }
        = (.ok {}, s') ∧
      ∃ r ∈ s'.calls, r.op = .callMethod ∧ r.args = [.int 1] := by
  refine ⟨by decide, rfl, rfl, ?_⟩
  have hcheck : runsTo (.at "obj.m(u32(x)) -> void" .origin)
      [("obj", .object (.ref "obj" false)), ("x", .int32 1)] { result := .void } (fun _ o s' =>
        decide (o = {}) && s'.calls.any fun r =>
          decide (r.op = .callMethod ∧ r.args = [.int 1])) = true := by
    decide +kernel
  obtain ⟨c, o, s', hparse, hrun, hanswer⟩ := exists_of_runsTo hcheck
  simp only [Bool.and_eq_true, decide_eq_true_eq, List.any_eq_true] at hanswer
  obtain ⟨rfl, hcall⟩ := hanswer
  exact ⟨c, s', hparse, hrun, hcall⟩

end Plan
end BridgeCall
