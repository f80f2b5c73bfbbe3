/-
  BridgeCall/Proofs/Plan/Steps.lean
  =================================
  **The steps of a run.**  What a run does is said once here, for every bridge:
  how parts of a run are put together, how the run of a list of steps goes on
  after its first step, which steps a call is lowered to, and what its outcome
  is once all checks have passed.
-/
import Mathlib.Data.Option.Basic
import BridgeCall.Plan.Run

namespace BridgeCall

/-! ### Parts of a run -/

section Run

variable {σ ε α β : Type}

/-- How a part of a run goes on. -/
theorem bind_run (x : ExceptT ε (StateM σ) α) (f : α → ExceptT ε (StateM σ) β) (s : σ) :
    (x >>= f) s =
      match x s with
      | (.ok a, s') => f a s'
      | (.error e, s') => (.error e, s') := by
  change (match (x s).1 with
    | .ok a => f a
    | .error e => pure (.error e) : StateM σ (Except ε β)) (x s).2 = _
  rcases x s with ⟨_ | _, _⟩ <;> rfl

@[simp] theorem pure_run (a : α) (s : σ) :
    (pure a : ExceptT ε (StateM σ) α) s = (.ok a, s) := rfl

@[simp] theorem throw_run (e : ε) (s : σ) :
    (throw e : ExceptT ε (StateM σ) α) s = (.error e, s) := rfl

theorem bind_run_ok {x : ExceptT ε (StateM σ) α} {f : α → ExceptT ε (StateM σ) β} {s s' : σ} {a : α}
    (h : x s = (.ok a, s')) : (x >>= f) s = f a s' := by
  rw [bind_run, h]

theorem bind_run_error {x : ExceptT ε (StateM σ) α} {f : α → ExceptT ε (StateM σ) β} {s s' : σ}
    {e : ε} (h : x s = (.error e, s')) : (x >>= f) s = (.error e, s') := by
  rw [bind_run, h]

namespace Plan

variable {B : Bridge σ} {b : Bindings} {g : Progress}

/-- The progress after the array of parameter `i` was made. -/
def put (g : Progress) (i : Nat) (o : Obj) : Progress := { g with arrays := (i, o) :: g.arrays }

@[simp] theorem arrayAt_put (g : Progress) (i : Nat) (o : Obj) : arrayAt (put g i o) i = o := by
  simp [arrayAt, put]

theorem arrayAt_put_ne (g : Progress) {i j : Nat} (h : j ≠ i) (o : Obj) :
    arrayAt (put g i o) j = arrayAt g j := by
  have hne : (j == i) = false := by simpa using h
  simp only [arrayAt, put, List.lookup_cons, hne]

theorem ask_ok {m : σ → Except BridgeError α × σ} {s s' : σ} {a : α} (h : m s = (.ok a, s')) :
    RunM.ask m s = (.ok a, s') := by
  rw [RunM.ask, h]

theorem ask_error {m : σ → Except BridgeError α × σ} {s s' : σ} {e : BridgeError}
    (h : m s = (.error e, s')) : RunM.ask m s = (.error (.bridge e), s') := by
  rw [RunM.ask, h]

theorem blame_ok {m : RunM σ α} {s s' : σ} {a : α} (h : m s = (.ok a, s')) (st : Step) :
    blame st m s = (.ok a, s') := by
  rw [blame, h]

theorem blame_error {m : RunM σ α} {s s' : σ} {e : Cause} (h : m s = (.error e, s')) (st : Step) :
    blame st m s = (.error ⟨st, some e⟩, s') := by
  rw [blame, h]

theorem lookup_run {x : Except Cause α} {a : α} (h : x = .ok a) (s : σ) :
    (RunM.lookup x : RunM σ α) s = (.ok a, s) := by
  rw [RunM.lookup, h]

theorem steps_more {p : Plan} {o : Op} {rest : List Op} {s s' : σ} {g' : Progress}
    (h : p.step B b g o s = (.ok (.more g'), s')) :
    p.steps B b g (o :: rest) s = p.steps B b g' rest s' := by
  rw [steps, bind_run_ok h]

theorem steps_done {p : Plan} {o : Op} {rest : List Op} {s s' : σ} {r : Outcome}
    (h : p.step B b g o s = (.ok (.done r), s')) :
    p.steps B b g (o :: rest) s = (.ok r, s') := by
  rw [steps, bind_run_ok h]
  rfl

theorem steps_error {p : Plan} {o : Op} {rest : List Op} {s s' : σ} {f : Fatal}
    (h : p.step B b g o s = (.error f, s')) :
    p.steps B b g (o :: rest) s = (.error f, s') := by
  rw [steps, bind_run_error h]

section Checks

variable {p : Plan} {ty : ValueType}

theorem step_convert (h : g.result.letter = ty.letter) (s : σ) :
    p.step B b g (.convert ty) s = (.ok (.more g), s) := by
  rw [step, if_pos h]
  rfl

theorem step_convert_error (h : g.result.letter ≠ ty.letter) (s : σ) :
    p.step B b g (.convert ty) s
      = (.error ⟨.convert ty.display, some (.kind ⟨ty.letter, g.result.letter⟩)⟩, s) := by
  rw [step, if_neg h]
  rfl

theorem step_nullCheck (h : g.result.objectOrNull.isNull = false) (s : σ) :
    p.step B b g (.nullCheck ty) s = (.ok (.more g), s) := by
  rw [step, if_neg (by simp [h])]
  rfl

theorem step_nullCheck_error (h : g.result.objectOrNull.isNull = true) (s : σ) :
    p.step B b g (.nullCheck ty) s = (.error ⟨.nullCheck, none⟩, s) := by
  rw [step, if_pos h]
  rfl

theorem takeException_run {s s' : σ} {e : Option JavaException}
    (h : B.answer .catchException s = (e, s')) : takeException B s = (.ok e, s') := by
  rw [takeException, h]

theorem step_exceptionCheck {s s' : σ} (h : B.answer .catchException s = (none, s')) :
    p.step B b g .exceptionCheck s = (.ok (.more g), s') := by
  rw [step, bind_run_ok (takeException_run h)]
  rfl

theorem step_exceptionCheck_done {s s' : σ} {e : JavaException}
    (h : B.answer .catchException s = (some e, s')) :
    p.step B b g .exceptionCheck s = (.ok (.done { err := some e }), s') := by
  rw [step, bind_run_ok (takeException_run h)]
  rfl

end Checks

end Plan
end Run

/-! ### The parts of a plan -/

namespace Plan

theorem lower_ops (c : Call) :
    (lower c).ops = (c.params.zipIdx.flatMap fun x => buildOps x.2 x.1) ++ callOps c.ret := by
  simp only [lower, List.mapIdx_eq_zipIdx_map, List.flatMap_def]

theorem lower_args (c : Call) : (lower c).args = c.params.zipIdx.map fun x => argOf x.2 x.1 := by
  simp only [lower, List.mapIdx_eq_zipIdx_map]

theorem argOf_param (i : Nat) (p : Parameter) : (argOf i p).param = p := by
  unfold argOf
  split <;> rfl

section Literal

variable {c : Call} {p : Parameter} {i : Nat} {es : List Bytes}

theorem lower_args_getElem? (hp : c.params[i]? = some p) :
    (lower c).args[i]? = some (argOf i p) := by
  simp [lower, hp]

theorem varOf_lower (hp : c.params[i]? = some p) (hes : p.arg = .literal es) :
    (lower c).varOf i = arrayVar i := by
  simp [varOf, lower_args_getElem? hp, argOf, hes]

theorem elementsOf_lower (hp : c.params[i]? = some p) (hes : p.arg = .literal es) :
    (lower c).elementsOf i = es := by
  simp [elementsOf, lower_args_getElem? hp, Arg.elements, argOf_param, hes]

theorem elementOf_lower (hp : c.params[i]? = some p) (hes : p.arg = .literal es) {j : Nat}
    (hj : j < es.length) : (lower c).elementOf i j = es[j] := by
  simp [elementOf, elementsOf_lower hp hes, hj]

theorem buildOps_primitive (hes : p.arg = .literal es) (hty : p.ty.isObject = false) :
    buildOps i p = .newPrimitiveArray i es.length p.ty ::
      (if es.isEmpty then [] else [.fillPrimitiveArray i es.length p.ty]) := by
  obtain ⟨ty, arg, span⟩ := p
  simp only at hes hty
  subst hes
  cases ty with
  | java q s => rfl
  | host k s => rfl
  | object k => cases hty

end Literal

theorem exists_object {ty : ValueType} (h : ty.isObject = true) : ∃ k, ty = .object k := by
  cases ty with
  | java p s => cases h
  | host k s => cases h
  | object k => exact ⟨k, rfl⟩

theorem callOps_eq (r : ReturnSpec) :
    callOps r = .invoke :: .convert r.payload ::
      ((if r.isNullable then [Op.optionWrap r.payload]
        else if r.payload.isObject then [.nullCheck r.payload] else []) ++
      ((if r.isFallible then [Op.exceptionCheck] else []) ++ [Op.ret r.payload])) := by
  simp [callOps]

/-! ### Outcomes -/

/-- A reference that is not null is read back as it is. -/
theorem fromWire_reference {w : Wire} {k : ClassPath} (hletter : w.letter = objectLetter)
    (hnull : w.objectOrNull.isNull = false) :
    fromWire (.object k) w = .object w.objectOrNull := by
  cases w with
  | object o =>
    cases o with
    | null => cases hnull
    | nullRef => cases hnull
    | ref name isNull => rfl
    | array id => rfl
  | _ => exact absurd hletter (by simp +decide [Wire.letter, Primitive.letter, objectLetter])

theorem payload_of_isNullable {r : ReturnSpec} (h : r.isNullable = true) :
    ∃ k, r.payload = .object k := by
  cases r with
  | plain ok =>
    cases ok with
    | value ty => cases h
    | option k span => exact ⟨k, rfl⟩
  | result ok span =>
    cases ok with
    | value ty => cases h
    | option k span => exact ⟨k, rfl⟩

/-- The outcome of a result that passed all checks. -/
theorem outcome_eq {c : Call} {g : Progress} (hletter : g.result.letter = c.ret.payload.letter)
    (hpresent : c.ret.isNullable = true → g.isPresent = !g.result.objectOrNull.isNull) :
    (lower c).outcome g c.ret.payload =
      if c.ret.payload.isVoid then {}
      else if c.ret.isNullable && g.result.objectOrNull.isNull then {}
      else { value := fromWire c.ret.payload g.result, present := true } := by
  have hcall : (lower c).call = c := rfl
  cases hnullable : c.ret.isNullable with
  | false =>
    simp only [outcome, Shape.of, hcall, hnullable, Bool.false_and]
    cases c.ret.payload.isVoid <;> rfl
  | true =>
    obtain ⟨k, hk⟩ := payload_of_isNullable hnullable
    rw [hk] at hletter ⊢
    simp only [outcome, Shape.of, hcall, hk, hnullable, hpresent hnullable]
    cases hnull : g.result.objectOrNull.isNull with
    | true => rfl
    | false =>
      rw [fromWire_reference hletter hnull]
      rfl

end Plan
end BridgeCall
