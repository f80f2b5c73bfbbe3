/-
  BridgeCall/Proofs/Plan/FailStop.lean
  ====================================
  **Failures stop a call.**  Which operations a call asks of the bridge depends on
  the call alone (`Call.operations`).  What a recorder has written down after a
  run, whatever it was told to fail and whatever the expressions are bound to, is
  a beginning of that list, and an operation that failed is the last.

  `FailStop` says this of any part of a run.  It is closed under sequencing, so
  that one lemma for each kind of step gives it for whole runs.
-/
import BridgeCall.Proofs.Plan.Answer

namespace BridgeCall

/-! ### The operations of a call -/

/-- What was asked for, without the arguments of a method. -/
def Recorded.bare (r : Recorded) : Recorded := { r with args := [] }

/-- The operations that build the array of a parameter, none unless it is a literal. -/
def Parameter.operations (p : Parameter) : List Recorded :=
  match p.arg, p.ty with
  | .literal es, .object k =>
    { op := .newObjectArray, cls := k.internalName, len := es.length } ::
      (List.range es.length).map fun j : Nat => { op := .setObjectArrayElement, index := j }
  | .literal es, ty =>
    { op := .newArray (ty.primitive?.getD .void), len := es.length } ::
      (if es.isEmpty then []
        else [{ op := .setArrayRegion (ty.primitive?.getD .void), len := es.length }])
  | _, _ => []

namespace Call

/-- The operations before the method is called. -/
def builds (c : Call) : List Recorded := c.params.flatMap Parameter.operations

def invocation (c : Call) : Recorded :=
  match c.target with
  | .static k _ =>
    { op := .callStaticMethod, cls := k.internalName, name := c.method, sig := c.signature }
  | .object _ _ => { op := .callMethod, name := c.method, sig := c.signature }

/-- All operations of a call that nothing stops. -/
def operations (c : Call) : List Recorded :=
  c.builds ++ c.invocation :: (if c.ret.isFallible then [{ op := .catchException }] else [])

end Call

/-! ### Parts of a run that stop at a failure -/

section FailStop

variable {ε α β : Type} {cause : ε → Option Cause}

/-- How a part of a run left the recorder and ended: it has written down a beginning of the planned
    operations, all of them if it succeeded. One that was told to fail has nothing after it and is
    the cause of the error. Taking the exception never fails. -/
structure Stopped (cause : ε → Option Cause) (planned new : List Recorded) (s s' : Recorder)
    (res : Except ε α) : Prop where
  calls : s'.calls = s.calls ++ new
  fail : s'.fail = s.fail
  beginning : new.map Recorded.bare <+: planned
  complete : ∀ a, res = .ok a → new.map Recorded.bare = planned
  last : ∀ before (r : Recorded) after t, new = before ++ r :: after → r.op ≠ .catchException →
    s.fail.lookup r.op.name = some t →
    after = [] ∧ ∃ e, res = .error e ∧ cause e = some (.bridge (.told t))

/-- A part of a run that asks for the planned operations until one of them fails. -/
def FailStop (cause : ε → Option Cause) (planned : List Recorded)
    (m : ExceptT ε (StateM Recorder) α) : Prop :=
  ∀ s, ∃ new, Stopped cause planned new s (m s).2 (m s).1

/-- A part that leaves the recorder alone. -/
theorem failStop_still {m : ExceptT ε (StateM Recorder) α} (h : ∀ s, (m s).2 = s) :
    FailStop cause [] m := by
  intro s
  rw [h s]
  refine ⟨[], by simp, rfl, by simp, fun _ _ => rfl, ?_⟩
  intro before r after t hnew
  simp at hnew

/-- One part after the other. The second has to stop only for what the first can give. -/
theorem FailStop.bind {m : ExceptT ε (StateM Recorder) α} {f : α → ExceptT ε (StateM Recorder) β}
    {planned planned' : List Recorded} (hm : FailStop cause planned m)
    (hf : ∀ a s s', m s = (.ok a, s') → FailStop cause planned' (f a)) :
    FailStop cause (planned ++ planned') (m >>= f) := by
  intro s
  obtain ⟨new, h⟩ := hm s
  cases hres : m s with
  | mk res s₁ =>
    rw [hres] at h
    cases res with
    | error e =>
      rw [bind_run_error hres]
      refine ⟨new, h.calls, h.fail, h.beginning.trans (List.prefix_append _ _), ?_, ?_⟩
      · intro b hb
        cases hb
      intro before r after t hnew hop ht
      obtain ⟨hafter, e', he', hcause⟩ := h.last before r after t hnew hop ht
      cases he'
      exact ⟨hafter, e, rfl, hcause⟩
    | ok a =>
      obtain ⟨new', h'⟩ := hf a s s₁ hres s₁
      rw [bind_run_ok hres]
      have hall := h.complete a rfl
      refine ⟨new ++ new', ?_, h'.fail.trans h.fail, ?_, ?_, ?_⟩
      · rw [h'.calls, h.calls, List.append_assoc]
      · rw [List.map_append, hall]
        exact (List.prefix_append_right_inj _).mpr h'.beginning
      · intro b hb
        rw [List.map_append, hall, h'.complete b hb]
      · intro before r after t hnew hop ht
        -- the first part succeeded, so what failed is in the second
        have ht' : s₁.fail.lookup r.op.name = some t := by rw [h.fail, ht]
        rcases List.append_eq_append_iff.mp hnew with ⟨mid, -, hsecond⟩ | ⟨mid, hfirst, hsecond⟩
        · exact h'.last mid r after t hsecond hop ht'
        · cases mid with
          | nil => exact h'.last [] r after t hsecond.symm hop ht'
          | cons x mid =>
            obtain ⟨rfl, -⟩ := List.cons.inj hsecond
            obtain ⟨-, e, he, -⟩ := h.last before r mid t hfirst hop ht
            cases he

theorem FailStop.seq {m : ExceptT ε (StateM Recorder) α} {f : α → ExceptT ε (StateM Recorder) β}
    {planned : List Recorded} (hm : FailStop cause planned m)
    (hf : ∀ a, FailStop cause [] (f a)) : FailStop cause planned (m >>= f) := by
  have h := hm.bind fun a _ _ _ => hf a
  rwa [List.append_nil] at h

end FailStop

/-! ### The recorder -/

namespace Recorder

variable {α β : Type}

/-- The bridge is changed in its arrays and its pending exception at most. -/
def Quiet (m : BridgeM α) : Prop := ∀ s, (m s).2.calls = s.calls ∧ (m s).2.fail = s.fail

theorem quiet_pure (a : α) : Quiet (pure a) := fun _ => ⟨rfl, rfl⟩

theorem quiet_throw (e : BridgeError) : Quiet (throw e : BridgeM α) := fun _ => ⟨rfl, rfl⟩

theorem Quiet.bind {m : BridgeM α} {f : α → BridgeM β} (hm : Quiet m) (hf : ∀ a, Quiet (f a)) :
    Quiet (m >>= f) := by
  intro s
  obtain ⟨hcalls, hfail⟩ := hm s
  cases hres : m s with
  | mk res s₁ =>
    rw [hres] at hcalls hfail
    cases res with
    | error e =>
      rw [bind_run_error hres]
      exact ⟨hcalls, hfail⟩
    | ok a =>
      rw [bind_run_ok hres]
      obtain ⟨hcalls', hfail'⟩ := hf a s₁
      exact ⟨hcalls'.trans hcalls, hfail'.trans hfail⟩

theorem quiet_get : Quiet (get : BridgeM Recorder) := fun _ => ⟨rfl, rfl⟩

theorem quiet_arrayOf (op : BridgeOp) (o : Obj) : Quiet (arrayOf op o) := by
  apply quiet_get.bind
  intro s
  simp only
  split
  · split
    · exact quiet_pure _
    · exact quiet_throw _
  · exact quiet_throw _

theorem quiet_store (id : Nat) (a : JavaArray) : Quiet (store id a) := fun _ => ⟨rfl, rfl⟩

/-- The computation writes one operation down, and ends there if that was told to fail. -/
def Writes (m : BridgeM α) (r : Recorded) : Prop :=
  ∀ s, (m s).2.calls = s.calls ++ [r] ∧ (m s).2.fail = s.fail ∧
    ∀ t, s.fail.lookup r.op.name = some t → (m s).1 = .error (.told t)

theorem record_cases (r : Recorded) (s : Recorder) :
    (∃ t, s.fail.lookup r.op.name = some t ∧ record r s = (.error (.told t), s.wrote r)) ∨
      s.fail.lookup r.op.name = none ∧ record r s = (.ok (), s.wrote r) := by
  have hmodify : (modify fun s => { s with calls := s.calls ++ [r] } : BridgeM PUnit) s
      = (.ok (), s.wrote r) := rfl
  have hget : (get : BridgeM Recorder) (s.wrote r) = (.ok (s.wrote r), s.wrote r) := rfl
  have hfail : (s.wrote r).fail = s.fail := rfl
  rw [record, bind_run_ok hmodify, bind_run_ok hget, hfail]
  cases s.fail.lookup r.op.name with
  | some t => exact .inl ⟨t, rfl, rfl⟩
  | none => exact .inr ⟨rfl, rfl⟩

theorem writes_record {r : Recorded} {f : Unit → BridgeM α} (hf : Quiet (f ())) :
    Writes (record r >>= f) r := by
  intro s
  rcases record_cases r s with ⟨t, ht, hrun⟩ | ⟨hnone, hrun⟩
  · rw [bind_run_error hrun]
    refine ⟨rfl, rfl, ?_⟩
    intro t' ht'
    rw [ht] at ht'
    cases ht'
    rfl
  · rw [bind_run_ok hrun]
    obtain ⟨hcalls, hfail⟩ := hf (s.wrote r)
    refine ⟨hcalls, hfail, ?_⟩
    intro t ht
    rw [hnone] at ht
    cases ht

theorem writes_invoke (r : Recorded) : Writes (invoke r) r := writes_record fun _ => ⟨rfl, rfl⟩

theorem writes_newArrayOf (p : Primitive) (n : Nat) :
    Writes (newArrayOf p n) { op := .newArray p, len := n } := writes_record fun _ => ⟨rfl, rfl⟩

theorem writes_newObjectArrayOf (n : Nat) (cls : Bytes) (init : Obj) :
    Writes (newObjectArrayOf n cls init) { op := .newObjectArray, cls, len := n } :=
  writes_record fun _ => ⟨rfl, rfl⟩

theorem writes_setArrayRegion (p : Primitive) (arr : Obj) (start : Int) (buf : List HostValue) :
    Writes (setArrayRegion p arr start buf)
      { op := .setArrayRegion p, index := start, len := buf.length } := by
  apply writes_record
  apply (quiet_arrayOf _ arr).bind
  rintro ⟨id, a⟩
  simp only
  split
  · exact quiet_throw _
  · split
    · exact quiet_throw _
    · exact quiet_store id _

theorem writes_setObjectArrayElement (arr : Obj) (index : Int) (v : Obj) :
    Writes (setObjectArrayElement arr index v) { op := .setObjectArrayElement, index } := by
  apply writes_record
  apply (quiet_arrayOf _ arr).bind
  rintro ⟨id, a⟩
  simp only
  split
  · exact quiet_throw _
  · exact quiet_store id _

end Recorder

/-! ### Steps -/

namespace Plan

open Recorder

variable {α : Type}

/-- A request that is written down once stops the run if it fails. -/
theorem ask_failStop {m : BridgeM α} {r : Recorded} (h : Writes m r) :
    FailStop some [r.bare] (RunM.ask m) := by
  intro s
  obtain ⟨hcalls, hfail, htold⟩ := h s
  have hstate : (RunM.ask m s).2 = (m s).2 := by
    unfold RunM.ask
    split <;> simp_all
  refine ⟨[r], by rw [hstate, hcalls], by rw [hstate, hfail], List.prefix_refl _, fun _ _ => rfl, ?_⟩
  intro before x after t hnew hop ht
  obtain ⟨rfl, rfl, rfl⟩ : before = [] ∧ x = r ∧ after = [] := by
    cases before with
    | nil => cases hnew; exact ⟨rfl, rfl, rfl⟩
    | cons y before => simp at hnew
  refine ⟨rfl, .bridge (.told t), ?_, rfl⟩
  have hm : m s = (.error (.told t), (m s).2) := Prod.ext (htold t ht) rfl
  rw [ask_error hm]

theorem blame_failStop {m : RunM Recorder α} {planned : List Recorded}
    (h : FailStop some planned m) (st : Step) : FailStop Fatal.cause planned (blame st m) := by
  intro s
  obtain ⟨new, hm⟩ := h s
  cases hres : m s with
  | mk res s₁ =>
    rw [hres] at hm
    cases res with
    | ok a =>
      rw [blame_ok hres st]
      refine ⟨new, hm.calls, hm.fail, hm.beginning, fun _ _ => hm.complete a rfl, ?_⟩
      intro before r after t hnew hop ht
      obtain ⟨-, e, he, -⟩ := hm.last before r after t hnew hop ht
      cases he
    | error e =>
      rw [blame_error hres st]
      refine ⟨new, hm.calls, hm.fail, hm.beginning, ?_, ?_⟩
      · intro a ha
        cases ha
      intro before r after t hnew hop ht
      obtain ⟨hafter, e', he, hcause⟩ := hm.last before r after t hnew hop ht
      cases he
      exact ⟨hafter, _, rfl, hcause⟩

theorem takeException_failStop :
    FailStop Fatal.cause [{ op := .catchException }] (takeException Recorder.bridge) := by
  intro s
  refine ⟨[{ op := .catchException }], rfl, rfl, List.prefix_refl _, fun _ _ => rfl, ?_⟩
  intro before r after t hnew hop
  have hmem : r ∈ [({ op := .catchException } : Recorded)] := by rw [hnew]; simp
  rw [List.mem_singleton] at hmem
  rw [hmem] at hop
  exact absurd rfl hop

theorem lookup_failStop (x : Except Cause α) : FailStop some [] (RunM.lookup x) :=
  failStop_still fun _ => rfl

theorem argValue_failStop (b : Bindings) (g : Progress) (i : Nat) (a : Arg) :
    FailStop some [] (argValue Recorder.bridge b g i a) := by
  have hobject (v : Bytes) : FailStop some [] (do
      return Wire.object (← RunM.lookup (b.object v)) : RunM Recorder Wire) := by
    apply (lookup_failStop (b.object v)).seq
    intro o
    exact failStop_still fun _ => rfl
  unfold argValue
  split
  · exact failStop_still fun _ => rfl
  · exact hobject _
  · split
    · exact hobject _
    · exact failStop_still fun _ => rfl

theorem argValues_failStop (b : Bindings) (g : Progress) (i : Nat) (args : List Arg) :
    FailStop some [] (argValues Recorder.bridge b g i args) := by
  induction args generalizing i with
  | nil => exact failStop_still fun _ => rfl
  | cons a args ih =>
    apply (argValue_failStop b g i a).seq
    intro w
    apply (ih (i + 1)).seq
    intro ws
    exact failStop_still fun _ => rfl

theorem elementWires_failStop (b : Bindings) (ty : ValueType) (es : List Bytes) :
    FailStop some [] (elementWires Recorder.bridge b ty es) := by
  induction es with
  | nil => exact failStop_still fun _ => rfl
  | cons e es ih =>
    apply FailStop.seq (failStop_still fun _ => rfl)
    intro w
    apply ih.seq
    intro ws
    exact failStop_still fun _ => rfl

theorem elementWires_length {σ : Type} {B : Bridge σ} {b : Bindings} {ty : ValueType}
    {es : List Bytes} {ws : List Wire} {s s' : σ}
    (h : elementWires B b ty es s = (.ok ws, s')) : ws.length = es.length := by
  induction es generalizing ws s s' with
  | nil =>
    cases h
    rfl
  | cons e es ih =>
    rw [elementWires, bind_run] at h
    split at h
    · rw [bind_run] at h
      split at h
      · rename_i hrest
        cases h
        rw [List.length_cons, List.length_cons, ih hrest]
      · cases h
    · cases h

theorem fill_failStop (p : Plan) (b : Bindings) (g : Progress) (i : Nat) (ty : ValueType) :
    FailStop some
      [{ op := .setArrayRegion (ty.primitive?.getD .void), len := (p.elementsOf i).length }]
      (p.fill Recorder.bridge b g i ty) := by
  apply (elementWires_failStop b ty (p.elementsOf i)).bind
  intro ws s s' hws
  have hwrites := writes_setArrayRegion (ty.primitive?.getD .void) (arrayAt g i) 0
    (ws.map Wire.raw)
  rw [List.length_map, elementWires_length hws] at hwrites
  exact ask_failStop hwrites

theorem invoke_failStop (c : Call) (b : Bindings) (g : Progress) :
    FailStop some [c.invocation] ((lower c).invoke Recorder.bridge b g) := by
  apply (argValues_failStop b g 0 (lower c).args).bind
  intro ws _ _ _
  have hcall : (lower c).call = c := rfl
  rw [hcall, Call.invocation]
  cases c.target with
  | static k span =>
    exact ask_failStop (writes_invoke { op := .callStaticMethod, cls := k.internalName
                                        name := c.method, sig := c.signature, args := ws })
  | object r span =>
    apply (lookup_failStop (b.object r)).bind
    intro o _ _ _
    exact ask_failStop (writes_invoke { op := .callMethod, name := c.method, sig := c.signature
                                        args := ws })

/-- The operations of one step. -/
def writes (c : Call) : Op → List Recorded
  | .newPrimitiveArray _ n ty => [{ op := .newArray (ty.primitive?.getD .void), len := n }]
  | .fillPrimitiveArray i _ ty =>
    [{ op := .setArrayRegion (ty.primitive?.getD .void), len := ((lower c).elementsOf i).length }]
  | .newObjectArray _ n k => [{ op := .newObjectArray, cls := k.internalName, len := n }]
  | .setObjectElement _ j _ => [{ op := .setObjectArrayElement, index := j }]
  | .invoke => [c.invocation]
  | .exceptionCheck => [{ op := .catchException }]
  | .convert _ | .nullCheck _ | .optionWrap _ | .ret _ => []

theorem step_failStop (c : Call) (b : Bindings) (g : Progress) (o : Op) :
    FailStop Fatal.cause (writes c o) ((lower c).step Recorder.bridge b g o) := by
  cases o with
  | newPrimitiveArray i n ty =>
    apply (blame_failStop (ask_failStop (writes_newArrayOf _ n)) _).seq
    intro o
    exact failStop_still fun _ => rfl
  | fillPrimitiveArray i n ty =>
    apply (blame_failStop (fill_failStop (lower c) b g i ty) _).seq
    intro _
    exact failStop_still fun _ => rfl
  | newObjectArray i n k =>
    apply (blame_failStop (ask_failStop (writes_newObjectArrayOf n k.internalName .null)) _).seq
    intro o
    exact failStop_still fun _ => rfl
  | setObjectElement i j k =>
    apply FailStop.seq
    · apply blame_failStop
      apply (lookup_failStop (b.object ((lower c).elementOf i j))).bind
      intro o _ _ _
      exact ask_failStop (writes_setObjectArrayElement (arrayAt g i) j o)
    · intro _
      exact failStop_still fun _ => rfl
  | invoke =>
    apply (blame_failStop (invoke_failStop c b g) _).seq
    intro w
    exact failStop_still fun _ => rfl
  | convert ty =>
    apply failStop_still
    intro s
    rw [step]
    split <;> rfl
  | nullCheck ty =>
    apply failStop_still
    intro s
    rw [step]
    split <;> rfl
  | optionWrap ty => exact failStop_still fun _ => rfl
  | exceptionCheck =>
    apply takeException_failStop.seq
    intro e
    cases e with
    | some e => exact failStop_still fun _ => rfl
    | none => exact failStop_still fun _ => rfl
  | ret ty => exact failStop_still fun _ => rfl

/-! ### Runs -/

/-- The steps that may end a run with an outcome. -/
def ends : Op → Bool
  | .exceptionCheck | .ret _ => true
  | _ => false

section Bridge

variable {σ : Type} {B : Bridge σ} {p : Plan} {b : Bindings} {g : Progress}

/-- What a step leaves behind: only the method sets the result, and few steps end the run. -/
def Follows (g : Progress) (o : Op) : Next → Prop
  | .more g' => o ≠ .invoke → g'.result = g.result
  | .done _ => ends o = true

theorem step_follows {o : Op} {s s' : σ} {next : Next}
    (h : p.step B b g o s = (.ok next, s')) : Follows g o next := by
  have hbind {β : Type} {x : ExceptT Fatal (StateM σ) β} {f : β → Next}
      (h : (x >>= fun a => pure (f a)) s = (.ok next, s')) (hf : ∀ a, Follows g o (f a)) :
      Follows g o next := by
    rw [bind_run] at h
    split at h
    · cases h
      exact hf _
    · cases h
  cases o with
  | newPrimitiveArray i n ty => exact hbind h fun _ _ => rfl
  | fillPrimitiveArray i n ty => exact hbind h fun _ _ => rfl
  | newObjectArray i n k => exact hbind h fun _ _ => rfl
  | setObjectElement i j k => exact hbind h fun _ _ => rfl
  | invoke => exact hbind h fun _ ho => absurd rfl ho
  | convert ty =>
    rw [step] at h
    split at h <;> cases h
    exact fun _ => rfl
  | nullCheck ty =>
    rw [step] at h
    split at h <;> cases h
    exact fun _ => rfl
  | optionWrap ty =>
    cases h
    exact fun _ => rfl
  | exceptionCheck =>
    rw [step, bind_run] at h
    split at h
    · split at h <;> cases h
      · rfl
      · exact fun _ => rfl
    · cases h
  | ret ty =>
    cases h
    rfl

/-- Steps that cannot end a run break it or leave it to the steps after them. -/
theorem steps_append {ops : List Op} (hops : ∀ o ∈ ops, ends o = false) (s : σ) :
    (∃ f s', ∀ rest, p.steps B b g (ops ++ rest) s = (.error f, s')) ∨
      ∃ g' s', ∀ rest, p.steps B b g (ops ++ rest) s = p.steps B b g' rest s' := by
  induction ops generalizing g s with
  | nil => exact .inr ⟨g, s, fun _ => rfl⟩
  | cons o ops ih =>
    cases hstep : p.step B b g o s with
    | mk res s₁ =>
      cases res with
      | error f => exact .inl ⟨f, s₁, fun _ => steps_error hstep⟩
      | ok next =>
        cases next with
        | done r =>
          have hend : ends o = true := step_follows hstep
          rw [hops o (by simp)] at hend
          cases hend
        | more g₁ =>
          have hrest := ih (fun o ho => hops o (by simp [ho])) (g := g₁) s₁
          simpa only [List.cons_append, steps_more hstep] using hrest

end Bridge

/-- Steps stop at a failure when nothing is written down after one that may end the run. -/
theorem steps_failStop (c : Call) (b : Bindings) {ops : List Op}
    (hops : ops.Pairwise fun o o' => ends o = true → writes c o' = []) (g : Progress) :
    FailStop Fatal.cause (ops.flatMap (writes c)) ((lower c).steps Recorder.bridge b g ops) := by
  induction ops generalizing g with
  | nil => exact failStop_still fun _ => rfl
  | cons o ops ih =>
    rw [List.pairwise_cons] at hops
    rw [List.flatMap_cons, steps]
    apply (step_failStop c b g o).bind
    intro next s s' hstep
    cases next with
    | more g' => exact ih hops.2 g'
    | done r =>
      have hnone : ops.flatMap (writes c) = [] := by
        rw [List.flatMap_eq_nil_iff]
        intro o' ho'
        exact hops.1 o' ho' (step_follows hstep)
      rw [hnone]
      exact failStop_still fun _ => rfl

theorem ends_buildOps {i : Nat} {p : Parameter} {o : Op} (h : o ∈ buildOps i p) :
    ends o = false := by
  unfold buildOps at h
  split at h
  · rcases List.mem_cons.mp h with rfl | h
    · rfl
    · obtain ⟨j, -, rfl⟩ := List.mem_map.mp h
      rfl
  · rcases List.mem_cons.mp h with rfl | h
    · rfl
    · split at h
      · cases h
      · rw [List.mem_singleton.mp h]
        rfl
  · cases h

theorem ends_builders (c : Call) : ∀ o ∈ (c.params.mapIdx buildOps).flatten, ends o = false := by
  intro o ho
  obtain ⟨ops, hops, ho⟩ := List.mem_flatten.mp ho
  obtain ⟨i, hi, rfl⟩ := List.mem_mapIdx.mp hops
  exact ends_buildOps ho

theorem writes_buildOps {c : Call} {i : Nat} {p : Parameter} (hp : c.params[i]? = some p) :
    (buildOps i p).flatMap (writes c) = p.operations := by
  cases harg : p.arg with
  | single v => simp [buildOps, Parameter.operations, harg]
  | array v => simp [buildOps, Parameter.operations, harg]
  | literal es =>
    cases hobj : p.ty.isObject with
    | true =>
      obtain ⟨k, hk⟩ := exists_object hobj
      simp [buildOps, Parameter.operations, harg, hk, writes, List.map_eq_flatMap, List.flatMap_assoc]
    | false =>
      have hplain : p.operations = { op := .newArray (p.ty.primitive?.getD .void), len := es.length } ::
          (if es.isEmpty then []
            else [{ op := .setArrayRegion (p.ty.primitive?.getD .void), len := es.length }]) := by
        obtain ⟨ty, arg, span⟩ := p
        simp only at harg hobj
        subst harg
        cases ty with
        | java q s => rfl
        | host k s => rfl
        | object k => cases hobj
      rw [buildOps_primitive harg hobj, hplain, List.flatMap_cons]
      cases hempty : es.isEmpty with
      | true => rfl
      | false => simp [writes, elementsOf_lower hp harg]

theorem writes_builders (c : Call) :
    (c.params.mapIdx buildOps).flatten.flatMap (writes c) = c.builds := by
  have hparams : ∀ x ∈ c.params.zipIdx, (buildOps x.2 x.1).flatMap (writes c) = x.1.operations := by
    intro x hx
    exact writes_buildOps (List.mem_zipIdx_iff_getElem?.mp hx)
  rw [List.mapIdx_eq_zipIdx_map, ← List.flatMap_def, List.flatMap_assoc, List.flatMap_congr hparams,
    ← List.flatMap_map, List.zipIdx_map_fst, Call.builds]

/-- The checks of a converted result. -/
def checkOps (r : ReturnSpec) : List Op :=
  (if r.isNullable then [Op.optionWrap r.payload]
    else if r.payload.isObject then [.nullCheck r.payload] else [])
    ++ if r.isFallible then [Op.exceptionCheck] else []

theorem callOps_checks (r : ReturnSpec) :
    callOps r = .invoke :: .convert r.payload :: (checkOps r ++ [Op.ret r.payload]) := by
  rw [callOps_eq, checkOps, List.append_assoc]

theorem mem_checkOps {r : ReturnSpec} {o : Op} (h : o ∈ checkOps r) :
    o = .optionWrap r.payload ∨ o = .nullCheck r.payload ∨ o = .exceptionCheck := by
  rcases List.mem_append.mp h with h | h
  · split at h
    · exact .inl (List.mem_singleton.mp h)
    · split at h
      · exact .inr (.inl (List.mem_singleton.mp h))
      · cases h
  · split at h
    · exact .inr (.inr (List.mem_singleton.mp h))
    · cases h

theorem writes_callOps (c : Call) :
    (callOps c.ret).flatMap (writes c)
      = c.invocation :: (if c.ret.isFallible then [{ op := .catchException }] else []) := by
  have hchecks : (checkOps c.ret).flatMap (writes c)
      = if c.ret.isFallible then [{ op := .catchException }] else [] := by
    rw [checkOps, List.flatMap_append]
    cases c.ret.isNullable <;> cases c.ret.payload.isObject <;> cases c.ret.isFallible <;> rfl
  rw [callOps_checks]
  simp only [List.flatMap_cons, List.flatMap_append, hchecks, writes]
  simp

theorem pairwise_append {c : Call} {ops rest : List Op} (hops : ∀ o ∈ ops, ends o = false)
    (hrest : rest.Pairwise fun o o' => ends o = true → writes c o' = []) :
    (ops ++ rest).Pairwise fun o o' => ends o = true → writes c o' = [] := by
  induction ops with
  | nil => exact hrest
  | cons o ops ih =>
    apply List.Pairwise.cons
    · intro o' _ hend
      rw [hops o (by simp)] at hend
      cases hend
    · exact ih fun o ho => hops o (by simp [ho])

/-- Only the return comes after a step that may end the run. -/
theorem pairwise_callOps (c : Call) :
    (callOps c.ret).Pairwise fun o o' => ends o = true → writes c o' = [] := by
  have hlast : (callOps c.ret).Pairwise fun o o' => ends o = true → o' = .ret c.ret.payload := by
    rw [callOps_checks, checkOps]
    cases c.ret.isNullable <;> cases c.ret.payload.isObject <;> cases c.ret.isFallible <;>
      simp [ends]
  apply hlast.imp
  intro o o' hret hend
  rw [hret hend, writes]

theorem builders_failStop (c : Call) (b : Bindings) (g : Progress) :
    FailStop Fatal.cause c.builds
      ((lower c).steps Recorder.bridge b g (c.params.mapIdx buildOps).flatten) := by
  have h := steps_failStop c b (pairwise_append (ends_builders c) .nil) g
  rwa [List.append_nil, writes_builders] at h

theorem run_failStop (c : Call) (b : Bindings) :
    FailStop Fatal.cause c.operations ((lower c).run b) := by
  have h := steps_failStop c b (pairwise_append (ends_builders c) (pairwise_callOps c)) {}
  rwa [List.flatMap_append, writes_builders, writes_callOps] at h

/-- No operation that builds an array calls a method. -/
theorem builds_not_call {c : Call} {r : Recorded} (h : r ∈ c.builds) :
    r.op ≠ .callMethod ∧ r.op ≠ .callStaticMethod := by
  obtain ⟨p, -, hr⟩ := List.mem_flatMap.mp h
  unfold Parameter.operations at hr
  split at hr
  · rcases List.mem_cons.mp hr with rfl | hr
    · simp
    · obtain ⟨j, -, rfl⟩ := List.mem_map.mp hr
      simp
  · rcases List.mem_cons.mp hr with rfl | hr
    · simp
    · split at hr
      · cases hr
      · rw [List.mem_singleton.mp hr]
        simp
  · cases hr

/-! ### Reading the result with a check -/

/-- Why a run gave no outcome. -/
inductive RunError where
  | fatal (f : Fatal)
  /-- The result was read as another kind than its own. -/
  | unread (m : KindMismatch)
  deriving DecidableEq, Repr

/-- Reads a result as a value of its type, with its kind checked once more. -/
def readResult (ty : ValueType) (w : Wire) : Except KindMismatch HostValue :=
  if ty.isVoid then .ok .absent else (w.read ty.letter).map fun _ => fromWire ty w

def readOutcome (p : Plan) (g : Progress) (ty : ValueType) : Except KindMismatch Outcome :=
  let shape := Shape.of p.call.ret
  if shape.value && !shape.optional then
    (readResult ty g.result).map fun v => { value := v, present := true }
  else .ok (p.outcome g ty)

section Checked

variable {σ : Type} (B : Bridge σ)

/-- Carries out steps as `steps` does, but trusts no earlier check when the result is read. -/
def execSteps (p : Plan) (b : Bindings) (g : Progress) :
    List Op → σ → Except RunError Outcome × σ
  | [], s => (.ok {}, s)
  | .ret ty :: _, s => ((p.readOutcome g ty).mapError .unread, s)
  | o :: rest, s =>
    match p.step B b g o s with
    | (.error f, s) => (.error (.fatal f), s)
    | (.ok (.done r), s) => (.ok r, s)
    | (.ok (.more g), s) => p.execSteps b g rest s

def execOn (p : Plan) (b : Bindings) (s : σ) : Except RunError Outcome × σ :=
  p.execSteps B b {} p.ops s

variable {B} {p : Plan} {b : Bindings}

theorem readOutcome_eq {g : Progress} {ty : ValueType} (h : g.result.letter = ty.letter) :
    p.readOutcome g ty = .ok (p.outcome g ty) := by
  have hresult : readResult ty g.result = .ok (fromWire ty g.result) := by
    unfold readResult
    split
    · rename_i hvoid
      obtain ⟨span, rfl⟩ : ∃ span, ty = .java .void span := by
        unfold ValueType.isVoid at hvoid
        split at hvoid
        · exact ⟨_, rfl⟩
        · cases hvoid
      cases hw : g.result with
      | void => rfl
      | _ =>
        rw [hw] at h
        exact absurd h (by simp +decide [Wire.letter, ValueType.letter, Primitive.letter])
    · rw [Wire.read, if_pos h]
      rfl
  unfold readOutcome outcome
  rw [hresult]
  obtain ⟨value, optional, fallible⟩ := Shape.of p.call.ret
  cases value <;> cases optional <;> rfl

theorem execSteps_cons {o : Op} (ho : ∀ ty, o ≠ .ret ty) (rest : List Op) (g : Progress) (s : σ) :
    p.execSteps B b g (o :: rest) s =
      match p.step B b g o s with
      | (.error f, s) => (.error (.fatal f), s)
      | (.ok (.done r), s) => (.ok r, s)
      | (.ok (.more g), s) => p.execSteps B b g rest s := by
  cases o with
  | ret ty => exact absurd rfl (ho ty)
  | _ => rfl

/-- The check makes no difference before the return, if it makes none after a property that the
    steps keep. -/
theorem execSteps_append {P : Progress → Prop} {ops rest : List Op}
    (hops : ∀ o ∈ ops, ∀ ty, o ≠ .ret ty)
    (hkeeps : ∀ o ∈ ops, ∀ g g' s s', P g → p.step B b g o s = (.ok (.more g'), s') → P g')
    (hrest : ∀ g s, P g → p.execSteps B b g rest s
      = Prod.map (Except.mapError .fatal) id (p.steps B b g rest s))
    {g : Progress} (hg : P g) (s : σ) :
    p.execSteps B b g (ops ++ rest) s
      = Prod.map (Except.mapError .fatal) id (p.steps B b g (ops ++ rest) s) := by
  induction ops generalizing g s with
  | nil => exact hrest g s hg
  | cons o ops ih =>
    rw [List.cons_append, execSteps_cons (hops o (by simp))]
    cases hstep : p.step B b g o s with
    | mk res s₁ =>
      cases res with
      | error f =>
        rw [steps_error hstep]
        rfl
      | ok next =>
        cases next with
        | done r =>
          rw [steps_done hstep]
          rfl
        | more g₁ =>
          rw [steps_more hstep]
          exact ih (fun o ho => hops o (by simp [ho])) (fun o ho => hkeeps o (by simp [ho]))
            (hkeeps o (by simp) g g₁ s s₁ hg hstep) s₁

theorem execSteps_convert (r : ReturnSpec) (g : Progress) (s : σ) :
    p.execSteps B b g (callOps r).tail s
      = Prod.map (Except.mapError .fatal) id (p.steps B b g (callOps r).tail s) := by
  rw [callOps_checks, List.tail_cons, execSteps_cons (by simp)]
  by_cases hletter : g.result.letter = r.payload.letter
  · rw [steps_more (step_convert hletter s), step_convert hletter s]
    -- the checks keep the result, whose kind is now known
    have hother : ∀ o ∈ checkOps r, (∀ ty, o ≠ .ret ty) ∧ o ≠ .invoke := by
      intro o ho
      rcases mem_checkOps ho with rfl | rfl | rfl <;> simp
    apply execSteps_append (P := fun g => g.result.letter = r.payload.letter)
    · intro o ho
      exact (hother o ho).1
    · intro o ho g g' s s' hg hstep
      have hsame : g'.result = g.result := step_follows hstep (hother o ho).2
      rw [hsame, hg]
    · intro g s hg
      rw [execSteps, readOutcome_eq hg]
      rfl
    · exact hletter
  · rw [steps_error (step_convert_error hletter s), step_convert_error hletter s]
    rfl

/-- The check of the result never fails: the steps of a call give the same with it and without. -/
theorem execOn_eq (c : Call) (b : Bindings) (s : σ) :
    (lower c).execOn B b s = Prod.map (Except.mapError .fatal) id ((lower c).runOn B b s) := by
  have hcall (g : Progress) (s : σ) : (lower c).execSteps B b g (callOps c.ret) s
      = Prod.map (Except.mapError .fatal) id ((lower c).steps B b g (callOps c.ret) s) := by
    have hsplit : callOps c.ret = [Op.invoke] ++ (callOps c.ret).tail := rfl
    rw [hsplit]
    apply execSteps_append (P := fun _ => True)
    · simp
    · simp
    · intro g s _
      exact execSteps_convert c.ret g s
    · trivial
  apply execSteps_append (P := fun _ => True)
  · intro o ho ty hty
    have hend := ends_builders c o ho
    rw [hty] at hend
    cases hend
  · simp
  · intro g s _
    exact hcall g s
  · trivial

end Checked

def exec (p : Plan) (b : Bindings) (s : Recorder) : Except RunError Outcome × Recorder :=
  p.execOn Recorder.bridge b s

/-- After the method only the exception is asked for. -/
theorem first_of_call {c : Call} {new before after : List Recorded} {r : Recorded}
    (hbegin : new.map Recorded.bare <+: (callOps c.ret).flatMap (writes c))
    (hnew : new = before ++ r :: after) (hop : r.op ≠ .catchException) : before = [] := by
  cases before with
  | nil => rfl
  | cons x before =>
    rw [writes_callOps, hnew, List.cons_append, List.map_cons, List.cons_prefix_cons] at hbegin
    have hmem : r.bare ∈ (if c.ret.isFallible then [{ op := .catchException }] else []) :=
      hbegin.2.subset (by simp)
    split at hmem
    · have hbare : r.bare.op = .catchException := by rw [List.mem_singleton.mp hmem]
      exact absurd hbare hop
    · cases hmem

/-- A method is called only when every step that builds an array has succeeded. -/
theorem built_before_call {c : Call} {b : Bindings} {s : Recorder} {before after : List Recorded}
    {r : Recorded} (hcalls : ((lower c).run b s).2.calls = s.calls ++ (before ++ r :: after))
    (hop : r.op = .callMethod ∨ r.op = .callStaticMethod) :
    before.map Recorded.bare = c.builds ∧
      ∃ g s₁, s₁.calls = s.calls ++ before ∧
        ∀ rest, (lower c).steps Recorder.bridge b {} ((c.params.mapIdx buildOps).flatten ++ rest) s
          = (lower c).steps Recorder.bridge b g rest s₁ := by
  have hnot {new : List Recorded} (hbegin : new.map Recorded.bare <+: c.builds) : r ∉ new := by
    intro hr
    have hbare : r.bare ∈ c.builds := hbegin.subset (List.mem_map_of_mem hr)
    obtain ⟨hmethod, hstatic⟩ := builds_not_call hbare
    rcases hop with hop | hop
    · exact hmethod hop
    · exact hstatic hop
  obtain ⟨new, hbuild⟩ := builders_failStop c b {} s
  rcases steps_append (p := lower c) (B := Recorder.bridge) (b := b) (g := {}) (ends_builders c) s
    with ⟨f, s₁, hbroken⟩ | ⟨g, s₁, hbuilt⟩
  · have hstop := hbroken []
    have hrun : (lower c).run b s = (.error f, s₁) := hbroken (callOps c.ret)
    rw [List.append_nil] at hstop
    rw [hstop] at hbuild
    rw [hrun] at hcalls
    have hsame : new = before ++ r :: after :=
      List.append_cancel_left (hbuild.calls.symm.trans hcalls)
    exact absurd (by rw [hsame]; simp) (hnot hbuild.beginning)
  · have hend := hbuilt []
    rw [steps, pure_run, List.append_nil] at hend
    have hrun : (lower c).run b s = (lower c).steps Recorder.bridge b g (callOps c.ret) s₁ :=
      hbuilt (callOps c.ret)
    rw [hend] at hbuild
    obtain ⟨new', hcall⟩ := steps_failStop c b (pairwise_callOps c) g s₁
    rw [← hrun] at hcall
    have hsame : new ++ new' = before ++ r :: after := by
      have hall : s.calls ++ (new ++ new') = s.calls ++ (before ++ r :: after) := by
        rw [← hcalls, hcall.calls, hbuild.calls, List.append_assoc]
      exact List.append_cancel_left hall
    -- the operation is the first after the arrays
    have hbefore : before = new := by
      rcases List.append_eq_append_iff.mp hsame with ⟨mid, hmid, hnew'⟩ | ⟨mid, hmid, hnew'⟩
      · have hfirst : mid = [] := first_of_call hcall.beginning hnew' (by
          rcases hop with hop | hop <;> rw [hop] <;> simp)
        rw [hmid, hfirst, List.append_nil]
      · cases mid with
        | nil => rw [hmid, List.append_nil]
        | cons x mid =>
          obtain ⟨rfl, -⟩ := List.cons.inj hnew'
          exact absurd (by rw [hmid]; simp) (hnot hbuild.beginning)
    rw [hbefore]
    exact ⟨hbuild.complete {} rfl, g, s₁, hbuild.calls, hbuilt⟩

/-- **Failures stop a call.** Whatever the recorder was told to fail and the expressions are bound
    to, a run writes down a beginning of the operations of its call and all of them when it has an
    outcome. One that was told to fail is the last and the cause of a fatal error, the method is
    called only after every array was built, and no error is other than fatal. -/
theorem exec_failStop (c : Call) (b : Bindings) (s : Recorder) :
    ∃ (res : Except Fatal Outcome) (s' : Recorder) (new : List Recorded),
      (lower c).run b s = (res, s') ∧ (lower c).exec b s = (res.mapError .fatal, s') ∧
      Stopped Fatal.cause c.operations new s s' res ∧
      ∀ before r after, new = before ++ r :: after →
        r.op = .callMethod ∨ r.op = .callStaticMethod →
        before.map Recorded.bare = c.builds ∧
          ∃ g s₁, s₁.calls = s.calls ++ before ∧
            ∀ rest, (lower c).steps Recorder.bridge b {}
                ((c.params.mapIdx buildOps).flatten ++ rest) s
              = (lower c).steps Recorder.bridge b g rest s₁ := by
  obtain ⟨new, hstop⟩ := run_failStop c b s
  refine ⟨_, _, new, rfl, execOn_eq c b s, hstop, ?_⟩
  intro before r after hnew hop
  apply built_before_call (hnew ▸ hstop.calls) hop

end Plan
end BridgeCall
