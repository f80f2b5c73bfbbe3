/-
  BridgeCall/Proofs/Plan/Answer.lean
  ==================================
  **What a call yields.**  On a recorder that fails nothing, a bound call reaches
  its method whatever arrays it has to build first (`builds_run`, `invoke_run`),
  and from there the answer depends on the return specification, the configured
  result and the configured exception alone (`Call.answer`).  The order of the
  checks is part of the statement: kind, null, exception.
-/
import BridgeCall.Proofs.Plan.Binding

namespace BridgeCall

/-! ### Recorders that fail nothing -/

namespace Recorder

/-- A later state of a recorder: configured the same, with more operations written down, none of
    which took the exception. -/
structure Extends (s s' : Recorder) : Prop where
  fail : s'.fail = s.fail
  result : s'.result = s.result
  exception : s'.exception = s.exception
  calls : ∃ new, s'.calls = s.calls ++ new ∧ ∀ r ∈ new, r.op ≠ .catchException

theorem Extends.refl (s : Recorder) : Extends s s := ⟨rfl, rfl, rfl, [], by simp, by simp⟩

theorem Extends.trans {s t u : Recorder} (h : Extends s t) (h' : Extends t u) : Extends s u := by
  obtain ⟨new, hnew, hcatch⟩ := h.calls
  obtain ⟨new', hnew', hcatch'⟩ := h'.calls
  refine ⟨h'.fail.trans h.fail, h'.result.trans h.result, h'.exception.trans h.exception,
    new ++ new', by rw [hnew', hnew, List.append_assoc], ?_⟩
  intro r hr
  rcases List.mem_append.mp hr with hr | hr
  · exact hcatch r hr
  · exact hcatch' r hr

/-- The reference is an array of the given length. -/
def Holds (s : Recorder) (o : Obj) (n : Nat) : Prop :=
  ∃ id a, o = .array id ∧ s.heap[id]? = some a ∧ a.elements.length = n

/-- The recorder with one more operation written down. -/
def wrote (s : Recorder) (r : Recorded) : Recorder := { s with calls := s.calls ++ [r] }

theorem record_run {s : Recorder} (h : s.fail = []) (r : Recorded) :
    record r s = (.ok (), s.wrote r) := by
  have hmodify : (modify fun s => { s with calls := s.calls ++ [r] } : BridgeM PUnit) s
      = (.ok (), s.wrote r) := rfl
  have hget : (get : BridgeM Recorder) (s.wrote r) = (.ok (s.wrote r), s.wrote r) := rfl
  have hfail : (s.wrote r).fail = [] := h
  rw [record, bind_run_ok hmodify, bind_run_ok hget]
  simp only [hfail, List.lookup_nil]
  rfl

theorem extends_wrote (s : Recorder) {r : Recorded} (hr : r.op ≠ .catchException) (heap : Heap)
    (pending : Option JavaException) : Extends s { s.wrote r with heap, pending } :=
  ⟨rfl, rfl, rfl, [r], rfl, by simpa using hr⟩

/-- A new array comes after all arrays there are. -/
theorem newArrayOf_eq {s : Recorder} (h : s.fail = []) (p : Primitive) (n : Nat) :
    newArrayOf p n s = (.ok (.array s.heap.length),
      { s.wrote { op := .newArray p, len := n } with
        heap := s.heap ++ [⟨p.letter, [], List.replicate n .absent⟩] }) := by
  rw [newArrayOf, bind_run_ok (record_run h _)]
  rfl

theorem newObjectArrayOf_eq {s : Recorder} (h : s.fail = []) (n : Nat) (cls : Bytes) (init : Obj) :
    newObjectArrayOf n cls init s = (.ok (.array s.heap.length),
      { s.wrote { op := .newObjectArray, cls, len := n } with
        heap := s.heap ++ [⟨objectLetter, cls, List.replicate n (element init)⟩] }) := by
  rw [newObjectArrayOf, bind_run_ok (record_run h _)]
  rfl

theorem newArrayOf_run {s : Recorder} (h : s.fail = []) (p : Primitive) (n : Nat) :
    ∃ o s', newArrayOf p n s = (.ok o, s') ∧ Extends s s' ∧ Holds s' o n :=
  ⟨_, _, newArrayOf_eq h p n, extends_wrote s (by simp) _ s.pending, s.heap.length, _, rfl,
    List.getElem?_concat_length, List.length_replicate⟩

theorem newObjectArrayOf_run {s : Recorder} (h : s.fail = []) (n : Nat) (cls : Bytes) (init : Obj) :
    ∃ o s', newObjectArrayOf n cls init s = (.ok o, s') ∧ Extends s s' ∧ Holds s' o n :=
  ⟨_, _, newObjectArrayOf_eq h n cls init, extends_wrote s (by simp) _ s.pending, s.heap.length, _,
    rfl, List.getElem?_concat_length, List.length_replicate⟩

theorem arrayOf_run {s : Recorder} {id : Nat} {a : JavaArray} (h : s.heap[id]? = some a)
    (op : BridgeOp) : arrayOf op (.array id) s = (.ok (id, a), s) := by
  have hget : (get : BridgeM Recorder) s = (.ok s, s) := rfl
  rw [arrayOf, bind_run_ok hget]
  simp only [h]
  rfl

/-- Writing an array back keeps its length. -/
theorem holds_set {s : Recorder} {id : Nat} {a a' : JavaArray} (h : s.heap[id]? = some a)
    (hlength : a'.elements.length = a.elements.length) (calls : List Recorded) :
    Holds { s with calls, heap := s.heap.set id a' } (.array id) a.elements.length := by
  obtain ⟨hid, -⟩ := List.getElem?_eq_some_iff.mp h
  exact ⟨id, a', rfl, by simp [hid], hlength⟩

theorem toInt_ofInt_le (n : Nat) : (Int64.ofInt n).toInt ≤ n := by
  rw [Int64.toInt_ofInt, Int.bmod_def]
  have hsize : (Int64.size : Int) = 18446744073709551616 := rfl
  have hn : (0 : Int) ≤ n := Int.natCast_nonneg n
  rw [hsize]
  split <;> omega

theorem setArrayRegion_eq {s : Recorder} (h : s.fail = []) {id : Nat} {a : JavaArray}
    (ha : s.heap[id]? = some a) {buf : List HostValue} (hlength : a.elements.length = buf.length)
    (p : Primitive) :
    setArrayRegion p (.array id) 0 buf s = (.ok (),
      { s.wrote { op := .setArrayRegion p, index := 0, len := buf.length } with
        heap := s.heap.set id { a with elements := buf } }) := by
  let r : Recorded := { op := .setArrayRegion p, index := 0, len := buf.length }
  have harray : arrayOf (.setArrayRegion p) (.array id) (s.wrote r) = (.ok (id, a), s.wrote r) := by
    exact arrayOf_run (s := s.wrote r) ha _
  have hwhole : overwrite 0 buf a.elements = buf := by
    simp [overwrite, hlength]
  have hwrap := toInt_ofInt_le buf.length
  rw [setArrayRegion, bind_run_ok (record_run h _), bind_run_ok harray]
  simp only [Int.toNat_zero, hwhole]
  rw [if_neg (by simp only [Int.zero_add]; omega), if_neg (by omega)]
  rfl

/-- A whole array can be written at once. -/
theorem setArrayRegion_run {s : Recorder} (h : s.fail = []) {o : Obj} {buf : List HostValue}
    (hholds : s.Holds o buf.length) (p : Primitive) :
    ∃ s', setArrayRegion p o 0 buf s = (.ok (), s') ∧ Extends s s' ∧ Holds s' o buf.length := by
  obtain ⟨id, a, rfl, ha, hlength⟩ := hholds
  refine ⟨_, setArrayRegion_eq h ha hlength p, extends_wrote s (by simp) _ s.pending, ?_⟩
  rw [← hlength]
  exact holds_set ha hlength.symm _

theorem setObjectArrayElement_eq {s : Recorder} (h : s.fail = []) {id : Nat} {a : JavaArray}
    (ha : s.heap[id]? = some a) {j : Nat} (hj : j < a.elements.length) (v : Obj) :
    setObjectArrayElement (.array id) j v s = (.ok (),
      { s.wrote { op := .setObjectArrayElement, index := j } with
        heap := s.heap.set id { a with elements := a.elements.set j (element v) } }) := by
  let r : Recorded := { op := .setObjectArrayElement, index := j }
  have harray : arrayOf .setObjectArrayElement (.array id) (s.wrote r) = (.ok (id, a), s.wrote r) := by
    exact arrayOf_run (s := s.wrote r) ha _
  rw [setObjectArrayElement, bind_run_ok (record_run h _), bind_run_ok harray]
  simp only
  rw [if_neg (by omega)]
  rfl

/-- An element of an array can be written. -/
theorem setObjectArrayElement_run {s : Recorder} (h : s.fail = []) {o : Obj} {n j : Nat}
    (hholds : s.Holds o n) (hj : j < n) (v : Obj) :
    ∃ s', setObjectArrayElement o j v s = (.ok (), s') ∧ Extends s s' ∧ Holds s' o n := by
  obtain ⟨id, a, rfl, ha, rfl⟩ := hholds
  exact ⟨_, setObjectArrayElement_eq h ha hj v, extends_wrote s (by simp) _ s.pending,
    holds_set ha (by simp) _⟩

theorem invoke_eq {s : Recorder} (h : s.fail = []) (r : Recorded) :
    invoke r s = (.ok s.result, { s.wrote r with pending := s.exception }) := by
  rw [invoke, bind_run_ok (record_run h _)]
  rfl

/-- A method answers with the configured result and leaves the configured exception pending. -/
theorem invoke_run {s : Recorder} (h : s.fail = []) {r : Recorded} (hr : r.op ≠ .catchException) :
    ∃ s', invoke r s = (.ok s.result, s') ∧ Extends s s' ∧ s'.pending = s.exception := by
  exact ⟨_, invoke_eq h r, extends_wrote s hr _ _, rfl⟩

end Recorder

/-! ### Building the arrays -/

namespace Plan

open Recorder

variable {b : Bindings} {c : Call} {p : Parameter} {i : Nat} {es : List Bytes}

/-- Setting elements, in any order, of an array that is long enough. -/
theorem sets_run (hp : c.params[i]? = some p) (hes : p.arg = .literal es)
    (hnames : ∀ e ∈ es, ∃ o, b.Names e o) {g : Progress} {k : ClassPath} {js : List Nat}
    (hjs : ∀ j ∈ js, j < es.length) (rest : List Op) {s : Recorder} (hs : s.fail = [])
    (hholds : s.Holds (arrayAt g i) es.length) :
    ∃ s', (lower c).steps Recorder.bridge b g (js.map (Op.setObjectElement i · k) ++ rest) s
        = (lower c).steps Recorder.bridge b g rest s' ∧ Extends s s' := by
  induction js generalizing s with
  | nil => exact ⟨s, rfl, .refl s⟩
  | cons j js ih =>
    have hj := hjs j (by simp)
    obtain ⟨o, ho⟩ := hnames es[j] (List.getElem_mem hj)
    obtain ⟨s₁, hset, hext, hholds₁⟩ := setObjectArrayElement_run hs hholds hj o
    obtain ⟨s₂, hrest, hext₂⟩ :=
      ih (fun j hj => hjs j (by simp [hj])) (hext.fail.trans hs) hholds₁
    refine ⟨s₂, ?_, hext.trans hext₂⟩
    have hobject : b.object ((lower c).elementOf i j) = .ok o := by
      rw [elementOf_lower hp hes hj]
      exact ho.object
    have hask : RunM.ask (Recorder.bridge.answer (.setObjectArrayElement (arrayAt g i) j o)) s
        = (.ok (), s₁) := ask_ok hset
    have hstep : (lower c).step Recorder.bridge b g (.setObjectElement i j k) s
        = (.ok (.more g), s₁) := by
      rw [step, bind_run_ok (blame_ok (by rw [bind_run_ok (lookup_run hobject s)]; exact hask) _)]
      rfl
    rw [List.map_cons, List.cons_append, steps_more hstep]
    exact hrest

/-- The array of a parameter is built, if it has one to build. -/
theorem build_run (hp : c.params[i]? = some p) (hb : p.Bound b) (g : Progress) (rest : List Op)
    {s : Recorder} (hs : s.fail = []) :
    ∃ g' s', (lower c).steps Recorder.bridge b g (buildOps i p ++ rest) s
        = (lower c).steps Recorder.bridge b g' rest s' ∧ Extends s s' := by
  unfold Parameter.Bound at hb
  cases harg : p.arg with
  | single v => exact ⟨g, s, by simp [buildOps, harg], .refl s⟩
  | array v => exact ⟨g, s, by simp [buildOps, harg], .refl s⟩
  | literal es =>
    rw [harg] at hb
    cases hobj : p.ty.isObject with
    | true =>
      obtain ⟨k, hk⟩ := exists_object hobj
      obtain ⟨o, s₁, hnew, hext, hholds⟩ := newObjectArrayOf_run hs es.length k.internalName .null
      have hask : RunM.ask (Recorder.bridge.answer (.newObjectArray es.length k.internalName .null)) s
          = (.ok o, s₁) := ask_ok hnew
      have hstep : (lower c).step Recorder.bridge b g (.newObjectArray i es.length k) s
          = (.ok (.more (put g i o)), s₁) := by
        rw [step, bind_run_ok (blame_ok hask _)]
        rfl
      have hheld : s₁.Holds (arrayAt (put g i o) i) es.length := by
        rw [arrayAt_put]
        exact hholds
      have hindices : ∀ j ∈ List.range es.length, j < es.length := by simp
      obtain ⟨s₂, hsets, hext₂⟩ := sets_run hp harg (fun e he => (hb e he).names hobj) hindices rest
        (hext.fail.trans hs) hheld
      refine ⟨put g i o, s₂, ?_, hext.trans hext₂⟩
      simp only [buildOps, harg, hk, List.cons_append]
      rw [steps_more hstep]
      exact hsets
    | false =>
      obtain ⟨o, s₁, hnew, hext, hholds⟩ := newArrayOf_run hs (p.ty.primitive?.getD .void) es.length
      have hask : RunM.ask
          (Recorder.bridge.answer (.newArray (p.ty.primitive?.getD .void) es.length)) s
          = (.ok o, s₁) := ask_ok hnew
      have hstep : (lower c).step Recorder.bridge b g (.newPrimitiveArray i es.length p.ty) s
          = (.ok (.more (put g i o)), s₁) := by
        rw [step, bind_run_ok (blame_ok hask _)]
        rfl
      rw [buildOps_primitive harg hobj, List.cons_append]
      rw [steps_more hstep]
      cases hempty : es.isEmpty with
      | true => exact ⟨put g i o, s₁, rfl, hext⟩
      | false =>
        obtain ⟨ws, hws⟩ := exists_forall₂ fun e he => (hb e he).sends hobj
        have hlength : (ws.map Wire.raw).length = es.length := by
          rw [List.length_map]
          exact hws.length_eq.symm
        have hheld : s₁.Holds (arrayAt (put g i o) i) (ws.map Wire.raw).length := by
          rw [arrayAt_put, hlength]
          exact hholds
        obtain ⟨s₂, hset, hext₂, -⟩ := setArrayRegion_run (hext.fail.trans hs) hheld
          (p.ty.primitive?.getD .void)
        have hfill : (lower c).fill Recorder.bridge b (put g i o) i p.ty s₁ = (.ok (), s₂) := by
          rw [fill, elementsOf_lower hp harg, bind_run_ok (elementWires_run hws s₁)]
          exact ask_ok hset
        have hstep₂ : (lower c).step Recorder.bridge b (put g i o)
            (.fillPrimitiveArray i es.length p.ty) s₁ = (.ok (.more (put g i o)), s₂) := by
          rw [step, bind_run_ok (blame_ok hfill _)]
          rfl
        exact ⟨put g i o, s₂, steps_more hstep₂, hext.trans hext₂⟩

/-- All arrays are built, in parameter order. -/
theorem builds_run {ps : List (Parameter × Nat)} (hps : ∀ x ∈ ps, c.params[x.2]? = some x.1)
    (hb : ∀ x ∈ ps, x.1.Bound b) (g : Progress) (rest : List Op) {s : Recorder} (hs : s.fail = []) :
    ∃ g' s',
      (lower c).steps Recorder.bridge b g ((ps.flatMap fun x => buildOps x.2 x.1) ++ rest) s
        = (lower c).steps Recorder.bridge b g' rest s' ∧ Extends s s' := by
  -- one parameter after the other: a built array never makes a later request fail
  induction ps generalizing g s with
  | nil => exact ⟨g, s, rfl, .refl s⟩
  | cons x ps ih =>
    obtain ⟨g₁, s₁, hx, hext⟩ := build_run (hps x (by simp)) (hb x (by simp)) g
      ((ps.flatMap fun x => buildOps x.2 x.1) ++ rest) hs
    obtain ⟨g₂, s₂, hrest, hext₂⟩ := ih (fun x hx => hps x (by simp [hx]))
      (fun x hx => hb x (by simp [hx])) g₁ (hext.fail.trans hs)
    refine ⟨g₂, s₂, ?_, hext.trans hext₂⟩
    rw [List.flatMap_cons, List.append_assoc, hx]
    exact hrest

end Plan

/-! ### From the method to the outcome -/

/-- The exception that comes back as an error: none unless the specification is a result. -/
def ReturnSpec.caught (r : ReturnSpec) (thrown : Option JavaException) : Option JavaException :=
  if r.isFallible then thrown else none

/-- What a call yields for the result of its method and the exception left pending by it. A result
    of another kind and a null that is not allowed are fatal, and this even when an exception is
    pending. -/
def Call.answer (c : Call) (w : Wire) (thrown : Option JavaException) : Except Fatal Outcome :=
  let ty := c.ret.payload
  let null := w.objectOrNull.isNull
  if w.letter ≠ ty.letter then
    .error ⟨.convert ty.display, some (.kind ⟨ty.letter, w.letter⟩)⟩
  else if ty.isObject && !c.ret.isNullable && null then .error ⟨.nullCheck, none⟩
  else match c.ret.caught thrown with
    | some e => .ok { err := some e }
    | none =>
      if ty.isVoid then .ok {}
      else if c.ret.isNullable && null then .ok {}
      else .ok { value := fromWire ty w, present := true }

namespace Plan

open Recorder

variable {b : Bindings} {c : Call}

/-- The method of a bound call is reached. -/
theorem invoke_run (hb : c.Bound b) (g : Progress) {s : Recorder} (hs : s.fail = []) :
    ∃ s', (lower c).invoke Recorder.bridge b g s = (.ok s.result, s') ∧ Extends s s' ∧
      s'.pending = s.exception := by
  obtain ⟨ws, hws⟩ := exists_sends hb g
  have hargs : argValues Recorder.bridge b g 0 (lower c).args s = (.ok ws, s) := argValues_run hws s
  rw [invoke, bind_run_ok hargs]
  have hcall : (lower c).call = c := rfl
  rw [hcall]
  cases htarget : c.target with
  | static k span =>
    obtain ⟨s', hrun, hext, hpending⟩ := Recorder.invoke_run hs
      (r := { op := .callStaticMethod, cls := k.internalName, name := c.method
              sig := (lower c).signature, args := ws }) (by simp)
    exact ⟨s', ask_ok hrun, hext, hpending⟩
  | object r span =>
    obtain ⟨o, ho⟩ := (hb.receiver r span htarget).names
    obtain ⟨s', hrun, hext, hpending⟩ := Recorder.invoke_run hs
      (r := { op := .callMethod, name := c.method, sig := (lower c).signature, args := ws })
      (by simp)
    refine ⟨s', ?_, hext, hpending⟩
    simp only
    rw [bind_run_ok (lookup_run ho.object s)]
    exact ask_ok hrun

/-- The last steps: the exception is asked for if it can come back, and then the run ends. -/
theorem finish_run (g : Progress) (ty : ValueType) (s : Recorder) :
    ∃ s', (lower c).steps Recorder.bridge b g
        ((if c.ret.isFallible then [Op.exceptionCheck] else []) ++ [Op.ret ty]) s
        = (match c.ret.caught s.pending with
            | some e => .ok { err := some e }
            | none => .ok ((lower c).outcome g ty), s') ∧
      ∃ new, s'.calls = s.calls ++ new := by
  have hret (s : Recorder) :
      (lower c).steps Recorder.bridge b g [.ret ty] s = (.ok ((lower c).outcome g ty), s) := rfl
  unfold ReturnSpec.caught
  cases hfallible : c.ret.isFallible with
  | false => exact ⟨s, hret s, [], by simp⟩
  | true =>
    let s' : Recorder := { s.wrote { op := .catchException } with pending := none }
    have htake : Recorder.bridge.answer .catchException s = (s.pending, s') := rfl
    refine ⟨s', ?_, [{ op := .catchException }], rfl⟩
    rw [if_pos rfl, if_pos rfl, List.singleton_append]
    cases hpending : s.pending with
    | some e =>
      rw [hpending] at htake
      rw [steps_done (step_exceptionCheck_done htake)]
    | none =>
      rw [hpending] at htake
      rw [steps_more (step_exceptionCheck htake)]
      exact hret s'

/-- The last steps give the answer of a result that passed all checks, which is not fatal. -/
theorem passed_run {g : Progress} (hletter : g.result.letter = c.ret.payload.letter)
    (hnull : (c.ret.payload.isObject && !c.ret.isNullable && g.result.objectOrNull.isNull) = false)
    (hpresent : c.ret.isNullable = true → g.isPresent = !g.result.objectOrNull.isNull)
    (s : Recorder) :
    ∃ s', (lower c).steps Recorder.bridge b g
        ((if c.ret.isFallible then [Op.exceptionCheck] else []) ++ [Op.ret c.ret.payload]) s
        = (c.answer g.result s.pending, s') ∧
      ∃ new, s'.calls = s.calls ++ new ∧
        ∀ f, c.answer g.result s.pending = .error f → new = [] := by
  obtain ⟨s', hfinish, new, hnew⟩ := finish_run (b := b) (c := c) g c.ret.payload s
  have hanswer : c.answer g.result s.pending =
      match c.ret.caught s.pending with
      | some e => .ok { err := some e }
      | none => .ok ((lower c).outcome g c.ret.payload) := by
    rw [outcome_eq hletter hpresent]
    simp only [Call.answer, hletter, hnull, ne_eq, not_true_eq_false, Bool.false_eq_true, if_false]
    cases c.ret.caught s.pending with
    | some e => rfl
    | none =>
      simp only
      split
      · rfl
      · split <;> rfl
  refine ⟨s', by rw [hfinish, hanswer], new, hnew, ?_⟩
  rw [hanswer]
  intro f hf
  split at hf <;> cases hf

/-- The steps after the method give the answer. When it is fatal, nothing was asked of the
    recorder. -/
theorem checks_run (g : Progress) (s : Recorder) :
    ∃ s', (lower c).steps Recorder.bridge b g (.convert c.ret.payload ::
        ((if c.ret.isNullable then [Op.optionWrap c.ret.payload]
          else if c.ret.payload.isObject then [.nullCheck c.ret.payload] else []) ++
        ((if c.ret.isFallible then [Op.exceptionCheck] else []) ++ [Op.ret c.ret.payload]))) s
        = (c.answer g.result s.pending, s') ∧
      ∃ new, s'.calls = s.calls ++ new ∧ ∀ f, c.answer g.result s.pending = .error f → new = [] := by
  by_cases hletter : g.result.letter ≠ c.ret.payload.letter
  · refine ⟨s, ?_, [], by simp, fun _ _ => rfl⟩
    rw [steps_error (step_convert_error hletter s)]
    simp only [Call.answer, if_pos hletter]
  have hsame : g.result.letter = c.ret.payload.letter := Decidable.not_not.mp hletter
  rw [steps_more (step_convert hsame s)]
  cases hnullable : c.ret.isNullable with
  | true =>
    -- null is an absent value, and the run goes on either way
    let g' : Progress := { g with isPresent := !g.result.objectOrNull.isNull }
    have hwrap : (lower c).step Recorder.bridge b g (.optionWrap c.ret.payload) s
        = (.ok (.more g'), s) := rfl
    rw [if_pos rfl, List.singleton_append, steps_more hwrap]
    have hrun := passed_run (b := b) (c := c) (g := g') hsame (by simp [hnullable]) (fun _ => rfl) s
    exact hrun
  | false =>
    have habsent : c.ret.isNullable = true → g.isPresent = !g.result.objectOrNull.isNull := by
      simp [hnullable]
    rw [if_neg (by simp)]
    cases hobject : c.ret.payload.isObject with
    | false =>
      rw [if_neg (by simp), List.nil_append]
      exact passed_run hsame (by simp [hobject]) habsent s
    | true =>
      rw [if_pos rfl, List.singleton_append]
      cases hnull : g.result.objectOrNull.isNull with
      | true =>
        refine ⟨s, ?_, [], by simp, fun _ _ => rfl⟩
        rw [steps_error (step_nullCheck_error hnull s)]
        simp only [Call.answer, if_neg hletter, hnullable, hobject, hnull, Bool.not_false,
          Bool.and_true, if_true]
      | false =>
        rw [steps_more (step_nullCheck hnull s)]
        exact passed_run hsame (by simp [hnull]) habsent s

/-- **What a call yields.** On a recorder that fails nothing, with every expression bound to a value
    of its declared type, a run ends with the answer to the configured result and exception. When
    the answer is fatal, the exception was never asked for. -/
theorem run_answer (hb : c.Bound b) {s : Recorder} (hs : s.fail = []) :
    ∃ s', (lower c).run b s = (c.answer s.result s.exception, s') ∧
      ∃ new, s'.calls = s.calls ++ new ∧
        ∀ f, c.answer s.result s.exception = .error f → ∀ r ∈ new, r.op ≠ .catchException := by
  have hparams : ∀ x ∈ c.params.zipIdx, c.params[x.2]? = some x.1 := by
    rintro ⟨p, i⟩ hx
    obtain ⟨-, -, hget⟩ := List.mem_zipIdx hx
    rw [hget]
    simp
  have hbound : ∀ x ∈ c.params.zipIdx, x.1.Bound b := by
    intro x hx
    exact hb.params x.1 (List.mem_of_getElem? (hparams x hx))
  obtain ⟨g₁, s₁, hbuild, hext₁⟩ := builds_run hparams hbound {} (callOps c.ret) hs
  obtain ⟨s₂, hinvoke, hext₂, hpending⟩ := invoke_run hb g₁ (hext₁.fail.trans hs)
  have hstep : (lower c).step Recorder.bridge b g₁ .invoke s₁
      = (.ok (.more { g₁ with result := s₁.result }), s₂) := by
    rw [step, bind_run_ok (blame_ok hinvoke _)]
    rfl
  obtain ⟨s₃, hchecks, new, hnew, hfatal⟩ :=
    checks_run (b := b) (c := c) { g₁ with result := s₁.result } s₂
  obtain ⟨before, hbefore, hcatch⟩ := (hext₁.trans hext₂).calls
  simp only [hpending, hext₁.result, hext₁.exception] at hchecks hfatal
  refine ⟨s₃, ?_, before ++ new, by rw [hnew, hbefore, List.append_assoc], ?_⟩
  · rw [run, runOn, lower_ops, hbuild, callOps_eq, steps_more hstep, hext₁.result]
    exact hchecks
  · intro f hf r hr
    rw [hfatal f hf, List.append_nil] at hr
    exact hcatch r hr

theorem run_answer_thrown :
    ∃ s', (lower { (default : Call) with
        target := .object "x" default
        params := [⟨.host .u8 default, .literal ["y", "z"], default⟩]
        ret := .result (.option default default) default }).run
        [("x", .object (.ref "r" false)), ("y", .uint8 7), ("z", .uint8 200)]
        { result := .object .nullRef, exception := some ⟨"java/lang/Error", "no"⟩ }
        = (.ok { err := some ⟨"java/lang/Error", "no"⟩ }, s') := by
  obtain ⟨s', hrun, -⟩ := run_answer
    (c := { (default : Call) with
      target := .object "x" default
      params := [⟨.host .u8 default, .literal ["y", "z"], default⟩]
      ret := .result (.option default default) default })
    (b := [("x", .object (.ref "r" false)), ("y", .uint8 7), ("z", .uint8 200)]) (by decide)
    (s := { result := .object .nullRef, exception := some ⟨"java/lang/Error", "no"⟩ }) rfl
  exact ⟨s', hrun⟩

end Plan
end BridgeCall
