/-
  BridgeCall/Proofs/Plan/Marshalling.lean
  =======================================
  **What a method is called with.**  `Encodes` says how a single value crosses,
  without a word about the conversions that do it, and `Marshalled` says what
  the arguments of a whole call have to be: one for each parameter, of the kind
  that a reader of the signature expects, with a fresh array for each literal.

  A recorder that fails nothing is given just that.  The arrays are built one
  after the other at the end of the heap, so an array that is finished is never
  written again (`Built`).
-/
import BridgeCall.Proofs.Machine.Signature
import BridgeCall.Proofs.Plan.FailStop

namespace BridgeCall

/-! ### Values of expressions -/

namespace Bindings

/-- The value of an expression for a reference: what it is bound to, and nothing for a free `nil`. -/
def reference? (b : Bindings) (e : Bytes) : Option HostValue :=
  match b.lookup e with
  | some v => some v
  | none => if e = ("nil" : Bytes) then some .absent else none

/-- The value of an expression of a declared type: what it is bound to. Without a binding it stands
    for itself, as a literal of a primitive type or as `nil`. -/
def value? (b : Bindings) (ty : ValueType) (e : Bytes) : Option HostValue :=
  if ty.isObject then b.reference? e
  else match b.lookup e with
    | some v => some v
    | none => (readLiteral ty e).toOption

/-- The arrays that expressions are bound to are there. -/
def ArraysIn (b : Bindings) (h : Heap) : Prop :=
  ∀ e id, b.lookup e = some (.object (.array id)) → id < h.length

end Bindings

/-- Every expression of the parameter has a value of its type; an array is a reference. -/
def Parameter.Supplied (b : Bindings) (p : Parameter) : Prop :=
  match p.arg with
  | .single e => ∃ v ∈ b.value? p.ty e, p.ty.Admits v
  | .array e => ∃ v ∈ b.reference? e, v.IsReference
  | .literal es => ∀ e ∈ es, ∃ v ∈ b.value? p.ty e, p.ty.Admits v

/-- Every expression of the call has a value of its declared type. -/
structure Call.Supplied (b : Bindings) (c : Call) : Prop where
  receiver : ∀ r s, c.target = .object r s → ∃ v ∈ b.reference? r, v.IsReference
  params : ∀ p ∈ c.params, p.Supplied b

instance (b : Bindings) (p : Parameter) : Decidable (p.Supplied b) :=
  match p with
  | ⟨ty, .single e, _⟩ => inferInstanceAs (Decidable (∃ v ∈ b.value? ty e, ty.Admits v))
  | ⟨_, .array e, _⟩ => inferInstanceAs (Decidable (∃ v ∈ b.reference? e, v.IsReference))
  | ⟨ty, .literal es, _⟩ =>
    inferInstanceAs (Decidable (∀ e ∈ es, ∃ v ∈ b.value? ty e, ty.Admits v))

instance (b : Bindings) (c : Call) : Decidable (c.Supplied b) :=
  match h : c.target with
  | .static _ _ =>
    decidable_of_iff (∀ p ∈ c.params, p.Supplied b)
      ⟨fun hp => ⟨fun r s hr => by simp [h] at hr, hp⟩, fun hb => hb.params⟩
  | .object r s =>
    decidable_of_iff ((∃ v ∈ b.reference? r, v.IsReference) ∧ ∀ p ∈ c.params, p.Supplied b)
      ⟨fun hp => ⟨fun r' s' hr => by rw [h] at hr; cases hr; exact hp.1, hp.2⟩,
        fun hb => ⟨hb.receiver r s h, hb.params⟩⟩

/-! ### How values cross -/

/-- The code unit of a character: the character itself if one unit can hold it, and otherwise the
    replacement character. -/
def IsCodeUnit (c : Int32) (u : UInt16) : Prop :=
  if 0 ≤ c.toInt ∧ c.toInt ≤ 0xFFFF ∧ ¬(0xD800 ≤ c.toInt ∧ c.toInt ≤ 0xDFFF)
  then (u.toNat : Int) = c.toInt else u = 0xFFFD

/-- The wire value stands for the host value. Its kind decides between the two ways in which a
    number can cross. -/
def Encodes : HostValue → Wire → Prop
  | .bool v, .boolean u => u.toNat = v.toNat
  | .int8 v, .byte i => i = v
  | .uint8 v, .byte i => i.toBitVec = v.toBitVec
  | .int16 v, .short i => i = v
  | .uint16 v, .short i => i.toBitVec = v.toBitVec
  | .uint16 v, .char u => u = v
  | .int32 v, .char u => IsCodeUnit v u
  | .int32 v, .int i => i = v
  | .uint32 v, .int i => i.toBitVec = v.toBitVec
  | .int64 v, .long i => i = v
  | .uint64 v, .long i => i.toBitVec = v.toBitVec
  | .float32 v, .float u => u = v
  | .float64 v, .double u => u = v
  | .object o, .object o' => o' = o
  | .absent, .object o => o = .null
  | _, _ => False

theorem isCodeUnit_encodeChar (c : Int32) : IsCodeUnit c (encodeChar c) := by
  unfold IsCodeUnit encodeChar isSurrogate
  by_cases hunit : 0 ≤ c.toInt ∧ c.toInt ≤ 0xFFFF ∧ ¬(0xD800 ≤ c.toInt ∧ c.toInt ≤ 0xDFFF)
  · have hsurrogate : ¬(c.toInt < 0 ∨ 0xFFFF < c.toInt ∨
        (decide (0xD800 ≤ c.toInt) && decide (c.toInt ≤ 0xDFFF)) = true) := by
      simp only [Bool.and_eq_true, decide_eq_true_eq]
      omega
    rw [if_pos hunit, if_neg hsurrogate, Nat.toUInt16, UInt16.toNat_ofNat']
    omega
  · have hsurrogate : c.toInt < 0 ∨ 0xFFFF < c.toInt ∨
        (decide (0xD800 ≤ c.toInt) && decide (c.toInt ≤ 0xDFFF)) = true := by
      simp only [Bool.and_eq_true, decide_eq_true_eq]
      omega
    rw [if_neg hunit, if_pos hsurrogate]

theorem Crosses.encodes {ty : ValueType} {v : HostValue} {w : Wire} (h : Crosses ty v w) :
    w.letter = ty.letter ∧ Encodes v w := by
  cases h with
  | boolean s v => exact ⟨rfl, by cases v <;> rfl⟩
  | hostBool s v => exact ⟨rfl, by cases v <;> rfl⟩
  | hostChar s v => exact ⟨rfl, isCodeUnit_encodeChar v⟩
  | _ => exact ⟨rfl, rfl⟩

/-- What an expression of a declared type passes. -/
def Bindings.Passes (b : Bindings) (ty : ValueType) (e : Bytes) (w : Wire) : Prop :=
  ∃ v ∈ b.value? ty e, w.letter = ty.letter ∧ Encodes v w

/-! ### Look-ups -/

theorem Bindings.object_of_reference {b : Bindings} {e : Bytes} {v : HostValue}
    (hv : v ∈ b.reference? e) (href : v.IsReference) :
    ∃ o, b.object e = .ok o ∧ Encodes v (.object o) := by
  unfold reference? at hv
  unfold Bindings.object
  cases hlookup : b.lookup e with
  | none =>
    rw [hlookup] at hv
    simp only [Option.mem_def, Option.ite_none_right_eq_some] at hv
    obtain ⟨hnil, hv⟩ := hv
    cases hv
    exact ⟨.null, by simp only [if_pos hnil], rfl⟩
  | some u =>
    rw [hlookup] at hv
    cases hv
    rcases href with rfl | ⟨o, rfl⟩
    · exact ⟨.null, rfl, rfl⟩
    · exact ⟨o, rfl, rfl⟩

theorem Bindings.object_of_value {b : Bindings} {ty : ValueType} {e : Bytes} {v : HostValue}
    (hty : ty.isObject = true) (hv : v ∈ b.value? ty e) (hadmits : ty.Admits v) :
    ∃ o, b.object e = .ok o ∧ b.Passes ty e (.object o) := by
  obtain ⟨k, rfl⟩ := Plan.exists_object hty
  obtain ⟨o, ho, hencodes⟩ := object_of_reference hv hadmits
  exact ⟨o, ho, v, hv, rfl, hencodes⟩

theorem Bindings.wire_of_value {b : Bindings} {ty : ValueType} {e : Bytes} {v : HostValue}
    (hty : ty.isObject = false) (hv : v ∈ b.value? ty e) (hadmits : ty.Admits v) :
    ∃ w, (∀ heap, b.wire heap ty e = .ok w) ∧ b.Passes ty e w := by
  obtain ⟨w, hw⟩ := hadmits.crosses hty
  refine ⟨w, ?_, v, hv, hw.encodes⟩
  intro heap
  unfold value? at hv
  rw [if_neg (by simp [hty])] at hv
  unfold Bindings.wire
  cases hlookup : b.lookup e with
  | some u =>
    rw [hlookup] at hv
    cases hv
    simp only [pure_bind, hw.toWire?_eq]
    rfl
  | none =>
    simp only [hlookup, Option.mem_def] at hv
    cases hread : readLiteral ty e with
    | error why =>
      rw [hread] at hv
      cases hv
    | ok u =>
      rw [hread] at hv
      cases hv
      simp only [pure_bind, hw.toWire?_eq]
      rfl

/-! ### Arrays of literals -/

/-- The class that an array of the type is made for, none for primitives. -/
def ValueType.elementClass : ValueType → Bytes
  | .object k => k.internalName
  | .java _ _ | .host _ _ => []

/-- An array of the declared type with the values of the expressions as its elements. -/
structure JavaArray.IsLiteral (b : Bindings) (ty : ValueType) (es : List Bytes) (a : JavaArray) :
    Prop where
  kind : a.kind = ty.letter
  cls : a.cls = ty.elementClass
  elements : List.Forall₂ (fun e x => ∃ w, b.Passes ty e w ∧ x = w.raw) es a.elements

namespace Plan

open Recorder

variable {b : Bindings} {c : Call} {p : Parameter} {i : Nat} {es : List Bytes} {g : Progress}

theorem set_last (base : Heap) (a a' : JavaArray) :
    (base ++ [a]).set base.length a' = base ++ [a'] := by
  simp

/-- The elements of an array are set from the first to the last: those before are written, the
    others are not. -/
theorem stores_run (hp : c.params[i]? = some p) (hes : p.arg = .literal es) {base : Heap}
    (hg : arrayAt g i = .array base.length) {cls : Bytes} (k : ClassPath) {done todo : List Obj}
    (hobjects : List.Forall₂ (fun e o => b.object e = .ok o) es (done ++ todo)) {s : Recorder}
    (hs : s.fail = [])
    (hheap : s.heap = base ++
      [⟨objectLetter, cls, done.map element ++ List.replicate todo.length HostValue.absent⟩]) :
    ∃ s', (∀ rest, (lower c).steps Recorder.bridge b g
          ((List.range' done.length todo.length).map (Op.setObjectElement i · k) ++ rest) s
        = (lower c).steps Recorder.bridge b g rest s') ∧
      s'.fail = [] ∧ s'.heap = base ++ [⟨objectLetter, cls, (done ++ todo).map element⟩] := by
  induction todo generalizing done s with
  | nil => exact ⟨s, fun _ => rfl, hs, by simpa using hheap⟩
  | cons o todo ih =>
    have hlength := hobjects.length_eq
    have hj : done.length < es.length := by
      rw [hlength, List.length_append, List.length_cons]
      omega
    have hobject : b.object ((lower c).elementOf i done.length) = .ok o := by
      rw [elementOf_lower hp hes hj]
      have hget := hobjects.get hj (by simp)
      simpa using hget
    obtain ⟨s₁, hset, hs₁, hheap₁⟩ : ∃ s₁,
        setObjectArrayElement (arrayAt g i) done.length o s = (.ok (), s₁) ∧ s₁.fail = [] ∧
        s₁.heap = base ++ [⟨objectLetter, cls,
          (done ++ [o]).map element ++ List.replicate todo.length HostValue.absent⟩] := by
      rw [hg]
      refine ⟨_, setObjectArrayElement_eq hs (by rw [hheap, List.getElem?_concat_length])
        (by simp) o, hs, ?_⟩
      simp only [hheap, set_last]
      simp [List.replicate_succ]
    have hask : RunM.ask (Recorder.bridge.answer
        (.setObjectArrayElement (arrayAt g i) done.length o)) s = (.ok (), s₁) := ask_ok hset
    have hstep : (lower c).step Recorder.bridge b g (.setObjectElement i done.length k) s
        = (.ok (.more g), s₁) := by
      rw [step, bind_run_ok (blame_ok (by rw [bind_run_ok (lookup_run hobject s)]; exact hask) _)]
      rfl
    obtain ⟨s', hrest, hs', hheap'⟩ := ih (by simpa using hobjects) hs₁ hheap₁
    refine ⟨s', ?_, hs', by simpa using hheap'⟩
    intro rest
    rw [List.length_cons, List.range'_succ, List.map_cons, List.cons_append, steps_more hstep]
    simpa using hrest rest

/-- The array of an object literal is built at the end of the heap. -/
theorem objects_build (hp : c.params[i]? = some p) (hes : p.arg = .literal es) {k : ClassPath}
    (hk : p.ty = .object k) (hb : ∀ e ∈ es, ∃ v ∈ b.value? p.ty e, p.ty.Admits v) {s : Recorder}
    (hs : s.fail = []) :
    ∃ a s', (∀ rest, (lower c).steps Recorder.bridge b g (buildOps i p ++ rest) s
        = (lower c).steps Recorder.bridge b (put g i (.array s.heap.length)) rest s') ∧
      s'.fail = [] ∧ s'.heap = s.heap ++ [a] ∧ a.IsLiteral b p.ty es := by
  obtain ⟨os, hos⟩ := exists_forall₂ fun e he => by
    obtain ⟨v, hv, hadmits⟩ := hb e he
    exact Bindings.object_of_value (by rw [hk]; rfl) hv hadmits
  have hlength := hos.length_eq
  let a : JavaArray := ⟨objectLetter, k.internalName, List.replicate es.length .absent⟩
  let s₁ : Recorder :=
    { s.wrote { op := .newObjectArray, cls := k.internalName, len := es.length } with
      heap := s.heap ++ [a] }
  have hask : RunM.ask (Recorder.bridge.answer (.newObjectArray es.length k.internalName .null)) s
      = (.ok (.array s.heap.length), s₁) := ask_ok (newObjectArrayOf_eq hs es.length _ .null)
  have hstep : (lower c).step Recorder.bridge b g (.newObjectArray i es.length k) s
      = (.ok (.more (put g i (.array s.heap.length))), s₁) := by
    rw [step, bind_run_ok (blame_ok hask _)]
    rfl
  have hobjects : List.Forall₂ (fun e o => b.object e = .ok o) es ([] ++ os) :=
    hos.imp fun _ _ h => h.1
  have hheap₁ : s₁.heap = s.heap ++ [⟨objectLetter, k.internalName,
      ([] : List Obj).map element ++ List.replicate os.length HostValue.absent⟩] := by
    rw [← hlength]
    rfl
  have hs₁ : s₁.fail = [] := hs
  obtain ⟨s', hstores, hs', hheap⟩ := stores_run hp hes (arrayAt_put g i _) k hobjects hs₁ hheap₁
  refine ⟨_, s', ?_, hs', hheap, ?_⟩
  · intro rest
    have hrest := hstores rest
    rw [List.length_nil, ← hlength, ← List.range_eq_range'] at hrest
    simp only [buildOps, hes, hk, List.cons_append]
    rw [steps_more hstep]
    exact hrest
  · refine ⟨by rw [hk]; rfl, by rw [hk, ValueType.elementClass], ?_⟩
    simp only [List.nil_append]
    rw [List.forall₂_map_right_iff]
    apply hos.imp
    rintro e o ⟨-, hpasses⟩
    refine ⟨.object o, hpasses, ?_⟩
    cases o <;> rfl

theorem letter_primitive {ty : ValueType} (hty : ty.isObject = false) :
    (ty.primitive?.getD .void).letter = ty.letter := by
  cases ty with
  | java q s => rfl
  | host k s => rfl
  | object k => cases hty

/-- The array of a literal of a primitive type is built at the end of the heap. -/
theorem primitives_build (hp : c.params[i]? = some p) (hes : p.arg = .literal es)
    (hty : p.ty.isObject = false) (hb : ∀ e ∈ es, ∃ v ∈ b.value? p.ty e, p.ty.Admits v)
    {s : Recorder} (hs : s.fail = []) :
    ∃ a s', (∀ rest, (lower c).steps Recorder.bridge b g (buildOps i p ++ rest) s
        = (lower c).steps Recorder.bridge b (put g i (.array s.heap.length)) rest s') ∧
      s'.fail = [] ∧ s'.heap = s.heap ++ [a] ∧ a.IsLiteral b p.ty es := by
  obtain ⟨ws, hws⟩ := exists_forall₂ fun e he => by
    obtain ⟨v, hv, hadmits⟩ := hb e he
    exact Bindings.wire_of_value hty hv hadmits
  have hlength := hws.length_eq
  let prim := p.ty.primitive?.getD .void
  let s₁ : Recorder :=
    { s.wrote { op := .newArray prim, len := es.length } with
      heap := s.heap ++ [⟨prim.letter, [], List.replicate es.length .absent⟩] }
  have hask : RunM.ask (Recorder.bridge.answer (.newArray prim es.length)) s
      = (.ok (.array s.heap.length), s₁) := ask_ok (newArrayOf_eq hs prim es.length)
  have hstep : (lower c).step Recorder.bridge b g (.newPrimitiveArray i es.length p.ty) s
      = (.ok (.more (put g i (.array s.heap.length))), s₁) := by
    rw [step, bind_run_ok (blame_ok hask _)]
    rfl
  have hliteral : JavaArray.IsLiteral b p.ty es ⟨prim.letter, [], ws.map Wire.raw⟩ := by
    refine ⟨letter_primitive hty, ?_, ?_⟩
    · cases hkind : p.ty with
      | java q span => rfl
      | host h span => rfl
      | object k =>
        rw [hkind] at hty
        cases hty
    · simp only
      rw [List.forall₂_map_right_iff]
      exact hws.imp fun e w h => ⟨w, h.2, rfl⟩
  cases hempty : es.isEmpty with
  | true =>
    obtain rfl := List.isEmpty_iff.mp hempty
    obtain rfl : ws = [] := List.eq_nil_of_length_eq_zero hlength.symm
    refine ⟨_, s₁, ?_, hs, rfl, hliteral⟩
    intro rest
    rw [buildOps_primitive hes hty]
    exact steps_more hstep
  | false =>
    obtain ⟨s', hfill, hs', hheap⟩ : ∃ s',
        setArrayRegion prim (.array s.heap.length) 0 (ws.map Wire.raw) s₁ = (.ok (), s') ∧
        s'.fail = [] ∧ s'.heap = s.heap ++ [⟨prim.letter, [], ws.map Wire.raw⟩] := by
      have hlast : s₁.heap[s.heap.length]?
          = some ⟨prim.letter, [], List.replicate es.length .absent⟩ := List.getElem?_concat_length
      have hs₁ : s₁.fail = [] := hs
      refine ⟨_, setArrayRegion_eq hs₁ hlast (by simp [hlength]) prim, hs, ?_⟩
      simp only [s₁, set_last]
    have hfill₂ : (lower c).fill Recorder.bridge b (put g i (.array s.heap.length)) i p.ty s₁
        = (.ok (), s') := by
      rw [fill, elementsOf_lower hp hes, bind_run_ok (elementWires_eq (hws.imp fun _ _ h => h.1) s₁),
        arrayAt_put]
      exact ask_ok hfill
    have hstep₂ : (lower c).step Recorder.bridge b (put g i (.array s.heap.length))
        (.fillPrimitiveArray i es.length p.ty) s₁
        = (.ok (.more (put g i (.array s.heap.length))), s') := by
      rw [step, bind_run_ok (blame_ok hfill₂ _)]
      rfl
    refine ⟨_, s', ?_, hs', hheap, hliteral⟩
    intro rest
    rw [buildOps_primitive hes hty, hempty, List.cons_append, steps_more hstep]
    exact steps_more hstep₂

/-- The parameter with index `i` is an array literal. -/
def HasLiteral (c : Call) (i : Nat) (p : Parameter) (es : List Bytes) : Prop :=
  c.params[i]? = some p ∧ p.arg = .literal es

/-- The literals among the first `k` parameters are arrays now, each an array of its own that was
    not in the heap before, and the heap before is as it was. -/
structure Built (c : Call) (b : Bindings) (before : Heap) (k : Nat) (g : Progress) (s : Recorder) :
    Prop where
  fail : s.fail = []
  kept : before <+: s.heap
  array : ∀ i p es, i < k → HasLiteral c i p es → ∃ id a, arrayAt g i = .array id ∧
    before.length ≤ id ∧ s.heap[id]? = some a ∧ a.IsLiteral b p.ty es
  own : ∀ i j p q es es', i < j → j < k → HasLiteral c i p es → HasLiteral c j q es' →
    arrayAt g i ≠ arrayAt g j

section Built

variable {before : Heap} {k : Nat} {s : Recorder}

theorem Built.skip (h : Built c b before k g s) (hp : c.params[k]? = some p)
    (harg : ∀ es, p.arg ≠ .literal es) : Built c b before (k + 1) g s := by
  have hother {i : Nat} {q : Parameter} {es : List Bytes} (hi : i < k + 1)
      (hlit : HasLiteral c i q es) : i < k := by
    have hne : i ≠ k := by
      rintro rfl
      rw [hlit.1] at hp
      cases hp
      exact harg es hlit.2
    omega
  refine ⟨h.fail, h.kept, ?_, ?_⟩
  · intro i q es hi hlit
    exact h.array i q es (hother hi hlit) hlit
  · intro i j q r es es' hij hj hi hlit
    exact h.own i j q r es es' hij (hother hj hlit) hi hlit

theorem Built.push (h : Built c b before k g s) (hlit : HasLiteral c k p es) {a : JavaArray}
    (ha : a.IsLiteral b p.ty es) {s' : Recorder} (hs' : s'.fail = [])
    (hheap : s'.heap = s.heap ++ [a]) :
    Built c b before (k + 1) (put g k (.array s.heap.length)) s' := by
  refine ⟨hs', ?_, ?_, ?_⟩
  · rw [hheap]
    exact h.kept.trans (List.prefix_append _ _)
  · intro i q es' hi hlit'
    by_cases hik : i = k
    · subst hik
      obtain ⟨hp, harg⟩ := hlit
      obtain ⟨hq, hes⟩ := hlit'
      rw [hp] at hq
      cases hq
      rw [harg] at hes
      cases hes
      refine ⟨s.heap.length, a, arrayAt_put g i _, h.kept.length_le, ?_, ha⟩
      rw [hheap, List.getElem?_concat_length]
    · obtain ⟨id, a', hid, hbefore, ha', hliteral⟩ := h.array i q es' (by omega) hlit'
      refine ⟨id, a', by rw [arrayAt_put_ne g hik, hid], hbefore, ?_, hliteral⟩
      rw [hheap, List.getElem?_append_left (List.getElem?_eq_some_iff.mp ha').1, ha']
  · intro i j q r es₁ es₂ hij hj hi hlit'
    rw [arrayAt_put_ne g (by omega)]
    by_cases hjk : j = k
    · -- the new array lies behind all the others
      subst hjk
      obtain ⟨id, a', hid, -, ha', -⟩ := h.array i q es₁ hij hi
      rw [arrayAt_put, hid]
      intro hsame
      cases hsame
      have hlt := (List.getElem?_eq_some_iff.mp ha').1
      omega
    · rw [arrayAt_put_ne g hjk]
      exact h.own i j q r es₁ es₂ hij (by omega) hi hlit'

theorem Built.next (h : Built c b before k g s) (hp : c.params[k]? = some p)
    (hb : p.Supplied b) :
    ∃ g' s', (∀ rest, (lower c).steps Recorder.bridge b g (buildOps k p ++ rest) s
        = (lower c).steps Recorder.bridge b g' rest s') ∧ Built c b before (k + 1) g' s' := by
  unfold Parameter.Supplied at hb
  cases harg : p.arg with
  | single e =>
    refine ⟨g, s, ?_, h.skip hp (by simp [harg])⟩
    simp [buildOps, harg]
  | array e =>
    refine ⟨g, s, ?_, h.skip hp (by simp [harg])⟩
    simp [buildOps, harg]
  | literal es =>
    rw [harg] at hb
    obtain ⟨a, s', hsteps, hs', hheap, hliteral⟩ : ∃ a s',
        (∀ rest, (lower c).steps Recorder.bridge b g (buildOps k p ++ rest) s
          = (lower c).steps Recorder.bridge b (put g k (.array s.heap.length)) rest s') ∧
        s'.fail = [] ∧ s'.heap = s.heap ++ [a] ∧ a.IsLiteral b p.ty es := by
      cases hty : p.ty.isObject with
      | true =>
        obtain ⟨cls, hcls⟩ := exists_object hty
        exact objects_build hp harg hcls hb h.fail
      | false => exact primitives_build hp harg hty hb h.fail
    exact ⟨_, s', hsteps, h.push ⟨hp, harg⟩ hliteral hs' hheap⟩

/-- The arrays of the remaining parameters are built one after the other. -/
theorem Built.rest {ps : List Parameter} (h : Built c b before k g s)
    (hps : ∀ x ∈ ps.zipIdx k, c.params[x.2]? = some x.1) (hb : ∀ p ∈ ps, p.Supplied b) :
    ∃ g' s', (∀ rest, (lower c).steps Recorder.bridge b g
          (((ps.zipIdx k).flatMap fun x => buildOps x.2 x.1) ++ rest) s
        = (lower c).steps Recorder.bridge b g' rest s') ∧
      Built c b before (k + ps.length) g' s' := by
  induction ps generalizing k g s with
  | nil => exact ⟨g, s, fun _ => rfl, h⟩
  | cons p ps ih =>
    rw [List.zipIdx_cons] at hps
    obtain ⟨g₁, s₁, hfirst, h₁⟩ := h.next (hps (p, k) (by simp)) (hb p (by simp))
    obtain ⟨g', s', hlater, h'⟩ := ih h₁ (fun x hx => hps x (by simp [hx]))
      (fun q hq => hb q (by simp [hq]))
    refine ⟨g', s', ?_, ?_⟩
    · intro rest
      rw [List.zipIdx_cons, List.flatMap_cons, List.append_assoc, hfirst, hlater]
    · rw [List.length_cons, Nat.add_comm ps.length, ← Nat.add_assoc]
      exact h'

end Built

end Plan

/-! ### Arguments -/

/-- The letter that a field type has as an argument: every reference is an object. -/
def FieldType.letter (f : FieldType) : UInt8 :=
  match f.base with
  | .primitive p => if f.isArray then objectLetter else p.letter
  | .cls _ => objectLetter

/-- What a parameter passes, when the call found one heap and the method sees another: the value of
    its expression, or for a literal an array that was not there before. -/
def Parameter.Passes (b : Bindings) (before now : Heap) (p : Parameter) (w : Wire) : Prop :=
  match p.arg with
  | .single e => b.Passes p.ty e w
  | .array e => ∃ v ∈ b.reference? e, w.letter = objectLetter ∧ Encodes v w
  | .literal es => ∃ id a, w = .object (.array id) ∧ before.length ≤ id ∧ now[id]? = some a ∧
      a.IsLiteral b p.ty es

/-- The arguments of a call: one for each parameter, of the kind that the signature has for it. An
    array literal is passed as an array that no other parameter passes. -/
structure Call.Marshalled (b : Bindings) (before now : Heap) (c : Call) (args : List Wire) :
    Prop where
  length : args.length = c.params.length
  kinds : ∃ m, MethodType.parse (Plan.lower c).signature = .ok m ∧
    args.map Wire.letter = m.params.map FieldType.letter
  passes : ∀ (i : Nat) (p : Parameter) (w : Wire), c.params[i]? = some p → args[i]? = some w →
    p.Passes b before now w
  unshared : ∀ (i j : Nat) (p : Parameter) (es : List Bytes), c.params[i]? = some p →
    p.arg = .literal es → j ≠ i → args[j]? ≠ args[i]?

theorem Parameter.letter_fieldType (p : Parameter) :
    p.fieldType.letter = if p.isArray then objectLetter else p.ty.letter := by
  unfold Parameter.fieldType FieldType.letter FieldType.isArray
  cases p.isArray with
  | true => cases p.ty <;> rfl
  | false => cases p.ty <;> rfl

theorem Primitive.letter_ne_object (p : Primitive) : p.letter ≠ objectLetter := by
  cases p <;> decide

theorem ValueType.letter_ne_object {ty : ValueType} (h : ty.isObject = false) :
    ty.letter ≠ objectLetter := by
  cases ty with
  | java p s => exact p.letter_ne_object
  | host k s => exact k.java.letter_ne_object
  | object k => cases h

theorem Bindings.ArraysIn.reference_lt {b : Bindings} {heap : Heap} (h : b.ArraysIn heap)
    {e : Bytes} {v : HostValue} (hv : v ∈ b.reference? e) {id : Nat}
    (hid : Encodes v (.object (.array id))) : id < heap.length := by
  unfold reference? at hv
  cases hlookup : b.lookup e with
  | none =>
    rw [hlookup] at hv
    simp only [Option.mem_def, Option.ite_none_right_eq_some] at hv
    obtain ⟨-, hv⟩ := hv
    cases hv
    cases hid
  | some u =>
    rw [hlookup] at hv
    cases hv
    cases v with
    | object o =>
      obtain rfl : Obj.array id = o := hid
      exact h e id hlookup
    | absent => cases hid
    | _ => exact hid.elim

/-- An array that a parameter is bound to was there before. -/
theorem Parameter.Passes.lt {b : Bindings} {before now : Heap} {p : Parameter} {id : Nat}
    (h : p.Passes b before now (.object (.array id))) (hb : b.ArraysIn before)
    (harg : ∀ es, p.arg ≠ .literal es) : id < before.length := by
  unfold Parameter.Passes at h
  cases hp : p.arg with
  | literal es => exact absurd hp (harg es)
  | array e =>
    rw [hp] at h
    obtain ⟨v, hv, -, hid⟩ := h
    exact hb.reference_lt hv hid
  | single e =>
    rw [hp] at h
    obtain ⟨v, hv, hletter, hid⟩ := h
    cases hty : p.ty.isObject with
    | false => exact absurd hletter.symm (ValueType.letter_ne_object hty)
    | true =>
      rw [Bindings.value?, if_pos hty] at hv
      exact hb.reference_lt hv hid

namespace Plan

open Recorder

variable {b : Bindings} {c : Call} {p : Parameter} {i : Nat} {g : Progress}

/-- The wire value that the parameter with index `i` gives for its argument. -/
structure Gives (b : Bindings) (before : Heap) (g : Progress) (s : Recorder) (p : Parameter)
    (i : Nat) (w : Wire) : Prop where
  run : argValue Recorder.bridge b g i (argOf i p) s = (.ok w, s)
  letter : w.letter = p.fieldType.letter
  passes : p.Passes b before s.heap w
  literal : ∀ es, p.arg = .literal es → w = .object (arrayAt g i)

theorem Built.gives {before : Heap} {s : Recorder} (h : Built c b before c.params.length g s)
    (hp : c.params[i]? = some p) (hb : p.Supplied b) : ∃ w, Gives b before g s p i w := by
  have hi : i < c.params.length := (List.getElem?_eq_some_iff.mp hp).1
  unfold Parameter.Supplied at hb
  cases harg : p.arg with
  | literal es =>
    obtain ⟨id, a, hid, hbefore, ha, hliteral⟩ := h.array i p es hi ⟨hp, harg⟩
    refine ⟨.object (arrayAt g i), ?_, ?_, ?_, fun _ _ => rfl⟩
    · simp [argValue, argOf_param, harg]
    · simp [Parameter.letter_fieldType, Parameter.isArray, harg, Wire.letter]
    · rw [Parameter.Passes, harg]
      exact ⟨id, a, by rw [hid], hbefore, ha, hliteral⟩
  | array e =>
    rw [harg] at hb
    obtain ⟨v, hv, href⟩ := hb
    obtain ⟨o, ho, hencodes⟩ := Bindings.object_of_reference hv href
    refine ⟨.object o, ?_, ?_, ?_, by simp [harg]⟩
    · simp only [argValue, argOf_param, harg]
      rw [bind_run_ok (lookup_run ho s)]
      rfl
    · simp [Parameter.letter_fieldType, Parameter.isArray, harg, Wire.letter]
    · rw [Parameter.Passes, harg]
      exact ⟨v, hv, rfl, hencodes⟩
  | single e =>
    rw [harg] at hb
    obtain ⟨v, hv, hadmits⟩ := hb
    obtain ⟨w, hrun, hpasses⟩ : ∃ w,
        argValue Recorder.bridge b g i (argOf i p) s = (.ok w, s) ∧ b.Passes p.ty e w := by
      simp only [argValue, argOf_param, harg]
      cases hty : p.ty.isObject with
      | true =>
        obtain ⟨o, ho, hpasses⟩ := Bindings.object_of_value hty hv hadmits
        refine ⟨.object o, ?_, hpasses⟩
        rw [if_pos rfl, bind_run_ok (lookup_run ho s)]
        rfl
      | false =>
        obtain ⟨w, hw, hpasses⟩ := Bindings.wire_of_value hty hv hadmits
        refine ⟨w, ?_, hpasses⟩
        rw [if_neg (by simp), wire, hw]
    refine ⟨w, hrun, ?_, ?_, by simp [harg]⟩
    · obtain ⟨-, -, hletter, -⟩ := hpasses
      simp [Parameter.letter_fieldType, Parameter.isArray, harg, hletter]
    · rw [Parameter.Passes, harg]
      exact hpasses

theorem argValues_eq {σ : Type} {B : Bridge σ} {ps : List Parameter} {k : Nat} {ws : List Wire}
    {s : σ} (h : List.Forall₂ (fun (x : Parameter × Nat) w =>
      argValue B b g x.2 (argOf x.2 x.1) s = (.ok w, s)) (ps.zipIdx k) ws) :
    argValues B b g k ((ps.zipIdx k).map fun x => argOf x.2 x.1) s = (.ok ws, s) := by
  induction ps generalizing k ws with
  | nil =>
    cases h
    rfl
  | cons p ps ih =>
    rw [List.zipIdx_cons] at h ⊢
    cases h with
    | cons hp hps =>
      rw [List.map_cons, argValues, bind_run_ok hp, bind_run_ok (ih hps)]
      rfl

/-- Built arrays and supplied expressions give the arguments of the call. -/
theorem Built.marshalled {src : Source} {before : Heap} {s : Recorder}
    (h : Built c b before c.params.length g s) (hparse : Call.parse src = .ok c)
    (hb : c.Supplied b) (harrays : b.ArraysIn before) :
    ∃ ws, argValues Recorder.bridge b g 0 (lower c).args s = (.ok ws, s) ∧
      c.Marshalled b before s.heap ws := by
  have hget {x : Parameter × Nat} (hx : x ∈ c.params.zipIdx) : c.params[x.2]? = some x.1 :=
    List.mem_zipIdx_iff_getElem?.mp hx
  obtain ⟨ws, hws⟩ : ∃ ws, List.Forall₂ (fun (x : Parameter × Nat) w => Gives b before g s x.1 x.2 w)
      c.params.zipIdx ws := by
    apply exists_forall₂
    intro x hx
    exact h.gives (hget hx) (hb.params x.1 (List.mem_of_getElem? (hget hx)))
  have hlength : ws.length = c.params.length := by
    rw [← hws.length_eq, List.length_zipIdx]
  have hgives (i : Nat) (p : Parameter) (w : Wire) (hp : c.params[i]? = some p)
      (hw : ws[i]? = some w) : Gives b before g s p i w := by
    obtain ⟨hi, rfl⟩ := List.getElem?_eq_some_iff.mp hp
    obtain ⟨hi', rfl⟩ := List.getElem?_eq_some_iff.mp hw
    have hgiven := hws.get (by simpa using hi) hi'
    simpa using hgiven
  refine ⟨ws, ?_, hlength, ?_, ?_, ?_⟩
  · rw [lower_args]
    exact argValues_eq (hws.imp fun _ _ hx => hx.run)
  · refine ⟨c.methodType, Call.parse_signature (Call.parse_wellFormed hparse), ?_⟩
    rw [Call.methodType, List.map_map]
    apply List.ext_getElem (by simp [hlength])
    intro i hi hi'
    simp only [List.length_map] at hi hi'
    have hgiven := hgives i _ _ (List.getElem?_eq_getElem hi') (List.getElem?_eq_getElem hi)
    simpa using hgiven.letter
  · intro i p w hp hw
    exact (hgives i p w hp hw).passes
  · intro i j p es hp harg hji hsame
    have hi : i < ws.length := hlength ▸ (List.getElem?_eq_some_iff.mp hp).1
    rw [List.getElem?_eq_getElem hi] at hsame
    have hj : j < c.params.length := hlength ▸ (List.getElem?_eq_some_iff.mp hsame).1
    have hq := List.getElem?_eq_getElem hj
    have hgiven := hgives i p _ hp (List.getElem?_eq_getElem hi)
    have hgiven' := hgives j _ _ hq hsame
    obtain ⟨id, -, hid, hnew, -, -⟩ := h.array i p es (hlength ▸ hi) ⟨hp, harg⟩
    by_cases hlit : ∃ es', c.params[j].arg = .literal es'
    · -- both are literals, and each has an array of its own
      obtain ⟨es', harg'⟩ := hlit
      have hsame' : arrayAt g i = arrayAt g j :=
        Wire.object.inj ((hgiven.literal es harg).symm.trans (hgiven'.literal es' harg'))
      rcases Nat.lt_or_gt_of_ne hji with hlt | hlt
      · exact h.own j i _ _ _ _ hlt (hlength ▸ hi) ⟨hq, harg'⟩ ⟨hp, harg⟩ hsame'.symm
      · exact h.own i j _ _ _ _ hlt hj ⟨hp, harg⟩ ⟨hq, harg'⟩ hsame'
    · have hpasses := hgiven'.passes
      rw [hgiven.literal es harg, hid] at hpasses
      have hold := hpasses.lt harrays fun es' harg' => hlit ⟨es', harg'⟩
      omega

/-! ### The method call -/

/-- Built arrays and supplied expressions get the method called with its arguments. -/
theorem Built.call {src : Source} {before : Heap} {s : Recorder}
    (h : Built c b before c.params.length g s) (hparse : Call.parse src = .ok c)
    (hb : c.Supplied b) (harrays : b.ArraysIn before) :
    ∃ r s', (∀ rest, (lower c).steps Recorder.bridge b g (.invoke :: rest) s
        = (lower c).steps Recorder.bridge b { g with result := s.result } rest s') ∧
      s'.calls = s.calls ++ [r] ∧ s'.heap = s.heap ∧ r.bare = c.invocation ∧
      c.Marshalled b before s.heap r.args := by
  obtain ⟨ws, hargs, hws⟩ := h.marshalled hparse hb harrays
  obtain ⟨r, hinvoke, hbare, rfl⟩ : ∃ r : Recorded,
      (lower c).invoke Recorder.bridge b g s
        = (.ok s.result, { s.wrote r with pending := s.exception }) ∧
      r.bare = c.invocation ∧ r.args = ws := by
    have hcall : (lower c).call = c := rfl
    rw [invoke, bind_run_ok hargs, hcall, Call.invocation]
    cases htarget : c.target with
    | static k span => exact ⟨_, ask_ok (invoke_eq h.fail _), rfl, rfl⟩
    | object e span =>
      obtain ⟨v, hv, href⟩ := hb.receiver e span htarget
      obtain ⟨o, ho, -⟩ := Bindings.object_of_reference hv href
      simp only
      rw [bind_run_ok (lookup_run ho s)]
      exact ⟨_, ask_ok (invoke_eq h.fail _), rfl, rfl⟩
  refine ⟨r, { s.wrote r with pending := s.exception }, ?_, rfl, rfl, hbare, hws⟩
  intro rest
  apply steps_more
  rw [step, bind_run_ok (blame_ok hinvoke _)]
  rfl

theorem steps_heap {p : Plan} {ops : List Op}
    (hops : ∀ o ∈ ops, ∀ g s, (p.step Recorder.bridge b g o s).2.heap = s.heap) (g : Progress)
    (s : Recorder) : (p.steps Recorder.bridge b g ops s).2.heap = s.heap := by
  induction ops generalizing g s with
  | nil => rfl
  | cons o ops ih =>
    have ho := hops o (by simp) g s
    cases hstep : p.step Recorder.bridge b g o s with
    | mk res s₁ =>
      rw [hstep] at ho
      cases res with
      | error f =>
        rw [steps_error hstep]
        exact ho
      | ok next =>
        cases next with
        | done r =>
          rw [steps_done hstep]
          exact ho
        | more g₁ =>
          rw [steps_more hstep, ih (fun o ho => hops o (by simp [ho]))]
          exact ho

/-- Nothing is written to an array once the method was called. -/
theorem heap_after_call (g : Progress) (s : Recorder) :
    ((lower c).steps Recorder.bridge b g (callOps c.ret).tail s).2.heap = s.heap := by
  apply steps_heap
  intro o ho g s
  have hconvert (ty : ValueType) :
      ((lower c).step Recorder.bridge b g (.convert ty) s).2.heap = s.heap := by
    rw [step]
    split <;> rfl
  have hnull (ty : ValueType) :
      ((lower c).step Recorder.bridge b g (.nullCheck ty) s).2.heap = s.heap := by
    rw [step]
    split <;> rfl
  have hexception : ((lower c).step Recorder.bridge b g .exceptionCheck s).2.heap = s.heap := by
    have htake : Recorder.bridge.answer .catchException s
        = (s.pending, { s.wrote { op := .catchException } with pending := none }) := rfl
    cases hpending : s.pending with
    | none =>
      rw [hpending] at htake
      rw [step_exceptionCheck htake]
      rfl
    | some e =>
      rw [hpending] at htake
      rw [step_exceptionCheck_done htake]
      rfl
  rw [callOps_checks, List.tail_cons, List.mem_cons, List.mem_append] at ho
  rcases ho with rfl | ho | ho
  · exact hconvert _
  · rcases mem_checkOps ho with rfl | rfl | rfl
    · rfl
    · exact hnull _
    · exact hexception
  · rw [List.mem_singleton.mp ho]
    rfl

/-- **What a method is called with.** On a recorder that fails nothing, with a value of its declared
    type for every expression, the method of a parsed call is called after its arrays are built, and
    its arguments are those that the call has to pass. -/
theorem run_marshals {src : Source} (hparse : Call.parse src = .ok c) (hb : c.Supplied b)
    {s : Recorder} (hs : s.fail = []) (harrays : b.ArraysIn s.heap) :
    ∃ g s₁ before r after,
      (lower c).run b s = (lower c).steps Recorder.bridge b g (callOps c.ret).tail s₁ ∧
      s₁.calls = s.calls ++ before ++ [r] ∧
      ((lower c).run b s).2.calls = s₁.calls ++ after ∧
      ((lower c).run b s).2.heap = s₁.heap ∧ s.heap <+: s₁.heap ∧
      before.map Recorded.bare = c.builds ∧ r.bare = c.invocation ∧
      c.Marshalled b s.heap s₁.heap r.args := by
  have hstart : Built c b s.heap 0 {} s := by
    refine ⟨hs, List.prefix_refl _, ?_, ?_⟩
    · intro i p es hi
      omega
    · intro i j p q es es' _ hj
      omega
  obtain ⟨g, s₀, hsteps, hbuilt⟩ := hstart.rest
    (fun x hx => List.mem_zipIdx_iff_getElem?.mp hx) hb.params
  rw [Nat.zero_add] at hbuilt
  have hbuilders : (c.params.mapIdx buildOps).flatten
      = c.params.zipIdx.flatMap fun x => buildOps x.2 x.1 := by
    rw [List.mapIdx_eq_zipIdx_map, List.flatMap_def]
  -- what the building steps have written down
  obtain ⟨before, hbefore⟩ := builders_failStop c b {} s
  have hend := hsteps []
  rw [← hbuilders, List.append_nil, steps, pure_run] at hend
  rw [hend] at hbefore
  obtain ⟨r, s₁, hcall, hcalls, hheap, hbare, hmarshalled⟩ := hbuilt.call hparse hb harrays
  have hrun : (lower c).run b s = (lower c).steps Recorder.bridge b { g with result := s₀.result }
      (callOps c.ret).tail s₁ := by
    rw [run, runOn, lower_ops, hsteps, ← hcall]
    rfl
  obtain ⟨after, hafter⟩ := steps_failStop c b (pairwise_callOps c).tail
    { g with result := s₀.result } s₁
  rw [← hrun] at hafter
  refine ⟨_, s₁, before, r, after, hrun, ?_, hafter.calls, ?_, ?_, hbefore.complete {} rfl, hbare,
    ?_⟩
  · rw [hcalls, hbefore.calls]
  · rw [hrun, heap_after_call]
  · rw [hheap]
    exact hbuilt.kept
  · rw [hheap]
    exact hmarshalled

theorem run_marshals_literal :
    ∃ c s₁ r, Call.parse (.at "x.m(boolean(true), [u8]([255, y])) -> void" .origin) = .ok c ∧
      r ∈ ((lower c).run [("x", .object (.ref "r" false)), ("y", .uint8 1)] {}).2.calls ∧
      r.bare = c.invocation ∧
      c.Marshalled [("x", .object (.ref "r" false)), ("y", .uint8 1)] [] s₁ r.args := by
  have hok : (match Call.parse (.at "x.m(boolean(true), [u8]([255, y])) -> void" .origin) with
    | .error _ => false
    | .ok c => decide (c.Supplied [("x", .object (.ref "r" false)), ("y", .uint8 1)])) = true := by
    decide +kernel
  cases hparse : Call.parse (.at "x.m(boolean(true), [u8]([255, y])) -> void" .origin) with
  | error e => simp [hparse] at hok
  | ok c =>
    simp only [hparse, decide_eq_true_eq] at hok
    have harrays : Bindings.ArraysIn [("x", .object (.ref "r" false)), ("y", .uint8 1)]
        ({} : Recorder).heap := by
      intro e id he
      simp only [List.lookup_cons] at he
      split at he
      · cases he
      · split at he <;> cases he
    obtain ⟨g, s₁, before, r, after, -, hcalls, hrun, -, -, -, hbare, hmarshalled⟩ :=
      run_marshals hparse hok rfl harrays
    refine ⟨c, s₁.heap, r, rfl, ?_, hbare, hmarshalled⟩
    rw [hrun, hcalls]
    simp

end Plan
end BridgeCall
