/-
  BridgeCall/Proofs/Plan/Isolation.lean
  =====================================
  **Calls on one bridge do not see each other.**  A recorder is used for many
  calls.  What an earlier one left behind, a pending exception, written operations
  and arrays, is still there when the next one starts; `run_after_history` says
  that the next one gives and records what it would on a fresh recorder.

  The two runs differ in the numbers of their arrays, so they are compared up to
  a renumbering `ρ`.  `Alike` relates the two recorders and `Mirrors` two parts of
  a run; it goes through `do` blocks.  The pending exceptions are unrelated at
  first: they become equal when the method is called, and a plan asks for the
  exception only after that (`Checked`).
-/
import BridgeCall.Proofs.Plan.FailStop

namespace BridgeCall

/-! ### Renumbering arrays -/

/-- What knows arrays by their numbers. -/
class Numbered (α : Type) where
  renumber : (Nat → Nat) → α → α

open Numbered (renumber)

instance : Numbered Obj where
  renumber ρ
    | .array id => .array (ρ id)
    | o => o

instance : Numbered HostValue where
  renumber ρ
    | .object o => .object (renumber ρ o)
    | v => v

instance : Numbered Wire where
  renumber ρ
    | .object o => .object (renumber ρ o)
    | w => w

instance {α : Type} [Numbered α] : Numbered (List α) where
  renumber ρ := List.map (renumber ρ)

instance : Numbered JavaArray where
  renumber ρ a := { a with elements := renumber ρ a.elements }

instance : Numbered (Nat × JavaArray) where
  renumber ρ x := (ρ x.1, renumber ρ x.2)

instance : Numbered (Nat × Obj) where
  renumber ρ x := (x.1, renumber ρ x.2)

instance : Numbered (Bytes × HostValue) where
  renumber ρ x := (x.1, renumber ρ x.2)

instance : Numbered Bindings := inferInstanceAs (Numbered (List (Bytes × HostValue)))

instance : Numbered Unit where
  renumber _ u := u

instance : Numbered (Option JavaException) where
  renumber _ e := e

instance : Numbered Recorded where
  renumber ρ r := { r with args := renumber ρ r.args }

instance : Numbered Progress where
  renumber ρ g := { g with arrays := renumber ρ g.arrays, result := renumber ρ g.result }

instance : Numbered Outcome where
  renumber ρ o := { o with value := renumber ρ o.value }

instance : Numbered Plan.Next where
  renumber ρ
    | .more g => .more (renumber ρ g)
    | .done o => .done (renumber ρ o)

instance {ε α : Type} [Numbered α] : Numbered (Except ε α) where
  renumber ρ
    | .ok a => .ok (renumber ρ a)
    | .error e => .error e

section Lists

variable {α : Type} [Numbered α] (ρ : Nat → Nat)

theorem renumber_list (xs : List α) : renumber ρ xs = xs.map (renumber ρ) := rfl

@[simp] theorem renumber_length (xs : List α) : (renumber ρ xs).length = xs.length :=
  List.length_map _

theorem renumber_append (xs ys : List α) : renumber ρ (xs ++ ys) = renumber ρ xs ++ renumber ρ ys :=
  List.map_append

theorem renumber_replicate (n : Nat) (a : α) :
    renumber ρ (List.replicate n a) = List.replicate n (renumber ρ a) := List.map_replicate

theorem renumber_set (xs : List α) (i : Nat) (a : α) :
    renumber ρ (xs.set i a) = (renumber ρ xs).set i (renumber ρ a) := List.map_set

theorem renumber_overwrite (n : Nat) (buf xs : List α) :
    renumber ρ (Recorder.overwrite n buf xs)
      = Recorder.overwrite n (renumber ρ buf) (renumber ρ xs) := by
  simp only [Recorder.overwrite, renumber_append, renumber_length]
  simp only [renumber_list, List.map_take, List.map_drop]

end Lists

section Values

variable {ρ : Nat → Nat}

theorem renumber_array (kind : UInt8) (cls : Bytes) (elements : List HostValue) :
    renumber ρ (⟨kind, cls, elements⟩ : JavaArray) = ⟨kind, cls, renumber ρ elements⟩ := rfl

theorem renumber_found (id : Nat) (a : JavaArray) :
    renumber ρ (id, a) = (ρ id, renumber ρ a) := rfl

@[simp] theorem renumber_typeName (v : HostValue) : (renumber ρ v).typeName = v.typeName := by
  cases v with
  | object o => cases o <;> rfl
  | _ => rfl

@[simp] theorem renumber_scalarText (v : HostValue) : (renumber ρ v).scalarText = v.scalarText := by
  cases v with
  | object o => cases o <;> rfl
  | _ => rfl

@[simp] theorem renumber_letter (w : Wire) : (renumber ρ w).letter = w.letter := by
  cases w <;> rfl

@[simp] theorem renumber_isNull (o : Obj) : (renumber ρ o).isNull = o.isNull := by
  cases o <;> rfl

theorem renumber_objectOrNull (w : Wire) :
    (renumber ρ w).objectOrNull = renumber ρ w.objectOrNull := by
  cases w <;> rfl

theorem renumber_raw (w : Wire) : (renumber ρ w).raw = renumber ρ w.raw := by
  cases w with
  | object o => cases o <;> rfl
  | _ => rfl

/-- Only a reference knows an array, and a reference crosses as it is. -/
theorem renumber_fromWire (ty : ValueType) (w : Wire) :
    fromWire ty (renumber ρ w) = renumber ρ (fromWire ty w) := by
  cases w with
  | object o => cases o <;> rfl
  | _ =>
    cases ty with
    | java p s => rfl
    | host k s => cases k <;> rfl
    | object c => rfl

theorem toWire?_renumber (ty : ValueType) (v : HostValue) :
    toWire? ty (renumber ρ v) = toWire? ty v := by
  cases v <;> rfl

theorem toWire?_ne_object (ty : ValueType) (v : HostValue) (o : Obj) :
    toWire? ty v ≠ some (.object o) := by
  unfold toWire?
  split <;> first
    | (split <;> simp)
    | simp

/-- A value of a primitive type knows no array. -/
theorem renumber_of_toWire? {ty : ValueType} {v : HostValue} {w : Wire} (h : toWire? ty v = some w) :
    renumber ρ w = w := by
  cases w with
  | object o => exact absurd h (toWire?_ne_object ty v o)
  | _ => rfl

/-- A literal knows no array. -/
theorem renumber_of_readLiteral {ty : ValueType} {text : Bytes} {v : HostValue}
    (h : readLiteral ty text = .ok v) : renumber ρ v = v := by
  unfold readLiteral at h
  simp only at h
  split at h <;> first
    | (split at h <;> cases h; rfl)
    | cases h

theorem renumber_lookup (b : Bindings) (e : Bytes) :
    (renumber ρ b).lookup e = (b.lookup e).map (renumber ρ) := by
  induction b with
  | nil => rfl
  | cons x b ih =>
    change ((x.1, renumber ρ x.2) :: renumber ρ b).lookup e = _
    obtain ⟨k, v⟩ := x
    rw [List.lookup_cons, List.lookup_cons, ih]
    cases e == k <;> rfl

theorem renumber_object (b : Bindings) (e : Bytes) :
    (renumber ρ b).object e = renumber ρ (b.object e) := by
  rw [Bindings.object, Bindings.object, renumber_lookup]
  cases b.lookup e with
  | none =>
    simp only [Option.map_none]
    split <;> rfl
  | some v => cases v <;> rfl

theorem renumber_arrayAt (g : Progress) (i : Nat) :
    Plan.arrayAt (renumber ρ g) i = renumber ρ (Plan.arrayAt g i) := by
  obtain ⟨arrays, result, isPresent⟩ := g
  change ((renumber ρ arrays).lookup i).getD .null = _
  change _ = renumber ρ ((arrays.lookup i).getD .null)
  induction arrays with
  | nil => rfl
  | cons x arrays ih =>
    change (((x.1, renumber ρ x.2) :: renumber ρ arrays).lookup i).getD .null = _
    obtain ⟨j, o⟩ := x
    rw [List.lookup_cons, List.lookup_cons]
    cases i == j with
    | true => rfl
    | false => exact ih

end Values

/-! ### Two recorders -/

/-- The second heap holds the arrays of the first under other numbers, and whatever is allocated in
    both from now on gets the next number in each. -/
structure Heap.Embeds (ρ : Nat → Nat) (h h' : Heap) : Prop where
  injective : Function.Injective ρ
  arrays : ∀ i a, h[i]? = some a → h'[ρ i]? = some (renumber ρ a)
  fresh : ∀ k, ρ (h.length + k) = h'.length + k

namespace Heap.Embeds

variable {ρ : Nat → Nat} {h h' : Heap}

theorem missing (he : Embeds ρ h h') {i : Nat} (hi : h[i]? = none) : h'[ρ i]? = none := by
  rw [List.getElem?_eq_none_iff] at hi ⊢
  obtain ⟨k, rfl⟩ := Nat.exists_eq_add_of_le hi
  rw [he.fresh]
  omega

theorem get (he : Embeds ρ h h') (i : Nat) : h'[ρ i]? = (h[i]?).map (renumber ρ) := by
  cases hi : h[i]? with
  | none => exact he.missing hi
  | some a => exact he.arrays i a hi

theorem text (he : Embeds ρ h h') (v : HostValue) : (renumber ρ v).text h' = v.text h := by
  cases v with
  | object o =>
    cases o with
    | array id =>
      change HostValue.text h' (.object (.array (ρ id))) = HostValue.text h (.object (.array id))
      unfold HostValue.text
      simp only [he.get]
      cases h[id]? with
      | none => rfl
      | some a =>
        have helements : (renumber ρ a.elements).map HostValue.scalarText
            = a.elements.map HostValue.scalarText := by
          change (a.elements.map _).map _ = _
          rw [List.map_map]
          exact List.map_congr_left fun v _ => renumber_scalarText v
        simp only [Option.map_some]
        change _ ++ Bytes.join " " ((renumber ρ a.elements).map HostValue.scalarText) ++ _ = _
        rw [helements]
        rfl
    | _ => rfl
  | _ => rfl

theorem allocate (he : Embeds ρ h h') (a : JavaArray) :
    Embeds ρ (h ++ [a]) (h' ++ [renumber ρ a]) := by
  have hnew : ρ h.length = h'.length := he.fresh 0
  refine ⟨he.injective, ?_, ?_⟩
  · intro i b hb
    rcases Nat.lt_trichotomy i h.length with hi | rfl | hi
    · rw [List.getElem?_append_left hi] at hb
      have hb' := he.arrays i b hb
      obtain ⟨hlt, -⟩ := List.getElem?_eq_some_iff.mp hb'
      rw [List.getElem?_append_left hlt]
      exact hb'
    · rw [List.getElem?_concat_length] at hb
      cases hb
      rw [hnew, List.getElem?_concat_length]
    · rw [List.getElem?_eq_none (by simp; omega)] at hb
      cases hb
  · intro k
    have := he.fresh (1 + k)
    simp only [List.length_append, List.length_singleton]
    rw [← Nat.add_assoc] at this
    omega

theorem store (he : Embeds ρ h h') (id : Nat) (a : JavaArray) :
    Embeds ρ (h.set id a) (h'.set (ρ id) (renumber ρ a)) := by
  refine ⟨he.injective, ?_, ?_⟩
  · intro i b hb
    by_cases hi : id = i
    · subst hi
      obtain ⟨hlt, -⟩ := List.getElem?_eq_some_iff.mp hb
      rw [List.length_set] at hlt
      rw [List.getElem?_set_self hlt] at hb
      cases hb
      obtain ⟨hlt', -⟩ := List.getElem?_eq_some_iff.mp
        (he.arrays id _ (List.getElem?_eq_getElem hlt))
      rw [List.getElem?_set_self hlt']
    · rw [List.getElem?_set_ne hi] at hb
      rw [List.getElem?_set_ne fun heq => hi (he.injective heq)]
      exact he.arrays i b hb
  · intro k
    rw [List.length_set, List.length_set]
    exact he.fresh k

end Heap.Embeds

/-- Both recorders are set to the exception `x`, and the second has recorded `past` and then what the
    first one has. Before the method is called their pending exceptions have nothing to do with each
    other; after it they are equal, and none but `x` can be pending. -/
structure Recorder.Alike (ρ : Nat → Nat) (past : List Recorded) (x : Option JavaException)
    (called : Bool) (s s' : Recorder) : Prop where
  result : s'.result = renumber ρ s.result
  exception : s.exception = x ∧ s'.exception = x
  fail : s'.fail = s.fail
  calls : s'.calls = past ++ renumber ρ s.calls
  heap : Heap.Embeds ρ s.heap s'.heap
  pending : called = true → s'.pending = s.pending ∧ (s.pending = none ∨ s.pending = x)

section Runs

variable {ε α β : Type} [Numbered α] [Numbered β] {ρ : Nat → Nat} {past : List Recorded}
variable {x : Option JavaException} {k k' k'' : Bool}

theorem Recorder.Alike.weaken {s s' : Recorder} (h : Recorder.Alike ρ past x k s s') :
    Recorder.Alike ρ past x false s s' :=
  ⟨h.result, h.exception, h.fail, h.calls, h.heap, by simp⟩

/-- Two ends of a part of a run: the same up to the numbers of arrays. -/
inductive Matches (ρ : Nat → Nat) (past : List Recorded) (x : Option JavaException) (called : Bool) :
    Except ε α × Recorder → Except ε α × Recorder → Prop
  | ok (a : α) {s s' : Recorder} (h : Recorder.Alike ρ past x called s s') :
    Matches ρ past x called (.ok a, s) (.ok (renumber ρ a), s')
  | error (e : ε) {s s' : Recorder} (h : Recorder.Alike ρ past x false s s') :
    Matches ρ past x called (.error e, s) (.error e, s')

/-- The second part of a run does on the second recorder what the first does on the first. The flags
    say whether the method is called before and after it. -/
def Mirrors (ρ : Nat → Nat) (past : List Recorded) (x : Option JavaException) (k k' : Bool)
    (m m' : ExceptT ε (StateM Recorder) α) : Prop :=
  ∀ s s', Recorder.Alike ρ past x k s s' → Matches ρ past x k' (m s) (m' s')

theorem mirrors_pure (a : α) :
    Mirrors ρ past x k k (pure a : ExceptT ε (StateM Recorder) α) (pure (renumber ρ a)) :=
  fun _ _ h => .ok a h

theorem mirrors_throw (e : ε) :
    Mirrors ρ past x k k' (throw e : ExceptT ε (StateM Recorder) α) (throw e) :=
  fun _ _ h => .error e h.weaken

theorem Mirrors.bind {m m' : ExceptT ε (StateM Recorder) α} {f f' : α → ExceptT ε (StateM Recorder) β}
    (hm : Mirrors ρ past x k k' m m') (hf : ∀ a, Mirrors ρ past x k' k'' (f a) (f' (renumber ρ a))) :
    Mirrors ρ past x k k'' (m >>= f) (m' >>= f') := by
  intro s s' h
  have hend := hm s s' h
  rw [bind_run, bind_run]
  generalize m s = r at hend ⊢
  generalize m' s' = r' at hend ⊢
  cases hend with
  | ok a hs => exact hf a _ _ hs
  | error e hs => exact .error e hs

theorem Mirrors.weaken {m m' : ExceptT ε (StateM Recorder) α} (hm : Mirrors ρ past x k k' m m') :
    Mirrors ρ past x k false m m' := by
  intro s s' h
  have hend := hm s s' h
  generalize m s = r at hend ⊢
  generalize m' s' = r' at hend ⊢
  cases hend with
  | ok a hs => exact .ok a hs.weaken
  | error e hs => exact .error e hs

/-! ### Operations of the recorder -/

namespace Recorder

theorem Alike.wrote {s s' : Recorder} (h : Alike ρ past x k s s') (r : Recorded) :
    Alike ρ past x k (s.wrote r) (s'.wrote (renumber ρ r)) := by
  refine ⟨h.result, h.exception, h.fail, ?_, h.heap, h.pending⟩
  change s'.calls ++ [renumber ρ r] = past ++ renumber ρ (s.calls ++ [r])
  rw [h.calls, renumber_append, List.append_assoc]
  rfl

theorem mirrors_record (r : Recorded) : Mirrors ρ past x k k (record r) (record (renumber ρ r)) := by
  intro s s' h
  have hop : s'.fail.lookup (renumber ρ r).op.name = s.fail.lookup r.op.name := by
    rw [h.fail]
    rfl
  rcases record_cases r s with ⟨t, ht, hrun⟩ | ⟨hnone, hrun⟩
  · rcases record_cases (renumber ρ r) s' with ⟨t', ht', hrun'⟩ | ⟨hnone', -⟩
    · rw [hop, ht] at ht'
      cases ht'
      rw [hrun, hrun']
      exact .error _ (h.wrote r).weaken
    · rw [hop, ht] at hnone'
      cases hnone'
  · rcases record_cases (renumber ρ r) s' with ⟨t', ht', -⟩ | ⟨-, hrun'⟩
    · rw [hop, hnone] at ht'
      cases ht'
    · rw [hrun, hrun']
      exact .ok () (h.wrote r)

/-- Whatever was pending, the configured exception is pending after the call. -/
theorem mirrors_invoke (r : Recorded) : Mirrors ρ past x k true (invoke r) (invoke (renumber ρ r)) := by
  refine (mirrors_record r).bind fun _ => ?_
  intro s s' h
  have hend : Alike ρ past x true { s with pending := s.exception }
      { s' with pending := s'.exception } :=
    ⟨h.result, h.exception, h.fail, h.calls, h.heap,
      fun _ => ⟨h.exception.2.trans h.exception.1.symm, .inr h.exception.1⟩⟩
  change Matches ρ past x true (.ok s.result, _) (.ok s'.result, _)
  rw [h.result]
  exact .ok s.result hend

theorem mirrors_allocate (ρ : Nat → Nat) (past : List Recorded) (x : Option JavaException) (k : Bool)
    (a : JavaArray) :
    Mirrors ρ past x k k (liftM (allocate a) : BridgeM Obj) (liftM (allocate (renumber ρ a))) := by
  intro s s' h
  have hend : Alike ρ past x k { s with heap := s.heap ++ [a] }
      { s' with heap := s'.heap ++ [renumber ρ a] } :=
    ⟨h.result, h.exception, h.fail, h.calls, h.heap.allocate a, h.pending⟩
  change Matches ρ past x k (.ok (Obj.array s.heap.length), _) (.ok (Obj.array s'.heap.length), _)
  have hnew : ρ s.heap.length = s'.heap.length := h.heap.fresh 0
  rw [← hnew]
  exact .ok (Obj.array s.heap.length) hend

theorem renumber_element (o : Obj) : renumber ρ (element o) = element (renumber ρ o) := by
  cases o <;> rfl

theorem mirrors_newArrayOf (p : Primitive) (n : Nat) :
    Mirrors ρ past x k k (newArrayOf p n) (newArrayOf p n) := by
  refine (mirrors_record _).bind fun _ => ?_
  have h := mirrors_allocate ρ past x k
    { kind := p.letter, cls := [], elements := List.replicate n .absent }
  rwa [renumber_array, renumber_replicate] at h

theorem mirrors_newObjectArrayOf (n : Nat) (cls : Bytes) (init : Obj) :
    Mirrors ρ past x k k (newObjectArrayOf n cls init) (newObjectArrayOf n cls (renumber ρ init)) := by
  refine (mirrors_record _).bind fun _ => ?_
  have h := mirrors_allocate ρ past x k
    { kind := objectLetter, cls, elements := List.replicate n (element init) }
  rwa [renumber_array, renumber_replicate, renumber_element] at h

theorem mirrors_arrayOf (op : BridgeOp) (o : Obj) :
    Mirrors ρ past x k k (arrayOf op o) (arrayOf op (renumber ρ o)) := by
  intro s s' h
  have hget : (get : BridgeM Recorder) s = (.ok s, s) := rfl
  have hget' : (get : BridgeM Recorder) s' = (.ok s', s') := rfl
  rw [arrayOf, arrayOf, bind_run_ok hget, bind_run_ok hget']
  cases o with
  | array id =>
    rw [show renumber ρ (Obj.array id) = .array (ρ id) from rfl]
    simp only [h.heap.get]
    cases s.heap[id]? with
    | some a => exact .ok (id, a) h
    | none => exact .error _ h.weaken
  | null => exact .error _ h.weaken
  | nullRef => exact .error _ h.weaken
  | ref name isNull => exact .error _ h.weaken

theorem mirrors_store (ρ : Nat → Nat) (past : List Recorded) (x : Option JavaException) (k : Bool)
    (id : Nat) (a : JavaArray) :
    Mirrors ρ past x k k (store id a) (store (ρ id) (renumber ρ a)) :=
  fun _ _ h => .ok ()
    ⟨h.result, h.exception, h.fail, h.calls, h.heap.store id a, h.pending⟩

theorem mirrors_ite {α : Type} [Numbered α] {c : Prop} [Decidable c] {m m' q q' : BridgeM α}
    (hm : Mirrors ρ past x k k' m m') (hq : Mirrors ρ past x k k' q q') :
    Mirrors ρ past x k k' (if c then m else q) (if c then m' else q') := by
  split
  · exact hm
  · exact hq

theorem mirrors_setArrayRegion (p : Primitive) (arr : Obj) (start : Int) (buf : List HostValue) :
    Mirrors ρ past x k k (setArrayRegion p arr start buf)
      (setArrayRegion p (renumber ρ arr) start (renumber ρ buf)) := by
  unfold setArrayRegion
  rw [renumber_length]
  refine (mirrors_record _).bind fun _ => (mirrors_arrayOf _ arr).bind ?_
  rintro ⟨id, kind, cls, elements⟩
  have hstore := mirrors_store ρ past x k id
    ⟨kind, cls, overwrite start.toNat buf elements⟩
  rw [renumber_array, renumber_overwrite] at hstore
  simp only [renumber_found, renumber_array, renumber_length]
  exact mirrors_ite (mirrors_throw _) (mirrors_ite (mirrors_throw _) hstore)

theorem mirrors_setObjectArrayElement (arr : Obj) (index : Int) (v : Obj) :
    Mirrors ρ past x k k (setObjectArrayElement arr index v)
      (setObjectArrayElement (renumber ρ arr) index (renumber ρ v)) := by
  unfold setObjectArrayElement
  refine (mirrors_record _).bind fun _ => (mirrors_arrayOf _ arr).bind ?_
  rintro ⟨id, kind, cls, elements⟩
  have hstore := mirrors_store ρ past x k id
    ⟨kind, cls, elements.set index.toNat (element v)⟩
  rw [renumber_array, renumber_set, renumber_element] at hstore
  simp only [renumber_found, renumber_array, renumber_length]
  exact mirrors_ite (mirrors_throw _) hstore

end Recorder

/-! ### Steps -/

namespace Plan

variable {b : Bindings} {g : Progress}

theorem mirrors_ask {m m' : BridgeM α} (h : Mirrors ρ past x k k' m m') :
    Mirrors ρ past x k k' (RunM.ask m) (RunM.ask m') := by
  intro s s' hs
  have hend := h s s' hs
  unfold RunM.ask
  generalize m s = r at hend ⊢
  generalize m' s' = r' at hend ⊢
  cases hend with
  | ok a hs => exact .ok a hs
  | error e hs => exact .error _ hs

theorem mirrors_blame (st : Step) {m m' : RunM Recorder α} (h : Mirrors ρ past x k k' m m') :
    Mirrors ρ past x k k' (blame st m) (blame st m') := by
  intro s s' hs
  have hend := h s s' hs
  unfold blame
  generalize m s = r at hend ⊢
  generalize m' s' = r' at hend ⊢
  cases hend with
  | ok a hs => exact .ok a hs
  | error e hs => exact .error _ hs

theorem mirrors_object (b : Bindings) (e : Bytes) :
    Mirrors ρ past x k k (RunM.lookup (b.object e) : RunM Recorder Obj)
      (RunM.lookup ((renumber ρ b).object e)) := by
  rw [renumber_object]
  intro s s' hs
  change Matches ρ past x k (b.object e, s) (renumber ρ (b.object e), s')
  cases b.object e with
  | ok o => exact .ok o hs
  | error e => exact .error e hs.weaken

/-- What becomes of a value that was looked up. -/
def crossing (h : Heap) (ty : ValueType) (v : HostValue) : Except Cause Wire :=
  match toWire? ty v with
  | some w => .ok w
  | none => .error (.wrongHostType (v.text h) v.typeName ty.hostType)

theorem renumber_crossing {h h' : Heap} (he : Heap.Embeds ρ h h') (ty : ValueType) (v : HostValue) :
    crossing h' ty (renumber ρ v) = renumber ρ (crossing h ty v) := by
  rw [crossing, crossing, toWire?_renumber, he.text, renumber_typeName]
  cases hw : toWire? ty v with
  | none => rfl
  | some w =>
    change Except.ok w = Except.ok (renumber ρ w)
    rw [renumber_of_toWire? hw]

theorem renumber_wire {h h' : Heap} (he : Heap.Embeds ρ h h') (b : Bindings) (ty : ValueType)
    (e : Bytes) : (renumber ρ b).wire h' ty e = renumber ρ (b.wire h ty e) := by
  unfold Bindings.wire
  rw [renumber_lookup]
  cases b.lookup e with
  | some v => exact renumber_crossing he ty v
  | none =>
    simp only [Option.map_none]
    cases hread : readLiteral ty e with
    | error err => rfl
    | ok v =>
      have hv := renumber_crossing he ty v
      rw [renumber_of_readLiteral hread] at hv
      exact hv

theorem mirrors_wire (b : Bindings) (ty : ValueType) (e : Bytes) :
    Mirrors ρ past x k k (wire Recorder.bridge b ty e) (wire Recorder.bridge (renumber ρ b) ty e) := by
  intro s s' hs
  change Matches ρ past x k (b.wire s.heap ty e, s) ((renumber ρ b).wire s'.heap ty e, s')
  rw [renumber_wire hs.heap]
  cases b.wire s.heap ty e with
  | ok w => exact .ok w hs
  | error e => exact .error e hs.weaken

theorem mirrors_argValue (b : Bindings) (g : Progress) (i : Nat) (a : Arg) :
    Mirrors ρ past x k k (argValue Recorder.bridge b g i a)
      (argValue Recorder.bridge (renumber ρ b) (renumber ρ g) i a) := by
  unfold argValue
  cases a.param.arg with
  | literal es =>
    simp only
    rw [renumber_arrayAt]
    exact mirrors_pure (Wire.object (arrayAt g i))
  | array v => exact (mirrors_object b v).bind fun o => mirrors_pure (Wire.object o)
  | single v =>
    simp only
    split
    · exact (mirrors_object b v).bind fun o => mirrors_pure (Wire.object o)
    · exact mirrors_wire b a.param.ty v

theorem mirrors_argValues (b : Bindings) (g : Progress) (i : Nat) (args : List Arg) :
    Mirrors ρ past x k k (argValues Recorder.bridge b g i args)
      (argValues Recorder.bridge (renumber ρ b) (renumber ρ g) i args) := by
  induction args generalizing i with
  | nil => exact mirrors_pure []
  | cons a args ih =>
    exact (mirrors_argValue b g i a).bind fun w => (ih (i + 1)).bind fun ws => mirrors_pure (w :: ws)

theorem mirrors_elementWires (b : Bindings) (ty : ValueType) (es : List Bytes) :
    Mirrors ρ past x k k (elementWires Recorder.bridge b ty es)
      (elementWires Recorder.bridge (renumber ρ b) ty es) := by
  induction es with
  | nil => exact mirrors_pure []
  | cons e es ih =>
    exact (mirrors_wire b ty e).bind fun w => ih.bind fun ws => mirrors_pure (w :: ws)

theorem mirrors_fill (p : Plan) (b : Bindings) (g : Progress) (i : Nat) (ty : ValueType) :
    Mirrors ρ past x k k (p.fill Recorder.bridge b g i ty)
      (p.fill Recorder.bridge (renumber ρ b) (renumber ρ g) i ty) := by
  refine (mirrors_elementWires b ty (p.elementsOf i)).bind fun ws => ?_
  have hraw : (renumber ρ ws).map Wire.raw = renumber ρ (ws.map Wire.raw) := by
    simp only [renumber_list, List.map_map]
    exact List.map_congr_left fun w _ => renumber_raw w
  simp only
  rw [hraw, renumber_arrayAt]
  exact mirrors_ask (Recorder.mirrors_setArrayRegion _ (arrayAt g i) 0 (ws.map Wire.raw))

theorem mirrors_invoke (p : Plan) (b : Bindings) (g : Progress) :
    Mirrors ρ past x k true (p.invoke Recorder.bridge b g)
      (p.invoke Recorder.bridge (renumber ρ b) (renumber ρ g)) := by
  refine (mirrors_argValues b g 0 p.args).bind fun ws => ?_
  cases p.call.target with
  | static c span => exact mirrors_ask (Recorder.mirrors_invoke _)
  | object r span =>
    exact (mirrors_object b r).bind fun o => mirrors_ask (Recorder.mirrors_invoke _)

theorem mirrors_takeException :
    Mirrors ρ past x true true (takeException Recorder.bridge) (takeException Recorder.bridge) := by
  intro s s' h
  have hwrote := h.wrote { op := .catchException }
  have hend : Recorder.Alike ρ past x true
      { s.wrote { op := .catchException } with pending := none }
      { s'.wrote { op := .catchException } with pending := none } :=
    ⟨hwrote.result, hwrote.exception, hwrote.fail, hwrote.calls, hwrote.heap, fun _ => ⟨rfl, .inl rfl⟩⟩
  change Matches ρ past x true (.ok s.pending, _) (.ok s'.pending, _)
  rw [(h.pending rfl).1]
  exact .ok s.pending hend

theorem renumber_outcome (p : Plan) (g : Progress) (ty : ValueType) :
    p.outcome (renumber ρ g) ty = renumber ρ (p.outcome g ty) := by
  obtain ⟨arrays, result, isPresent⟩ := g
  simp only [outcome]
  cases (Shape.of p.call.ret).value with
  | false => rfl
  | true =>
    cases (Shape.of p.call.ret).optional with
    | false =>
      exact congrArg (fun v => ({ value := v, present := true } : Outcome)) (renumber_fromWire ty result)
    | true =>
      cases isPresent with
      | false => rfl
      | true =>
        exact congrArg (fun o => ({ value := .object o, present := true } : Outcome))
          (renumber_objectOrNull result)

/-- Whether the method has been called after a step. -/
def calledAfter (called : Bool) : Op → Bool
  | .invoke => true
  | _ => called

/-- The step that takes the exception comes only after the call. -/
def Checked : Bool → List Op → Prop
  | _, [] => True
  | called, o :: rest => (o = .exceptionCheck → called = true) ∧ Checked (calledAfter called o) rest

theorem mirrors_step (p : Plan) (b : Bindings) (g : Progress) (o : Op)
    (h : o = .exceptionCheck → k = true) :
    Mirrors ρ past x k (calledAfter k o) (p.step Recorder.bridge b g o)
      (p.step Recorder.bridge (renumber ρ b) (renumber ρ g) o) := by
  cases o with
  | newPrimitiveArray i n ty =>
    exact (mirrors_blame _ (mirrors_ask (Recorder.mirrors_newArrayOf _ n))).bind
      fun o => mirrors_pure (Next.more { g with arrays := (i, o) :: g.arrays })
  | fillPrimitiveArray i n ty =>
    exact (mirrors_blame _ (mirrors_fill p b g i ty)).bind fun _ => mirrors_pure (Next.more g)
  | newObjectArray i n c =>
    exact (mirrors_blame _ (mirrors_ask (Recorder.mirrors_newObjectArrayOf n _ .null))).bind
      fun o => mirrors_pure (Next.more { g with arrays := (i, o) :: g.arrays })
  | setObjectElement i j c =>
    refine (mirrors_blame _ ((mirrors_object b _).bind fun o => ?_)).bind
      fun _ => mirrors_pure (Next.more g)
    rw [renumber_arrayAt]
    exact mirrors_ask (Recorder.mirrors_setObjectArrayElement (arrayAt g i) j o)
  | invoke =>
    exact (mirrors_blame _ (mirrors_invoke p b g)).bind
      fun w => mirrors_pure (Next.more { g with result := w })
  | convert ty =>
    have hletter : (renumber ρ g).result.letter = g.result.letter := renumber_letter g.result
    unfold step
    simp only [hletter]
    split
    · exact mirrors_pure (Next.more g)
    · exact mirrors_throw _
  | nullCheck ty =>
    have hnull : (renumber ρ g).result.objectOrNull.isNull = g.result.objectOrNull.isNull := by
      change (renumber ρ g.result).objectOrNull.isNull = _
      rw [renumber_objectOrNull, renumber_isNull]
    unfold step
    simp only [hnull]
    split
    · exact mirrors_throw _
    · exact mirrors_pure (Next.more g)
  | optionWrap ty =>
    have hnull : (renumber ρ g).result.objectOrNull.isNull = g.result.objectOrNull.isNull := by
      change (renumber ρ g.result).objectOrNull.isNull = _
      rw [renumber_objectOrNull, renumber_isNull]
    unfold step
    simp only [hnull]
    exact mirrors_pure (Next.more { g with isPresent := !g.result.objectOrNull.isNull })
  | exceptionCheck =>
    cases h rfl
    refine mirrors_takeException.bind fun e => ?_
    cases e with
    | some e => exact mirrors_pure (Next.done { err := some e })
    | none => exact mirrors_pure (Next.more g)
  | ret ty =>
    change Mirrors ρ past x k k (pure (Next.done (p.outcome g ty)))
      (pure (Next.done (p.outcome (renumber ρ g) ty)))
    rw [renumber_outcome]
    exact mirrors_pure (Next.done (p.outcome g ty))

theorem mirrors_steps (p : Plan) (b : Bindings) {ops : List Op} (h : Checked k ops) (g : Progress) :
    Mirrors ρ past x k false (p.steps Recorder.bridge b g ops)
      (p.steps Recorder.bridge (renumber ρ b) (renumber ρ g) ops) := by
  induction ops generalizing k g with
  | nil => exact (mirrors_pure ({} : Outcome)).weaken
  | cons o rest ih =>
    obtain ⟨hstep, hrest⟩ := h
    refine (mirrors_step p b g o hstep).bind fun next => ?_
    cases next with
    | more g' => exact ih hrest g'
    | done r => exact (mirrors_pure r).weaken

end Plan
end Runs

/-! ### Plans that are lowered from calls -/

namespace Plan

theorem checked_append {called : Bool} {before after : List Op}
    (h : ∀ o ∈ before, o ≠ .invoke ∧ o ≠ .exceptionCheck) (hafter : Checked called after) :
    Checked called (before ++ after) := by
  induction before with
  | nil => exact hafter
  | cons o before ih =>
    obtain ⟨hcall, hcheck⟩ := h o (by simp)
    have hkeep : calledAfter called o = called := by
      cases o <;> first
        | rfl
        | exact absurd rfl hcall
    refine ⟨fun ho => absurd ho hcheck, ?_⟩
    rw [hkeep]
    exact ih fun o ho => h o (List.mem_cons_of_mem _ ho)

theorem checked_of_called {ops : List Op} : Checked true ops := by
  induction ops with
  | nil => trivial
  | cons o ops ih =>
    have hcalled : calledAfter true o = true := by cases o <;> rfl
    refine ⟨fun _ => rfl, ?_⟩
    rw [hcalled]
    exact ih

/-- Building an array neither calls the method nor asks for the exception. -/
theorem builds_only {i : Nat} {p : Parameter} {o : Op} (h : o ∈ buildOps i p) :
    o ≠ .invoke ∧ o ≠ .exceptionCheck := by
  unfold buildOps at h
  split at h
  · rcases List.mem_cons.mp h with rfl | h
    · simp
    · obtain ⟨j, -, rfl⟩ := List.mem_map.mp h
      simp
  · rcases List.mem_cons.mp h with rfl | h
    · simp
    · split at h
      · cases h
      · rw [List.mem_singleton] at h
        simp [h]
  · cases h

theorem checked_lower (c : Call) : Checked false (lower c).ops := by
  rw [lower_ops, callOps_eq]
  apply checked_append
  · intro o ho
    obtain ⟨x, -, hx⟩ := List.mem_flatMap.mp ho
    exact builds_only hx
  · exact ⟨by simp, checked_of_called⟩

/-! ### Histories -/

end Plan

/-- What the program does before a call: it makes arrays, and it sets the recorder. -/
structure Conditions where
  arrays : Heap := []
  result : Wire := .unset
  exception : Option JavaException := none
  fail : List (Bytes × Bytes) := []

/-- A call in the history of a recorder. -/
structure Turn where
  conditions : Conditions
  plan : Plan
  bindings : Bindings

namespace Recorder

def prepare (s : Recorder) (c : Conditions) : Recorder :=
  { s with
    result := c.result
    exception := c.exception
    fail := c.fail
    heap := s.heap ++ c.arrays }

/-- The recorder after one call, however it ended. -/
def turn (s : Recorder) (t : Turn) : Recorder := (t.plan.run t.bindings (s.prepare t.conditions)).2

def after (s : Recorder) (past : List Turn) : Recorder := past.foldl turn s

/-- A recorder that was never used, set like this one, in a program with the given arrays. -/
def unused (s : Recorder) (result : Wire) (arrays : Heap) : Recorder :=
  { result, exception := s.exception, fail := s.fail, heap := arrays }

end Recorder

section Identity

theorem renumber_id_obj (o : Obj) : renumber id o = o := by cases o <;> rfl

theorem renumber_id_value (v : HostValue) : renumber id v = v := by
  cases v with
  | object o => exact congrArg HostValue.object (renumber_id_obj o)
  | _ => rfl

theorem renumber_id_wire (w : Wire) : renumber id w = w := by
  cases w with
  | object o => exact congrArg Wire.object (renumber_id_obj o)
  | _ => rfl

theorem renumber_id_list {α : Type} [Numbered α] (h : ∀ a : α, renumber id a = a) (xs : List α) :
    renumber id xs = xs := by
  rw [renumber_list, List.map_congr_left fun a _ => h a, List.map_id']

theorem renumber_id_array (a : JavaArray) : renumber id a = a := by
  obtain ⟨kind, cls, elements⟩ := a
  rw [renumber_array, renumber_id_list renumber_id_value]

theorem renumber_id_recorded (r : Recorded) : renumber id r = r := by
  change { r with args := renumber id r.args } = r
  rw [renumber_id_list renumber_id_wire]

theorem renumber_id_bindings (b : Bindings) : renumber id b = b :=
  renumber_id_list (fun x => congrArg (x.1, ·) (renumber_id_value x.2)) b

theorem renumber_id_result (r : Except Fatal Outcome) : renumber id r = r := by
  cases r with
  | error f => rfl
  | ok o =>
    change Except.ok { o with value := renumber id o.value } = _
    rw [renumber_id_value]

theorem Heap.Embeds.refl (h : Heap) : Embeds id h h :=
  ⟨Function.injective_id, fun i a ha => by rw [renumber_id_array]; exact ha, fun _ => rfl⟩

theorem Heap.Embeds.eq {h h' : Heap} (he : Embeds id h h') : h' = h := by
  apply List.ext_getElem?
  intro i
  have hi := he.get i
  rw [id, Option.map_congr fun a _ => renumber_id_array a, Option.map_id'] at hi
  exact hi

end Identity

namespace Plan

theorem outcome_err (p : Plan) (g : Progress) (ty : ValueType) : (p.outcome g ty).err = none := by
  simp only [outcome]
  split
  · rfl
  · split
    · split <;> rfl
    · rfl

theorem bind_more_ne {α : Type} {m : ExceptT Fatal (StateM Recorder) α} {f : α → Progress}
    {s s' : Recorder} {r : Outcome} :
    (m >>= fun a => pure (Next.more (f a))) s ≠ (.ok (.done r), s') := by
  intro h
  rw [bind_run] at h
  split at h <;> cases h

/-- A step that ends a run with an exception is the one that took it. -/
theorem step_done_err {p : Plan} {b : Bindings} {g : Progress} {o : Op} {s s' : Recorder} {r : Outcome}
    {e : JavaException} (h : p.step Recorder.bridge b g o s = (.ok (.done r), s'))
    (he : r.err = some e) : o = .exceptionCheck ∧ s.pending = some e := by
  cases o with
  | newPrimitiveArray i n ty => exact absurd h bind_more_ne
  | fillPrimitiveArray i n ty => exact absurd h bind_more_ne
  | newObjectArray i n c => exact absurd h bind_more_ne
  | setObjectElement i j c => exact absurd h bind_more_ne
  | invoke => exact absurd h bind_more_ne
  | convert ty =>
    unfold step at h
    simp only at h
    split at h <;> cases h
  | nullCheck ty =>
    unfold step at h
    simp only at h
    split at h <;> cases h
  | optionWrap ty => cases h
  | exceptionCheck =>
    refine ⟨rfl, ?_⟩
    cases hp : s.pending with
    | none =>
      have hcatch : Recorder.bridge.answer .catchException s
          = (none, { s.wrote { op := .catchException } with pending := none }) := by
        change (s.pending, _) = _
        rw [hp]
        rfl
      rw [step_exceptionCheck hcatch] at h
      cases h
    | some e' =>
      have hcatch : Recorder.bridge.answer .catchException s
          = (some e', { s.wrote { op := .catchException } with pending := none }) := by
        change (s.pending, _) = _
        rw [hp]
        rfl
      rw [step_exceptionCheck_done hcatch] at h
      cases h
      exact he
  | ret ty =>
    cases h
    rw [outcome_err] at he
    cases he

/-- A reported exception was pending, and after the call only the configured one can be. -/
theorem steps_reports (p : Plan) (b : Bindings) {x : Option JavaException} {ops : List Op} {k : Bool}
    (hops : Checked k ops) {g : Progress} {s s' : Recorder}
    (hs : Recorder.Alike id [] x k s s') {o : Outcome} {e : JavaException}
    (h : (p.steps Recorder.bridge b g ops s).1 = .ok o) (he : o.err = some e) : x = some e := by
  induction ops generalizing k g s s' with
  | nil =>
    cases h
    cases he
  | cons op rest ih =>
    obtain ⟨hop, hrest⟩ := hops
    have hstep := mirrors_step p b g op hop s s' hs
    cases hrun : p.step Recorder.bridge b g op s with
    | mk r s₁ =>
      rw [hrun] at hstep
      cases r with
      | error f =>
        rw [steps_error hrun] at h
        cases h
      | ok next =>
        cases next with
        | more g' =>
          rw [steps_more hrun] at h
          generalize p.step Recorder.bridge (renumber id b) (renumber id g) op s' = r' at hstep
          cases hstep with
          | ok _ hs₁ => exact ih hrest hs₁ h
        | done r =>
          rw [steps_done hrun] at h
          cases h
          obtain ⟨rfl, hpending⟩ := step_done_err hrun he
          rcases (hs.pending (hop rfl)).2 with hnone | hx
          · rw [hnone] at hpending
            cases hpending
          · rw [← hx, hpending]

theorem run_reports (c : Call) (b : Bindings) {s : Recorder} {o : Outcome} {e : JavaException}
    (h : ((lower c).run b s).1 = .ok o) (he : o.err = some e) : s.exception = some e := by
  have hs : Recorder.Alike id [] s.exception false s s :=
    ⟨(renumber_id_wire _).symm, ⟨rfl, rfl⟩, rfl, (renumber_id_list renumber_id_recorded _).symm,
      .refl _, by simp⟩
  exact steps_reports (lower c) b (checked_lower c) hs h he

/-- A recorder that was used and one that was not, set the same, do the same. -/
theorem run_unused (c : Call) (b : Bindings) {s : Recorder} {result : Wire} {arrays : Heap}
    {ρ : Nat → Nat} (harrays : Heap.Embeds ρ arrays s.heap) (hresult : s.result = renumber ρ result) :
    ((lower c).run (renumber ρ b) s).1 = renumber ρ ((lower c).run b (s.unused result arrays)).1 ∧
    Recorder.Alike ρ s.calls s.exception false ((lower c).run b (s.unused result arrays)).2
      ((lower c).run (renumber ρ b) s).2 := by
  have hs : Recorder.Alike ρ s.calls s.exception false (s.unused result arrays) s :=
    ⟨hresult, ⟨rfl, rfl⟩, rfl, (List.append_nil _).symm, harrays, by simp⟩
  have h := mirrors_steps (lower c) b (checked_lower c) {} _ _ hs
  change Matches ρ _ _ false ((lower c).run b (s.unused result arrays))
    ((lower c).run (renumber ρ b) s) at h
  generalize (lower c).run b (s.unused result arrays) = r at h ⊢
  generalize (lower c).run (renumber ρ b) s = r' at h ⊢
  cases h with
  | ok a hs => exact ⟨rfl, hs⟩
  | error e hs => exact ⟨rfl, hs⟩

/-- **No call sees what calls before it left behind.** After any history, of whatever plans, the next
    call, whose plan is the one it is lowered to, ends as on an unused recorder with the same settings,
    and records the same operations with the same arguments: literally, when the unused recorder stands
    in the same program, and up to the numbers of arrays, when its program has made only the arrays that
    the call knows. An exception that the call reports is the one that was configured for it. -/
theorem run_after_history (start : Recorder) (past : List Turn) (now : Conditions) (c : Call)
    (b : Bindings) :
    let s := (start.after past).prepare now
    ((lower c).run b s).1 = ((lower c).run b (s.unused s.result s.heap)).1 ∧
    ((lower c).run b s).2.calls
      = (start.after past).calls ++ ((lower c).run b (s.unused s.result s.heap)).2.calls ∧
    ((lower c).run b s).2.heap = ((lower c).run b (s.unused s.result s.heap)).2.heap ∧
    (∀ ρ arrays result known, Heap.Embeds ρ arrays s.heap → s.result = renumber ρ result →
      b = renumber ρ known →
      ((lower c).run b s).1 = renumber ρ ((lower c).run known (s.unused result arrays)).1 ∧
      ((lower c).run b s).2.calls = (start.after past).calls
        ++ renumber ρ ((lower c).run known (s.unused result arrays)).2.calls ∧
      Heap.Embeds ρ ((lower c).run known (s.unused result arrays)).2.heap
        ((lower c).run b s).2.heap) ∧
    ∀ o e, ((lower c).run b s).1 = .ok o → o.err = some e → now.exception = some e := by
  intro s
  have hsame := run_unused c b (.refl s.heap) (renumber_id_wire s.result).symm
  rw [renumber_id_bindings, renumber_id_result] at hsame
  obtain ⟨hresult, halike⟩ := hsame
  refine ⟨hresult, ?_, halike.heap.eq, ?_, ?_⟩
  · rw [halike.calls, renumber_id_list renumber_id_recorded]
    rfl
  · rintro ρ arrays result known harrays hset rfl
    obtain ⟨hresult', halike'⟩ := run_unused c known harrays hset
    exact ⟨hresult', halike'.calls, halike'.heap⟩
  · intro o e ho he
    exact run_reports c b ho he

/-- The first call leaves its exception pending and an array behind; the second, which makes an array
    of its own and asks for the exception, finds none. -/
theorem run_after_history_pending :
    let call (ret : ReturnSpec) : Call :=
      { target := .object "x" default, method := "m", methodSpan := default
        params := [⟨.java .int default, .literal ["y"], default⟩], ret, span := default }
    let thrown : Turn :=
      ⟨{ result := .void, exception := some ⟨"E", []⟩ },
        lower (call (.plain (.value (.java .void default)))), [("x", .absent), ("y", .int32 1)]⟩
    let s := (Recorder.after {} [thrown]).prepare { result := .int 7 }
    let next := lower (call (.result (.value (.java .int default)) default))
    let b : Bindings := [("x", .absent), ("y", .int32 2)]
    s.pending = some ⟨"E", []⟩ ∧ Heap.Embeds (· + 1) [] s.heap ∧
      (next.run b s).1 = .ok { value := .int32 7, present := true } ∧
      (next.run b s).2.calls
        = s.calls ++ renumber (· + 1) (next.run b (s.unused (.int 7) [])).2.calls := by
  intro call thrown s next b
  have hpending : s.pending = some ⟨"E", []⟩ := by rfl
  have hlength : s.heap.length = 1 := by rfl
  have hfresh : (next.run b (s.unused (.int 7) [])).1 = .ok { value := .int32 7, present := true } := by
    rfl
  have harrays : Heap.Embeds (· + 1) [] s.heap := by
    refine ⟨fun i j hij => Nat.succ.inj hij, by simp, ?_⟩
    intro k
    change 0 + k + 1 = s.heap.length + k
    rw [hlength]
    omega
  obtain ⟨-, -, -, hrenumbered, -⟩ := run_after_history {} [thrown] { result := .int 7 }
    (call (.result (.value (.java .int default)) default)) b
  obtain ⟨hresult, hcalls, -⟩ := hrenumbered (· + 1) [] (.int 7) b harrays rfl rfl
  refine ⟨hpending, harrays, ?_, hcalls⟩
  rw [hresult, hfresh]
  rfl

end Plan
end BridgeCall
