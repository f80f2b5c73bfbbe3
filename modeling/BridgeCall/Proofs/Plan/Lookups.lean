/-
  BridgeCall/Proofs/Plan/Lookups.lean
  ===================================
  **A value that is missing stops the run.**  Every expression of a primitive type
  is looked up before the method is called, those of a literal before anything is
  written to its array.  So a run whose expressions do not all have a wire value
  never gets to its method: it has asked the bridge for arrays of its literals at
  most (`Call.Builds`), and it ends for one of few reasons (`Call.Breaks`).

  The bridge is any that keeps a contract (`Bridge.Keeps`): its failures are among
  those that are allowed, and an array that it made can be written to.  `Part`
  says of a part of a run what it asks for, how it ends and in which states; it
  goes through `do` blocks.
-/
import BridgeCall.Expr.Parse
import BridgeCall.Proofs.Plan.FailStop

namespace BridgeCall

/-! ### Bridges -/

section Contract

variable {σ α : Type}

/-- An answer with a property, or a failure that is allowed. -/
inductive Answers (may : BridgeError → Prop) (post : α → σ → Prop) :
    Except BridgeError α × σ → Prop
  | ok {a : α} {s : σ} (h : post a s) : Answers may post (.ok a, s)
  | error {e : BridgeError} {s : σ} (h : may e) : Answers may post (.error e, s)

/-- What a bridge does in states that are ready: it fails as it may, and an array that it made for a
    number of elements can be written within that number. -/
structure Bridge.Keeps (B : Bridge σ) (may : BridgeError → Prop) (Ready : σ → Prop)
    (Holds : σ → Obj → Nat → Prop) : Prop where
  newArray : ∀ p n s, Ready s →
    Answers may (fun o s => Ready s ∧ Holds s o n) (B.answer (.newArray p n) s)
  newObjectArray : ∀ n cls s, Ready s →
    Answers may (fun o s => Ready s ∧ Holds s o n) (B.answer (.newObjectArray n cls .null) s)
  setArrayRegion : ∀ p o buf s, Ready s → Holds s o buf.length →
    Answers may (fun _ s => Ready s) (B.answer (.setArrayRegion p o 0 buf) s)
  setObjectArrayElement : ∀ o n j v s, Ready s → Holds s o n → j < n →
    Answers may (fun _ s => Ready s ∧ Holds s o n) (B.answer (.setObjectArrayElement o j v) s)

/-- A bridge without failures. -/
def Bridge.Unfailing (B : Bridge σ) (Ready : σ → Prop) (Holds : σ → Obj → Nat → Prop) : Prop :=
  B.Keeps (fun _ => False) Ready Holds

/-- With all failures allowed there is nothing to keep. -/
theorem Bridge.keeps_any (B : Bridge σ) :
    B.Keeps (fun _ => True) (fun _ => True) fun _ _ _ => True := by
  have hany {β : Type} {post : β → σ → Prop} (x : Except BridgeError β × σ) (h : ∀ a s, post a s) :
      Answers (fun _ => True) post x := by
    obtain ⟨res, s⟩ := x
    cases res with
    | ok a => exact .ok (h a s)
    | error e => exact .error trivial
  refine ⟨?_, ?_, ?_, ?_⟩
  · intro p n s _
    exact hany _ fun _ _ => ⟨trivial, trivial⟩
  · intro n cls s _
    exact hany _ fun _ _ => ⟨trivial, trivial⟩
  · intro p o buf s _ _
    exact hany _ fun _ _ => trivial
  · intro o n j v s _ _ _
    exact hany _ fun _ _ => ⟨trivial, trivial⟩

/-- A recorder that was told to fail nothing. -/
theorem Recorder.unfailing : Recorder.bridge.Unfailing (fun s => s.fail = []) Recorder.Holds := by
  refine ⟨?_, ?_, ?_, ?_⟩
  · intro p n s hs
    obtain ⟨o, s', hrun, hext, hholds⟩ := newArrayOf_run hs p n
    change Answers _ _ (newArrayOf p n s)
    rw [hrun]
    exact .ok ⟨hext.fail.trans hs, hholds⟩
  · intro n cls s hs
    obtain ⟨o, s', hrun, hext, hholds⟩ := newObjectArrayOf_run hs n cls .null
    change Answers _ _ (newObjectArrayOf n cls .null s)
    rw [hrun]
    exact .ok ⟨hext.fail.trans hs, hholds⟩
  · intro p o buf s hs hholds
    obtain ⟨s', hrun, hext, -⟩ := setArrayRegion_run hs hholds p
    change Answers _ _ (Recorder.setArrayRegion p o 0 buf s)
    rw [hrun]
    exact .ok (hext.fail.trans hs)
  · intro o n j v s hs hholds hj
    obtain ⟨s', hrun, hext, hholds'⟩ := setObjectArrayElement_run hs hholds hj v
    change Answers _ _ (Recorder.setObjectArrayElement o j v s)
    rw [hrun]
    exact .ok ⟨hext.fail.trans hs, hholds'⟩

end Contract

/-! ### Before the method is called -/

/-- The expressions of the parameter that stand for values of a primitive type. -/
def Parameter.primitives (p : Parameter) : List Bytes :=
  match p.arg, p.ty.isObject with
  | .single e, false => [e]
  | .literal es, false => es
  | _, _ => []

/-- The expressions of the parameter that stand for references. -/
def Parameter.references (p : Parameter) : List Bytes :=
  match p.arg, p.ty.isObject with
  | .array e, _ => [e]
  | .single e, true => [e]
  | .literal es, true => es
  | _, _ => []

/-- What the array of a literal is built by: it is made as long as the literal, and gets the values
    of the elements. -/
def Call.Builds (b : Bindings) (c : Call) : Request → Prop
  | .newArray prim n => ∃ p ∈ c.params, ∃ es, p.arg = .literal es ∧ p.ty.isObject = false ∧
    prim = p.ty.primitive?.getD .void ∧ n = es.length
  | .setArrayRegion prim _ start buf => ∃ p ∈ c.params, ∃ es, p.arg = .literal es ∧
    p.ty.isObject = false ∧ prim = p.ty.primitive?.getD .void ∧ start = 0 ∧
    List.Forall₂ (fun e v => ∃ heap w, b.wire heap p.ty e = .ok w ∧ v = w.raw) es buf
  | .newObjectArray n cls init => ∃ p ∈ c.params, ∃ es k, p.arg = .literal es ∧ p.ty = .object k ∧
    n = es.length ∧ cls = k.internalName ∧ init = .null
  | .setObjectArrayElement _ j o => ∃ p ∈ c.params, ∃ es e, p.arg = .literal es ∧
    p.ty.isObject = true ∧ es[j]? = some e ∧ b.object e = .ok o
  | .callStaticMethod .. | .callMethod .. | .catchException => False

/-- Why a run can break down before its method is called. -/
inductive Call.Breaks (b : Bindings) (c : Call) (may : BridgeError → Prop) : Cause → Prop
  | bridge {e : BridgeError} (h : may e) : Breaks b c may (.bridge e)
  | reference {p : Parameter} {e : Bytes} {q : Cause} (hp : p ∈ c.params) (he : e ∈ p.references)
    (h : b.object e = .error q) : Breaks b c may q
  | value {p : Parameter} {e : Bytes} {q : Cause} {heap : Heap} (hp : p ∈ c.params)
    (he : e ∈ p.primitives) (h : b.wire heap p.ty e = .error q) : Breaks b c may q

/-- The expression has a wire value. -/
def Bindings.Crosses (b : Bindings) (ty : ValueType) (e : Bytes) : Prop :=
  ∃ heap w, b.wire heap ty e = .ok w

theorem forall_of_forall₂ {α β : Type} {R : α → β → Prop} {P : α → Prop} {as : List α} {bs : List β}
    (h : List.Forall₂ R as bs) (hR : ∀ a b, R a b → P a) : ∀ a ∈ as, P a := by
  have hboth : List.Forall₂ (fun a b => P a ∧ R a b) as bs := h.imp fun a b hab => ⟨hR a b hab, hab⟩
  exact ((List.forall₂_and_left _ _).mp hboth).1

/-- The values of the parameter's literal have wire values. -/
def Parameter.LiteralCrosses (b : Bindings) (p : Parameter) : Prop :=
  ∀ es, p.arg = .literal es → ∀ e ∈ p.primitives, b.Crosses p.ty e

/-- The value of a parameter without a literal has a wire value. -/
def Parameter.ArgumentCrosses (b : Bindings) (p : Parameter) : Prop :=
  (∀ es, p.arg ≠ .literal es) → ∀ e ∈ p.primitives, b.Crosses p.ty e

namespace Plan

section Part

variable {σ ε α β : Type} {b : Bindings} {c : Call} {may : BridgeError → Prop}
variable {cause : ε → Option Cause} {pre : σ → Prop}

/-- How a part of a run ended: it made new requests, all of them to build arrays, and if it failed
    then for a reason that the call has. -/
inductive Ends (b : Bindings) (c : Call) (may : BridgeError → Prop) (cause : ε → Option Cause)
    (post : α → σ → Prop) (rs : List Request) : Except ε α × σ × List Request → Prop
  | ok {a : α} {s : σ} {new : List Request} (h : post a s) (hnew : ∀ r ∈ new, c.Builds b r) :
    Ends b c may cause post rs (.ok a, s, rs ++ new)
  | error {e : ε} {q : Cause} {s : σ} {new : List Request} (he : cause e = some q)
    (hq : c.Breaks b may q) (hnew : ∀ r ∈ new, c.Builds b r) :
    Ends b c may cause post rs (.error e, s, rs ++ new)

/-- A part of a run before its method is called. -/
def Part (b : Bindings) (c : Call) (may : BridgeError → Prop) (cause : ε → Option Cause)
    (pre : σ → Prop) (m : ExceptT ε (StateM (σ × List Request)) α) (post : α → σ → Prop) : Prop :=
  ∀ s rs, pre s → Ends b c may cause post rs (m (s, rs))

theorem part_pure {a : α} {post : α → σ → Prop} (h : ∀ s, pre s → post a s) :
    Part b c may cause pre (pure a) post := by
  intro s rs hs
  have hend : Ends b c may cause post rs (.ok a, s, rs ++ []) := .ok (h s hs) (by simp)
  rwa [List.append_nil] at hend

/-- A part that is never reached. -/
theorem part_unreached {m : ExceptT ε (StateM (σ × List Request)) α} {post : α → σ → Prop}
    (h : ∀ s, ¬ pre s) : Part b c may cause pre m post :=
  fun s _ hs => absurd hs (h s)

theorem Part.bind {m : ExceptT ε (StateM (σ × List Request)) α}
    {f : α → ExceptT ε (StateM (σ × List Request)) β} {mid : α → σ → Prop} {post : β → σ → Prop}
    (hm : Part b c may cause pre m mid) (hf : ∀ a, Part b c may cause (mid a) (f a) post) :
    Part b c may cause pre (m >>= f) post := by
  intro s rs hs
  have hfirst := hm s rs hs
  rw [bind_run]
  generalize m (s, rs) = r at hfirst ⊢
  cases hfirst with
  | error he hq hnew => exact .error he hq hnew
  | @ok a s' new h hnew =>
    have hsecond := hf a s' (rs ++ new) h
    simp only
    generalize f a (s', rs ++ new) = r' at hsecond ⊢
    cases hsecond with
    | ok h' hnew' =>
      rw [List.append_assoc]
      exact .ok h' (List.forall_mem_append.mpr ⟨hnew, hnew'⟩)
    | error he hq hnew' =>
      rw [List.append_assoc]
      exact .error he hq (List.forall_mem_append.mpr ⟨hnew, hnew'⟩)

theorem Part.weaken {m : ExceptT ε (StateM (σ × List Request)) α} {mid post : α → σ → Prop}
    (hm : Part b c may cause pre m mid) (h : ∀ a s, mid a s → post a s) :
    Part b c may cause pre m post := by
  intro s rs hs
  have hend := hm s rs hs
  generalize m (s, rs) = r at hend ⊢
  cases hend with
  | ok hmid hnew => exact .ok (h _ _ hmid) hnew
  | error he hq hnew => exact .error he hq hnew

/-- A fact that does not depend on the state. -/
theorem part_assuming {m : ExceptT ε (StateM (σ × List Request)) α} {post : α → σ → Prop}
    {fact : Prop} (h : fact → Part b c may cause pre m post) :
    Part b c may cause (fun s => pre s ∧ fact) m post := by
  rintro s rs ⟨hs, hfact⟩
  exact h hfact s rs hs

/-- A request to a bridge that keeps its requests. -/
theorem ask_part {m : σ → Except BridgeError α × σ}
    {traced : σ × List Request → Except BridgeError α × σ × List Request} {r : Request}
    {post : α → σ → Prop} (htraced : ∀ s rs, traced (s, rs) = ((m s).1, (m s).2, rs ++ [r]))
    (hr : c.Builds b r) (h : ∀ s, pre s → Answers may post (m s)) :
    Part b c may some pre (RunM.ask traced) post := by
  intro s rs hs
  have hanswer := h s hs
  rw [RunM.ask, htraced]
  generalize m s = x at hanswer ⊢
  cases hanswer with
  | ok hpost => exact .ok hpost (by simpa using hr)
  | error hmay => exact .error rfl (.bridge hmay) (by simpa using hr)

/-- A look-up, which leaves the bridge alone. -/
theorem lookup_part {m : RunM (σ × List Request) α} {x : σ → Except Cause α} {post : α → σ → Prop}
    (hm : ∀ s rs, m (s, rs) = (x s, s, rs)) (hok : ∀ s a, pre s → x s = .ok a → post a s)
    (herror : ∀ s q, x s = .error q → c.Breaks b may q) : Part b c may some pre m post := by
  intro s rs hs
  rw [hm]
  cases hx : x s with
  | ok a =>
    have hend : Ends b c may some post rs (.ok a, s, rs ++ []) := .ok (hok s a hs hx) (by simp)
    rwa [List.append_nil] at hend
  | error q =>
    have hend : Ends b c may some post rs (.error q, s, rs ++ []) :=
      .error rfl (herror s q hx) (by simp)
    rwa [List.append_nil] at hend

theorem blame_part {m : RunM (σ × List Request) α} {post : α → σ → Prop}
    (h : Part b c may some pre m post) (st : Step) :
    Part b c may Fatal.cause pre (blame st m) post := by
  intro s rs hs
  have hend := h s rs hs
  rw [blame]
  generalize m (s, rs) = r at hend ⊢
  cases hend with
  | ok hpost hnew => exact .ok hpost hnew
  | error he hq hnew =>
    cases he
    exact .error rfl hq hnew

end Part

/-! ### Look-ups -/

section Run

variable {σ : Type} {B : Bridge σ} {b : Bindings} {c : Call} {may : BridgeError → Prop}
variable {pre : σ → Prop} {p : Parameter} {i : Nat} {g : Progress} {es : List Bytes}

theorem object_part {e : Bytes} (hp : p ∈ c.params) (he : e ∈ p.references) :
    Part b c may some pre (RunM.lookup (b.object e)) fun o s => pre s ∧ b.object e = .ok o :=
  lookup_part (x := fun _ => b.object e) (fun _ _ => rfl) (fun _ _ hs ho => ⟨hs, ho⟩)
    fun _ _ hq => .reference hp he hq

theorem wire_part {e : Bytes} (hp : p ∈ c.params) (he : e ∈ p.primitives) :
    Part b c may some pre (wire B.traced b p.ty e)
      fun w s => pre s ∧ ∃ heap, b.wire heap p.ty e = .ok w :=
  lookup_part (x := fun s => b.wire (B.arrays s) p.ty e) (fun _ _ => rfl)
    (fun _ _ hs hw => ⟨hs, _, hw⟩) fun _ _ hq => .value hp he hq

theorem elementWires_part (hp : p ∈ c.params) (hes : ∀ e ∈ es, e ∈ p.primitives) :
    Part b c may some pre (elementWires B.traced b p.ty es) fun ws s =>
      pre s ∧ List.Forall₂ (fun e w => ∃ heap, b.wire heap p.ty e = .ok w) es ws := by
  induction es generalizing pre with
  | nil => exact part_pure fun _ hs => ⟨hs, .nil⟩
  | cons e es ih =>
    apply (wire_part hp (hes e (by simp))).bind
    intro w
    apply (ih fun e he => hes e (by simp [he])).bind
    intro ws
    apply part_pure
    rintro s ⟨⟨hs, hw⟩, hws⟩
    exact ⟨hs, .cons hw hws⟩

theorem argValue_part (hp : p ∈ c.params) :
    Part b c may some pre (argValue B.traced b g i (argOf i p))
      fun _ s => pre s ∧ p.ArgumentCrosses b := by
  have hobject {e : Bytes} (he : e ∈ p.references) (hnone : p.primitives = []) :
      Part b c may some pre (do return Wire.object (← RunM.lookup (b.object e))
        : RunM (σ × List Request) Wire) fun _ s => pre s ∧ p.ArgumentCrosses b := by
    apply (object_part hp he).bind
    intro o
    apply part_pure
    rintro s ⟨hs, -⟩
    exact ⟨hs, fun _ => by simp [hnone]⟩
  unfold argValue
  rw [argOf_param]
  cases harg : p.arg with
  | literal es => exact part_pure fun _ hs => ⟨hs, fun hno => absurd harg (hno es)⟩
  | array e =>
    have hreferences : p.references = [e] := by simp [Parameter.references, harg]
    exact hobject (by simp [hreferences]) (by simp [Parameter.primitives, harg])
  | single e =>
    cases hty : p.ty.isObject with
    | true =>
      have hreferences : p.references = [e] := by simp [Parameter.references, harg, hty]
      exact hobject (by simp [hreferences]) (by simp [Parameter.primitives, harg, hty])
    | false =>
      have hprimitives : p.primitives = [e] := by simp [Parameter.primitives, harg, hty]
      have hwire : Part b c may some pre (wire B.traced b p.ty e)
          fun w s => pre s ∧ ∃ heap, b.wire heap p.ty e = .ok w :=
        wire_part hp (by simp [hprimitives])
      apply hwire.weaken
      rintro w s ⟨hs, heap, hw⟩
      refine ⟨hs, fun _ e' he' => ?_⟩
      rw [hprimitives, List.mem_singleton] at he'
      rw [he']
      exact ⟨heap, w, hw⟩

theorem argValues_part {ps : List Parameter} {k : Nat} (hps : ∀ p ∈ ps, p ∈ c.params) :
    Part b c may some pre
      (argValues B.traced b g k ((ps.zipIdx k).map fun x => argOf x.2 x.1))
      fun _ s => pre s ∧ ∀ p ∈ ps, p.ArgumentCrosses b := by
  induction ps generalizing k pre with
  | nil => exact part_pure fun _ hs => ⟨hs, by simp⟩
  | cons p ps ih =>
    rw [List.zipIdx_cons, List.map_cons, argValues]
    apply (argValue_part (hps p (by simp))).bind
    intro w
    apply (ih fun p hp => hps p (by simp [hp])).bind
    intro ws
    apply part_pure
    rintro s ⟨⟨hs, hp⟩, hall⟩
    exact ⟨hs, List.forall_mem_cons.mpr ⟨hp, hall⟩⟩

/-! ### Steps -/

section Steps

variable {Ready : σ → Prop} {Holds : σ → Obj → Nat → Prop}
variable {post : Outcome → σ → Prop} {rest : List Op}

/-- A step that leaves a run to the steps after it. -/
theorem steps_part {α : Type} {o : Op} {m : ExceptT Fatal (StateM (σ × List Request)) α}
    {f : α → Progress} {M : α → σ → Prop}
    (hstep : (lower c).step B.traced b g o = m >>= fun a => pure (.more (f a)))
    (hm : Part b c may Fatal.cause pre m M)
    (hrest : ∀ a, Part b c may Fatal.cause (M a) ((lower c).steps B.traced b (f a) rest) post) :
    Part b c may Fatal.cause pre ((lower c).steps B.traced b g (o :: rest)) post := by
  rw [steps, hstep, bind_assoc]
  apply hm.bind
  intro a
  rw [pure_bind]
  exact hrest a

theorem sets_part (hB : B.Keeps may Ready Holds) (hp : c.params[i]? = some p)
    (hes : p.arg = .literal es) {k : ClassPath} (hk : p.ty = .object k) {js : List Nat}
    (hjs : ∀ j ∈ js, j < es.length)
    (hrest : Part b c may Fatal.cause Ready ((lower c).steps B.traced b g rest) post) :
    Part b c may Fatal.cause (fun s => Ready s ∧ Holds s (arrayAt g i) es.length)
      ((lower c).steps B.traced b g (js.map (Op.setObjectElement i · k) ++ rest)) post := by
  have hmem : p ∈ c.params := List.mem_of_getElem? hp
  have hreferences : p.references = es := by
    simp [Parameter.references, hes, hk, ValueType.isObject]
  induction js with
  | nil => exact fun s rs hs => hrest s rs hs.1
  | cons j js ih =>
    have hj := hjs j (by simp)
    have helement := elementOf_lower hp hes hj
    rw [List.map_cons, List.cons_append]
    apply steps_part rfl (f := fun _ => g)
      (M := fun _ s => Ready s ∧ Holds s (arrayAt g i) es.length)
    · apply blame_part
      rw [helement]
      apply (object_part hmem (by simp [hreferences])).bind
      intro o
      apply part_assuming
      intro ho
      apply ask_part fun _ _ => rfl
      · refine ⟨p, hmem, es, es[j], hes, ?_, ?_, ho⟩
        · rw [hk]; rfl
        · exact List.getElem?_eq_getElem hj
      · rintro s ⟨hs, hholds⟩
        exact hB.setObjectArrayElement _ _ _ _ _ hs hholds hj
    · intro _
      exact ih fun j hj => hjs j (by simp [hj])

theorem fill_part (hB : B.Keeps may Ready Holds) (hp : c.params[i]? = some p)
    (hes : p.arg = .literal es) (hty : p.ty.isObject = false) :
    Part b c may some (fun s => Ready s ∧ Holds s (arrayAt g i) es.length)
      ((lower c).fill B.traced b g i p.ty) fun _ s => Ready s ∧ p.LiteralCrosses b := by
  have hmem : p ∈ c.params := List.mem_of_getElem? hp
  have hprimitives : p.primitives = es := by simp [Parameter.primitives, hes, hty]
  rw [fill, elementsOf_lower hp hes]
  apply (elementWires_part hmem (by simp [hprimitives])).bind
  intro ws
  apply part_assuming
  intro hws
  have hlength : (ws.map Wire.raw).length = es.length := by
    rw [List.length_map, hws.length_eq]
  have hask : Part b c may some (fun s => Ready s ∧ Holds s (arrayAt g i) es.length)
      (RunM.ask (B.traced.answer
        (.setArrayRegion (p.ty.primitive?.getD .void) (arrayAt g i) 0 (ws.map Wire.raw))))
      fun _ s => Ready s := by
    apply ask_part fun _ _ => rfl
    · refine ⟨p, hmem, es, hes, hty, rfl, rfl, ?_⟩
      rw [List.forall₂_map_right_iff]
      refine hws.imp ?_
      rintro e w ⟨heap, hw⟩
      exact ⟨heap, w, hw, rfl⟩
    · rintro s ⟨hs, hholds⟩
      exact hB.setArrayRegion _ _ _ _ hs (by rwa [hlength])
  apply hask.weaken
  intro _ s hs
  refine ⟨hs, fun _ _ => ?_⟩
  rw [hprimitives]
  refine forall_of_forall₂ hws ?_
  rintro e w ⟨heap, hw⟩
  exact ⟨heap, w, hw⟩

/-- Building the array of a parameter, if it has one to build. -/
theorem build_part (hB : B.Keeps may Ready Holds) (hp : c.params[i]? = some p)
    (hrest : ∀ g, p.LiteralCrosses b →
      Part b c may Fatal.cause Ready ((lower c).steps B.traced b g rest) post) (g : Progress) :
    Part b c may Fatal.cause Ready ((lower c).steps B.traced b g (buildOps i p ++ rest)) post := by
  have hmem : p ∈ c.params := List.mem_of_getElem? hp
  cases harg : p.arg with
  | single e =>
    have hnone : buildOps i p = [] := by simp [buildOps, harg]
    rw [hnone]
    exact hrest g fun es hes => by simp [harg] at hes
  | array e =>
    have hnone : buildOps i p = [] := by simp [buildOps, harg]
    rw [hnone]
    exact hrest g fun es hes => by simp [harg] at hes
  | literal es =>
    cases hty : p.ty.isObject with
    | true =>
      obtain ⟨k, hk⟩ := exists_object hty
      have hprimitives : p.primitives = [] := by simp [Parameter.primitives, harg, hty]
      have hops : buildOps i p = .newObjectArray i es.length k ::
          (List.range es.length).map (Op.setObjectElement i · k) := by
        simp [buildOps, harg, hk]
      rw [hops, List.cons_append]
      apply steps_part rfl (f := put g i) (M := fun o s => Ready s ∧ Holds s o es.length)
      · apply blame_part
        apply ask_part fun _ _ => rfl
        · exact ⟨p, hmem, es, k, harg, hk, rfl, rfl, rfl⟩
        · exact fun s hs => hB.newObjectArray _ _ _ hs
      · intro o
        have hrange : ∀ j ∈ List.range es.length, j < es.length := by simp
        have hsets := sets_part hB hp harg hk hrange
          (hrest (put g i o) fun _ _ => by simp [hprimitives])
        rwa [arrayAt_put] at hsets
    | false =>
      rw [buildOps_primitive harg hty, List.cons_append]
      apply steps_part rfl (f := put g i) (M := fun o s => Ready s ∧ Holds s o es.length)
      · apply blame_part
        apply ask_part fun _ _ => rfl
        · exact ⟨p, hmem, es, harg, hty, rfl, rfl⟩
        · exact fun s hs => hB.newArray _ _ _ hs
      · intro o
        cases hempty : es.isEmpty with
        | true =>
          obtain rfl := List.isEmpty_iff.mp hempty
          have hprimitives : p.primitives = [] := by simp [Parameter.primitives, harg, hty]
          exact fun s rs hs => hrest (put g i o) (fun _ _ => by simp [hprimitives]) s rs hs.1
        | false =>
          have hfill := fill_part (b := b) (c := c) (g := put g i o) hB hp harg hty
          rw [arrayAt_put] at hfill
          apply steps_part rfl (f := fun _ => put g i o)
            (M := fun _ s => Ready s ∧ p.LiteralCrosses b) (blame_part hfill _)
          intro _
          exact part_assuming (hrest (put g i o))

theorem builds_part (hB : B.Keeps may Ready Holds) {ps : List (Parameter × Nat)}
    (hps : ∀ x ∈ ps, c.params[x.2]? = some x.1)
    (hrest : ∀ g, (∀ x ∈ ps, x.1.LiteralCrosses b) →
      Part b c may Fatal.cause Ready ((lower c).steps B.traced b g rest) post) (g : Progress) :
    Part b c may Fatal.cause Ready
      ((lower c).steps B.traced b g ((ps.flatMap fun x => buildOps x.2 x.1) ++ rest)) post := by
  induction ps generalizing g with
  | nil => exact hrest g (by simp)
  | cons x ps ih =>
    rw [List.flatMap_cons, List.append_assoc]
    apply build_part hB (hps x (by simp))
    intro g hx
    apply ih fun x hx => hps x (by simp [hx])
    intro g hall
    exact hrest g (List.forall_mem_cons.mpr ⟨hx, hall⟩)

/-- A run that lacks a wire value never gets to its method. -/
theorem run_part (hB : B.Keeps may Ready Holds) (hp : p ∈ c.params) {e : Bytes}
    (he : e ∈ p.primitives) (hlacks : ¬ b.Crosses p.ty e) :
    Part b c may Fatal.cause Ready ((lower c).runOn B.traced b) fun _ _ => False := by
  rw [runOn, lower_ops]
  apply builds_part hB fun x hx => List.mem_zipIdx_iff_getElem?.mp hx
  intro g hliterals
  rw [callOps_eq]
  apply steps_part rfl (f := fun w => { g with result := w }) (M := fun _ _ => False)
  · apply blame_part
    rw [invoke, lower_args]
    apply (argValues_part fun p hp => hp).bind
    intro ws
    apply part_unreached
    rintro s ⟨hs, hargs⟩
    apply hlacks
    by_cases hliteral : ∃ es, p.arg = .literal es
    · obtain ⟨es, hes⟩ := hliteral
      obtain ⟨i, hi⟩ := List.mem_iff_getElem?.mp hp
      exact hliterals (p, i) (List.mem_zipIdx_iff_getElem?.mpr hi) es hes e he
    · exact hargs p hp (fun es hes => hliteral ⟨es, hes⟩) e he
  · intro w
    exact part_unreached fun _ => id

end Steps
end Run

/-- **A value that is missing stops the run.** -/
theorem run_breaks {σ : Type} {B : Bridge σ} {b : Bindings} {c : Call} {may : BridgeError → Prop}
    {Ready : σ → Prop} {Holds : σ → Obj → Nat → Prop} (hB : B.Keeps may Ready Holds) {p : Parameter}
    (hp : p ∈ c.params) {e : Bytes} (he : e ∈ p.primitives) (hlacks : ¬ b.Crosses p.ty e) {s : σ}
    (hs : Ready s) :
    ∃ f q s' rs, (lower c).runOn B.traced b (s, []) = (.error f, s', rs) ∧ f.cause = some q ∧
      c.Breaks b may q ∧ ∀ r ∈ rs, c.Builds b r := by
  have hend := run_part hB hp he hlacks s [] hs
  generalize (lower c).runOn B.traced b (s, []) = r at hend ⊢
  cases hend with
  | ok hfalse _ => exact hfalse.elim
  | error hcause hq hnew => exact ⟨_, _, _, _, rfl, hcause, hq, hnew⟩

/-! ### Evaluation -/

/-- The text is a call, and its run on the recorder returns what passes the check. -/
def runsTo (src : Source) (b : Bindings) (s : Recorder)
    (check : Call → Outcome → Recorder → Bool) : Bool :=
  (Call.parse src).toOption.any fun c =>
    ((lower c).run b s).1.toOption.any fun o => check c o ((lower c).run b s).2

theorem exists_of_runsTo {src : Source} {b : Bindings} {s : Recorder}
    {check : Call → Outcome → Recorder → Bool} (h : runsTo src b s check = true) :
    ∃ c o s', Call.parse src = .ok c ∧ (lower c).run b s = (.ok o, s') ∧ check c o s' = true := by
  unfold runsTo at h
  cases hparse : Call.parse src with
  | error e =>
    rw [hparse] at h
    cases h
  | ok c =>
    rw [hparse, Except.toOption, Option.any_some] at h
    cases ho : ((lower c).run b s).1 with
    | error f =>
      rw [ho] at h
      cases h
    | ok o =>
      rw [ho] at h
      exact ⟨c, o, _, rfl, Prod.ext ho rfl, h⟩

end Plan
end BridgeCall
