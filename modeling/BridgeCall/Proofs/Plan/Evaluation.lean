/-
  BridgeCall/Proofs/Plan/Evaluation.lean
  ======================================
  **Running expanded code.**  One lemma for each form of expanded code says what
  it does.  The names in the code find the functions and methods of the bridge
  that they are meant for: a bound value is turned into its wire form, a result
  is read back, and every method is the request of the same name.
-/
import BridgeCall.Proofs.Plan.Wording

namespace BridgeCall

namespace Code

variable {b : Bindings} {l : Locals} {x : Expr}

/-! ### Functions and methods of the bridge -/

theorem bridge_eval {v : Value} (hx : x.eval b l = some v) (fn : Bytes) :
    (bridge fn [x]).eval b l = (functions.lookup fn).bind fun f => f v := by
  simp only [bridge, Expr.eval, evalList, hx, Option.bind_eq_bind, Option.bind_some, Option.pure_def,
    applied?]

/-- A value that crosses is converted to its raw form. -/
theorem toWire_eval {ty : ValueType} {v : HostValue} {w : Wire} (h : Crosses ty v w)
    (hx : x.eval b l = some (.host v)) : (toWire ty x).eval b l = some (.host w.raw) := by
  cases h <;> first
    | exact hx
    | (change (bridge _ [x]).eval b l = _
       rw [bridge_eval hx]
       rfl)

/-- The raw form of a value that crosses is made a wire value. -/
theorem typeStem_eval {ty : ValueType} {v : HostValue} {w : Wire} (h : Crosses ty v w)
    (hx : x.eval b l = some (.host w.raw)) :
    (bridge (typeStem ty) [x]).eval b l = some (.wire w) := by
  rw [bridge_eval hx]
  cases h <;> rfl

theorem typeName_raw {ty : ValueType} {v : HostValue} {w : Wire} (h : Crosses ty v w) :
    w.raw.typeName = rawType (ty.primitive?.getD .void) := by
  cases h <;> rfl

/-- The wire values of each kind; a kind without a primitive is that of references. -/
inductive Carries : Option Primitive → Wire → Prop
  | object (o : Obj) : Carries none (.object o)
  | void : Carries (some .void) .void
  | boolean (v : UInt8) : Carries (some .boolean) (.boolean v)
  | byte (v : Int8) : Carries (some .byte) (.byte v)
  | char (v : UInt16) : Carries (some .char) (.char v)
  | short (v : Int16) : Carries (some .short) (.short v)
  | int (v : Int32) : Carries (some .int) (.int v)
  | long (v : Int64) : Carries (some .long) (.long v)
  | float (v : UInt32) : Carries (some .float) (.float v)
  | double (v : UInt64) : Carries (some .double) (.double v)

theorem carries_of_letter {p : Primitive} {w : Wire} (h : w.letter = p.letter) :
    Carries (some p) w := by
  cases p <;> cases w <;> first
    | constructor
    | exact absurd h (by simp +decide only [Wire.letter, Primitive.letter])

/-- The letter of a wire value decides its kind. -/
theorem carries {ty : ValueType} {w : Wire} (h : w.letter = ty.letter) :
    Carries ty.primitive? w := by
  cases ty with
  | java p s => exact carries_of_letter h
  | host k s => exact carries_of_letter h
  | object k =>
    cases w with
    | object o => exact .object o
    | _ => exact absurd h (by simp +decide only [Wire.letter, ValueType.letter, Primitive.letter])

/-- A value of the declared kind is converted back. -/
theorem fromWire_eval {ty : ValueType} {w : Wire} (h : w.letter = ty.letter)
    (hx : x.eval b l = some (.host w.raw)) :
    (fromWire ty x).eval b l = some (.host (BridgeCall.fromWire ty w)) := by
  have hcarries := carries h
  have hcall (fn : Bytes) := bridge_eval hx fn
  cases ty with
  | java p s => cases p <;> cases hcarries <;> first | exact hx | exact hcall _
  | host k s => cases k <;> cases hcarries <;> first | exact hx | exact hcall _
  | object k =>
    cases hcarries
    exact hx

theorem fromWire_object {k : ClassPath} {w : Wire} (h : w.letter = objectLetter) :
    BridgeCall.fromWire (.object k) w = w.raw := by
  have hcarries : Carries (ValueType.object k).primitive? w := carries h
  cases hcarries
  rfl

theorem exists_zeroWire (ty : ValueType) :
    ∃ z, zeroWires.find? (fun z => [z.letter] = [ty.letter]) = some z ∧
      z.letter = ty.letter ∧ decide (z = .void) = ty.isVoid := by
  cases ty with
  | java p s => cases p <;> exact ⟨_, rfl, rfl, rfl⟩
  | host k s => cases k <;> exact ⟨_, rfl, rfl, rfl⟩
  | object k => exact ⟨_, rfl, rfl, rfl⟩

theorem access_ok {w : Wire} {ty : ValueType} (h : w.letter = ty.letter) :
    access w [ty.letter] = some (if ty.isVoid then [.nil] else [.host w.raw, .nil]) := by
  obtain ⟨z, hz, hletter, hvoid⟩ := exists_zeroWire ty
  rw [access, hz, Option.map_some, hletter, Wire.read, if_pos h, ← hvoid]
  simp only [decide_eq_true_eq]

theorem access_mismatch {w : Wire} {ty : ValueType} (h : w.letter ≠ ty.letter) :
    ∃ v, access w [ty.letter] = some (if ty.isVoid then [.raised (.kind ⟨ty.letter, w.letter⟩)]
      else [.host v, .raised (.kind ⟨ty.letter, w.letter⟩)]) := by
  obtain ⟨z, hz, hletter, hvoid⟩ := exists_zeroWire ty
  refine ⟨z.raw, ?_⟩
  rw [access, hz, Option.map_some, hletter, Wire.read, if_neg h, ← hvoid]
  simp only [decide_eq_true_eq]

theorem request?_eq {name : Bytes} (op : BridgeOp)
    (h : methods.find? (fun m => m.name = name) = some op) (vs : List Value) :
    request? name vs = requestOf op vs := by
  rw [request?, h, Option.bind_some]

theorem request?_newArray {p : Primitive} (hp : p ≠ .void) (n : Nat) :
    request? ("New" ++ stem p ++ "Array") [.num n] = some (.newArray p n) := by
  cases p with
  | void => exact absurd rfl hp
  | _ => rfl

theorem request?_setArrayRegion {p : Primitive} (hp : p ≠ .void) {v : Value} {o : Obj}
    (hv : v.object? = some o) (vs : List HostValue) :
    request? ("Set" ++ stem p ++ "ArrayRegion") [v, .num 0, .buffer (rawType p) vs]
      = some (.setArrayRegion p o 0 vs) := by
  have hmethod : methods.find? (fun m => m.name = "Set" ++ stem p ++ "ArrayRegion")
      = some (.setArrayRegion p) := by
    cases p with
    | void => exact absurd rfl hp
    | _ => rfl
  have htype : rawType p = bufferType p := by
    cases p with
    | void => exact absurd rfl hp
    | _ => rfl
  rw [request?_eq _ hmethod, requestOf, if_pos htype, hv]
  rfl

theorem object?_ofObj (o : Obj) : (Value.ofObj o).object? = some o := by
  cases o <;> rfl

/-! ### Lists of expressions -/

theorem evalList_nil (b : Bindings) (l : Locals) : evalList b l [] = some [] := rfl

theorem evalList_cons {xs : List Expr} {v : Value} {vs : List Value} (hx : x.eval b l = some v)
    (hxs : evalList b l xs = some vs) : evalList b l (x :: xs) = some (v :: vs) := by
  simp only [evalList, hx, hxs, Option.bind_eq_bind, Option.bind_some, Option.pure_def]

theorem num_eval (n : Nat) : (Expr.num n).eval b l = some (.num n) := by
  rw [Expr.eval]

theorem str_eval (t : Bytes) : (Expr.str t).eval b l = some (.str t) := by
  rw [Expr.eval]

/-! ### Statements -/

section Exec

variable {σ : Type} {B : Bridge σ} {types : List Expr} {rest : List Stmt} {s s' : σ} {m t : Bytes}

theorem execAll_next {st : Stmt} {l' : Locals}
    (h : st.exec B b types l s = some (.next l', s')) :
    execAll B b types l (st :: rest) s = execAll B b types l' rest s' := by
  rw [execAll, h]
  rfl

theorem execAll_stop {st : Stmt} {e : Ending} (h : st.exec B b types l s = some (.stop e, s')) :
    execAll B b types l (st :: rest) s = some (e, s') := by
  rw [execAll, h]
  rfl

/-- A method of the environment asks the bridge. -/
theorem env_run {name : Bytes} {args : List Expr} {vs : List Value} {r : Request}
    (henv : l.lookup envVar = some .environment) (hargs : evalList b l args = some vs)
    (hr : request? name vs = some r) (s : σ) :
    (env name args).run B b l s = some (results r (B.answer r s).1, (B.answer r s).2) := by
  simp only [env, Expr.run, hargs, Expr.eval, henv, hr, Option.some_or, Option.bind_eq_bind,
    Option.bind_some, Option.map_some]

theorem lookup_other {n k : Bytes} (h : k ≠ n) (v : Value) :
    List.lookup k ((n, v) :: l) = l.lookup k := by
  simp only [List.lookup_cons, beq_eq_false_iff_ne.mpr h]

theorem lookup_error {n : Bytes} (h : n ≠ errorVar) (v e : Value) :
    List.lookup errorVar ((n, v) :: (errorVar, e) :: l) = some e := by
  rw [lookup_other h.symm, List.lookup_cons_self]

theorem define_next {n : Bytes} {v e : Value} (hn : l.lookup n = none)
    (hrun : x.run B b l s = some ([v, e], s')) :
    (Stmt.define [n, errorVar] x).exec B b types l s
      = some (.next ((n, v) :: (errorVar, e) :: l), s') := by
  have hnew : ∃ y ∈ [n, errorVar], l.lookup y = none := ⟨n, by simp, hn⟩
  simp only [Stmt.exec, hrun, Option.bind_eq_bind, Option.bind_some]
  rw [if_pos ⟨rfl, hnew⟩]
  rfl

/-- A definition whose error is checked. -/
theorem define_ok {n : Bytes} {v : Value} (hn : l.lookup n = none) (hne : n ≠ errorVar)
    (hrun : x.run B b l s = some ([v, .nil], s')) :
    execAll B b types l (.define [n, errorVar] x :: .panicIfError m :: rest) s
      = execAll B b types ((n, v) :: (errorVar, .nil) :: l) rest s' := by
  rw [execAll_next (define_next hn hrun)]
  apply execAll_next
  simp only [Stmt.exec, lookup_error hne, Option.bind_eq_bind, Option.bind_some]
  rfl

theorem define_error {n : Bytes} {v : Value} {e : Raised} (hn : l.lookup n = none)
    (hne : n ≠ errorVar) (hrun : x.run B b l s = some ([v, .raised e], s'))
    (ht : errorf m [e.text] = some t) :
    execAll B b types l (.define [n, errorVar] x :: .panicIfError m :: rest) s
      = some (.panicked t, s') := by
  rw [execAll_next (define_next hn hrun)]
  apply execAll_stop
  simp only [Stmt.exec, lookup_error hne, Option.bind_eq_bind, Option.bind_some, Value.error?,
    panic, ht]
  rfl

theorem raise_eq {v : Value} {e : Option Raised} (hrun : x.run B b l s = some ([v], s'))
    (he : v.error? = some e) : x.raise B b l s = some (e, s') := by
  simp only [Expr.raise, hrun, he, Option.bind_eq_bind, Option.bind_some, Option.map_some]

/-- A check of an error that an expression yields. -/
theorem check_ok (hrun : x.run B b l s = some ([.nil], s')) :
    execAll B b types l (.panicIfErrorOf x m :: rest) s = execAll B b types l rest s' := by
  apply execAll_next
  simp only [Stmt.exec, raise_eq hrun rfl, Option.bind_eq_bind, Option.bind_some]
  rfl

theorem check_error {e : Raised} (hrun : x.run B b l s = some ([.raised e], s'))
    (ht : errorf m [e.text] = some t) :
    execAll B b types l (.panicIfErrorOf x m :: rest) s = some (.panicked t, s') := by
  apply execAll_stop
  simp only [Stmt.exec, raise_eq hrun rfl, Option.bind_eq_bind, Option.bind_some, panic, ht]
  rfl

/-- The expressions give the results, each as a value of its declared type. -/
def Returns (b : Bindings) (l : Locals) (types xs : List Expr) (ws : List Value) : Prop :=
  ∃ vs, evalList b l xs = some vs ∧ assignAll types vs = some ws

theorem Returns.nil : Returns b l [] [] [] := ⟨[], rfl, rfl⟩

theorem Returns.cons {t : Expr} {xs : List Expr} {v w : Value} {ws : List Value}
    (hx : x.eval b l = some v) (hv : assign? t v = some w) (h : Returns b l types xs ws) :
    Returns b l (t :: types) (x :: xs) (w :: ws) := by
  obtain ⟨vs, hvs, hws⟩ := h
  exact ⟨v :: vs, evalList_cons hx hvs, by simp [assignAll, hv, hws]⟩

/-- A result that is there under a condition. -/
theorem Returns.when {p : Bool} {t : Expr} {xs : List Expr} {w : Value} {ws : List Value}
    (hx : p = true → ∃ v, x.eval b l = some v ∧ assign? t v = some w)
    (h : Returns b l types xs ws) :
    Returns b l ((if p then [t] else []) ++ types) ((if p then [x] else []) ++ xs)
      ((if p then [w] else []) ++ ws) := by
  cases p with
  | false => exact h
  | true =>
    obtain ⟨v, hv, hw⟩ := hx rfl
    exact h.cons hv hw

theorem returnAll_eq {xs : List Expr} {ws : List Value} (h : Returns b l types xs ws) (s : σ) :
    returnAll b types l xs s = some (.stop (.returned ws), s) := by
  obtain ⟨vs, hvs, hws⟩ := h
  simp only [returnAll, hvs, hws, Option.bind_eq_bind, Option.bind_some, Option.pure_def]

/-- A return of the results; without results there is nothing to return. -/
theorem execAll_ret {xs : List Expr} {ws : List Value} (h : Returns b l types xs ws) (s : σ) :
    execAll B b types l (if xs.isEmpty then [] else [.ret xs]) s = some (.returned ws, s) := by
  cases xs with
  | cons y ys => exact execAll_stop (returnAll_eq h s)
  | nil =>
    obtain ⟨vs, hvs, hws⟩ := h
    cases hvs
    cases types with
    | cons t ts => cases hws
    | nil =>
      cases hws
      rfl

end Exec

/-! ### Locals -/

/-- The names that expanded code defines. -/
def IsLocal (n : Bytes) : Prop :=
  n ∈ [envVar, resultVar, valueVar, errorVar, presentVar] ∨ ∃ i, n = Plan.arrayVar i

theorem not_isLocal {n : Bytes} (h : n.take 3 ≠ ("jni" : Bytes)) : ¬ IsLocal n := by
  have hfixed : ∀ m ∈ [envVar, resultVar, valueVar, errorVar, presentVar],
      m.take 3 = ("jni" : Bytes) := by decide
  rintro (hn | ⟨i, rfl⟩)
  · exact h (hfixed n hn)
  · exact h rfl

/-- Only names that expanded code defines are locals. -/
def OnlyLocals (l : Locals) : Prop := ∀ n, l.lookup n ≠ none → IsLocal n

theorem OnlyLocals.cons {n : Bytes} (h : OnlyLocals l) (hn : IsLocal n) (v : Value) :
    OnlyLocals ((n, v) :: l) := by
  intro k hk
  by_cases hkn : k = n
  · rw [hkn]
    exact hn
  · rw [lookup_other hkn] at hk
    exact h k hk

theorem OnlyLocals.constant_eval {t : Bytes} {v : Value} (h : OnlyLocals l)
    (ht : t.take 3 ≠ ("jni" : Bytes)) (hv : constants.lookup t = some v) :
    (Expr.text t).eval b l = some v := by
  have hnone : l.lookup t = none := by
    by_contra hsome
    exact not_isLocal ht (h t hsome)
  rw [Expr.eval, hnone, Option.none_or, hv]

theorem OnlyLocals.nil_eval (h : OnlyLocals l) : nil.eval b l = some .nil :=
  h.constant_eval (by decide) rfl

/-- A copied expression that mentions no local stands for its bound value. -/
theorem OnlyLocals.copied_eval {t : Bytes} {v : HostValue} (h : OnlyLocals l)
    (ht : ∀ n ∈ namesOf t, ¬ IsLocal n) (hv : b.lookup t = some v) :
    (Expr.copied t).eval b l = some (.host v) := by
  have hfree : captured l t = false := by
    rw [captured, List.any_eq_false]
    intro n hn hsome
    apply ht n hn
    apply h n
    intro hnone
    rw [hnone] at hsome
    cases hsome
  rw [Expr.eval, hfree, if_neg Bool.false_ne_true, hv, Option.map_some]

theorem text_eval {n : Bytes} {v : Value} (h : l.lookup n = some v) :
    (Expr.text n).eval b l = some v := by
  rw [Expr.eval, h, Option.some_or]

theorem object?_of_refers {v : HostValue} {o : Obj} (h : Refers v o) :
    (Value.host v).object? = some o := by
  cases h <;> rfl

theorem ref_eval {v : Value} {o : Obj} (hx : x.eval b l = some v) (hv : v.object? = some o) :
    (bridge "Ref" [x]).eval b l = some (.wire (.object o)) := by
  rw [bridge_eval hx]
  change v.object?.map _ = _
  rw [hv]
  rfl

/-- Expressions whose values are known one by one. -/
theorem evalList_map {α β : Type} {R : α → β → Prop} {as : List α} {ws : List β} {f : α → Expr}
    (value : β → Value) (h : List.Forall₂ R as ws)
    (heval : ∀ a ∈ as, ∀ w, R a w → (f a).eval b l = some (value w)) :
    evalList b l (as.map f) = some (ws.map value) := by
  induction h with
  | nil => rfl
  | @cons a w as ws ha _ ih =>
    have hrest := ih fun a ha => heval a (List.mem_cons_of_mem _ ha)
    exact evalList_cons (heval a List.mem_cons_self w ha) hrest

theorem wires_slice (ws : List Wire) :
    slice? (.qual .bridge "Value") (ws.map .wire) = some (.wires ws) := by
  have hmap : (ws.map Value.wire).mapM Value.wire? = some ws := by
    induction ws with
    | nil => rfl
    | cons w ws ih => simp [Value.wire?, ih]
  simp only [slice?, if_true, hmap, Option.map_some]

theorem buffer_slice {elem : Bytes} {vs : List HostValue} (h : ∀ v ∈ vs, v.typeName = elem) :
    slice? (.text elem) (vs.map .host) = some (.buffer elem vs) := by
  have hmap : (vs.map Value.host).mapM (Value.typed? elem) = some vs := by
    induction vs with
    | nil => rfl
    | cons v vs ih =>
      have hv := h v List.mem_cons_self
      have hvs := ih fun v hv => h v (List.mem_cons_of_mem _ hv)
      simp [Value.typed?, hv, hvs]
  rw [slice?, hmap, Option.map_some]

end Code
end BridgeCall
