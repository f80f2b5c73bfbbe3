/-
  BridgeCall/Proofs/Plan/Agreement.lean
  =====================================
  **Code agrees with its plan.**  The expanded code of a call and the run of its
  plan are two walks over the same steps.  `Agrees` says of a list of steps that
  both walks end alike and leave the bridge in the same state; it is shown for
  one step after the other, for what follows a step is arbitrary.  `Scope`,
  `Answered` and `Converted` say which locals the code has at each stage and how
  they mirror the progress of the run.

  Nothing is assumed about the bridge.  With a bridge that keeps its requests the
  same state means the same requests, in the same order.
-/
import BridgeCall.Proofs.Plan.Evaluation

namespace BridgeCall

/-! ### The statement -/

/-- The zero value of a host type; no value for references. -/
def zeroOf (t : Bytes) : HostValue :=
  ((.bool false :: Code.zeroNumbers).find? fun z => z.typeName = hostTypeName t).getD .absent

/-- The values that code yields for the outcome of a call. -/
def Call.yields (c : Call) (o : Outcome) : List Code.Value :=
  let shape := Shape.of c.ret
  let value := if o.err.isSome then zeroOf c.ret.payload.hostType else o.value
  (if shape.value then [Code.Value.host value] else [])
    ++ (if shape.optional then [Code.Value.bool (o.err.isNone && o.present)] else [])
    ++ (if shape.fallible then
      [match o.err with
        | some e => Code.Value.raised (.thrown e)
        | none => .nil] else [])

theorem Call.length_yields (c : Call) (o : Outcome) :
    (c.yields o).length = (Shape.of c.ret).arity := by
  simp only [Call.yields, Shape.arity]
  cases (Shape.of c.ret).value <;> cases (Shape.of c.ret).optional <;>
    cases (Shape.of c.ret).fallible <;> rfl

/-- How code ends for the end of a run. -/
def Call.ending (c : Call) : Except Fatal Outcome → Code.Ending
  | .ok o => .returned (c.yields o)
  | .error f => .panicked (f.message c)

/-- The expressions of an argument. -/
def Argument.expressions : Argument → List Bytes
  | .single v | .array v => [v]
  | .literal es => es

/-- The expressions of a call. -/
def Call.expressions (c : Call) : List Bytes :=
  (match c.target with
    | .static _ _ => []
    | .object r _ => [r]) ++ c.params.flatMap fun p => p.arg.expressions

/-- No expression of the call mentions a name that its code defines. -/
def Call.NamesNoLocal (c : Call) : Prop :=
  ∀ t ∈ c.expressions, ∀ n ∈ Code.namesOf t, ¬ Code.IsLocal n

theorem Call.NamesNoLocal.param {c : Call} {p : Parameter} {t : Bytes} {i : Nat}
    (h : c.NamesNoLocal) (hp : c.params[i]? = some p) (ht : t ∈ p.arg.expressions) :
    ∀ n ∈ Code.namesOf t, ¬ Code.IsLocal n := by
  apply h
  simp only [Call.expressions, List.mem_append, List.mem_flatMap]
  exact .inr ⟨p, List.mem_of_getElem? hp, ht⟩

theorem Call.NamesNoLocal.receiver {c : Call} {r : Bytes} {s : Span} (h : c.NamesNoLocal)
    (hr : c.target = .object r s) : ∀ n ∈ Code.namesOf r, ¬ Code.IsLocal n := by
  apply h
  simp [Call.expressions, hr]

namespace Code

variable {b : Bindings} {l : Locals} {x : Expr} {c : Call} {g : Progress} {k : Nat}

/-! ### Locals and progress -/

/-- The locals while the arrays of the first `k` parameters are built: they hold the arrays of the
    run, and no other local is there yet. -/
structure Scope (c : Call) (k : Nat) (g : Progress) (l : Locals) : Prop where
  env : l.lookup envVar = some .environment
  array : ∀ i p es, i < k → c.params[i]? = some p → p.arg = .literal es →
    l.lookup (Plan.arrayVar i) = some (.ofObj (Plan.arrayAt g i))
  names : ∀ n, l.lookup n ≠ none → n = envVar ∨ n = errorVar ∨ ∃ i < k, n = Plan.arrayVar i

theorem Scope.init (c : Call) : Scope c 0 {} [(envVar, .environment)] := by
  refine ⟨rfl, fun i p es hi => absurd hi (Nat.not_lt_zero i), ?_⟩
  intro n hn
  by_cases henv : n = envVar
  · exact .inl henv
  · rw [lookup_other henv] at hn
    exact absurd rfl hn

theorem Scope.onlyLocals (h : Scope c k g l) : OnlyLocals l := by
  intro n hn
  rcases h.names n hn with rfl | rfl | ⟨i, -, rfl⟩
  · exact .inl (by decide)
  · exact .inl (by decide)
  · exact .inr ⟨i, rfl⟩

theorem Scope.lookup_arrayVar (h : Scope c k g l) : l.lookup (Plan.arrayVar k) = none := by
  by_contra hsome
  rcases h.names _ hsome with heq | heq | ⟨i, hi, heq⟩
  · exact Plan.arrayVar_ne (by decide) k heq.symm
  · exact Plan.arrayVar_ne (by decide) k heq.symm
  · have := Plan.arrayVar_injective heq
    omega

theorem Scope.lookup_none {n : Bytes} (h : Scope c k g l) (henv : n ≠ envVar) (herror : n ≠ errorVar)
    (harray : n.take 6 ≠ ("jniArg" : Bytes)) : l.lookup n = none := by
  by_contra hsome
  rcases h.names _ hsome with heq | heq | ⟨i, -, heq⟩
  · exact henv heq
  · exact herror heq
  · exact Plan.arrayVar_ne harray i heq

/-- A parameter that needs no array. -/
theorem Scope.skip (h : Scope c k g l)
    (hk : ∀ p es, c.params[k]? = some p → p.arg ≠ .literal es) : Scope c (k + 1) g l := by
  refine ⟨h.env, ?_, ?_⟩
  · intro i p es hi hp hes
    rcases Nat.lt_succ_iff_lt_or_eq.mp hi with hi | rfl
    · exact h.array i p es hi hp hes
    · exact absurd hes (hk p es hp)
  · intro n hn
    rcases h.names n hn with heq | heq | ⟨i, hi, heq⟩
    · exact .inl heq
    · exact .inr (.inl heq)
    · exact .inr (.inr ⟨i, by omega, heq⟩)

/-- A parameter whose array was made. -/
theorem Scope.push (h : Scope c k g l) (o : Obj) :
    Scope c (k + 1) (Plan.put g k o)
      ((Plan.arrayVar k, .ofObj o) :: (errorVar, .nil) :: l) := by
  refine ⟨?_, ?_, ?_⟩
  · rw [lookup_other (Plan.arrayVar_ne (by decide) k), lookup_other (by decide)]
    exact h.env
  · intro i p es hi hp hes
    rcases Nat.lt_succ_iff_lt_or_eq.mp hi with hi | rfl
    · have hne : Plan.arrayVar i ≠ Plan.arrayVar k := fun heq => by
        have := Plan.arrayVar_injective heq
        omega
      rw [lookup_other hne, lookup_other (Plan.arrayVar_ne (by decide) i).symm,
        Plan.arrayAt_put_ne g (by omega)]
      exact h.array i p es hi hp hes
    · rw [List.lookup_cons_self, Plan.arrayAt_put]
  · intro n hn
    by_cases hnk : n = Plan.arrayVar k
    · exact .inr (.inr ⟨k, by omega, hnk⟩)
    by_cases herror : n = errorVar
    · exact .inr (.inl herror)
    rw [lookup_other hnk, lookup_other herror] at hn
    rcases h.names n hn with heq | heq | ⟨i, hi, heq⟩
    · exact .inl heq
    · exact .inr (.inl heq)
    · exact .inr (.inr ⟨i, by omega, heq⟩)

/-! ### One step after the other -/

section Agree

variable {σ : Type} {B : Bridge σ} {rest : List Op} {op : Op} {st : Step} {s : σ}

/-- The code of the steps ends as the steps do, with the bridge in the same state. -/
def Agrees (B : Bridge σ) (b : Bindings) (c : Call) (g : Progress) (l : Locals) (ops : List Op)
    (s : σ) : Prop :=
  execAll B b (resultTypes (Plan.lower c)) l (ops.flatMap (ofOp (Plan.lower c))) s
    = some (c.ending ((Plan.lower c).steps B b g ops s).1, ((Plan.lower c).steps B b g ops s).2)

/-- The wording of a step with its cause is the text of the failure. -/
theorem errorf_message (hst : Verbatim (st.message c)) (e : Cause) :
    errorf (withCause c st) [e.message] = some (Fatal.message c ⟨st, some e⟩) :=
  errorf_cause hst e.message

/-- A step that asks the bridge for something and puts it into a local. -/
theorem define_agrees {α : Type} {m : σ → Except BridgeError α × σ} {d : α} {n : Bytes}
    {body : RunM σ α} (value : α → Value) (next : α → Progress)
    (hcode : ofOp (Plan.lower c) op = [.define [n, errorVar] x, .panicIfError (withCause c st)])
    (hn : l.lookup n = none) (hne : n ≠ errorVar) (hst : Verbatim (st.message c))
    (hrun : x.run B b l s = some ([value ((m s).1.toOption.getD d), errorOf (m s).1], (m s).2))
    (hstep : (Plan.lower c).step B b g op s
      = (do let a ← Plan.blame st body; return Plan.Next.more (next a)) s)
    (hbody : body s = RunM.ask m s)
    (hrest : ∀ a s, Agrees B b c (next a) ((n, value a) :: (errorVar, .nil) :: l) rest s) :
    Agrees B b c g l (op :: rest) s := by
  unfold Agrees
  rw [List.flatMap_cons, hcode, List.cons_append, List.singleton_append]
  -- a failure ends the code and the run alike; with an answer both go on
  rcases hm : m s with ⟨_ | a, s'⟩
  · rename_i e
    rw [hm] at hrun
    rw [bind_run_error (Plan.blame_error (hbody.trans (Plan.ask_error hm)) st)] at hstep
    rw [Plan.steps_error hstep]
    exact define_error hn hne hrun (errorf_message hst (.bridge e))
  · rw [hm] at hrun
    rw [bind_run_ok (Plan.blame_ok (hbody.trans (Plan.ask_ok hm)) st)] at hstep
    rw [Plan.steps_more hstep, define_ok hn hne hrun]
    exact hrest a s'

/-- A step that has the bridge do something. -/
theorem check_agrees {m : σ → Except BridgeError Unit × σ} {body : RunM σ Unit}
    (hcode : ofOp (Plan.lower c) op = [.panicIfErrorOf x (withCause c st)])
    (hst : Verbatim (st.message c))
    (hrun : x.run B b l s = some ([errorOf (m s).1], (m s).2))
    (hstep : (Plan.lower c).step B b g op s
      = (do Plan.blame st body; return Plan.Next.more g) s)
    (hbody : body s = RunM.ask m s)
    (hrest : ∀ s, Agrees B b c g l rest s) :
    Agrees B b c g l (op :: rest) s := by
  unfold Agrees
  rw [List.flatMap_cons, hcode, List.singleton_append]
  rcases hm : m s with ⟨_ | a, s'⟩
  · rename_i e
    rw [hm] at hrun
    rw [bind_run_error (Plan.blame_error (hbody.trans (Plan.ask_error hm)) st)] at hstep
    rw [Plan.steps_error hstep]
    exact check_error hrun (errorf_message hst (.bridge e))
  · rw [hm] at hrun
    rw [bind_run_ok (Plan.blame_ok (hbody.trans (Plan.ask_ok hm)) st)] at hstep
    rw [Plan.steps_more hstep, check_ok hrun]
    exact hrest s'

/-! ### Building the arrays -/

section Build

variable {p : Parameter} {es : List Bytes}

theorem primitive_ne_void {ty : ValueType} (hobject : ty.isObject = false)
    (hvoid : ty.isVoid = false) : ty.primitive?.getD .void ≠ .void := by
  cases ty with
  | java p s => cases p <;> simp_all [ValueType.isVoid, ValueType.primitive?]
  | host k s => cases k <;> simp [ValueType.primitive?, HostPrimitive.java]
  | object k => cases hobject

theorem typeStem_primitive {ty : ValueType} (hobject : ty.isObject = false) :
    typeStem ty = stem (ty.primitive?.getD .void) := by
  cases ty with
  | java p s => rfl
  | host k s => rfl
  | object k => cases hobject

/-- Setting the elements of an array. -/
theorem sets_agree (hfree : c.NamesNoLocal) (hp : c.params[k]? = some p)
    (hes : p.arg = .literal es) (hnames : ∀ e ∈ es, ∃ o, b.Names e o) {cls : ClassPath}
    (hcls : cls.WellFormed) (hc : c.WellFormed) (hl : Scope c (k + 1) g l) {js : List Nat}
    (hjs : ∀ j ∈ js, j < es.length) (hrest : ∀ s, Agrees B b c g l rest s) (s : σ) :
    Agrees B b c g l (js.map (Op.setObjectElement k · cls) ++ rest) s := by
  induction js generalizing s with
  | nil => exact hrest s
  | cons j js ih =>
    have hj := hjs j List.mem_cons_self
    obtain ⟨o, v, hv, hrefers⟩ := hnames es[j] (List.getElem_mem hj)
    have helement : (Plan.lower c).elementOf k j = es[j] := Plan.elementOf_lower hp hes hj
    have harray := hl.array k p es (Nat.lt_succ_self k) hp hes
    have hcopied : (Expr.copied es[j]).eval b l = some (.host v) :=
      hl.onlyLocals.copied_eval (hfree.param hp (by simp [hes, Argument.expressions])) hv
    have hargs := evalList_cons (text_eval harray)
      (evalList_cons (num_eval j) (evalList_cons hcopied (evalList_nil b l)))
    have hrequest : request? "SetObjectArrayElement"
        [.ofObj (Plan.arrayAt g k), .num j, .host v]
        = some (.setObjectArrayElement (Plan.arrayAt g k) j o) := by
      rw [request?_eq .setObjectArrayElement rfl, requestOf, object?_ofObj,
        object?_of_refers hrefers]
      rfl
    have hobject : b.object ((Plan.lower c).elementOf k j) = .ok o := by
      rw [helement]
      exact Bindings.Names.object ⟨v, hv, hrefers⟩
    rw [List.map_cons, List.cons_append]
    refine check_agrees ?_ (hc.verbatim_message (.setElement j cls.display) hcls.verbatim)
      (env_run hl.env hargs hrequest s) rfl ?_ (ih fun j hj => hjs j (List.mem_cons_of_mem _ hj))
    · rw [ofOp, Plan.varOf_lower hp hes, helement]
      rfl
    · rw [bind_run_ok (Plan.lookup_run hobject s)]

/-- The elements of an array literal have the type of its buffer. -/
theorem typeName_of_sends {ty : ValueType} {ws : List Wire}
    (h : List.Forall₂ (b.Sends ty) es ws) :
    ∀ v ∈ ws.map Wire.raw, v.typeName = rawType (ty.primitive?.getD .void) := by
  induction h with
  | nil => simp
  | cons he _ ih =>
    intro v hv
    rcases List.mem_cons.mp hv with rfl | hv
    · obtain ⟨_, -, hcrosses⟩ := he
      exact typeName_raw hcrosses
    · exact ih v hv

/-- Making an array of a primitive type and filling it. -/
theorem primitive_agrees (hfree : c.NamesNoLocal) (hc : c.WellFormed)
    (hp : c.params[k]? = some p) (hes : p.arg = .literal es) (hobject : p.ty.isObject = false)
    (hb : ∀ e ∈ es, b.HasValue p.ty e) (hl : Scope c k g l)
    (hrest : ∀ g l s, Scope c (k + 1) g l → Agrees B b c g l rest s) (s : σ) :
    Agrees B b c g l (Plan.buildOps k p ++ rest) s := by
  obtain ⟨hty, hvoid⟩ := hc.params p (List.mem_of_getElem? hp)
  have hprimitive := primitive_ne_void hobject hvoid
  have hstem := typeStem_primitive hobject
  have hnew := evalList_cons (num_eval es.length) (evalList_nil b l)
  rw [Plan.buildOps_primitive hes hobject, List.cons_append]
  refine define_agrees (d := .null) .ofObj (Plan.put g k) ?_ hl.lookup_arrayVar
    (Plan.arrayVar_ne (by decide) k).symm
    (hc.verbatim_message (.allocate p.ty.display es.length) hty.verbatim)
    (env_run hl.env hnew (request?_newArray hprimitive es.length) s) rfl rfl ?_
  · rw [ofOp, Plan.varOf_lower hp hes, hstem]
    rfl
  intro o s
  have hl' := hl.push o
  cases hempty : es.isEmpty with
  | true => exact hrest _ _ s hl'
  | false =>
    obtain ⟨ws, hws⟩ := exists_forall₂ fun e he => (hb e he).sends hobject
    have harray := hl'.array k p es (Nat.lt_succ_self k) hp hes
    have hvalues : evalList b ((Plan.arrayVar k, .ofObj o) :: (errorVar, .nil) :: l)
        (es.map fun e => toWire p.ty (.copied e)) = some ((ws.map Wire.raw).map .host) := by
      rw [List.map_map]
      refine evalList_map _ hws ?_
      rintro e he w ⟨v, hv, hcrosses⟩
      have hnames := hfree.param hp (by simpa [hes, Argument.expressions] using he)
      exact toWire_eval hcrosses (hl'.onlyLocals.copied_eval hnames hv)
    have hslice : (Expr.slice (.text (rawType (p.ty.primitive?.getD .void)))
        (es.map fun e => toWire p.ty (.copied e))).eval b
        ((Plan.arrayVar k, .ofObj o) :: (errorVar, .nil) :: l)
        = some (.buffer (rawType (p.ty.primitive?.getD .void)) (ws.map Wire.raw)) := by
      rw [Expr.eval, hvalues, Option.bind_some, buffer_slice (typeName_of_sends hws)]
    have hargs := evalList_cons (text_eval harray)
      (evalList_cons (num_eval 0) (evalList_cons hslice (evalList_nil _ _)))
    rw [if_neg Bool.false_ne_true, List.singleton_append]
    refine check_agrees ?_ (hc.verbatim_message (.fill p.ty.display) hty.verbatim)
      (env_run hl'.env hargs
        (request?_setArrayRegion hprimitive (object?_ofObj _) (ws.map Wire.raw)) s) rfl ?_
      (fun s => hrest _ _ s hl')
    · rw [ofOp, Plan.varOf_lower hp hes, Plan.elementsOf_lower hp hes, hstem]
      rfl
    · rw [Plan.fill, Plan.elementsOf_lower hp hes, bind_run_ok (Plan.elementWires_run hws s)]

/-- The array of a parameter, if it has one to build. -/
theorem build_agrees (hfree : c.NamesNoLocal) (hc : c.WellFormed) (hp : c.params[k]? = some p)
    (hb : p.Bound b) (hl : Scope c k g l)
    (hrest : ∀ g l s, Scope c (k + 1) g l → Agrees B b c g l rest s) (s : σ) :
    Agrees B b c g l (Plan.buildOps k p ++ rest) s := by
  unfold Parameter.Bound at hb
  have hskip (hno : ∀ es, p.arg ≠ .literal es) : Scope c (k + 1) g l := by
    apply hl.skip
    intro q es hq
    rw [hp] at hq
    cases hq
    exact hno es
  cases harg : p.arg with
  | single v =>
    have hnone : Plan.buildOps k p = [] := by simp [Plan.buildOps, harg]
    rw [hnone]
    exact hrest g l s (hskip (by simp [harg]))
  | array v =>
    have hnone : Plan.buildOps k p = [] := by simp [Plan.buildOps, harg]
    rw [hnone]
    exact hrest g l s (hskip (by simp [harg]))
  | literal es =>
    rw [harg] at hb
    cases hobject : p.ty.isObject with
    | false => exact primitive_agrees hfree hc hp harg hobject hb hl hrest s
    | true =>
      obtain ⟨cls, hcls⟩ := Plan.exists_object hobject
      have hwell : cls.WellFormed := by
        obtain ⟨hty, -⟩ := hc.params p (List.mem_of_getElem? hp)
        rw [hcls] at hty
        exact hty
      have hnew := evalList_cons (num_eval es.length) (evalList_cons (str_eval cls.internalName)
        (evalList_cons (hl.onlyLocals.nil_eval (b := b)) (evalList_nil b l)))
      have hrequest : request? "NewObjectArray" [.num es.length, .str cls.internalName, .nil]
          = some (.newObjectArray es.length cls.internalName .null) := by
        rw [request?_eq .newObjectArray rfl]
        rfl
      have hbuild : Plan.buildOps k p = .newObjectArray k es.length cls ::
          (List.range es.length).map (Op.setObjectElement k · cls) := by
        simp only [Plan.buildOps, harg, hcls]
      rw [hbuild, List.cons_append]
      refine define_agrees (d := .null) .ofObj (Plan.put g k) ?_
        hl.lookup_arrayVar (Plan.arrayVar_ne (by decide) k).symm
        (hc.verbatim_message (.allocate cls.display es.length) hwell.verbatim)
        (env_run hl.env hnew hrequest s) rfl rfl ?_
      · rw [ofOp, Plan.varOf_lower hp harg]
        rfl
      · intro o s
        exact sets_agree hfree hp harg (fun e he => (hb e he).names hobject) hwell hc (hl.push o)
          (by simp) (fun s => hrest _ _ s (hl.push o)) s

/-- All arrays, in parameter order. -/
theorem builds_agree (hfree : c.NamesNoLocal) (hc : c.WellFormed) (hb : c.Bound b)
    {after : List Parameter} (before : List Parameter) (hparams : c.params = before ++ after)
    (hl : Scope c before.length g l)
    (hrest : ∀ g l s, Scope c c.params.length g l → Agrees B b c g l rest s) (s : σ) :
    Agrees B b c g l
      (((after.zipIdx before.length).flatMap fun x => Plan.buildOps x.2 x.1) ++ rest) s := by
  -- the induction is on the parameters still to come; `Scope` tells of those before
  induction after generalizing before g l s with
  | nil =>
    rw [List.append_nil] at hparams
    rw [← hparams] at hl
    exact hrest g l s hl
  | cons p after ih =>
    have hp : c.params[before.length]? = some p := by simp [hparams]
    rw [List.zipIdx_cons, List.flatMap_cons, List.append_assoc]
    refine build_agrees hfree hc hp (hb.params p (List.mem_of_getElem? hp)) hl ?_ s
    intro g l s hl
    have hlength : before.length + 1 = (before ++ [p]).length := by simp
    rw [hlength] at hl ⊢
    exact ih _ (by simp [hparams]) hl s

end Build

/-! ### Calling the method -/

/-- The code of an argument sends what the run sends. -/
theorem argument_eval (hfree : c.NamesNoLocal) (hl : Scope c c.params.length g l) {a : Arg} {i : Nat}
    (ha : (Plan.lower c).args[i]? = some a) {w : Wire} (hw : a.Sends b g i w) :
    (argument a).eval b l = some (.wire w) := by
  obtain ⟨p, hp, rfl⟩ : ∃ p, c.params[i]? = some p ∧ Plan.argOf i p = a := by
    simpa [Plan.lower] using ha
  have hi : i < c.params.length := (List.getElem?_eq_some_iff.mp hp).1
  have hcopied {t : Bytes} (ht : t ∈ p.arg.expressions) {v : HostValue} (hv : b.lookup t = some v) :
      (Expr.copied t).eval b l = some (.host v) :=
    hl.onlyLocals.copied_eval (hfree.param hp ht) hv
  have hreference {t : Bytes} (ht : t ∈ p.arg.expressions) {o : Obj} (ho : b.Names t o) :
      (bridge "Ref" [.copied t]).eval b l = some (.wire (.object o)) := by
    obtain ⟨v, hv, hrefers⟩ := ho
    exact ref_eval (hcopied ht hv) (object?_of_refers hrefers)
  unfold Arg.Sends at hw
  rw [Plan.argOf_param] at hw
  cases harg : p.arg with
  | literal es =>
    rw [harg] at hw
    rw [hw]
    simp only [Plan.argOf, harg, argument]
    exact ref_eval (text_eval (hl.array i p es hi hp harg)) (object?_ofObj _)
  | array t =>
    rw [harg] at hw
    obtain ⟨o, rfl, ho⟩ := hw
    simp only [Plan.argOf, harg, argument]
    exact hreference (by simp [harg, Argument.expressions]) ho
  | single t =>
    have ht : t ∈ p.arg.expressions := by simp [harg, Argument.expressions]
    rw [harg] at hw
    simp only [Plan.argOf, harg, argument]
    simp only at hw
    cases hobject : p.ty.isObject with
    | true =>
      rw [if_pos hobject] at hw
      obtain ⟨o, rfl, ho⟩ := hw
      exact hreference ht ho
    | false =>
      rw [if_neg (by simp [hobject])] at hw
      obtain ⟨v, hv, hcrosses⟩ := hw
      exact typeStem_eval hcrosses (toWire_eval hcrosses (hcopied ht hv))

/-- The code of the list of arguments. -/
def argumentList (p : Plan) : Expr :=
  if p.args.isEmpty then nil else .slice (.qual .bridge "Value") (p.args.map argument)

theorem argumentList_eval (hfree : c.NamesNoLocal) (hl : Scope c c.params.length g l)
    {ws : List Wire}
    (hws : List.Forall₂ (fun (x : Arg × Nat) w => x.1.Sends b g x.2 w)
      ((Plan.lower c).args.zipIdx 0) ws) :
    ∃ v, (argumentList (Plan.lower c)).eval b l = some v ∧ v.wires? = some ws := by
  unfold argumentList
  cases hempty : (Plan.lower c).args.isEmpty with
  | true =>
    rw [List.isEmpty_iff.mp hempty] at hws
    cases hws
    exact ⟨.nil, hl.onlyLocals.nil_eval, rfl⟩
  | false =>
    have hvalues : evalList b l ((Plan.lower c).args.map argument) = some (ws.map .wire) := by
      have heval := evalList_map (f := argument ∘ Prod.fst) .wire hws
        fun x hx w hw => argument_eval hfree hl (List.mem_zipIdx_iff_getElem?.mp hx) hw
      rw [← List.map_map, List.zipIdx_map_fst] at heval
      exact heval
    refine ⟨.wires ws, ?_, rfl⟩
    rw [if_neg Bool.false_ne_true, Expr.eval, hvalues, Option.bind_some, wires_slice]

theorem invoke_agrees (hfree : c.NamesNoLocal) (hc : c.WellFormed) (hb : c.Bound b)
    (hl : Scope c c.params.length g l)
    (hrest : ∀ w s, Agrees B b c { g with result := w }
      ((resultVar, .wire w) :: (errorVar, .nil) :: l) rest s) (s : σ) :
    Agrees B b c g l (.invoke :: rest) s := by
  obtain ⟨ws, hws⟩ := Plan.exists_sends hb g
  obtain ⟨v, hv, hwires⟩ := argumentList_eval hfree hl hws
  have hresult : l.lookup resultVar = none := hl.lookup_none (by decide) (by decide) (by decide)
  have htail := evalList_cons (str_eval c.method) (evalList_cons (str_eval c.signature)
    (evalList_cons hv (evalList_nil b l)))
  have hmessage : Verbatim (Step.call.message c) := hc.verbatim_message .call (by decide)
  have hcall : (Plan.lower c).call = c := rfl
  have hvalues (s : σ) := Plan.argValues_run (B := B) hws s
  cases htarget : c.target with
  | static k span =>
    have hargs := evalList_cons (str_eval k.internalName) htail
    have hrequest : request? "CallStaticMethod"
        [.str k.internalName, .str c.method, .str c.signature, v]
        = some (.callStaticMethod k.internalName c.method c.signature ws) := by
      rw [request?_eq .callStaticMethod rfl, requestOf, hwires]
      rfl
    refine define_agrees (d := .unset) .wire (fun w => { g with result := w })
      ?_ hresult (by decide) hmessage (env_run hl.env hargs hrequest s) rfl ?_ hrest
    · rw [ofOp, invoke, hcall, htarget]
      rfl
    · rw [Plan.invoke, bind_run_ok (hvalues s), hcall, htarget]
      rfl
  | object r span =>
    obtain ⟨o, ho⟩ := (hb.receiver r span htarget).names
    obtain ⟨u, hu, hrefers⟩ := ho
    have hcopied : (Expr.copied r).eval b l = some (.host u) :=
      hl.onlyLocals.copied_eval (hfree.receiver htarget) hu
    have hargs := evalList_cons hcopied htail
    have hrequest : request? "CallMethod" [.host u, .str c.method, .str c.signature, v]
        = some (.callMethod o c.method c.signature ws) := by
      rw [request?_eq .callMethod rfl, requestOf, object?_of_refers hrefers, hwires]
      rfl
    refine define_agrees (d := .unset) .wire (fun w => { g with result := w })
      ?_ hresult (by decide) hmessage (env_run hl.env hargs hrequest s) rfl ?_ hrest
    · rw [ofOp, invoke, hcall, htarget]
      rfl
    · rw [Plan.invoke, bind_run_ok (hvalues s), hcall, htarget]
      simp only
      rw [bind_run_ok (Plan.lookup_run (Bindings.Names.object ⟨u, hu, hrefers⟩) s)]
      rfl

/-! ### Reading the result -/

/-- The locals once the method has answered. -/
structure Answered (g : Progress) (l : Locals) : Prop where
  env : l.lookup envVar = some .environment
  only : OnlyLocals l
  result : l.lookup resultVar = some (.wire g.result)
  value : l.lookup valueVar = none
  present : l.lookup presentVar = none

/-- The locals once the result is known to be of the declared kind. -/
structure Converted (c : Call) (g : Progress) (l : Locals) : Prop where
  env : l.lookup envVar = some .environment
  only : OnlyLocals l
  letter : g.result.letter = c.ret.payload.letter
  value : c.ret.payload.isVoid = false → l.lookup valueVar = some (.host g.result.raw)

theorem Scope.answered (h : Scope c k g l) (w : Wire) :
    Answered { g with result := w } ((resultVar, .wire w) :: (errorVar, .nil) :: l) where
  env := by
    rw [lookup_other (by decide), lookup_other (by decide)]
    exact h.env
  only := (h.onlyLocals.cons (.inl (by decide)) .nil).cons (.inl (by decide)) _
  result := List.lookup_cons_self
  value := by
    rw [lookup_other (by decide), lookup_other (by decide)]
    exact h.lookup_none (by decide) (by decide) (by decide)
  present := by
    rw [lookup_other (by decide), lookup_other (by decide)]
    exact h.lookup_none (by decide) (by decide) (by decide)

theorem read_run {w : Wire} {name : Bytes} {vs : List Value}
    (hw : l.lookup resultVar = some (.wire w)) (hvs : access w name = some vs) (s : σ) :
    (Expr.method (.text resultVar) name []).run B b l s = some (vs, s) := by
  simp only [Expr.run, evalList_nil, text_eval hw, hvs, Option.bind_eq_bind, Option.bind_some,
    if_true, Option.map_some]

/-- The result is read as the declared type. -/
theorem convert_agrees (hc : c.WellFormed) (hl : Answered g l)
    (hrest : ∀ l s, Converted c g l → l.lookup presentVar = none → Agrees B b c g l rest s) (s : σ) :
    Agrees B b c g l (.convert c.ret.payload :: rest) s := by
  have hmessage := hc.verbatim_message (.convert c.ret.payload.display) hc.payload.verbatim
  unfold Agrees
  rw [List.flatMap_cons, ofOp, convert]
  by_cases hletter : g.result.letter = c.ret.payload.letter
  · have haccess := access_ok hletter
    rw [Plan.steps_more (Plan.step_convert hletter s)]
    cases hvoid : c.ret.payload.isVoid with
    | true =>
      rw [hvoid, if_pos rfl] at haccess
      rw [if_pos rfl, List.singleton_append, check_ok (read_run hl.result haccess s)]
      exact hrest l s ⟨hl.env, hl.only, hletter, by simp [hvoid]⟩ hl.present
    | false =>
      rw [hvoid, if_neg Bool.false_ne_true] at haccess
      rw [if_neg Bool.false_ne_true, List.cons_append, List.singleton_append,
        define_ok hl.value (by decide) (read_run hl.result haccess s)]
      refine hrest _ s ⟨?_, ?_, hletter, fun _ => List.lookup_cons_self⟩ ?_
      · rw [lookup_other (by decide), lookup_other (by decide)]
        exact hl.env
      · exact (hl.only.cons (.inl (by decide)) .nil).cons (.inl (by decide)) _
      · rw [lookup_other (by decide), lookup_other (by decide)]
        exact hl.present
  · obtain ⟨v, haccess⟩ := access_mismatch hletter
    have htext := errorf_message hmessage (.kind ⟨c.ret.payload.letter, g.result.letter⟩)
    rw [Plan.steps_error (Plan.step_convert_error hletter s)]
    cases hvoid : c.ret.payload.isVoid with
    | true =>
      rw [hvoid, if_pos rfl] at haccess
      rw [if_pos rfl, List.singleton_append]
      exact check_error (read_run hl.result haccess s) htext
    | false =>
      rw [hvoid, if_neg Bool.false_ne_true] at haccess
      rw [if_neg Bool.false_ne_true, List.cons_append, List.singleton_append]
      exact define_error hl.value (by decide) (read_run hl.result haccess s) htext

/-- The test for null in code is the one of the run. -/
theorem isNull_eval (hl : Converted c g l) (hobject : c.ret.payload.isObject = true) :
    isNull.eval b l = some (.bool g.result.objectOrNull.isNull) := by
  obtain ⟨k, hk⟩ := Plan.exists_object hobject
  have hcarries := carries hl.letter
  have hvalue := hl.value (by rw [hk]; rfl)
  rw [hk] at hcarries
  revert hvalue
  generalize g.result = w at hcarries ⊢
  intro hvalue
  cases hcarries with
  | object o =>
    rw [isNull, bridge_eval (text_eval hvalue)]
    cases o <;> rfl

theorem nullCheck_agrees (hc : c.WellFormed) (hl : Converted c g l)
    (hobject : c.ret.payload.isObject = true)
    (hrest : ∀ s, Agrees B b c g l rest s) (s : σ) :
    Agrees B b c g l (.nullCheck c.ret.payload :: rest) s := by
  have hmessage := hc.verbatim_message .nullCheck (by decide)
  have hnull := isNull_eval (b := b) hl hobject
  unfold Agrees
  rw [List.flatMap_cons, ofOp, List.singleton_append]
  cases hisNull : g.result.objectOrNull.isNull with
  | true =>
    rw [Plan.steps_error (Plan.step_nullCheck_error hisNull s)]
    apply execAll_stop
    rw [hisNull] at hnull
    simp only [Stmt.exec, hnull, Option.bind_eq_bind, Option.bind_some, Value.bool, Value.bool?,
      if_true, panic]
    exact congrArg (Option.map _) (errorf_plain hmessage)
  | false =>
    rw [Plan.steps_more (Plan.step_nullCheck hisNull s)]
    refine Eq.trans (execAll_next ?_) (hrest s)
    rw [hisNull] at hnull
    simp only [Stmt.exec, hnull, Option.bind_eq_bind, Option.bind_some, Value.bool, Value.bool?,
      Bool.false_eq_true, if_false]
    rfl

theorem optionWrap_agrees (hl : Converted c g l) (hobject : c.ret.payload.isObject = true)
    (hpresent : l.lookup presentVar = none)
    (hrest : ∀ s, Agrees B b c { g with isPresent := !g.result.objectOrNull.isNull }
      ((presentVar, .bool !g.result.objectOrNull.isNull) :: l) rest s) (s : σ) :
    Agrees B b c g l (.optionWrap c.ret.payload :: rest) s := by
  have hstep : (Plan.lower c).step B b g (.optionWrap c.ret.payload) s
      = (.ok (.more { g with isPresent := !g.result.objectOrNull.isNull }), s) := rfl
  have hrun : (Expr.not isNull).run B b l s
      = some ([.bool !g.result.objectOrNull.isNull], s) := by
    simp only [Expr.run, Expr.eval, isNull_eval hl hobject, Value.bool, Value.bool?,
      Option.bind_some, Option.map_some]
  have hnew : ∃ y ∈ [presentVar], l.lookup y = none := ⟨presentVar, by simp, hpresent⟩
  unfold Agrees
  rw [List.flatMap_cons, ofOp, List.singleton_append, Plan.steps_more hstep]
  refine Eq.trans (execAll_next ?_) (hrest s)
  simp only [Stmt.exec, hrun, Option.bind_eq_bind, Option.bind_some]
  rw [if_pos ⟨rfl, hnew⟩]
  rfl

/-! ### Returning -/

/-- The declared type of a value that code yields. -/
def valueType (ty : ValueType) : Expr :=
  if ty.isObject then .qual .bridge "Object" else .text ty.hostType

/-- A value that was read back has the declared type. -/
theorem assign?_fromWire {ty : ValueType} {w : Wire} (h : w.letter = ty.letter)
    (hvoid : ty.isVoid = false) :
    assign? (valueType ty) (.host (BridgeCall.fromWire ty w))
      = some (.host (BridgeCall.fromWire ty w)) := by
  have hcarries := carries h
  cases ty with
  | java p s =>
    cases p with
    | void => cases hvoid
    | _ => cases hcarries; rfl
  | host k s => cases k <;> cases hcarries <;> rfl
  | object k =>
    cases hcarries with
    | object o => cases o <;> rfl

/-- The zero that code returns with an error is the one of the declared type. -/
theorem zero_eval (hl : OnlyLocals l) {ty : ValueType} (hvoid : ty.isVoid = false) :
    ∃ v, (zero ty).eval b l = some v ∧
      assign? (valueType ty) v = some (.host (zeroOf ty.hostType)) := by
  have hnil := hl.nil_eval (b := b)
  have hfalse := hl.constant_eval (b := b) (t := "false") (by decide) rfl
  cases ty with
  | java p s =>
    cases p with
    | void => cases hvoid
    | boolean => exact ⟨_, hfalse, rfl⟩
    | _ => exact ⟨_, num_eval 0, rfl⟩
  | host k s =>
    cases k with
    | bool => exact ⟨_, hfalse, rfl⟩
    | _ => exact ⟨_, num_eval 0, rfl⟩
  | object k => exact ⟨_, hnil, rfl⟩

theorem resultTypes_lower (c : Call) :
    resultTypes (Plan.lower c) =
      (if !c.ret.payload.isVoid then [valueType c.ret.payload] else [])
        ++ ((if c.ret.isNullable then [Expr.text "bool"] else [])
        ++ (if c.ret.isFallible then [Expr.text "error"] else [])) := by
  rw [← List.append_assoc]
  rfl

/-- The results of a call that threw. -/
theorem failed_returns (hl : OnlyLocals l) (hfallible : c.ret.isFallible = true)
    (e : JavaException) :
    Returns b ((errorVar, .raised (.thrown e)) :: l) (resultTypes (Plan.lower c))
      (failed (Plan.lower c)) (c.yields { err := some e }) := by
  have honly := hl.cons (n := errorVar) (.inl (by decide)) (.raised (.thrown e))
  have hcall : (Plan.lower c).call = c := rfl
  have herror : (Expr.text errorVar).eval b ((errorVar, .raised (.thrown e)) :: l)
      = some (.raised (.thrown e)) := text_eval List.lookup_cons_self
  simp only [resultTypes_lower, failed, Call.yields, hcall, Shape.of, List.append_assoc, hfallible,
    if_true]
  refine .when (fun hvoid => ?_) (.when (fun _ => ?_) (.cons herror rfl .nil))
  · exact zero_eval honly (by simpa using hvoid)
  · exact ⟨_, honly.constant_eval (by decide) rfl, rfl⟩

/-- The exception that is pending comes back as an error, with zeros for the other values. -/
theorem exceptionCheck_agrees (hl : Converted c g l) (hfallible : c.ret.isFallible = true)
    (hrest : ∀ s, Agrees B b c g l rest s) (s : σ) :
    Agrees B b c g l (.exceptionCheck :: rest) s := by
  have hrequest : request? "CatchException" [] = some .catchException := by
    rw [request?_eq .catchException rfl]
    rfl
  have hrun := env_run (B := B) hl.env (evalList_nil b l) hrequest s
  unfold Agrees
  rw [List.flatMap_cons, ofOp, List.singleton_append]
  rcases hanswer : B.answer .catchException s with ⟨_ | e, s'⟩
  · rw [hanswer] at hrun
    rw [Plan.steps_more (Plan.step_exceptionCheck hanswer)]
    refine Eq.trans (execAll_next ?_) (hrest s')
    simp only [Stmt.exec, raise_eq hrun rfl, Option.bind_eq_bind, Option.bind_some]
    rfl
  · rw [hanswer] at hrun
    rw [Plan.steps_done (Plan.step_exceptionCheck_done hanswer)]
    apply execAll_stop
    simp only [Stmt.exec, raise_eq hrun rfl, Option.bind_eq_bind, Option.bind_some]
    exact returnAll_eq (failed_returns hl.only hfallible e) s'

/-- The last error of a call that went well. -/
theorem tail_returns (hl : OnlyLocals l) (r : ReturnSpec) :
    Returns b l (if r.isFallible then [.text "error"] else []) (if r.isFallible then [nil] else [])
      (if r.isFallible then [.nil] else []) := by
  cases r.isFallible with
  | false => exact .nil
  | true => exact .cons hl.nil_eval rfl .nil

theorem yields_ok {o : Outcome} (h : o.err = none) :
    c.yields o = (if !c.ret.payload.isVoid then [Value.host o.value] else [])
      ++ ((if c.ret.isNullable then [Value.bool o.present] else [])
      ++ (if c.ret.isFallible then [Value.nil] else [])) := by
  simp only [Call.yields, Shape.of, h, Option.isSome_none, Option.isNone_none, Bool.true_and,
    Bool.false_eq_true, if_false, List.append_assoc]

/-- The final returns of an option. -/
theorem option_agrees (hl : Converted c g l) (hnullable : c.ret.isNullable = true)
    (hok : l.lookup presentVar = some (.bool g.isPresent))
    (hpresent : g.isPresent = !g.result.objectOrNull.isNull) (s : σ) :
    Agrees B b c g l [.ret c.ret.payload] s := by
  obtain ⟨k, hk⟩ := Plan.payload_of_isNullable hnullable
  have hcall : (Plan.lower c).call = c := rfl
  have hvoid : c.ret.payload.isVoid = false := by rw [hk]; rfl
  have htail := tail_returns (b := b) hl.only c.ret
  have hstep : (Plan.lower c).step B b g (.ret c.ret.payload) s
      = (.ok (.done ((Plan.lower c).outcome g c.ret.payload)), s) := rfl
  have hcond : (Expr.not (.text presentVar)).eval b l = some (.bool !g.isPresent) := by
    simp only [Expr.eval, hok, Option.some_or, Option.bind_some, Value.bool, Value.bool?,
      Option.map_some]
  unfold Agrees
  rw [Plan.steps_done hstep, Plan.outcome_eq hl.letter fun _ => hpresent, List.flatMap_cons,
    List.flatMap_nil, List.append_nil, ofOp, finish, hcall]
  simp only [Shape.of, hnullable, hvoid, if_true, Bool.true_and, Bool.false_eq_true, if_false]
  cases hnull : g.result.objectOrNull.isNull with
  | true =>
    have hreturns : Returns b l (resultTypes (Plan.lower c))
        ([nil, .text "false"] ++ if c.ret.isFallible then [nil] else []) (c.yields {}) := by
      rw [resultTypes_lower, yields_ok rfl, hvoid, hnullable, hk]
      exact .cons hl.only.nil_eval rfl
        (.cons (hl.only.constant_eval (by decide) rfl) rfl htail)
    rw [hpresent, hnull] at hcond
    apply execAll_stop
    simp only [Stmt.exec, hcond, Option.bind_eq_bind, Option.bind_some, Value.bool, Value.bool?,
      Bool.not_true, Bool.not_false, if_true]
    exact returnAll_eq hreturns s
  | false =>
    have hvalue := assign?_fromWire hl.letter hvoid
    have hraw : BridgeCall.fromWire c.ret.payload g.result = g.result.raw := by
      rw [hk]
      exact fromWire_object (by rw [hl.letter, hk]; rfl)
    have hreturns : Returns b l (resultTypes (Plan.lower c))
        ([Expr.text valueVar, .text "true"] ++ if c.ret.isFallible then [nil] else [])
        (c.yields { value := BridgeCall.fromWire c.ret.payload g.result, present := true }) := by
      rw [hraw] at hvalue ⊢
      rw [resultTypes_lower, yields_ok rfl, hvoid, hnullable]
      exact .cons (text_eval (hl.value hvoid)) hvalue
        (.cons (hl.only.constant_eval (by decide) rfl) rfl htail)
    rw [hpresent, hnull] at hcond
    refine Eq.trans (execAll_next ?_) (execAll_stop (returnAll_eq hreturns s))
    simp only [Stmt.exec, hcond, Option.bind_eq_bind, Option.bind_some, Value.bool, Value.bool?,
      Bool.not_true, Bool.not_false, Bool.false_eq_true, if_false]
    rfl

/-- The final return of a value that is always there, or of none. -/
theorem value_agrees (hl : Converted c g l) (hnullable : c.ret.isNullable = false) (s : σ) :
    Agrees B b c g l [.ret c.ret.payload] s := by
  have hcall : (Plan.lower c).call = c := rfl
  have htail := tail_returns (b := b) hl.only c.ret
  have hstep : (Plan.lower c).step B b g (.ret c.ret.payload) s
      = (.ok (.done ((Plan.lower c).outcome g c.ret.payload)), s) := rfl
  have hreturns : Returns b l (resultTypes (Plan.lower c))
      ((if !c.ret.payload.isVoid then [fromWire c.ret.payload (.text valueVar)] else [])
        ++ if c.ret.isFallible then [nil] else [])
      (c.yields (if c.ret.payload.isVoid then {}
        else { value := BridgeCall.fromWire c.ret.payload g.result, present := true })) := by
    rw [resultTypes_lower, hnullable]
    cases hvoid : c.ret.payload.isVoid with
    | true =>
      rw [if_pos rfl, yields_ok rfl, hvoid, hnullable]
      exact htail
    | false =>
      rw [if_neg Bool.false_ne_true, yields_ok rfl, hvoid, hnullable]
      exact .cons (fromWire_eval hl.letter (text_eval (hl.value hvoid)))
        (assign?_fromWire hl.letter hvoid) htail
  unfold Agrees
  rw [Plan.steps_done hstep, Plan.outcome_eq hl.letter (by simp [hnullable]), List.flatMap_cons,
    List.flatMap_nil, List.append_nil, ofOp, finish, hcall]
  simp only [Shape.of, hnullable, Bool.false_and, Bool.false_eq_true, if_false]
  exact execAll_ret hreturns s

/-- The steps after the result was checked. -/
theorem finish_agrees (hl : Converted c g l)
    (hpresent : c.ret.isNullable = true →
      l.lookup presentVar = some (.bool g.isPresent) ∧
        g.isPresent = !g.result.objectOrNull.isNull) (s : σ) :
    Agrees B b c g l
      ((if c.ret.isFallible then [Op.exceptionCheck] else []) ++ [Op.ret c.ret.payload]) s := by
  have hret (s : σ) : Agrees B b c g l [.ret c.ret.payload] s := by
    cases hnullable : c.ret.isNullable with
    | true =>
      obtain ⟨hok, hvalue⟩ := hpresent hnullable
      exact option_agrees hl hnullable hok hvalue s
    | false => exact value_agrees hl hnullable s
  cases hfallible : c.ret.isFallible with
  | true => exact exceptionCheck_agrees hl hfallible hret s
  | false => exact hret s

/-- All steps after the arrays were built. -/
theorem call_agrees (hfree : c.NamesNoLocal) (hc : c.WellFormed) (hb : c.Bound b)
    (hl : Scope c c.params.length g l) (s : σ) :
    Agrees B b c g l (Plan.callOps c.ret) s := by
  rw [Plan.callOps_eq]
  refine invoke_agrees hfree hc hb hl (fun w s => ?_) s
  refine convert_agrees hc (hl.answered w) (fun l s hl hpresent => ?_) s
  cases hnullable : c.ret.isNullable with
  | true =>
    obtain ⟨k, hk⟩ := Plan.payload_of_isNullable hnullable
    have hwrapped : Converted c { g with result := w, isPresent := !w.objectOrNull.isNull }
        ((presentVar, .bool !w.objectOrNull.isNull) :: l) := by
      refine ⟨?_, hl.only.cons (.inl (by decide)) _, hl.letter, ?_⟩
      · rw [lookup_other (by decide)]
        exact hl.env
      · rw [lookup_other (by decide)]
        exact hl.value
    exact optionWrap_agrees hl (by rw [hk]; rfl) hpresent
      (finish_agrees hwrapped fun _ => ⟨List.lookup_cons_self, rfl⟩) s
  | false =>
    cases hobject : c.ret.payload.isObject with
    | true => exact nullCheck_agrees hc hl hobject (finish_agrees hl (by simp [hnullable])) s
    | false => exact finish_agrees hl (by simp [hnullable]) s

/-- Code runs as its plan does. -/
theorem exec_eq (hfree : c.NamesNoLocal) (hc : c.WellFormed) (hb : c.Bound b) (environment : Bytes)
    (s : σ) :
    ((Plan.lower c).code environment).exec B b s
      = some (c.ending ((Plan.lower c).runOn B b s).1, ((Plan.lower c).runOn B b s).2) := by
  have hcaptured : captured [] environment = false := by
    rw [captured, List.any_eq_false]
    simp
  have hdefine : (Stmt.define [envVar] (.environment environment)).exec B b
      (resultTypes (Plan.lower c)) [] s = some (.next [(envVar, .environment)], s) := by
    simp [Stmt.exec, Expr.run, Expr.eval, hcaptured]
  have hops : Agrees B b c {} [(envVar, .environment)] (Plan.lower c).ops s := by
    rw [Plan.lower_ops]
    exact builds_agree hfree hc hb [] rfl (Scope.init c)
      (fun g l s hl => call_agrees hfree hc hb hl s) s
  exact Eq.trans (execAll_next hdefine) hops

end Agree

/-! ### Numbers of results -/

theorem isFallible_of_mem {c : Call} (h : .exceptionCheck ∈ (Plan.lower c).ops) :
    c.ret.isFallible = true := by
  rw [Plan.lower_ops, List.mem_append, List.mem_flatMap] at h
  rcases h with ⟨⟨p, i⟩, -, hmem⟩ | hmem
  · exfalso
    revert hmem
    simp only [Plan.buildOps]
    split <;> simp
  · rw [Plan.callOps_eq] at hmem
    cases hfallible : c.ret.isFallible with
    | true => rfl
    | false =>
      rw [hfallible] at hmem
      revert hmem
      split
      · simp
      · split <;> simp

theorem length_when {α : Type} (p : Bool) (x : α) : (if p then [x] else []).length = p.toNat := by
  cases p <;> rfl

theorem length_failed (h : c.ret.isFallible = true) :
    (failed (Plan.lower c)).length = (Shape.of c.ret).arity := by
  have hcall : (Plan.lower c).call = c := rfl
  simp only [failed, hcall, Shape.arity, List.length_append, length_when]
  simp only [Shape.of, h]
  rfl

theorem eq_ret_of_mem {xs : List Expr} {st : Stmt}
    (h : st ∈ if xs.isEmpty then [] else [.ret xs]) : st = .ret xs := by
  cases xs with
  | nil => cases h
  | cons y ys => exact List.mem_singleton.mp h

theorem length_finish {st : Stmt} {rs : List Expr} {ty : ValueType}
    (hst : st ∈ finish (Plan.lower c) ty) (hrs : st.returns? = some rs) :
    rs.length = (Shape.of c.ret).arity := by
  have hcall : (Plan.lower c).call = c := rfl
  simp only [finish, hcall] at hst
  rw [Shape.arity]
  cases hnullable : c.ret.isNullable with
  | true =>
    obtain ⟨k, hk⟩ := Plan.payload_of_isNullable hnullable
    have hvalue : (Shape.of c.ret).value = true := by
      rw [Shape.of, hk]
      rfl
    have hoptional : (Shape.of c.ret).optional = true := hnullable
    rw [hoptional, if_pos rfl] at hst
    rw [hvalue, hoptional]
    simp only [List.mem_cons, List.not_mem_nil, or_false] at hst
    rcases hst with rfl | rfl
    · cases hrs
      rw [List.length_append, length_when]
      rfl
    · cases hrs
      rw [List.length_append, length_when]
      rfl
  | false =>
    have hoptional : (Shape.of c.ret).optional = false := hnullable
    rw [hoptional, if_neg Bool.false_ne_true] at hst
    rw [eq_ret_of_mem hst] at hrs
    cases hrs
    simp only [List.length_append, length_when, hoptional]
    rfl

/-- Every return of a function has as many results as its shape has values. -/
theorem length_returns (c : Call) (environment : Bytes) :
    ∀ st ∈ ((Plan.lower c).code environment).body, ∀ rs, st.returns? = some rs →
      rs.length = (Shape.of c.ret).arity := by
  intro st hst rs hrs
  rcases List.mem_cons.mp hst with rfl | hst
  · cases hrs
  obtain ⟨op, hop, hst⟩ := List.mem_flatMap.mp hst
  cases op with
  | exceptionCheck =>
    rw [ofOp, List.mem_singleton] at hst
    rw [hst] at hrs
    cases hrs
    exact length_failed (isFallible_of_mem hop)
  | ret ty => exact length_finish hst hrs
  | convert ty =>
    rw [ofOp, convert] at hst
    split at hst <;> simp only [List.mem_cons, List.not_mem_nil, or_false] at hst
    · rw [hst] at hrs
      cases hrs
    · rcases hst with rfl | rfl <;> cases hrs
  | _ =>
    -- the other steps only define and check
    simp only [ofOp, invoke, List.mem_cons, List.not_mem_nil, or_false] at hst
    rcases hst with rfl | rfl <;> cases hrs

end Code

namespace Plan

/-- **Code agrees with the plan.** For a parsed call whose expressions are bound to values of their
    declared types and mention no local of the code, on every bridge: the code ends with the same
    requests made and the bridge in the same state as the run; it panics with a text just when the
    run fails with that text, and else it returns what the run yields, which is as many values as
    the shape has. Every return in the code has that many results. -/
theorem code_agrees {src : Source} {c : Call} (hparse : Call.parse src = .ok c) {b : Bindings}
    (hb : c.Bound b) (hfree : c.NamesNoLocal) (environment : Bytes) {σ : Type} (B : Bridge σ)
    (s : σ) :
    ∃ ending,
      ((lower c).code environment).exec B.traced b (s, [])
        = some (ending, ((lower c).runOn B.traced b (s, [])).2) ∧
      (∀ t, ending = .panicked t ↔
        ∃ f, ((lower c).runOn B.traced b (s, [])).1 = .error f ∧ f.message c = t) ∧
      (∀ vs, ending = .returned vs → vs.length = (Shape.of c.ret).arity ∧
        ∃ o, ((lower c).runOn B.traced b (s, [])).1 = .ok o ∧ c.yields o = vs) ∧
      ∀ st ∈ ((lower c).code environment).body, ∀ rs, st.returns? = some rs →
        rs.length = (Shape.of c.ret).arity := by
  refine ⟨_, Code.exec_eq hfree (Call.parse_wellFormed hparse) hb environment (s, []), ?_, ?_,
    Code.length_returns c environment⟩
  · intro t
    cases ((lower c).runOn B.traced b (s, [])).1 with
    | ok o => simp [Call.ending]
    | error f => simp [Call.ending]
  · intro vs
    cases ((lower c).runOn B.traced b (s, [])).1 with
    | ok o =>
      rintro ⟨⟩
      exact ⟨c.length_yields o, o, rfl, rfl⟩
    | error f => simp [Call.ending]

theorem code_agrees_thrown :
    ∃ c s', Call.parse (.at "x.m([u8]([y, y + z])) -> Result<Option<a.B>, String>" .origin) = .ok c ∧
      ((lower c).code "env").exec Recorder.bridge.traced
        [("x", .object (.ref "r" false)), ("y", .uint8 7), ("y + z", .uint8 200)]
        ({ result := .object .nullRef, exception := some ⟨"E", "no"⟩ }, [])
        = some (.returned [.nil, .bool false, .raised (.thrown ⟨"E", "no"⟩)], s') := by
  have hcheck : (match Call.parse
      (.at "x.m([u8]([y, y + z])) -> Result<Option<a.B>, String>" .origin) with
    | .error _ => false
    | .ok c =>
      decide (c.Bound
        [("x", .object (.ref "r" false)), ("y", .uint8 7), ("y + z", .uint8 200)]) &&
      c.expressions.all (fun t => (Code.namesOf t).all fun n => n.take 3 != Bytes.ofString "jni") &&
      match ((lower c).runOn Recorder.bridge.traced
        [("x", .object (.ref "r" false)), ("y", .uint8 7), ("y + z", .uint8 200)]
        ({ result := .object .nullRef, exception := some ⟨"E", "no"⟩ }, [])).1 with
      | .error _ => false
      | .ok o => decide (c.yields o = [.nil, .bool false, .raised (.thrown ⟨"E", "no"⟩)])) = true := by
    decide +kernel
  cases hparse : Call.parse
      (.at "x.m([u8]([y, y + z])) -> Result<Option<a.B>, String>" .origin) with
  | error e => simp [hparse] at hcheck
  | ok c =>
    simp only [hparse, Bool.and_eq_true, decide_eq_true_eq, List.all_eq_true, bne_iff_ne] at hcheck
    obtain ⟨⟨hb, hnames⟩, hyields⟩ := hcheck
    have hfree : c.NamesNoLocal := fun t ht n hn => Code.not_isLocal (hnames t ht n hn)
    obtain ⟨ending, hexec, hpanic, hreturn, -⟩ := code_agrees hparse hb hfree "env" Recorder.bridge
      { result := .object .nullRef, exception := some ⟨"E", "no"⟩ }
    cases ending with
    | panicked t =>
      obtain ⟨f, hf, -⟩ := (hpanic t).mp rfl
      simp [hf] at hyields
    | returned vs =>
      obtain ⟨-, o, ho, rfl⟩ := hreturn vs rfl
      simp only [ho, decide_eq_true_eq] at hyields
      rw [hyields] at hexec
      exact ⟨c, _, rfl, hexec⟩

end Plan
end BridgeCall
