/-
  BridgeCall/Proofs/Plan/WellFormed.lean
  ======================================
  **Lowered plans are well formed.**  Runs, code and listings look up arguments,
  elements and arrays by the numbers in a plan's steps and check none of them.
  What they rely on is `Plan.WellFormed`, and every lowered call has it
  (`Plan.lower_wellFormed`).

  The builders of a call are two nested loops, over the parameters and over the
  elements of a literal.  `Builds` says what the inner loop gives for one literal.
  For the outer loop, `buildsFrom` starts at any parameter, and by induction over
  the rest the steps on one array are exactly those of its own parameter
  (`filter_buildsFrom`) and come in the order of the parameters
  (`ordered_buildsFrom`).
-/
import BridgeCall.Proofs.Plan.FailStop
import BridgeCall.Proofs.Plan.Wording

namespace BridgeCall

/-! ### What steps are about -/

/-- The parameter whose array a step builds. -/
def Op.array? : Op → Option Nat
  | .newPrimitiveArray i _ _ | .fillPrimitiveArray i _ _ | .newObjectArray i _ _
  | .setObjectElement i _ _ => some i
  | _ => none

namespace Code

/-- The locals of expanded code that hold no array. -/
def locals : List Bytes := [envVar, resultVar, valueVar, errorVar, presentVar]

/-- The locals that a statement defines. -/
def Stmt.defines : Stmt → List Bytes
  | .define vars _ => vars
  | _ => []

end Code

namespace Plan

/-- The steps on the array of a parameter. -/
def opsOn (p : Plan) (i : Nat) : List Op := p.ops.filter fun o => o.array? = some i

/-- The steps that build an array of `n` elements: the array is made, and then its elements are
    stored one by one in order, or all at once when there are any. -/
inductive Builds (i n : Nat) : ValueType → List Op → Prop
  | object {c : ClassPath} {stores : List Op} (hlength : stores.length = n)
      (hstores : ∀ j < n, stores[j]? = some (.setObjectElement i j c)) :
      Builds i n (.object c) (.newObjectArray i n c :: stores)
  | filled {ty : ValueType} (hty : ty.isObject = false) (hn : 0 < n) :
      Builds i n ty [.newPrimitiveArray i n ty, .fillPrimitiveArray i n ty]
  | empty {ty : ValueType} (hty : ty.isObject = false) (hn : n = 0) :
      Builds i n ty [.newPrimitiveArray i n ty]

/-- Steps on arrays come in the order of their parameters. -/
def InOrder (o o' : Op) : Prop := ∀ i j, o.array? = some i → o'.array? = some j → i ≤ j

/-- What the consumers of a plan rely on. -/
structure WellFormed (p : Plan) : Prop where
  /-- The arguments are the parameters of the call. -/
  params : p.args.map Arg.param = p.call.params
  /-- Only array literals are built, each in a local of its own. -/
  literal : ∀ o ∈ p.ops, ∀ i, o.array? = some i →
    ∃ a es v, p.args[i]? = some a ∧ a.param.arg = .literal es ∧ a.var = some v ∧ v ≠ []
  distinct : ∀ (i j : Nat) (a b : Arg) (v : Bytes), p.args[i]? = some a → p.args[j]? = some b →
    a.var = some v → b.var = some v → i = j
  apart : ∀ a ∈ p.args, ∀ v, a.var = some v → v ∉ Code.locals
  /-- Expanded code has no other locals. -/
  defined : ∀ o ∈ p.ops, ∀ s ∈ Code.ofOp p o, ∀ v ∈ s.defines,
    v ∈ Code.locals ∨ ∃ a ∈ p.args, a.var = some v
  built : ∀ i a es, p.args[i]? = some a → a.param.arg = .literal es →
    Builds i es.length a.param.ty (p.opsOn i)
  unbuilt : ∀ i a, p.args[i]? = some a → (∀ es, a.param.arg ≠ .literal es) → p.opsOn i = []
  ordered : p.ops.Pairwise InOrder
  /-- Behind the builders come the call and what is made of its result. -/
  parts : ∃ builders checks catches : List Op,
    p.ops = builders ++ Op.invoke :: Op.convert p.call.ret.payload ::
      (checks ++ catches ++ [Op.ret p.call.ret.payload]) ∧
    (∀ o ∈ builders, ∃ i, o.array? = some i) ∧
    (checks = [] ∨ checks = [.nullCheck p.call.ret.payload] ∨
      checks = [.optionWrap p.call.ret.payload]) ∧
    (catches = [] ∨ catches = [.exceptionCheck])

/-! ### One parameter -/

section Parameter

variable {i : Nat} {p : Parameter} {es : List Bytes}

theorem builds_buildOps (h : p.arg = .literal es) : Builds i es.length p.ty (buildOps i p) := by
  cases hty : p.ty.isObject with
  | true =>
    obtain ⟨c, hc⟩ := exists_object hty
    have hops : buildOps i p = .newObjectArray i es.length c ::
        (List.range es.length).map fun j => .setObjectElement i j c := by
      simp [buildOps, h, hc]
    rw [hops, hc]
    refine .object (by simp) fun j hj => ?_
    simp [List.getElem?_range hj]
  | false =>
    rw [buildOps_primitive h hty]
    cases es with
    | nil => exact .empty hty rfl
    | cons e es => exact .filled hty (by simp)

theorem buildOps_eq_nil (h : ∀ es, p.arg ≠ .literal es) : buildOps i p = [] := by
  unfold buildOps
  split
  · exact absurd ‹_› (h _)
  · exact absurd ‹_› (h _)
  · rfl

theorem Builds.array?_eq {n : Nat} {ty : ValueType} {ops : List Op} (h : Builds i n ty ops) :
    ∀ o ∈ ops, o.array? = some i := by
  cases h with
  | object hlength hstores =>
    refine List.forall_mem_cons.mpr ⟨rfl, fun o ho => ?_⟩
    obtain ⟨j, hj, rfl⟩ := List.mem_iff_getElem.mp ho
    have hstore := hstores j (hlength ▸ hj)
    rw [List.getElem?_eq_getElem hj, Option.some.injEq] at hstore
    rw [hstore]
    rfl
  | filled | empty => simp [Op.array?]

/-- The builders of a parameter build its own array. -/
theorem array?_of_mem_buildOps {o : Op} (h : o ∈ buildOps i p) :
    o.array? = some i ∧ ∃ es, p.arg = .literal es := by
  by_cases hes : ∃ es, p.arg = .literal es
  · obtain ⟨es, hes⟩ := hes
    exact ⟨(builds_buildOps hes).array?_eq o h, es, hes⟩
  · rw [buildOps_eq_nil (not_exists.mp hes)] at h
    cases h

end Parameter

/-! ### All parameters -/

/-- The builders of parameters, the first of which has index `k`. -/
def buildsFrom (k : Nat) (ps : List Parameter) : List Op :=
  (ps.zipIdx k).flatMap fun x => buildOps x.2 x.1

theorem buildsFrom_cons (k : Nat) (p : Parameter) (ps : List Parameter) :
    buildsFrom k (p :: ps) = buildOps k p ++ buildsFrom (k + 1) ps := rfl

theorem exists_of_mem_buildsFrom {k : Nat} {ps : List Parameter} {o : Op}
    (h : o ∈ buildsFrom k ps) : ∃ i p, ps[i]? = some p ∧ o ∈ buildOps (k + i) p := by
  induction ps generalizing k with
  | nil => cases h
  | cons p ps ih =>
    rw [buildsFrom_cons, List.mem_append] at h
    rcases h with h | h
    · exact ⟨0, p, rfl, h⟩
    · obtain ⟨i, q, hq, ho⟩ := ih h
      exact ⟨i + 1, q, hq, by rwa [Nat.add_right_comm] at ho⟩

/-- No builder is for a parameter in front of the first. -/
theorem le_of_mem_buildsFrom {k : Nat} {ps : List Parameter} {o : Op} (h : o ∈ buildsFrom k ps) :
    ∃ i, o.array? = some i ∧ k ≤ i := by
  obtain ⟨i, p, -, ho⟩ := exists_of_mem_buildsFrom h
  exact ⟨k + i, (array?_of_mem_buildOps ho).1, Nat.le_add_right k i⟩

theorem ordered_buildsFrom (k : Nat) (ps : List Parameter) :
    (buildsFrom k ps).Pairwise InOrder := by
  induction ps generalizing k with
  | nil => exact .nil
  | cons p ps ih =>
    rw [buildsFrom_cons, List.pairwise_append]
    refine ⟨?_, ih (k + 1), ?_⟩
    · refine List.pairwise_of_forall_mem_list fun o ho o' ho' i j hi hj => ?_
      rw [(array?_of_mem_buildOps ho).1] at hi
      rw [(array?_of_mem_buildOps ho').1] at hj
      cases hi
      cases hj
      exact le_refl k
    · intro o ho o' ho' i j hi hj
      obtain ⟨i', hi', hle⟩ := le_of_mem_buildsFrom ho'
      rw [(array?_of_mem_buildOps ho).1] at hi
      rw [hi'] at hj
      cases hi
      cases hj
      omega

/-- The steps on the array of a parameter are its own builders. -/
theorem filter_buildsFrom (k i : Nat) (ps : List Parameter) :
    (buildsFrom k ps).filter (fun o => o.array? = some (k + i)) =
      (ps[i]?.map (buildOps (k + i))).getD [] := by
  induction ps generalizing k i with
  | nil => rfl
  | cons p ps ih =>
    rw [buildsFrom_cons, List.filter_append]
    cases i with
    | zero =>
      have hown : (buildOps k p).filter (fun o => o.array? = some (k + 0)) = buildOps k p :=
        List.filter_eq_self.mpr fun o ho => by simp [(array?_of_mem_buildOps ho).1]
      have hothers : (buildsFrom (k + 1) ps).filter (fun o => o.array? = some (k + 0)) = [] := by
        refine List.filter_eq_nil_iff.mpr fun o ho => ?_
        obtain ⟨j, hj, hle⟩ := le_of_mem_buildsFrom ho
        simp only [hj, Option.some.injEq, decide_eq_true_eq]
        omega
      rw [hown, hothers, List.append_nil]
      rfl
    | succ i =>
      have hother : (buildOps k p).filter (fun o => o.array? = some (k + (i + 1))) = [] := by
        refine List.filter_eq_nil_iff.mpr fun o ho => ?_
        simp only [(array?_of_mem_buildOps ho).1, Option.some.injEq, decide_eq_true_eq]
        omega
      have hindex : k + (i + 1) = k + 1 + i := by omega
      rw [hother, List.nil_append, hindex, ih]
      rfl

/-! ### The rest of a plan -/

theorem array?_callOps (r : ReturnSpec) : ∀ o ∈ callOps r, o.array? = none := by
  intro o ho
  rw [callOps_checks] at ho
  simp only [List.mem_cons, List.mem_append, List.not_mem_nil, or_false] at ho
  rcases ho with rfl | rfl | ho | rfl
  · rfl
  · rfl
  · rcases mem_checkOps ho with rfl | rfl | rfl <;> rfl
  · rfl

/-- The code of a step defines its own array, if it builds one, and known locals. -/
theorem defines_ofOp {p : Plan} {o : Op} {s : Code.Stmt} (hs : s ∈ Code.ofOp p o) {v : Bytes}
    (hv : v ∈ s.defines) : v ∈ Code.locals ∨ ∃ i, o.array? = some i ∧ v = p.varOf i := by
  have hresult : ∀ w ∈ [Code.resultVar, Code.errorVar], w ∈ Code.locals := by
    simp [Code.locals]
  have hvalue : ∀ w ∈ [Code.valueVar, Code.errorVar], w ∈ Code.locals := by
    simp [Code.locals]
  have hpresent : ∀ w ∈ [Code.presentVar], w ∈ Code.locals := by
    simp [Code.locals]
  cases o with
  | newPrimitiveArray i _ _ | newObjectArray i _ _ =>
    rcases List.mem_pair.mp hs with rfl | rfl
    · rcases List.mem_pair.mp hv with rfl | rfl
      · exact .inr ⟨i, rfl, rfl⟩
      · exact .inl (hresult Code.errorVar (by simp))
    · cases hv
  | fillPrimitiveArray | setObjectElement | nullCheck | exceptionCheck =>
    rw [List.mem_singleton.mp hs] at hv
    cases hv
  | invoke =>
    rcases List.mem_pair.mp hs with rfl | rfl
    · exact .inl (hresult v hv)
    · cases hv
  | convert ty =>
    rw [Code.ofOp, Code.convert] at hs
    split at hs
    · rw [List.mem_singleton.mp hs] at hv
      cases hv
    · rcases List.mem_pair.mp hs with rfl | rfl
      · exact .inl (hvalue v hv)
      · cases hv
  | optionWrap ty =>
    rw [List.mem_singleton.mp hs] at hv
    exact .inl (hpresent v hv)
  | ret ty =>
    have hnone : s.defines = [] := by
      simp only [Code.ofOp, Code.finish] at hs
      split at hs
      · rcases List.mem_pair.mp hs with rfl | rfl <;> rfl
      · rw [List.mem_ite_nil_left, List.mem_singleton] at hs
        rw [hs.2]
        rfl
    rw [hnone] at hv
    cases hv

/-! ### Lowered calls -/

section Lower

variable {c : Call}

theorem lower_ops_eq : (lower c).ops = buildsFrom 0 c.params ++ callOps c.ret := lower_ops c

theorem opsOn_lower (i : Nat) :
    (lower c).opsOn i = (c.params[i]?.map (buildOps i)).getD [] := by
  have hcall : (callOps c.ret).filter (fun o => o.array? = some i) = [] :=
    List.filter_eq_nil_iff.mpr fun o ho => by simp [array?_callOps c.ret o ho]
  have hbuilds := filter_buildsFrom 0 i c.params
  rw [Nat.zero_add] at hbuilds
  rw [opsOn, lower_ops_eq, List.filter_append, hcall, List.append_nil, hbuilds]

/-- An argument is its parameter, and has a local when this is an array literal. -/
theorem exists_of_args {i : Nat} {a : Arg} (h : (lower c).args[i]? = some a) :
    c.params[i]? = some a.param ∧ a = argOf i a.param := by
  rw [lower, List.getElem?_mapIdx, Option.map_eq_some_iff] at h
  obtain ⟨p, hp, rfl⟩ := h
  rw [argOf_param]
  exact ⟨hp, rfl⟩

theorem var_argOf {i : Nat} {p : Parameter} {v : Bytes} (h : (argOf i p).var = some v) :
    v = arrayVar i := by
  unfold argOf at h
  split at h
  · exact (Option.some.inj h).symm
  · cases h

theorem exists_of_array? {o : Op} (ho : o ∈ (lower c).ops) {i : Nat} (hi : o.array? = some i) :
    ∃ a es, (lower c).args[i]? = some a ∧ a.param.arg = .literal es ∧ a.var = some (arrayVar i) := by
  rw [lower_ops_eq, List.mem_append] at ho
  rcases ho with ho | ho
  · obtain ⟨j, p, hp, ho⟩ := exists_of_mem_buildsFrom ho
    obtain ⟨hj, es, hes⟩ := array?_of_mem_buildOps ho
    rw [hi, Nat.zero_add, Option.some.injEq] at hj
    subst hj
    refine ⟨_, es, lower_args_getElem? hp, ?_, ?_⟩
    · rw [argOf_param, hes]
    · simp [argOf, hes]
  · rw [array?_callOps c.ret o ho] at hi
    cases hi

theorem wellFormed_lower (c : Call) : (lower c).WellFormed where
  params := by
    have hparams : (lower c).call.params = c.params := rfl
    rw [lower_args, List.map_map, hparams]
    conv_rhs => rw [← List.zipIdx_map_fst 0 c.params]
    exact List.map_congr_left fun x _ => argOf_param x.2 x.1
  literal := by
    intro o ho i hi
    obtain ⟨a, es, ha, hes, hvar⟩ := exists_of_array? ho hi
    exact ⟨a, es, arrayVar i, ha, hes, hvar, (arrayVar_ne (n := []) (by decide) i).symm⟩
  distinct := by
    intro i j a b v ha hb hav hbv
    rw [(exists_of_args ha).2] at hav
    rw [(exists_of_args hb).2] at hbv
    exact arrayVar_injective ((var_argOf hav).symm.trans (var_argOf hbv))
  apart := by
    intro a ha v hv hlocal
    obtain ⟨i, ha⟩ := List.mem_iff_getElem?.mp ha
    rw [(exists_of_args ha).2] at hv
    rw [var_argOf hv] at hlocal
    have hnames : ∀ w ∈ Code.locals, w.take 6 ≠ ("jniArg" : Bytes) := by decide
    exact arrayVar_ne (hnames _ hlocal) i rfl
  defined := by
    intro o ho s hs v hv
    rcases defines_ofOp hs hv with hlocal | ⟨i, hi, rfl⟩
    · exact .inl hlocal
    · obtain ⟨a, es, ha, -, hvar⟩ := exists_of_array? ho hi
      refine .inr ⟨a, List.mem_of_getElem? ha, ?_⟩
      simp [varOf, ha, hvar]
  built := by
    intro i a es ha hes
    rw [opsOn_lower, (exists_of_args ha).1]
    exact builds_buildOps hes
  unbuilt := by
    intro i a ha hes
    rw [opsOn_lower, (exists_of_args ha).1]
    exact buildOps_eq_nil hes
  ordered := by
    rw [lower_ops_eq, List.pairwise_append]
    refine ⟨ordered_buildsFrom 0 c.params, ?_, ?_⟩
    · refine List.pairwise_of_forall_mem_list fun o ho o' _ i j hi => ?_
      rw [array?_callOps c.ret o ho] at hi
      cases hi
    · intro o _ o' ho' i j _ hj
      rw [array?_callOps c.ret o' ho'] at hj
      cases hj
  parts := by
    have hcall : (lower c).call = c := rfl
    refine ⟨buildsFrom 0 c.params,
      if c.ret.isNullable then [.optionWrap c.ret.payload]
        else if c.ret.payload.isObject then [.nullCheck c.ret.payload] else [],
      if c.ret.isFallible then [.exceptionCheck] else [], ?_, ?_, ?_, ?_⟩
    · rw [lower_ops_eq, callOps_eq, hcall, List.append_assoc]
    · intro o ho
      obtain ⟨i, hi, -⟩ := le_of_mem_buildsFrom ho
      exact ⟨i, hi⟩
    · rw [hcall]
      cases c.ret.isNullable <;> cases c.ret.payload.isObject <;> simp
    · cases c.ret.isFallible <;> simp

end Lower

/-! ### Numbers in range -/

namespace WellFormed

variable {p : Plan} {o : Op} {i : Nat}

theorem mem_opsOn (h : o ∈ p.ops) (hi : o.array? = some i) : o ∈ p.opsOn i :=
  List.mem_filter.mpr ⟨h, by simp [hi]⟩

theorem param_lt (hp : p.WellFormed) (h : o ∈ p.ops) (hi : o.array? = some i) :
    i < p.args.length := by
  obtain ⟨a, es, v, ha, -, -, -⟩ := hp.literal o h i hi
  exact (List.getElem?_eq_some_iff.mp ha).1

/-- The steps on an array build it for the elements of its literal. -/
theorem exists_builds (hp : p.WellFormed) (h : o ∈ p.ops) (hi : o.array? = some i) :
    ∃ ty, Builds i (p.elementsOf i).length ty (p.opsOn i) := by
  obtain ⟨a, es, v, ha, hes, -, -⟩ := hp.literal o h i hi
  have helements : p.elementsOf i = es := by simp [elementsOf, ha, Arg.elements, hes]
  rw [helements]
  exact ⟨a.param.ty, hp.built i a es ha hes⟩

theorem index_lt (hp : p.WellFormed) {j : Nat} {k : ClassPath}
    (h : .setObjectElement i j k ∈ p.ops) : j < (p.elementsOf i).length := by
  obtain ⟨ty, hbuilds⟩ := hp.exists_builds h rfl
  have hmem := mem_opsOn h rfl
  generalize p.opsOn i = ops at hbuilds hmem
  cases hbuilds with
  | object hlength hstores =>
    simp only [List.mem_cons, reduceCtorEq, false_or] at hmem
    obtain ⟨j', hj, heq⟩ := List.mem_iff_getElem.mp hmem
    have hstore := hstores j' (hlength ▸ hj)
    rw [List.getElem?_eq_getElem hj, heq, Option.some.injEq, Op.setObjectElement.injEq] at hstore
    rw [hstore.2.1, ← hlength]
    exact hj
  | filled | empty => simp at hmem

theorem fill_len (hp : p.WellFormed) {n : Nat} {ty : ValueType}
    (h : .fillPrimitiveArray i n ty ∈ p.ops) : n = (p.elementsOf i).length := by
  obtain ⟨ty, hbuilds⟩ := hp.exists_builds h rfl
  have hmem := mem_opsOn h rfl
  generalize p.opsOn i = ops at hbuilds hmem
  cases hbuilds with
  | object hlength hstores =>
    simp only [List.mem_cons, reduceCtorEq, false_or] at hmem
    obtain ⟨j, hj, heq⟩ := List.mem_iff_getElem.mp hmem
    have hstore := hstores j (hlength ▸ hj)
    rw [List.getElem?_eq_getElem hj, heq] at hstore
    cases hstore
  | filled hty hn =>
    simp only [List.mem_cons, reduceCtorEq, false_or, List.not_mem_nil, or_false,
      Op.fillPrimitiveArray.injEq] at hmem
    exact hmem.2.1
  | empty => simp at hmem

end WellFormed

/-- **Lowered plans are well formed**, so the numbers of parameters and elements that are taken from
    their steps are in range. -/
theorem lower_wellFormed (c : Call) :
    (lower c).WellFormed ∧
      (∀ o ∈ (lower c).ops, ∀ i, o.array? = some i → i < (lower c).args.length) ∧
      (∀ i j k, .setObjectElement i j k ∈ (lower c).ops → j < ((lower c).elementsOf i).length) ∧
      ∀ i n ty, .fillPrimitiveArray i n ty ∈ (lower c).ops →
        n = ((lower c).elementsOf i).length := by
  have hc := wellFormed_lower c
  exact ⟨hc, fun _ ho _ hi => hc.param_lt ho hi, fun _ _ _ h => hc.index_lt h,
    fun _ _ _ h => hc.fill_len h⟩

end Plan
end BridgeCall
