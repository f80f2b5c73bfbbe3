/-
  BridgeCall/Proofs/Marker/Accounts.lean
  ======================================
  **Every marker is accounted for.**  A marker becomes a plan with its code, or one
  problem; which of them is decided by the marker and the settings, and
  `Marker.Becomes` says how.  Rewriting a file gives the problems the file has
  already, then one entry for each marker in the order of the file, then a problem
  for each export that has no package, and at most one about the layout of the whole
  (`Scan.rewrite_accounts`).  The file has a twin exactly when this leaves no problem.
-/
import BridgeCall.Proofs.Marker.PackageName

namespace BridgeCall

/-- Whether a value can go where the marker stands when a call yields `n` values: it is dropped, or it
    stands in an expression, or it alone is assigned to as many variables. A value that is assigned to
    no variables at all is dropped. -/
def Host.Use.Takes (n : Nat) : Host.Use → Prop
  | .statement | .operand => True
  | .assigned k => k = 0 ∨ k = n

/-! ### One marker -/

namespace Marker

/-- The problem of a call whose value is assigned to `n` variables. -/
def misassignment (m : Marker) (n : Nat) (call : Call) : Diagnostic :=
  { span := m.span
    kind := .arity
    message := "assignment mismatch: " ++ Bytes.ofNat n ++ " variables but " ++ call.method
      ++ " returns " ++ Bytes.ofNat (Shape.of call.ret).arity ++ " values" }

/-- The problem of a call whose code is no host code. -/
def unwritable (m : Marker) (settings : Settings) (call : Call) : Diagnostic :=
  .ofWording .marker ((Plan.lower call).unwritten (settings.options m.env))

/-- What a marker becomes: a problem when its expression is no call, when the code of the call is no
    host code, or when the value is assigned to another number of variables than the call yields; its
    plan with its code otherwise. -/
inductive Becomes (settings : Settings) (m : Marker) : Except Diagnostic (Plan × Bytes) → Prop
  | faulty {f : Fault} (hparse : Call.parse (.at m.expr m.exprStart) = .error f) :
    Becomes settings m (.error (.ofFault f))
  | unwritten {call : Call} (hparse : Call.parse (.at m.expr m.exprStart) = .ok call)
      (hcode : (Plan.lower call).expand (settings.options m.env) = none) :
    Becomes settings m (.error (m.unwritable settings call))
  | misassigned {call : Call} {code : Bytes} {n : Nat}
      (hparse : Call.parse (.at m.expr m.exprStart) = .ok call)
      (hcode : (Plan.lower call).expand (settings.options m.env) = some code)
      (huse : m.use = .assigned n) (hrefused : ¬ m.use.Takes (Shape.of call.ret).arity) :
    Becomes settings m (.error (m.misassignment n call))
  | expanded {call : Call} {code : Bytes}
      (hparse : Call.parse (.at m.expr m.exprStart) = .ok call)
      (hcode : (Plan.lower call).expand (settings.options m.env) = some code)
      (htakes : m.use.Takes (Shape.of call.ret).arity) :
    Becomes settings m (.ok (Plan.lower call, code))

variable {settings : Settings} {m : Marker} {e : Except Diagnostic (Plan × Bytes)} {call : Call}

theorem arityProblem?_of_takes (h : m.use.Takes (Shape.of call.ret).arity) :
    m.arityProblem? (Plan.lower call) = none := by
  unfold arityProblem?
  cases huse : m.use with
  | statement => rfl
  | operand => rfl
  | assigned n =>
    rw [huse] at h
    have hfits : (decide (n = 0) || decide (n = (Shape.of (Plan.lower call).call.ret).arity)) = true := by
      rw [Bool.or_eq_true, decide_eq_true_eq, decide_eq_true_eq]
      exact h
    exact if_pos hfits

theorem arityProblem?_of_assigned {n : Nat} (huse : m.use = .assigned n)
    (h : ¬ m.use.Takes (Shape.of call.ret).arity) :
    m.arityProblem? (Plan.lower call) = some (m.misassignment n call) := by
  rw [huse] at h
  have hrefused : ¬ (decide (n = 0) || decide (n = (Shape.of (Plan.lower call).call.ret).arity)) = true := by
    rw [Bool.or_eq_true, decide_eq_true_eq, decide_eq_true_eq]
    exact h
  unfold arityProblem?
  rw [huse]
  exact if_neg hrefused

theorem exists_assigned {n : Nat} (h : ¬ m.use.Takes n) : ∃ k, m.use = .assigned k := by
  cases huse : m.use with
  | statement =>
    rw [huse] at h
    exact absurd trivial h
  | operand =>
    rw [huse] at h
    exact absurd trivial h
  | assigned k => exact ⟨k, rfl⟩

theorem Becomes.expand_eq (h : m.Becomes settings e) : m.expand settings = e := by
  unfold expand
  cases h with
  | faulty hparse =>
    rw [hparse]
    rfl
  | unwritten hparse hcode =>
    rw [hparse]
    simp only [hcode]
    rfl
  | misassigned hparse hcode huse hrefused =>
    rw [hparse]
    simp only [hcode, arityProblem?_of_assigned huse hrefused]
    rfl
  | expanded hparse hcode htakes =>
    rw [hparse]
    simp only [hcode, arityProblem?_of_takes htakes]
    rfl

theorem exists_becomes (settings : Settings) (m : Marker) : ∃ e, m.Becomes settings e := by
  cases hparse : Call.parse (.at m.expr m.exprStart) with
  | error f => exact ⟨_, .faulty hparse⟩
  | ok call =>
    cases hcode : (Plan.lower call).expand (settings.options m.env) with
    | none => exact ⟨_, .unwritten hparse hcode⟩
    | some code =>
      by_cases htakes : m.use.Takes (Shape.of call.ret).arity
      · exact ⟨_, .expanded hparse hcode htakes⟩
      · obtain ⟨n, huse⟩ := exists_assigned htakes
        exact ⟨_, .misassigned hparse hcode huse htakes⟩

/-- What a marker becomes is a function of the marker and the settings. -/
theorem becomes_iff : m.Becomes settings e ↔ m.expand settings = e := by
  refine ⟨Becomes.expand_eq, ?_⟩
  rintro rfl
  obtain ⟨e, he⟩ := exists_becomes settings m
  exact he.expand_eq.symm ▸ he

end Marker

/-! ### A whole file -/

namespace Scan

variable {s : Scan} {settings : Settings}

theorem kind_of_finish_error {body : Bytes} {expanded : Bool} {d : Diagnostic}
    (h : s.finish settings body expanded = .error d) : d.kind = .hostSyntax := by
  unfold finish at h
  dsimp only at h
  split at h
  · cases h
    rfl
  · rename_i f _
    revert h
    generalize (if expanded then _ else _ : Host.File) = g
    intro h
    cases hrender : g.render _ with
    | ok text =>
      rw [hrender] at h
      cases h
    | error place =>
      rw [hrender] at h
      cases h
      rfl

/-- What the markers of a file become, in their order. -/
def entries (s : Scan) (settings : Settings) : List (Except Diagnostic (Plan × Bytes)) :=
  s.markers.map (Marker.expand settings)

theorem plans_eq (s : Scan) (settings : Settings) :
    s.plans settings = (s.entries settings).filterMap fun e => e.toOption.map Prod.fst := by
  rw [plans, coded, entries, List.map_filterMap, List.filterMap_map, List.filterMap_map]
  congr 1
  funext m
  cases h : m.expand settings <;> simp [h, Except.toOption]

theorem nameless_eq (s : Scan) (settings : Settings) :
    s.nameless settings = s.problems ++ (s.entries settings).filterMap failure? := by
  rw [nameless, entries, List.filterMap_map, List.filterMap_map]
  rfl

/-- The problems of the exports: one for each of them when the registry has no name. -/
theorem failures_exportEdit (exports : List Directive) (r : Registry) :
    (exports.map (exportEdit r)).filterMap failure?
      = if r.name = none then exports.map unnamed else [] := by
  obtain ⟨_ | name⟩ := r
  · rw [if_pos rfl, List.filterMap_map, ← List.filterMap_eq_map]
    rfl
  · rw [if_neg (by simp), List.filterMap_map]
    exact List.filterMap_eq_nil_iff.mpr fun d _ => rfl

/-- **Every marker is accounted for.** Rewriting a file gives its own problems first, then for each
    marker, in order, one entry: its plan, or one problem, as the marker alone decides under the
    settings. Then comes one problem for each export when the registry has no name, and at most one
    about the layout, which only a file without other problems has. There is a twin exactly when there
    is no problem. -/
theorem rewrite_accounts (s : Scan) (settings : Settings) (r : Registry) :
    let w := s.rewrite settings r
    ∃ entries layout,
      List.Forall₂ (Marker.Becomes settings) s.markers entries
      ∧ (∀ m e, Marker.Becomes settings m e ↔ m.expand settings = e)
      ∧ w.plans = entries.filterMap (fun e => e.toOption.map Prod.fst)
      ∧ w.problems = s.problems ++ entries.filterMap failure?
        ++ (if r.name = none then s.exports.map unnamed else []) ++ layout
      ∧ (layout = [] ∨ ∃ d, layout = [d] ∧ d.kind = .hostSyntax ∧ w.problems = [d])
      ∧ (w.text.isSome = true ↔ w.problems = []) := by
  intro w
  have hbecomes : List.Forall₂ (Marker.Becomes settings) s.markers (s.entries settings) := by
    rw [entries, List.forall₂_map_right_iff, List.forall₂_same]
    exact fun m _ => Marker.becomes_iff.mpr rfl
  have htext : w.text.isSome = true ↔ w.problems = [] := by
    rw [rewrite_text_isSome, List.isEmpty_iff]
  have hw := rewrite_eq s settings r
  dsimp only at hw
  rw [failures_exportEdit, nameless_eq, plans_eq] at hw
  generalize (if r.name = none then s.exports.map unnamed else []) = exported at hw ⊢
  split at hw
  · refine ⟨s.entries settings, [], hbecomes, fun m e => Marker.becomes_iff, ?_, ?_, .inl rfl, htext⟩
    · exact congrArg Rewritten.plans hw
    · rw [List.append_nil]
      exact congrArg Rewritten.problems hw
  rename_i hsome
  have hnone : s.problems ++ (s.entries settings).filterMap failure? ++ exported = [] := by
    rwa [Bool.not_eq_true', Bool.not_eq_false, List.isEmpty_iff] at hsome
  split at hw
  · refine ⟨s.entries settings, [], hbecomes, fun m e => Marker.becomes_iff,
      congrArg Rewritten.plans hw, ?_, .inl rfl, htext⟩
    rw [hnone]
    exact congrArg Rewritten.problems hw
  · rename_i d hfinish
    have hproblems : w.problems = [d] := congrArg Rewritten.problems hw
    refine ⟨s.entries settings, [d], hbecomes, fun m e => Marker.becomes_iff,
      congrArg Rewritten.plans hw, ?_, .inr ⟨d, rfl, kind_of_finish_error hfinish, hproblems⟩, htext⟩
    rw [hnone]
    exact hproblems

end Scan
end BridgeCall
