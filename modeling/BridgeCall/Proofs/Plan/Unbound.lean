/-
  BridgeCall/Proofs/Plan/Unbound.lean
  ===================================
  **Free identifiers are reported.**  An identifier that nothing is bound to ends
  the run with an error that names it, and the bridge is not given a value for it:
  an array that it belongs to is made and left as it is, and the method is not
  called.

  The identifier must not be a word among the literals of its type
  (`ValueType.HasWord`).  Such a word is a value of its own, and nothing is said
  about the missing binding (`run_invents_true`).
-/
import BridgeCall.Proofs.Plan.Lookups
import BridgeCall.Proofs.Plan.Words

namespace BridgeCall

/-- Every expression of the parameters but one is bound to a value of its declared type. -/
structure Call.BoundBut (b : Bindings) (x : Bytes) (c : Call) : Prop where
  free : b.lookup x = none
  references : ∀ p ∈ c.params, ∀ e ∈ p.references, e ≠ x → b.HasReference e
  primitives : ∀ p ∈ c.params, ∀ e ∈ p.primitives, e ≠ x → b.HasValue p.ty e

/-- Values that the bridge is given are those of a literal's elements, and the text is one of these
    only as a word of its type. -/
def Call.Spares (b : Bindings) (c : Call) (x : Bytes) : Request → Prop
  | .setArrayRegion _ _ _ buf => ∃ p ∈ c.params, ∃ es, p.arg = .literal es ∧
    (x ∈ es → p.ty.HasWord x) ∧
    List.Forall₂ (fun e v => ∃ heap w, b.wire heap p.ty e = .ok w ∧ v = w.raw) es buf
  | _ => True

theorem Parameter.isObject_of_primitives {p : Parameter} {e : Bytes} (h : e ∈ p.primitives) :
    p.ty.isObject = false := by
  unfold primitives at h
  cases hty : p.ty.isObject with
  | false => rfl
  | true =>
    rw [hty] at h
    cases harg : p.arg <;> simp [harg] at h

section Free

variable {b : Bindings} {x : Bytes} {c : Call} {ty : ValueType}

/-- A free word of a type has a wire value, and a free identifier that is none has not. -/
theorem Bindings.wire_free (hfree : b.lookup x = none) (hx : Lexer.IsWord x)
    (hty : ty.isObject = false) (heap : Heap) :
    (∃ w, b.wire heap ty x = .ok w) ∧ ty.HasWord x ∨
      (∃ why, b.wire heap ty x = .error (.unbound x why)) ∧ ¬ ty.HasWord x := by
  simp only [Bindings.wire, hfree]
  cases hread : readLiteral ty x with
  | error why =>
    refine .inr ⟨⟨why, rfl⟩, ?_⟩
    intro hword
    obtain ⟨v, hv⟩ := (readLiteral_word hx).mpr hword
    rw [hread] at hv
    cases hv
  | ok v =>
    obtain ⟨w, hw⟩ := (readLiteral_admits hread).crosses hty
    refine .inl ⟨⟨w, ?_⟩, (readLiteral_word hx).mp ⟨v, hread⟩⟩
    simp only [pure_bind, hw.toWire?_eq]
    rfl

theorem Bindings.hasWord_of_crosses (hfree : b.lookup x = none) (hx : Lexer.IsWord x)
    (hty : ty.isObject = false) (h : b.Crosses ty x) : ty.HasWord x := by
  obtain ⟨heap, w, hw⟩ := h
  rcases Bindings.wire_free hfree hx hty heap with ⟨-, hword⟩ | ⟨⟨why, hwhy⟩, -⟩
  · exact hword
  · rw [hwhy] at hw
    cases hw

/-- What can break a run in which all else is bound names the free text. -/
theorem Call.BoundBut.quoted (hb : c.BoundBut b x) (hx : Lexer.IsWord x) {q : Cause}
    (hq : c.Breaks b (fun _ => False) q) : Quoted.quote x <:+: q.message := by
  cases hq with
  | bridge h => exact h.elim
  | @reference p e q hp he h =>
    by_cases hne : e = x
    · subst hne
      rw [Bindings.object, hb.free] at h
      simp only at h
      split at h
      · cases h
      · cases h
        exact ⟨"no binding for ", [], by simp [Cause.message]⟩
    · obtain ⟨o, ho⟩ := (hb.references p hp e he hne).names
      rw [ho.object] at h
      cases h
  | @value p e q heap hp he h =>
    have hty := Parameter.isObject_of_primitives he
    by_cases hne : e = x
    · subst hne
      rcases Bindings.wire_free hb.free hx hty heap with ⟨⟨w, hw⟩, -⟩ | ⟨⟨why, hwhy⟩, -⟩
      · rw [hw] at h
        cases h
      · rw [hwhy] at h
        cases h
        exact ⟨"no binding for ", ": " ++ why.message, by simp [Cause.message]⟩
    · obtain ⟨w, hw⟩ := (hb.primitives p hp e he hne).sends hty
      rw [hw.wire] at h
      cases h

theorem Call.Builds.spares {r : Request} (h : c.Builds b r) (hfree : b.lookup x = none)
    (hx : Lexer.IsWord x) : c.Spares b x r := by
  cases r with
  | setArrayRegion prim arr start buf =>
    obtain ⟨p, hp, es, hes, hty, -, -, hbuf⟩ := h
    have hcrosses : ∀ e ∈ es, b.Crosses p.ty e := by
      refine forall_of_forall₂ hbuf ?_
      rintro e v ⟨heap, w, hw, -⟩
      exact ⟨heap, w, hw⟩
    refine ⟨p, hp, es, hes, ?_, hbuf⟩
    intro hmem
    exact Bindings.hasWord_of_crosses hfree hx hty (hcrosses x hmem)
  | _ => trivial

end Free

namespace Plan

/-- **Free identifiers are reported.** On a bridge without failures, a run in which all expressions
    but one identifier are bound ends with an error that quotes it, if it stands for a value of a
    primitive type and is no word of that type. Before that the bridge is asked for the arrays of
    literals at most, and the identifier is among the values of none, but of those of types that
    have it as a word. -/
theorem run_unbound {σ : Type} {B : Bridge σ} {Ready : σ → Prop} {Holds : σ → Obj → Nat → Prop}
    (hB : B.Unfailing Ready Holds) {s : σ} (hs : Ready s) {b : Bindings} {x : Bytes} {c : Call}
    (hb : c.BoundBut b x) (hx : Lexer.IsWord x) {p : Parameter} (hp : p ∈ c.params)
    (he : x ∈ p.primitives) (hword : ¬ p.ty.HasWord x) :
    ∃ f s' rs, (lower c).runOn B.traced b (s, []) = (.error f, s', rs) ∧
      Quoted.quote x <:+: f.message c ∧ ∀ r ∈ rs, c.Builds b r ∧ c.Spares b x r := by
  have hty := Parameter.isObject_of_primitives he
  have hlacks : ¬ b.Crosses p.ty x := fun h => hword (Bindings.hasWord_of_crosses hb.free hx hty h)
  obtain ⟨f, q, s', rs, hrun, hcause, hq, hbuilds⟩ := run_breaks hB hp he hlacks hs
  refine ⟨f, s', rs, hrun, ?_, fun r hr => ⟨hbuilds r hr, (hbuilds r hr).spares hb.free hx⟩⟩
  have hmessage : f.message c = (f.step.message c ++ ": ") ++ q.message := by
    rw [Fatal.message, hcause]
  rw [hmessage]
  exact (hb.quoted hx hq).trans (List.suffix_append _ _).isInfix

/-- The second element of a literal is not bound. -/
theorem run_unbound_element :
    let c : Call :=
      { target := .object "x" default, method := "m", methodSpan := default
        params := [⟨.host .u8 default, .literal ["y", "n"], default⟩]
        ret := .plain (.value (.java .void default)), span := default }
    let b : Bindings := [("x", .absent), ("y", .uint8 7)]
    c.BoundBut b "n" ∧ Lexer.IsWord "n" ∧ ¬ (ValueType.host .u8 default).HasWord "n" ∧
      ∃ f s' rs, (lower c).runOn Recorder.bridge.traced b ({}, []) = (.error f, s', rs) ∧
        Quoted.quote "n" <:+: f.message c ∧ ∀ r ∈ rs, c.Builds b r ∧ c.Spares b "n" r := by
  intro c b
  have hb : c.BoundBut b "n" := ⟨by decide, by decide, by decide⟩
  have hx : Lexer.IsWord "n" :=
    Lexer.isWord_of_ascii (b := 0x6e) (w := []) (by decide) (by decide) (by decide) (by decide)
  have hword : ¬ (ValueType.host .u8 default).HasWord "n" := id
  exact ⟨hb, hx, hword, run_unbound Recorder.unfailing rfl hb hx (List.mem_singleton.mpr rfl)
    (by decide) hword⟩

/-- Nothing is bound to `t`, and the method is called with `true` for it. -/
theorem run_invents_true :
    let b : Bindings := [("obj", .object (.ref "obj" false))]
    Lexer.IsWord "t" ∧
    ∃ c s', Call.parse (.at "obj.m(boolean(t)) -> void" .origin) = .ok c ∧ c.BoundBut b "t" ∧
      (∃ p ∈ c.params, ("t" : Bytes) ∈ p.primitives) ∧
      (lower c).run b { result := .void } = (.ok {}, s') ∧
      ∃ r ∈ s'.calls, r.op = .callMethod ∧ r.args = [.boolean 1] := by
  intro b
  refine ⟨Lexer.isWord_of_ascii (b := 0x74) (w := []) (by decide) (by decide) (by decide)
    (by decide), ?_⟩
  have hcheck : runsTo (.at "obj.m(boolean(t)) -> void" .origin) b { result := .void }
      (fun c o s' => decide ((∀ p ∈ c.params, ∀ e ∈ p.references, e ≠ "t" → b.HasReference e) ∧
        (∀ p ∈ c.params, ∀ e ∈ p.primitives, e ≠ "t" → b.HasValue p.ty e) ∧
        (∃ p ∈ c.params, ("t" : Bytes) ∈ p.primitives) ∧ o = {}) &&
        s'.calls.any fun r => decide (r.op = .callMethod ∧ r.args = [.boolean 1])) = true := by
    decide +kernel
  obtain ⟨c, o, s', hparse, hrun, hanswer⟩ := exists_of_runsTo hcheck
  simp only [Bool.and_eq_true, decide_eq_true_eq, List.any_eq_true] at hanswer
  obtain ⟨⟨hreferences, hprimitives, hp, rfl⟩, hcall⟩ := hanswer
  exact ⟨c, s', hparse, ⟨rfl, hreferences, hprimitives⟩, hp, hrun, hcall⟩

end Plan
end BridgeCall
