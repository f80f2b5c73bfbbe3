/-
  BridgeCall/Proofs/Host/Leads.lean
  =================================
  **Where literals and names come from.**  An expression that is only a literal, a name or
  a qualified name is read from the lexeme under the cursor, so it stands where its parser
  starts (`Parse.leads_grammar`).  Every other node is built of parts and is none of
  these, whatever the parts are; so most parsers are only looked at up to their last line.
-/
import BridgeCall.Host.Parse

namespace BridgeCall.Host

namespace Node

/-- The place of a literal, a name or a qualified name. -/
def lead? : Node → Option Pos
  | .name p _ | .literal p _ _ | .selector (.name p _) _ => some p
  | _ => none

/-- A node that is a literal, a name or a qualified name stands at a place that satisfies `I`. -/
def Led (I : Pos → Prop) (x : Node) : Prop := ∀ p ∈ x.lead?, I p

variable {I J : Pos → Prop} {x y : Node}

theorem led_of_none (h : x.lead? = none) : x.Led I := by
  intro p hp
  rw [h] at hp
  cases hp

theorem led_name {p : Pos} (h : I p) (text : Bytes) : (Node.name p text).Led I := by
  rintro q ⟨⟩
  exact h

theorem led_literal {p : Pos} (h : I p) (k : LiteralKind) (text : Bytes) :
    (Node.literal p k text).Led I := by
  rintro q ⟨⟩
  exact h

theorem Led.selector (h : x.Led I) : (Node.selector x y).Led I := by
  cases x with
  | name p text => exact h
  | _ => exact led_of_none rfl

theorem Led.mono (h : x.Led I) (hij : ∀ p, I p → J p) : x.Led J := fun p hp => hij p (h p hp)

end Node

/-! ### What a parser yields -/

namespace ParserM

variable {α β : Type} {φ : α → Prop} {ψ : β → Prop} {p : Pos} {r : ParserM α} {k : α → ParserM β}

/-- All that a parser yields satisfies `φ`. -/
def Yields (φ : α → Prop) (r : ParserM α) : Prop := ∀ c x c', r.run c = .ok (x, c') → φ x

/-- All that a parser yields satisfies `φ` when it starts at the given place. -/
def YieldsAt (p : Pos) (φ : α → Prop) (r : ParserM α) : Prop :=
  ∀ c x c', c.cur.pos = p → r.run c = .ok (x, c') → φ x

theorem run_bind_eq_ok {c c'' : Cursor} {y : β} (h : (r >>= k).run c = .ok (y, c'')) :
    ∃ x c', r.run c = .ok (x, c') ∧ (k x).run c' = .ok (y, c'') := by
  rw [StateT.run_bind] at h
  cases hr : r.run c with
  | error e =>
    rw [hr] at h
    cases h
  | ok a =>
    rw [hr] at h
    exact ⟨a.1, a.2, rfl, h⟩

theorem run_expect_eq_ok {s : Kind} {c c' : Cursor} (h : (expect s).run c = .ok (p, c')) :
    c.cur.kind = s ∧ p = c.cur.pos ∧ c' = c.next := by
  obtain ⟨l, _, hl, h⟩ := run_bind_eq_ok h
  cases hl
  split at h
  · rename_i hs
    cases h
    exact ⟨hs, rfl, rfl⟩
  · cases h

theorem run_name_eq_ok {c c' : Cursor} {x : Node} (h : name.run c = .ok (x, c')) :
    x = .name c.cur.pos c.cur.text ∧ c' = c.next := by
  obtain ⟨l, _, hl, h⟩ := run_bind_eq_ok h
  cases hl
  obtain ⟨p, _, hp, h⟩ := run_bind_eq_ok h
  cases h
  obtain ⟨-, rfl, rfl⟩ := run_expect_eq_ok hp
  exact ⟨rfl, rfl⟩

theorem Yields.at (h : Yields φ r) (p : Pos) : YieldsAt p φ r := fun c x c' _ => h c x c'

theorem Yields.mono {φ' : α → Prop} (h : Yields φ r) (hφ : ∀ x, φ x → φ' x) : Yields φ' r :=
  fun c x c' hrun => hφ x (h c x c' hrun)

theorem yields_pure {x : α} (h : φ x) : Yields φ (pure x) := by
  intro c y c' hrun
  cases hrun
  exact h

theorem yields_failAt (p : Pos) : Yields φ (failAt p) := by
  intro c x c' hrun
  cases hrun

theorem yields_fail : Yields φ fail := by
  intro c x c' hrun
  cases hrun

theorem Yields.then (hr : Yields φ r) (hk : ∀ x, φ x → Yields ψ (k x)) : Yields ψ (r >>= k) := by
  intro c y c'' hrun
  obtain ⟨x, c', hfirst, hrest⟩ := run_bind_eq_ok hrun
  exact hk x (hr c x c' hfirst) c' y c'' hrest

/-- What a parser yields may be seen without what it reads first. -/
theorem yields_bind (hk : ∀ x, Yields ψ (k x)) : Yields ψ (r >>= k) :=
  Yields.then (fun _ _ _ _ => trivial) fun x (_ : True) => hk x

theorem yields_ite {q : Prop} [Decidable q] {r s : ParserM α} (hr : Yields φ r) (hs : Yields φ s) :
    Yields φ (if q then r else s) := by
  split
  · exact hr
  · exact hs

theorem YieldsAt.then (hr : YieldsAt p φ r) (hk : ∀ x, φ x → Yields ψ (k x)) :
    YieldsAt p ψ (r >>= k) := by
  intro c y c'' hc hrun
  obtain ⟨x, c', hfirst, hrest⟩ := run_bind_eq_ok hrun
  exact hk x (hr c x c' hc hfirst) c' y c'' hrest

theorem yieldsAt_cur {k : Lexeme → ParserM β} (hk : ∀ l, l.pos = p → YieldsAt p ψ (k l)) :
    YieldsAt p ψ (cur >>= k) :=
  fun c y c' hc hrun => hk c.cur hc c y c' hc hrun

theorem yieldsAt_kind {k : Kind → ParserM β} (hk : ∀ s, YieldsAt p ψ (k s)) :
    YieldsAt p ψ (kind >>= k) :=
  fun c y c' hc hrun => hk c.cur.kind c y c' hc hrun

theorem led_nameAt {I : Pos → Prop} (hp : I p) : YieldsAt p (Node.Led I) name := by
  intro c x c' hc hrun
  obtain ⟨rfl, rfl⟩ := run_name_eq_ok hrun
  exact Node.led_name (hc ▸ hp) _

end ParserM

namespace Parse

open ParserM

variable {g : Grammar} {I : Pos → Prop} {x : Node}

/-! ### Nodes that are built of parts -/

/-- No node that a parser yields is a literal, a name or a qualified name. -/
abbrev Unled (r : ParserM Node) : Prop := Yields (fun x => x.lead? = none) r

theorem unled_pure (h : x.lead? = none) : Unled (pure x) := yields_pure h

theorem Unled.led {r : ParserM Node} (h : Unled r) : Yields (Node.Led I) r :=
  h.mono fun _ => Node.led_of_none

theorem unled_typeInstance (x : Node) : Unled (typeInstance g x) := by
  refine yields_bind fun _ => yields_bind fun _ => yields_bind fun _ => ?_
  exact yields_ite (yields_bind fun _ => unled_pure rfl) (unled_pure rfl)

theorem unled_arrayType (p : Pos) (len : Option Node) : Unled (arrayType g p len) := by
  cases len with
  | none => exact yields_bind fun _ => yields_bind fun _ => yields_bind fun _ => unled_pure rfl
  | some n => exact yields_bind fun _ => yields_bind fun _ => yields_bind fun _ => unled_pure rfl

theorem unled_structType : Unled (structType g) :=
  yields_bind fun _ => yields_bind fun _ => yields_bind fun _ => yields_bind fun _ => unled_pure rfl

theorem unled_interfaceType : Unled (interfaceType g) :=
  yields_bind fun _ => yields_bind fun _ => yields_bind fun _ => yields_bind fun _ => unled_pure rfl

theorem unled_mapType : Unled (mapType g) :=
  yields_bind fun _ => yields_bind fun _ => yields_bind fun _ => yields_bind fun _ =>
    yields_bind fun _ => unled_pure rfl

theorem unled_funcType : Unled (funcType g) := by
  refine yields_bind fun _ => yields_bind fun ts => ?_
  cases ts with
  | some t => exact yields_failAt _
  | none => exact yields_bind fun _ => yields_bind fun _ => unled_pure rfl

theorem unled_chanType : Unled (chanType g) := by
  refine yields_bind fun _ => yields_bind fun _ => yields_ite ?_ ?_
  · refine yields_bind fun _ => yields_bind fun _ => yields_ite ?_ ?_
    · exact yields_bind fun _ => yields_bind fun _ => yields_bind fun _ => unled_pure rfl
    · exact yields_bind fun _ => unled_pure rfl
  · exact yields_bind fun _ => yields_bind fun _ => yields_bind fun _ => unled_pure rfl

theorem unled_funcTypeOrLiteral : Unled (funcTypeOrLiteral g) := by
  refine unled_funcType.then fun t ht => yields_bind fun _ => yields_ite ?_ ?_
  · exact yields_bind fun _ => unled_pure rfl
  · exact unled_pure ht

theorem unled_bracketed (x : Node) : Unled (bracketed g x) := by
  refine yields_bind fun _ => yields_bind fun _ => ?_
  refine yields_ite (yields_bind fun _ => ?_) ?_
  all_goals
    refine yields_bind fun (body, missing) => yields_bind fun _ => ?_
    cases missing with
    | some p => exact yields_failAt p
    | none => cases body <;> exact unled_pure rfl

theorem unled_callArgs (x : Node) : Unled (callArgs g x) :=
  yields_bind fun _ => yields_bind fun _ => yields_bind fun _ => unled_pure rfl

theorem unled_compositeBody (type : Option Node) (elem : ParserM Node) :
    Unled (compositeBody type elem) :=
  yields_bind fun _ => yields_bind fun _ => yields_bind fun _ => unled_pure rfl

theorem unled_receiveChan (arrow inner p : Pos) (d : Direction) (v : Node) :
    Unled (liftM (receiveChan arrow (.chanType p inner d v))) := by
  intro c y c' hrun
  have hok : receiveChan arrow (.chanType p inner d v) = .ok y := by
    cases h : receiveChan arrow (.chanType p inner d v) with
    | error e =>
      rw [h] at hrun
      cases hrun
    | ok z =>
      rw [h] at hrun
      cases hrun
      rfl
  unfold receiveChan at hok
  split at hok
  · cases hok
  · cases hok
    rfl
  · rename_i q a d' v'
    cases hinner : receiveChan inner (.chanType q a d' v') with
    | error e =>
      rw [hinner] at hok
      cases hok
    | ok z =>
      rw [hinner] at hok
      cases hok
      rfl
  · cases hok

/-! ### What follows a node -/

theorem led_typeName (hx : x.Led I) : Yields (Node.Led I) (typeName x) := by
  refine yields_bind fun _ => yields_ite ?_ ?_
  · exact yields_bind fun _ => yields_bind fun _ => yields_pure hx.selector
  · exact yields_pure hx

theorem led_qualifiedName (hx : x.Led I) : Yields (Node.Led I) (qualifiedName g x) := by
  refine (led_typeName hx).then fun t ht => yields_bind fun _ => yields_ite ?_ ?_
  · exact (unled_typeInstance t).led
  · exact yields_pure ht

theorem led_selectorOrAssertion (hx : x.Led I) :
    Yields (Node.Led I) (selectorOrAssertion g x) := by
  have hassertion {l r : Pos} {t : Option Node} : Unled (pure (.assertion x l t r)) := unled_pure rfl
  refine yields_bind fun _ => yields_ite ?_ (yields_bind fun _ => yields_bind fun _ => ?_)
  · exact yields_bind fun _ => yields_pure hx.selector
  · refine yields_ite ?_ ?_
    all_goals exact yields_bind fun _ => yields_bind fun _ => yields_bind fun _ => hassertion.led

/-- The same of a node that may be missing. -/
def OptLed (I : Pos → Prop) (o : Option Node) : Prop := ∀ x ∈ o, x.Led I

theorem optLed_none : Yields (OptLed I) (pure none) := yields_pure nofun

theorem Yields.some {r : ParserM Node} (h : Yields (Node.Led I) r) :
    Yields (OptLed I) (r >>= fun x => pure (Option.some x)) := by
  refine h.then fun x hx => yields_pure ?_
  rintro y ⟨⟩
  exact hx

theorem optLed_of_none (h : x.lead? = none) : OptLed I (some x) := by
  rintro y ⟨⟩
  exact Node.led_of_none h

theorem led_primaryStep (hx : x.Led I) : Yields (OptLed I) (primaryStep g x) := by
  refine yields_bind fun s => ?_
  split
  · exact yields_bind fun _ => Yields.some (led_selectorOrAssertion hx)
  · exact Yields.some (unled_bracketed x).led
  · exact Yields.some (unled_callArgs x).led
  · refine yields_bind fun _ => yields_ite ?_ optLed_none
    split
    · exact yields_failAt _
    · exact yields_bind fun _ => Yields.some (unled_compositeBody _ _).led
  · exact optLed_none

theorem led_extend {step : Node → ParserM (Option Node)}
    (h : ∀ x, x.Led I → Yields (OptLed I) (step x)) (hx : x.Led I) :
    Yields (Node.Led I) (extend step x) := by
  refine yields_bind fun c => ?_
  generalize c.rest.length + 2 = n
  induction n generalizing x with
  | zero => exact yields_pure hx
  | succ n ih =>
    refine (h x hx).then fun o ho => ?_
    cases o with
    | none => exact yields_pure hx
    | some y => exact ih (ho y rfl)

theorem led_binaryFrom (prec : Nat) (hx : x.Led I) : Yields (Node.Led I) (binaryFrom g prec x) := by
  refine led_extend (fun x _ => yields_bind fun l => ?_) hx
  split
  · refine yields_ite optLed_none (yields_bind fun _ => yields_bind fun _ => yields_pure ?_)
    exact optLed_of_none rfl
  · exact optLed_none

end Parse

/-! ### Grammars -/

/-- A literal, a name or a qualified name stands where the parser of it starts. -/
structure Grammar.Leads (g : Grammar) : Prop where
  unary : ∀ p, ParserM.YieldsAt p (Node.Led (· = p)) g.unary
  binary : ∀ prec p, ParserM.YieldsAt p (Node.Led (· = p)) (g.binary prec)
  type? : ∀ p, ParserM.YieldsAt p (Parse.OptLed (· = p)) g.type?

namespace Parse

open ParserM

variable {g : Grammar} {p : Pos}

theorem leads_type (hg : g.Leads) : YieldsAt p (Node.Led (· = p)) g.type := by
  refine (hg.type? p).then fun o ho => ?_
  cases o with
  | none => exact yields_fail
  | some x => exact yields_pure (ho x rfl)

theorem leads_operand (hg : g.Leads) : YieldsAt p (Node.Led (· = p)) (operand g) := by
  refine yieldsAt_cur fun l hl => ?_
  split
  · exact led_nameAt rfl
  · exact (yields_bind fun _ => yields_pure (Node.led_literal (I := (· = p)) hl _ _)).at p
  · have hparen {x : Node} {r : Pos} : Unled (pure (.paren l.pos x r)) := unled_pure rfl
    exact (yields_bind fun _ => yields_bind fun _ => yields_bind fun _ => hparen.led).at p
  · exact (Unled.led unled_funcTypeOrLiteral).at p
  · exact leads_type hg

theorem leads_primary (hg : g.Leads) : YieldsAt p (Node.Led (· = p)) (primary g none) :=
  (leads_operand hg).then fun _ hx => led_extend (fun _ => led_primaryStep) hx

theorem leads_unary (hg : g.Leads) : YieldsAt p (Node.Led (· = p)) (unary g) := by
  refine yieldsAt_cur fun l hl => ?_
  have hunary {s : String} {x : Node} : Unled (pure (.unary l.pos s x)) := unled_pure rfl
  have hstar {x : Node} : Unled (pure (.star l.pos x)) := unled_pure rfl
  split
  · refine (yields_bind fun _ => yields_bind fun x => ?_).at p
    split
    · exact Unled.led (unled_receiveChan _ _ _ _ _)
    · exact hunary.led
  · exact (yields_bind fun _ => yields_bind fun _ => hstar.led).at p
  · split
    · exact (yields_bind fun _ => yields_bind fun _ => hunary.led).at p
    · exact leads_primary hg
  · exact leads_primary hg

theorem leads_binary (hg : g.Leads) (prec : Nat) :
    YieldsAt p (Node.Led (· = p)) (binary g prec) :=
  (hg.unary p).then fun _ hx => led_binaryFrom prec hx

theorem leads_type? : YieldsAt p (OptLed (· = p)) (type? g) := by
  refine yieldsAt_kind fun s => ?_
  split
  · exact (led_nameAt (I := (· = p)) rfl).then fun n hn => Yields.some (led_qualifiedName hn)
  · exact (yields_bind fun _ => Yields.some (unled_arrayType _ none).led).at p
  · exact (yields_bind fun _ => yields_bind fun _ => yields_pure (optLed_of_none rfl)).at p
  · exact (Yields.some unled_chanType.led).at p
  · exact (yields_bind fun _ => yields_bind fun _ => yields_bind fun _ =>
      yields_pure (optLed_of_none rfl)).at p
  · exact (Yields.some unled_structType.led).at p
  · exact (Yields.some unled_funcType.led).at p
  · exact (Yields.some unled_interfaceType.led).at p
  · exact (Yields.some unled_mapType.led).at p
  · exact (Yields.some unled_chanType.led).at p
  · exact optLed_none.at p

/-- In the parsers of every depth, what stands alone is where its parser starts. -/
theorem leads_grammar (n : Nat) : (grammar n).Leads := by
  induction n with
  | zero =>
    exact ⟨fun p => yields_fail.at p, fun _ p => yields_fail.at p, fun p => yields_fail.at p⟩
  | succ n ih => exact ⟨fun _ => leads_unary ih, fun prec _ => leads_binary ih prec, fun _ => leads_type?⟩

end Parse
end BridgeCall.Host
