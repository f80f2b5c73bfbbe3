/-
  BridgeCall/Proofs/Host/ExprLiterals.lean
  ========================================
  **The literals of types and expressions.**  One lemma per parser says that it keeps the
  literals when the grammar below it does.  A parser is run symbolically, with what is
  known of the parsers it calls; what is left says that the nodes it builds have no
  literals but those of their parts, and that the arguments of a call stand between its
  function and its closing parenthesis.
-/
import BridgeCall.Proofs.Host.Literals

open Std.Do

set_option mvcgen.warning false

namespace BridgeCall.Host.Parse

open ParserM

variable {P : Lexeme → Prop} {e : Ahead} {g : Grammar}

/-! ### Types, fields and parameters -/

theorem keeps_typeName (first : Node) (h : first.Literals e.ok) : Keeps e (typeName first) := by
  mvcgen [typeName] <;> grind

theorem keeps_typeInstance (hg : g.Literals e) (x : Node) (h : x.Literals e.ok) :
    Keeps e (typeInstance g x) := by
  mvcgen [typeInstance] <;> grind

theorem keeps_arrayType (hg : g.Literals e) (p : Pos) (len : Option Node) (h : Literals e.ok len) :
    Keeps e (arrayType g p len) := by
  mvcgen [arrayType] <;> grind

theorem keeps_arrayOrInstance_loop (hg : g.Literals e) (n : Nat) :
    Keeps e (arrayOrInstance.loop g n) := by
  induction n with
  | zero =>
    mvcgen [arrayOrInstance.loop]
    grind
  | succ n ih => mvcgen [arrayOrInstance.loop, ih] <;> grind

theorem keeps_fieldTag : Keeps e fieldTag := by
  mvcgen [fieldTag] <;> grind

theorem keeps_embeds : Keeps e embeds := by
  mvcgen [embeds]

theorem keeps_embeddedTerm (hg : g.Literals e) : Keeps e (embeddedTerm g) := by
  mvcgen [embeddedTerm] <;> grind

instance : HasLiterals Param := ⟨fun P p => Literals P p.name ∧ Literals P p.type⟩

@[grind =] theorem literals_param {p : Param} :
    Literals P p ↔ Literals P p.name ∧ Literals P p.type := Iff.rfl

theorem keeps_startsType : Keeps e startsType := by
  mvcgen [startsType]

theorem keeps_dotsType (hg : g.Literals e) : Keeps e (dotsType g) := by
  mvcgen [dotsType]
  grind

theorem literals_groupParams {names : List Node} {ps : List Param}
    (hnames : ∀ n ∈ names, n.Literals P) (hps : Literals P ps) :
    ∀ n ∈ groupParams names ps, n.Literals P := by
  fun_induction groupParams names ps <;> grind

theorem keeps_paramFields (types : Bool) (start : Pos) (ps : List Param) (h : Literals e.ok ps) :
    Keeps e (paramFields types start ps) := by
  have hsingle : ∀ n ∈ ps.filterMap fun p : Param =>
      (p.type.or p.name).map fun t => Node.field [] [] [] t none, n.Literals e.ok := by
    intro n hn
    obtain ⟨p, hp, hfield⟩ := List.mem_filterMap.mp hn
    obtain ⟨ty, hty, rfl⟩ := Option.map_eq_some_iff.mp hfield
    have hliterals : ty.Literals e.ok := by
      rcases Option.or_eq_some_iff.mp hty with htype | ⟨-, hname⟩
      · exact (h p hp).2 ty htype
      · exact (h p hp).1 ty hname
    grind
  mvcgen [paramFields] <;> grind [literals_groupParams]

theorem keeps_mapType (hg : g.Literals e) : Keeps e (mapType g) := by
  mvcgen [mapType] <;> grind

theorem keeps_chanType (hg : g.Literals e) : Keeps e (chanType g) := by
  mvcgen [chanType] <;> grind

attribute [spec] keeps_typeName keeps_typeInstance keeps_arrayType keeps_fieldTag keeps_embeds
  keeps_embeddedTerm keeps_startsType keeps_dotsType keeps_paramFields keeps_mapType keeps_chanType

theorem keeps_qualifiedName (hg : g.Literals e) (first : Node) (h : first.Literals e.ok) :
    Keeps e (qualifiedName g first) := by
  mvcgen [qualifiedName] <;> grind

theorem keeps_arrayOrInstance (hg : g.Literals e) (x : Node) (h : x.Literals e.ok) :
    Keeps e (arrayOrInstance g x) := by
  have hloop := keeps_arrayOrInstance_loop hg
  mvcgen [arrayOrInstance, hloop] <;> grind

theorem keeps_embeddedElem (hg : g.Literals e) (first : Option Node) (h : Literals e.ok first) :
    Keeps e (embeddedElem g first) := by
  mvcgen [embeddedElem] <;> grind

attribute [spec] keeps_qualifiedName keeps_arrayOrInstance keeps_embeddedElem

theorem keeps_fieldDecl (hg : g.Literals e) : Keeps e (fieldDecl g) := by
  mvcgen [fieldDecl] <;> grind

theorem keeps_withUnion (hg : g.Literals e) (sets : Bool) (p : Param) (h : Literals e.ok p) :
    Keeps e (withUnion g sets p) := by
  mvcgen [withUnion] <;> grind

attribute [spec] keeps_fieldDecl keeps_withUnion

theorem keeps_structType (hg : g.Literals e) : Keeps e (structType g) := by
  mvcgen [structType] <;> grind

theorem keeps_afterParamName (hg : g.Literals e) (sets : Bool) (n : Node) (h : n.Literals e.ok) :
    Keeps e (afterParamName g sets n) := by
  mvcgen [afterParamName] <;> grind

attribute [spec] keeps_structType keeps_afterParamName

@[spec]
theorem keeps_paramDecl (hg : g.Literals e) (sets : Bool) (known : Option Node)
    (h : Literals e.ok known) : Keeps e (paramDecl g sets known) := by
  mvcgen [paramDecl] <;> grind

@[spec]
theorem keeps_parameterList (hg : g.Literals e) (closing : String) (first : Option Param)
    (h : Literals e.ok first) : Keeps e (parameterList g closing first) := by
  rcases first with _ | ⟨n, _ | type⟩ <;> mvcgen [parameterList] <;> grind

theorem keeps_typeParameters (hg : g.Literals e) : Keeps e (typeParameters g) := by
  mvcgen [typeParameters] <;> grind

theorem keeps_parameters (hg : g.Literals e) : Keeps e (parameters g) := by
  mvcgen [parameters] <;> grind

attribute [spec] keeps_typeParameters keeps_parameters

@[spec]
theorem keeps_results (hg : g.Literals e) : Keeps e (results g) := by
  mvcgen [results] <;> grind

@[spec]
theorem keeps_funcType (hg : g.Literals e) : Keeps e (funcType g) := by
  mvcgen [funcType] <;> grind

@[spec]
theorem keeps_methodSpec (hg : g.Literals e) : Keeps e (methodSpec g) := by
  mvcgen [methodSpec] <;> grind

@[spec]
theorem keeps_interfaceType (hg : g.Literals e) : Keeps e (interfaceType g) := by
  mvcgen [interfaceType] <;> grind

theorem keeps_type? (hg : g.Literals e) : Keeps e (type? g) := by
  mvcgen [type?] <;> grind

/-! ### Expressions -/

theorem keeps_funcTypeOrLiteral (hg : g.Literals e) : Keeps e (funcTypeOrLiteral g) := by
  mvcgen [funcTypeOrLiteral] <;> grind

theorem keeps_selectorOrAssertion (hg : g.Literals e) (x : Node) (h : x.Literals e.ok) :
    Keeps e (selectorOrAssertion g x) := by
  mvcgen [selectorOrAssertion] <;> grind

theorem keeps_slicePart (hg : g.Literals e) : Keeps e (slicePart g) := by
  mvcgen [slicePart] <;> grind

theorem keeps_compositeBody (type : Option Node) (h : Literals e.ok type) {elem : ParserM Node}
    (helem : Keeps e elem) : Keeps e (compositeBody type elem) := by
  mvcgen [compositeBody] <;> grind

theorem literals_receiveChan {arrow : Pos} {x y : Node} (hx : x.Literals P)
    (h : receiveChan arrow x = .ok y) : y.Literals P := by
  fun_induction receiveChan arrow x generalizing y with
  | case1 => cases h
  | case2 => grind
  | case3 arrow pos inner p a d v ih =>
    cases hinner : receiveChan inner (.chanType p a d v) <;> grind [Except.map]
  | case4 => cases h
  | case5 => grind

theorem keeps_receiveChan (arrow : Pos) (x : Node) (h : x.Literals e.ok) :
    ⦃⌜True⌝⦄ receiveChan arrow x ⦃⇓? y => ⌜y.Literals e.ok⌝⦄ := by
  intro _
  cases hreceive : receiveChan arrow x with
  | error p => trivial
  | ok y => exact literals_receiveChan h hreceive

theorem keeps_binaryFrom (hg : g.Literals e) (prec : Nat) (x : Node) (h : x.Literals e.ok) :
    Keeps e (binaryFrom g prec x) := by
  mvcgen [binaryFrom] <;> grind

attribute [spec] keeps_funcTypeOrLiteral keeps_selectorOrAssertion keeps_slicePart
  keeps_compositeBody keeps_receiveChan keeps_binaryFrom

/-- The string literals of a tree are made here, each from the lexeme under the cursor. -/
theorem keeps_operand (hg : g.Literals e) : Keeps e (operand g) := by
  mvcgen [operand] <;> grind

instance : HasLiterals Bracket where
  Literals P
    | .index args => Literals P args
    | .slice low high max _ => Literals P low ∧ Literals P high ∧ Literals P max

@[grind =] theorem literals_index {args : List Node} :
    Literals P (Bracket.index args) ↔ Literals P args := Iff.rfl

@[grind =] theorem literals_slice {low high max : Option Node} {three : Bool} :
    Literals P (Bracket.slice low high max three)
      ↔ Literals P low ∧ Literals P high ∧ Literals P max := Iff.rfl

theorem keeps_bracketBody (hg : g.Literals e) : Keeps e (bracketBody g) := by
  mvcgen [bracketBody] <;> grind

/-- What follows an argument. -/
def afterArgument (g : Grammar) (n : Nat) (x : Node) : ParserM (List Node × Pos) := do
  let dots ← if (← isOp "...") then do let p ← here; next; pure p else pure 0
  if !(← atComma ")") then return ([x], dots)
  next
  if dots ≠ 0 then return ([x], dots)
  let (xs, d) ← arguments g n
  return (x :: xs, d)

theorem arguments_succ (g : Grammar) (n : Nat) :
    arguments g (n + 1) = (do
      if (← isOp ")") || (← atEnd) then return ([], 0)
      let x ← g.expr
      afterArgument g n x) := rfl

/-- All literals of a list stand between two places. -/
def Between (p q : Pos) (xs : List Node) : Prop :=
  ∀ r k text, .literal r k text ∈ xs → p ≤ r ∧ r ≤ q

attribute [grind] Between

theorem between_afterArgument {n : Nat}
    (hn : ⦃fun c => ⌜c.Literals e⌝⦄ arguments g n
      ⦃⇓? a c => ⌜c.Literals e ∧ Literals e.ok a ∧ Between e.first c.cur.pos a.1⌝⦄)
    (x : Node) (hx : x.Literals e.ok) :
    ⦃fun c => ⌜c.Literals e⌝⦄ afterArgument g n x
      ⦃⇓? a c => ⌜c.Literals e ∧ Literals e.ok a ∧
        ∃ xs, a.1 = x :: xs ∧ Between e.first c.cur.pos xs⌝⦄ := by
  mvcgen [afterArgument, hn] <;> grind

/-- The cursor never moves back. -/
theorem le_of_keeps {α : Type} [HasLiterals α] {r : ParserM α} (h : ∀ p, Keeps (e.from p) r)
    {c c' : Cursor} {x : α} (hc : c.Literals e) (hrun : r.run c = .ok (x, c')) :
    c.cur.pos ≤ c'.cur.pos :=
  (triple_iff.mp (h c.cur.pos) c x c' hc.here hrun).1.start

theorem between_arguments (hg : g.Literals e) (n : Nat) :
    ⦃fun c => ⌜c.Literals e⌝⦄ arguments g n
      ⦃⇓? a c => ⌜c.Literals e ∧ Literals e.ok a ∧ Between e.first c.cur.pos a.1⌝⦄ := by
  induction n generalizing e with
  | zero =>
    mvcgen [arguments]
    grind
  | succ n ih =>
    rw [triple_iff]
    intro c a c' hc hrun
    rw [arguments_succ] at hrun
    obtain ⟨_, _, hread, hrun⟩ := run_bind_eq_ok hrun
    cases hread
    obtain ⟨_, _, hread, hrun⟩ := run_bind_eq_ok hrun
    cases hread
    split at hrun
    · cases hrun
      grind
    · obtain ⟨x, c₁, hfirst, hrest⟩ := run_bind_eq_ok hrun
      -- a literal starts its argument, and the cursor is not in front of it afterwards
      have hlead := hg.leads.binary 1 c.cur.pos c x c₁ rfl hfirst
      have hle := le_of_keeps (hg.binary 1) hc hfirst
      obtain ⟨hc₁, hx⟩ := triple_iff.mp (Grammar.keeps_expr hg) c x c₁ hc hfirst
      obtain ⟨hc', ha, xs, hxs, hbetween⟩ := triple_iff.mp
        (between_afterArgument (ih (hg.from c₁.cur.pos)) x hx) c₁ a c' hc₁.here hrest
      have hstart := hc.start
      refine ⟨hc'.back (hstart.trans hle), ha, ?_⟩
      have hstop : c₁.cur.pos ≤ c'.cur.pos := hc'.start
      intro p k text hmem
      rw [hxs] at hmem
      rcases List.mem_cons.mp hmem with rfl | hmem
      · obtain rfl := hlead p rfl
        exact ⟨hstart, hle.trans hstop⟩
      · obtain ⟨hfrom, hto⟩ := hbetween p k text hmem
        exact ⟨hstart.trans (hle.trans hfrom), hto⟩

theorem keeps_callArgs (hg : g.Literals e) (x : Node) (h : x.Literals e.ok)
    (hbefore : x.Before e.ok e.first) : Keeps e (callArgs g x) := by
  rw [Keeps, triple_iff]
  intro c y c' hc hrun
  obtain ⟨l, c₁, hopen, hrun⟩ := run_bind_eq_ok hrun
  obtain ⟨hc₁, -⟩ := triple_iff.mp (keeps_op "(") c l c₁ hc hopen
  obtain ⟨⟨args, dots⟩, c₂, hargs, hrun⟩ := run_bind_eq_ok hrun
  obtain ⟨r, c₃, hclose, hrun⟩ := run_bind_eq_ok hrun
  cases hrun
  have hinside : ⦃fun c => ⌜c.Literals e⌝⦄ nested (do arguments g ((← get).rest.length + 2))
      ⦃⇓? a c => ⌜c.Literals e ∧ Literals e.ok a ∧ Between e.first c.cur.pos a.1⌝⦄ := by
    have hloop := between_arguments hg
    mvcgen [nested, hloop, -keeps_nested] <;> grind
  obtain ⟨hc₂, hargs, hbetween⟩ := triple_iff.mp hinside c₁ _ c₂ hc₁ hargs
  obtain ⟨hkind, rfl, rfl⟩ := run_expect_eq_ok hclose
  refine ⟨hc₂.next, ?_⟩
  rw [literals_node, Node.Literals]
  refine ⟨h, ?_, c₂.cur, hc₂.cur, hkind, rfl, ?_⟩
  · grind
  · intro p k text hmem
    obtain ⟨hfrom, hto⟩ := hbetween p k text hmem
    exact ⟨hbefore.mono fun q hq => ⟨hq.1, hq.2.1, hq.2.2.trans hfrom⟩, hto⟩

theorem keeps_element (hg : g.Literals e) (n : Nat) : Keeps e (element g n) := by
  induction n with
  | zero =>
    mvcgen [element]
    grind
  | succ n ih =>
    let value : ParserM Node := do
      if (← isOp lbrace) then compositeBody none (element g n) else g.expr
    have hvalue : Keeps e value := by
      mvcgen [value, ih] <;> grind
    have hsucc : element g (n + 1) = do
        let x ← value
        if (← isOp ":") then
          let colon ← here
          next
          return .keyValue x colon (← value)
        return x := rfl
    clear_value value
    rw [hsucc]
    mvcgen [hvalue] <;> grind

attribute [spec] keeps_operand keeps_bracketBody keeps_callArgs keeps_element

@[spec]
theorem keeps_bracketed (hg : g.Literals e) (x : Node) (h : x.Literals e.ok) :
    Keeps e (bracketed g x) := by
  mvcgen [bracketed] <;> grind

@[spec]
theorem keeps_primaryStep (hg : g.Literals e) (x : Node) (h : x.Literals e.ok)
    (hbefore : x.Before e.ok e.first) : Keeps e (primaryStep g x) := by
  mvcgen [primaryStep] <;> grind

/-- A node in front of the cursor may become the function of a call, so its place is kept. -/
theorem keeps_extend_primaryStep (hg : g.Literals e) {x : Node} (hx : x.Literals e.ok)
    (hbefore : x.Before e.ok e.first) : Keeps e (extend (primaryStep g) x) := by
  have hloop (n : Nat) : Keeps e (extendUpTo (primaryStep g) n x) := by
    induction n generalizing x with
    | zero => mvcgen [extendUpTo]
    | succ n ih =>
      rw [Keeps, triple_iff]
      intro c y c' hc hrun
      obtain ⟨o, c₁, hstep, hrun⟩ := run_bind_eq_ok hrun
      obtain ⟨hc₁, ho⟩ := triple_iff.mp (keeps_primaryStep hg x hx hbefore) c o c₁ hc hstep
      have hled := led_primaryStep hbefore c o c₁ hstep
      cases o with
      | none =>
        cases hrun
        exact ⟨hc₁, hx⟩
      | some z => exact triple_iff.mp (ih (ho z rfl) (hled z rfl)) c₁ y c' hc₁ hrun
  mvcgen [extend, hloop, -keeps_extend]

@[spec]
theorem keeps_primary (hg : g.Literals e) (first : Option Node) :
    ⦃fun c => ⌜c.Literals e ∧ Literals e.ok first ∧ ∀ x ∈ first, x.Before e.ok c.cur.pos⌝⦄
      primary g first
    ⦃⇓? x c => ⌜c.Literals e ∧ Literals e.ok x⌝⦄ := by
  rw [triple_iff]
  rintro c y c' ⟨hc, hfirst, hbefore⟩ hrun
  have hfrom := hg.from c.cur.pos
  cases first with
  | none =>
    obtain ⟨x, c₁, hread, hrun⟩ := run_bind_eq_ok hrun
    obtain ⟨hc₁, hx⟩ := triple_iff.mp (keeps_operand hfrom) c x c₁ hc.here hread
    have hled : x.Before e.ok c.cur.pos := (leads_operand hg.leads c x c₁ rfl hread).mono fun q hq =>
      ⟨⟨c.cur, hc.cur, hq.symm⟩, hq ▸ hc.somewhere, hq.le⟩
    obtain ⟨hc', hy⟩ :=
      triple_iff.mp (keeps_extend_primaryStep hfrom hx hled) c₁ y c' hc₁ hrun
    exact ⟨hc'.back hc.start, hy⟩
  | some x =>
    obtain ⟨hc', hy⟩ := triple_iff.mp
      (keeps_extend_primaryStep hfrom (hfirst x rfl) (hbefore x rfl)) c y c' hc.here hrun
    exact ⟨hc'.back hc.start, hy⟩

theorem keeps_unary (hg : g.Literals e) : Keeps e (unary g) := by
  mvcgen [unary] <;> grind

theorem keeps_binary (hg : g.Literals e) (prec : Nat) : Keeps e (binary g prec) := by
  mvcgen [binary] <;> grind

end BridgeCall.Host.Parse
