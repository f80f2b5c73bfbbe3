/-
  BridgeCall/Proofs/Expr/Translation.lean
  =======================================
  **An expression can stand anywhere.**  Reading a text that starts at some place
  of a file gives what reading it on its own gives, with every place moved there,
  in a result as in a fault (`Call.parse_moved`).

  The readers look at kinds and literals, copy places, and cut texts out of the
  source.  `Moves` states for one reader and one token list that this commutes
  with moving, and goes through `do` blocks.  It asks for a list that still has
  its end token: only there is the next token one of the text.
-/
import BridgeCall.Proofs.Expr.Exactness
import BridgeCall.Proofs.Expr.Placement

namespace BridgeCall

open Placed (move)

/-! ### Readers -/

namespace Reader

/-- A token list that still has the end of the input in it. -/
def Ended (ts : List Token) : Prop := ∃ (init : List Token) (e : Token), ts = init ++ [e] ∧ e.kind = .eof

theorem Ended.exists_cons {ts : List Token} (h : Ended ts) : ∃ t rest, ts = t :: rest := by
  obtain ⟨init, e, rfl, -⟩ := h
  cases init with
  | nil => exact ⟨e, [], rfl⟩
  | cons t init => exact ⟨t, init ++ [e], rfl⟩

theorem Ended.tail {t : Token} {ts : List Token} (h : Ended (t :: ts)) (ht : t.kind ≠ .eof) :
    Ended ts := by
  obtain ⟨init, e, heq, he⟩ := h
  cases init with
  | nil =>
    cases heq
    exact absurd he ht
  | cons u init =>
    cases heq
    exact ⟨init, e, rfl, he⟩

theorem Ended.of_append {used rest : List Token} (h : Ended (used ++ rest))
    (hused : ∀ t ∈ used, t.kind ≠ .eof) : Ended rest := by
  induction used with
  | nil => exact h
  | cons t used ih =>
    exact ih (h.tail (hused t (by simp))) fun u hu => hused u (List.mem_cons_of_mem _ hu)

/-- On these tokens the second reader does at moved places what the first one does, and neither of
    them reads past the end of the input. -/
structure Moves {α : Type} [Placed α] (s : Position) (ts : List Token) (r r' : Reader α) : Prop where
  run_eq : r' (move s ts) = move s (r ts)
  ended : ∀ a rest, r ts = .ok (a, rest) → Ended rest

section Primitives

variable {α β : Type} [Placed α] [Placed β] {s : Position} {t : Token} {ts : List Token}

theorem moves_pure (hts : Ended ts) (a : α) : Moves s ts (pure a) (pure (move s a)) := by
  constructor
  · rfl
  · intro b rest h
    cases h
    exact hts

theorem moves_throw (f : Fault) : Moves s ts (throw f : Reader α) (throw (move s f)) := by
  constructor
  · rfl
  · intro b rest h
    cases h

theorem Moves.bind {r r' : Reader α} {k k' : α → Reader β} (h : Moves s ts r r')
    (hk : ∀ a rest, Ended rest → Moves s rest (k a) (k' (move s a))) :
    Moves s ts (r >>= k) (r' >>= k') := by
  have hrun := h.run_eq
  cases hr : r ts with
  | error f =>
    rw [hr] at hrun
    have herror : (r >>= k) ts = .error f := by
      change Except.bind (r ts) (fun p => k p.1 p.2) = _
      rw [hr]
      rfl
    constructor
    · change Except.bind (r' (move s ts)) (fun p => k' p.1 p.2) = _
      rw [hrun, herror]
      rfl
    · intro b rest hb
      rw [herror] at hb
      cases hb
  | ok p =>
    obtain ⟨a, mid⟩ := p
    rw [hr] at hrun
    obtain ⟨hnext, hended⟩ := hk a mid (h.ended a mid hr)
    constructor
    · rw [bind_of_ok hr, bind_of_ok hrun]
      exact hnext
    · rw [bind_of_ok hr]
      exact hended

theorem Moves.ite {c : Prop} [Decidable c] {r r' q q' : Reader α} (hpos : c → Moves s ts r r')
    (hneg : ¬ c → Moves s ts q q') :
    Moves s ts (if c then r else q) (if c then r' else q') := by
  by_cases hc : c
  · rw [if_pos hc, if_pos hc]
    exact hpos hc
  · rw [if_neg hc, if_neg hc]
    exact hneg hc

theorem moves_peek {k k' : Token → Reader α} (h : Moves s (t :: ts) (k t) (k' (move s t))) :
    Moves s (t :: ts) (peek >>= k) (peek >>= k') := by
  obtain ⟨hrun, hended⟩ := h
  exact ⟨hrun, hended⟩

theorem moves_peekKind {k k' : TokenKind → Reader α}
    (h : Moves s (t :: ts) (k t.kind) (k' t.kind)) :
    Moves s (t :: ts) (peekKind >>= k) (peekKind >>= k') := by
  obtain ⟨hrun, hended⟩ := h
  exact ⟨hrun, hended⟩

theorem moves_get {k k' : List Token → Reader α} (h : Moves s ts (k ts) (k' (move s ts))) :
    Moves s ts (get >>= k) (get >>= k') := by
  obtain ⟨hrun, hended⟩ := h
  exact ⟨hrun, hended⟩

theorem moves_advance (hts : Ended (t :: ts)) (ht : t.kind ≠ .eof) :
    Moves s (t :: ts) advance advance := by
  constructor
  · rfl
  · intro a rest h
    cases h
    exact hts.tail ht

theorem moves_fail (hts : Ended ts) (problem : Problem) (expected : List TokenKind) :
    Moves s ts (fail problem expected : Reader α) (fail problem expected) := by
  obtain ⟨t, rest, rfl⟩ := hts.exists_cons
  constructor
  · rfl
  · intro a rest h
    cases h

theorem moves_expect (hts : Ended ts) {k : TokenKind} (hk : k ≠ .eof) (problem : Problem)
    (also : List TokenKind) : Moves s ts (expect k problem also) (expect k problem also) := by
  obtain ⟨t, rest, rfl⟩ := hts.exists_cons
  apply moves_peekKind
  apply Moves.ite
  · intro ht
    exact moves_advance hts (ht ▸ hk)
  · intro _
    exact moves_fail hts _ _

theorem moves_expectEnd (hts : Ended ts) (after : Whole) :
    Moves s ts (expectEnd after) (expectEnd after) := by
  obtain ⟨t, rest, rfl⟩ := hts.exists_cons
  apply moves_peekKind
  apply Moves.ite
  · intro _
    exact moves_pure hts ()
  · intro _
    exact moves_fail hts _ _

theorem move_startsWithWord (w : Bytes) (ts : List Token) :
    startsWithWord w (move s ts) = startsWithWord w ts := by
  match ts with
  | [] => rfl
  | [_] => rfl
  | _ :: _ :: _ => rfl

theorem moves_atKeyword {w : Bytes} {k k' : Bool → Reader α}
    (h : Moves s ts (k (startsWithWord w ts)) (k' (startsWithWord w ts))) :
    Moves s ts (atKeyword w >>= k) (atKeyword w >>= k') := by
  constructor
  · rw [bind_of_ok (atKeyword_run w), bind_of_ok (atKeyword_run w), move_startsWithWord]
    exact h.run_eq
  · rw [bind_of_ok (atKeyword_run w)]
    exact h.ended

end Primitives

section Readers

variable {s : Position} {ts : List Token}

theorem move_segmentsOf (sep : TokenKind) (ts : List Token) :
    segmentsOf sep (move s ts) = move s (segmentsOf sep ts) := by
  fun_induction segmentsOf sep ts with
  | case1 a t rest ha ht ih =>
    rw [move_cons, move_cons, segmentsOf, if_pos (by exact ha), if_pos (by exact ht), ih]
    cases segmentsOf sep rest with
    | error f => rfl
    | ok p => rfl
  | case2 a t rest ha ht =>
    rw [move_cons, move_cons, segmentsOf, if_pos (by exact ha), if_neg (by exact ht)]
    by_cases heof : t.kind = .eof
    · simp only [trailingSeparator, move_kind, heof, if_true]
      rfl
    · simp only [trailingSeparator, move_kind, if_neg heof]
      rfl
  | case3 a t rest ha =>
    rw [move_cons, move_cons, segmentsOf, if_neg (by exact ha)]
    rfl
  | case4 ts hshort =>
    rcases ts with _ | ⟨a, _ | ⟨t, rest⟩⟩
    · rfl
    · rfl
    · exact absurd rfl (hshort a t rest)

theorem moves_segments (hts : Ended ts) {sep : TokenKind} (hsep : sep ≠ .eof ∧ sep ≠ .error) :
    Moves s ts (segments sep) (segments sep) := by
  constructor
  · exact move_segmentsOf sep ts
  · intro names rest h
    obtain ⟨used, rfl, hused⟩ := segmentsOf_sound h
    exact hts.of_append fun t ht => (hused.clean hsep t ht).1

theorem move_lastDotted (p : Path) : (move s p).lastDotted = move s p.lastDotted :=
  move_getLastD s p.dotted p.first

theorem move_pathSpan (p : Path) : (move s p).span = move s p.span := by
  unfold Path.span
  rw [move_lastDotted]
  exact congrArg (fun t : Token => (move s p.first.span).to t.span)
    (move_getLastD s p.nested p.lastDotted)

theorem move_toClassPath (p : Path) : (move s p).toClassPath = move s p.toClassPath := by
  have hliteral : ∀ us : List Token, (move s us).map Token.literal = us.map Token.literal := by
    intro us
    rw [move_list, List.map_map]
    rfl
  have hinit : (move s p).initDotted = move s p.initDotted := move_dropLast s (p.first :: p.dotted)
  have hnested : (move s p).nested = move s p.nested := rfl
  simp only [Path.toClassPath, hinit, move_lastDotted, move_pathSpan, hnested, hliteral,
    move_literal]
  rfl

theorem moves_path (hts : Ended ts) : Moves s ts path path := by
  obtain ⟨t, rest, rfl⟩ := hts.exists_cons
  apply moves_peekKind
  apply Moves.ite
  · intro _
    exact moves_fail hts _ _
  · intro ht
    have hkind : t.kind ≠ .eof := by
      rw [not_not.mp ht]
      decide
    apply (moves_advance hts hkind).bind
    intro first mid hmid
    apply (moves_segments hmid (by decide)).bind
    intro dotted mid hmid
    simp only [move_isEmpty]
    apply Moves.ite
    · intro _
      exact moves_throw _
    · intro _
      apply (moves_segments hmid (by decide)).bind
      intro nested mid hmid
      exact moves_pure hmid (Path.mk first dotted nested)

theorem moves_splitMethod (hts : Ended ts) (p : Path) :
    Moves s ts (splitMethod p) (splitMethod (move s p)) := by
  have hnested : (move s p).nested = move s p.nested := rfl
  have hdotted : (move s p).dotted = move s p.dotted := rfl
  unfold splitMethod
  simp only [hnested, hdotted, move_isEmpty, move_length]
  apply Moves.ite
  · intro _
    apply Moves.ite
    · intro _
      rw [move_pathSpan]
      exact moves_throw _
    · intro _
      rw [move_lastDotted, move_dropLast]
      have hshort := move_toClassPath (s := s) { p with dotted := p.dotted.dropLast }
      simp only [move] at hshort ⊢
      rw [hshort]
      exact moves_pure hts (Path.toClassPath { p with dotted := p.dotted.dropLast }, p.lastDotted)
  · intro _
    apply (moves_expect hts (by decide) _ _).bind
    intro dot mid hmid
    apply (moves_expect hmid (by decide) _ _).bind
    intro m mid hmid
    rw [move_toClassPath]
    exact moves_pure hmid (p.toClassPath, m)

theorem moves_valueType (hts : Ended ts) : Moves s ts valueType valueType := by
  obtain ⟨t, rest, rfl⟩ := hts.exists_cons
  apply moves_peek
  simp only [move_kind, move_literal]
  apply Moves.ite
  · intro _
    exact moves_fail hts _ _
  · intro ht
    have hkind : t.kind ≠ .eof := by
      rw [not_not.mp ht]
      decide
    cases HostPrimitive.ofName? t.literal with
    | some h =>
      apply (moves_advance hts hkind).bind
      intro _ mid hmid
      exact moves_pure hmid (ValueType.host h t.span)
    | none =>
      cases Primitive.ofName? t.literal with
      | some p =>
        apply (moves_advance hts hkind).bind
        intro _ mid hmid
        exact moves_pure hmid (ValueType.java p t.span)
      | none =>
        apply (moves_path hts).bind
        intro p mid hmid
        rw [move_toClassPath]
        exact moves_pure hmid (ValueType.object p.toClassPath)

theorem move_isVoid (ty : ValueType) : (move s ty).isVoid = ty.isVoid := by
  match ty with
  | .java .void _ => rfl
  | .java .byte _ | .java .boolean _ | .java .char _ | .java .short _ | .java .int _
  | .java .long _ | .java .float _ | .java .double _ => rfl
  | .host _ _ => rfl
  | .object _ => rfl

/-- A type that is no class cannot be optional, wherever it stands. -/
theorem moves_noOption {α : Type} [Placed α] {ty ty' : ValueType} (hvoid : ty'.isVoid = ty.isVoid)
    (hkeyword : ty'.keyword = ty.keyword) (hspan : ty'.span = move s ty.span) :
    Moves s ts
      (if ty.isVoid then throw { problem := .voidOption, span := ty.span }
        else throw { problem := .primitiveOption ty.keyword, span := ty.span } : Reader α)
      (if ty'.isVoid then throw { problem := .voidOption, span := ty'.span }
        else throw { problem := .primitiveOption ty'.keyword, span := ty'.span }) := by
  rw [hvoid, hkeyword, hspan]
  apply Moves.ite
  · intro _
    exact moves_throw _
  · intro _
    exact moves_throw _

theorem moves_option {t : Token} (hts : Ended (t :: ts)) (ht : t.kind ≠ .eof) :
    Moves s (t :: ts) option option := by
  apply (moves_advance hts ht).bind
  intro start mid hmid
  apply (moves_expect hmid (by decide) _ _).bind
  intro _ mid hmid
  apply (moves_valueType hmid).bind
  intro ty mid hmid
  cases ty with
  | java p r => exact moves_noOption (move_isVoid (.java p r)) rfl rfl
  | host h r => exact moves_noOption rfl rfl rfl
  | object c =>
    apply (moves_expect hmid (by decide) _ _).bind
    intro stop mid hmid
    exact moves_pure hmid (Success.option c (start.span.to stop.span))

theorem moves_success (hts : Ended ts) : Moves s ts success success := by
  apply moves_atKeyword
  apply Moves.ite
  · intro hword
    obtain ⟨t, rest, rfl, hkind, -⟩ := startsWithWord_eq_true hword
    exact moves_option hts (by simp [hkind])
  · intro _
    apply (moves_valueType hts).bind
    intro ty mid hmid
    exact moves_pure hmid (Success.value ty)

theorem move_upToClosingGt (depth : Nat) (ts : List Token) :
    upToClosingGt depth (move s ts) = move s (upToClosingGt depth ts) := by
  induction ts generalizing depth with
  | nil => rfl
  | cons t rest ih =>
    simp only [move_cons, upToClosingGt, move_kind, ih]
    split
    · rfl
    · rfl

theorem moves_upToClosingGt (hts : Ended ts) :
    Moves s ts (modifyGet (upToClosingGt 0)) (modifyGet (upToClosingGt 0)) := by
  constructor
  · exact congrArg Except.ok (move_upToClosingGt 0 ts)
  · intro found rest h
    obtain ⟨happend, hkinds⟩ := upToClosingGt_append 0 ts
    have heq : upToClosingGt 0 ts = (found, rest) := Except.ok.inj h
    rw [heq] at happend hkinds
    rw [← happend] at hts
    exact hts.of_append hkinds

theorem moves_errorType (hts : Ended ts) (src : Source) :
    Moves s ts (errorType src) (errorType (move s src)) := by
  apply (moves_upToClosingGt hts).bind
  intro found mid hmid
  cases found with
  | nil => exact moves_fail hmid _ _
  | cons a found =>
    have hlast : (move s (a :: found)).getLast? =
        some (move s ((a :: found).getLast (by simp))) := by
      rw [move_list, List.getLast?_map, List.getLast?_eq_some_getLast (by simp)]
      rfl
    simp only [Source.move_textOf, hlast, List.getLast?_eq_some_getLast (List.cons_ne_nil a found)]
    apply Moves.ite
    · intro _
      exact moves_pure hmid ()
    · intro _
      exact moves_throw _

theorem moves_returnSpec (hts : Ended ts) (src : Source) :
    Moves s ts (returnSpec src) (returnSpec (move s src)) := by
  apply moves_atKeyword
  apply Moves.ite
  · intro hword
    obtain ⟨t, rest, rfl, hkind, -⟩ := startsWithWord_eq_true hword
    apply (moves_advance hts (by simp [hkind])).bind
    intro start mid hmid
    apply (moves_expect hmid (by decide) _ _).bind
    intro _ mid hmid
    apply moves_atKeyword
    apply Moves.ite
    · intro _
      obtain ⟨t, rest, rfl⟩ := hmid.exists_cons
      apply moves_peek
      exact moves_throw _
    · intro _
      apply (moves_success hmid).bind
      intro ok mid hmid
      apply (moves_expect hmid (by decide) _ _).bind
      intro _ mid hmid
      apply (moves_errorType hmid src).bind
      intro _ mid hmid
      apply (moves_expect hmid (by decide) _ _).bind
      intro stop mid hmid
      exact moves_pure hmid (ReturnSpec.result ok (start.span.to stop.span))
  · intro _
    apply (moves_success hts).bind
    intro ok mid hmid
    exact moves_pure hmid (ReturnSpec.plain ok)

end Readers

section Groups

variable {s : Position} {ts : List Token} {o t : Token} {below seen rest : List Token}

theorem groupOf_eof (h : t.kind = .eof) :
    groupOf (o :: below) seen (t :: rest) =
      .error { problem := .unclosed o.literal, span := o.span, expected := o.kind.closer?.toList
               got := some t } := by
  rw [groupOf.eq_def]
  simp [h, throw, throwThe, MonadExceptOf.throw]

theorem groupOf_error (h : t.kind = .error) :
    groupOf (o :: below) seen (t :: rest) =
      .error { problem := .invalidToken t.literal, span := t.span } := by
  rw [groupOf.eq_def]
  simp [h, throw, throwThe, MonadExceptOf.throw]

theorem groupOf_mismatch (hclose : t.kind.isCloser = true) (h : o.kind.closer? ≠ some t.kind) :
    groupOf (o :: below) seen (t :: rest) =
      .error { problem := .mismatchedCloser, span := t.span, expected := o.kind.closer?.toList
               got := some t } := by
  have hnone := closer?_of_isCloser hclose
  rw [groupOf.eq_def]
  cases hk : t.kind <;> simp_all [TokenKind.isCloser, throw, throwThe, MonadExceptOf.throw]

/-- The induction is on the tokens; a group that runs into the end of the input is a fault, so the
    list is never exhausted. -/
theorem move_groupOf (hts : Ended ts) (o : Token) (below seen : List Token) :
    groupOf (move s (o :: below)) (move s seen) (move s ts) =
      move s (groupOf (o :: below) seen ts) := by
  induction ts generalizing o below seen with
  | nil =>
    obtain ⟨_, _, h⟩ := hts.exists_cons
    cases h
  | cons t rest ih =>
    rw [move_cons, move_cons]
    by_cases heof : t.kind = .eof
    · rw [groupOf_eof heof, groupOf_eof (by exact heof)]
      rfl
    by_cases herror : t.kind = .error
    · rw [groupOf_error herror, groupOf_error (by exact herror)]
      rfl
    have hrest := hts.tail heof
    by_cases hopen : t.kind.closer?.isSome = true
    · rw [groupOf_open hopen, groupOf_open (by exact hopen)]
      exact ih hrest t (o :: below) (t :: seen)
    by_cases hclose : t.kind.isCloser = true
    · by_cases hmatch : o.kind.closer? = some t.kind
      · cases below with
        | nil =>
          rw [groupOf_close_last hmatch hclose, move_nil,
            groupOf_close_last (by exact hmatch) (by exact hclose), move_reverse]
          rfl
        | cons b below =>
          rw [groupOf_close b hmatch hclose, move_cons,
            groupOf_close _ (by exact hmatch) (by exact hclose)]
          exact ih hrest b below (t :: seen)
      · rw [groupOf_mismatch hclose hmatch, groupOf_mismatch (by exact hclose) (by exact hmatch)]
        rfl
    · have hnone : t.kind.closer? = none := by simpa using hopen
      have hplain : t.kind.isCloser = false := by simpa using hclose
      rw [groupOf_plain hnone hplain herror heof,
        groupOf_plain (by exact hnone) (by exact hplain) (by exact herror) (by exact heof)]
      exact ih hrest o below (t :: seen)

theorem moves_group (hts : Ended (t :: ts)) (ht : t.kind ≠ .eof) :
    Moves s (t :: ts) group group := by
  constructor
  · exact move_groupOf (hts.tail ht) t [] []
  · intro g rest h
    obtain ⟨rfl, hbody, hmatch⟩ := group_eq_ok.mp h
    have hclose : g.closer.kind ≠ .eof := (Grammar.clean_of_closer? hmatch).2.1
    exact ((hts.tail ht).of_append fun t ht => (hbody.clean t ht).1).tail hclose

theorem move_closesAtEnd (depth : Nat) (ts : List Token) :
    closesAtEnd depth (move s ts) = closesAtEnd depth ts := by
  induction ts generalizing depth with
  | nil => rfl
  | cons t rest ih =>
    have hdepth : depthAfter depth (move s t) = depthAfter depth t := rfl
    rw [move_cons, closesAtEnd, closesAtEnd, move_kind, move_isEmpty, hdepth, ih]

theorem move_elementsOf (depth : Nat) (seen ts : List Token) :
    elementsOf depth (move s seen) (move s ts) = move s (elementsOf depth seen ts) := by
  induction ts generalizing depth seen with
  | nil =>
    rw [move_nil, elementsOf, elementsOf, move_isEmpty, move_reverse]
    split
    · rfl
    · rfl
  | cons t rest ih =>
    have hdepth : depthAfter depth (move s t) = depthAfter depth t := rfl
    rw [move_cons, elementsOf, elementsOf, move_kind, move_isEmpty, move_reverse, hdepth]
    split
    · split
      · rfl
      · have hmore := ih 0 []
        rw [move_nil] at hmore
        rw [hmore]
        cases elementsOf 0 [] rest with
        | error f => rfl
        | ok es => rfl
    · exact ih _ (t :: seen)

theorem move_arrayElements? (ts : List Token) :
    arrayElements? (move s ts) = move s (arrayElements? ts) := by
  cases ts with
  | nil => rfl
  | cons t rest =>
    have helements := move_elementsOf (s := s) 0 [] rest.dropLast
    rw [move_nil] at helements
    rw [move_cons, arrayElements?, arrayElements?, move_kind, move_closesAtEnd, move_dropLast,
      helements]
    split
    · cases elementsOf 0 [] rest.dropLast with
      | error f => rfl
      | ok es => rfl
    · rfl

theorem moves_arrayElements? (hts : Ended ts) (contents : List Token) :
    Moves s ts (liftM (arrayElements? contents) : Reader (Option (List (List Token))))
      (liftM (arrayElements? (move s contents))) := by
  rw [move_arrayElements?]
  constructor
  · cases arrayElements? contents with
    | error f => rfl
    | ok es => rfl
  · intro es rest h
    obtain ⟨-, rfl⟩ := liftM_eq_ok.mp h
    exact hts

end Groups

section Calls

variable {s : Position} {ts : List Token}

/-- The method after a receiver, of which both runs made something of their own. -/
theorem moves_method (hts : Ended ts) (tg : Target) :
    Moves s ts
      (do
        let _ ← expect .dot .noReceiverDot []
        let m ← expect .ident .noMethod []
        return (tg, m))
      (do
        let _ ← expect .dot .noReceiverDot []
        let m ← expect .ident .noMethod []
        return (move s tg, m)) := by
  apply (moves_expect hts (by decide) _ _).bind
  intro _ mid hmid
  apply (moves_expect hmid (by decide) _ _).bind
  intro m mid hmid
  exact moves_pure hmid (tg, m)

theorem moves_target (hts : Ended ts) (src : Source) :
    Moves s ts (target src) (target (move s src)) := by
  obtain ⟨t, rest, rfl⟩ := hts.exists_cons
  apply moves_peek
  rw [move_kind]
  cases hk : t.kind with
  | static =>
    apply (moves_advance hts (by simp [hk])).bind
    intro _ mid hmid
    apply (moves_path hmid).bind
    intro p mid hmid
    obtain ⟨u, mid, rfl⟩ := hmid.exists_cons
    apply moves_peekKind
    simp only [pure_bind, move_toClassPath]
    apply Moves.ite
    · intro hu
      apply (moves_advance hmid (by simp [hu])).bind
      intro _ mid hmid
      apply (moves_expect hmid (by decide) _ _).bind
      intro m mid hmid
      exact moves_pure hmid (Target.static p.toClassPath (t.span.to p.toClassPath.span), m)
    · intro _
      apply (moves_splitMethod hmid p).bind
      intro found mid hmid
      exact moves_pure hmid (Target.static found.1 (t.span.to found.1.span), found.2)
  | lparen | lbrace =>
    apply (moves_group hts (by simp [hk])).bind
    intro g mid hmid
    have hcontents : (move s g).contents = move s g.contents := rfl
    have hcloser : (move s g).closer = move s g.closer := rfl
    rw [hcontents, hcloser, move_isEmpty, Source.move_textOf]
    apply Moves.ite
    · intro _
      exact moves_throw _
    · intro _
      exact moves_method hmid (.object (textOf src g.contents) (t.span.to g.closer.span))
  | ident =>
    apply (moves_advance hts (by simp [hk])).bind
    intro u mid hmid
    exact moves_method hmid (.object u.literal u.span)
  | _ => exact moves_fail hts _ _

theorem moves_parameterType (hts : Ended ts) : Moves s ts parameterType parameterType := by
  obtain ⟨t, rest, rfl⟩ := hts.exists_cons
  apply moves_peekKind
  apply Moves.ite
  · intro hk
    apply (moves_advance hts (by simp [hk])).bind
    intro _ mid hmid
    apply (moves_valueType hmid).bind
    intro ty mid hmid
    apply (moves_expect hmid (by decide) _ _).bind
    intro _ mid hmid
    exact moves_pure hmid (true, ty)
  · intro _
    apply (moves_valueType hts).bind
    intro ty mid hmid
    exact moves_pure hmid (false, ty)

theorem move_span_valueType (ty : ValueType) : (move s ty).span = move s ty.span := by
  cases ty <;> rfl

theorem moves_parameter (hts : Ended ts) (src : Source) :
    Moves s ts (parameter src) (parameter (move s src)) := by
  obtain ⟨t, rest, rfl⟩ := hts.exists_cons
  apply moves_peek
  apply (moves_parameterType hts).bind
  rintro ⟨array, ty⟩ mid hmid
  obtain ⟨o, mid, rfl⟩ := hmid.exists_cons
  simp only [move_pair, move_isVoid, move_span_valueType]
  apply Moves.ite
  · intro _
    exact moves_throw _
  intro _
  apply moves_peekKind
  apply Moves.ite
  · intro _
    exact moves_fail hmid _ _
  intro ho
  have hkind : o.kind ≠ .eof := by
    rw [not_not.mp ho]
    decide
  apply (moves_group hmid hkind).bind
  intro g mid hmid
  have hcontents : (move s g).contents = move s g.contents := rfl
  have hcloser : (move s g).closer = move s g.closer := rfl
  simp only [hcontents, hcloser, move_isEmpty, Source.move_textOf]
  apply Moves.ite
  · intro _
    exact moves_throw _
  intro _
  apply Moves.ite
  · intro _
    exact moves_pure hmid
      (Parameter.mk ty (.single (textOf src g.contents)) (t.span.to g.closer.span))
  intro _
  apply (moves_arrayElements? hmid g.contents).bind
  intro found mid hmid
  cases found with
  | none =>
    exact moves_pure hmid
      (Parameter.mk ty (.array (textOf src g.contents)) (t.span.to g.closer.span))
  | some es =>
    have htexts : (move s es).map (textOf (move s src)) = es.map (textOf src) := by
      rw [move_list, List.map_map]
      exact List.map_congr_left fun e _ => Source.move_textOf s e
    have hsome : move s (some es) = some (move s es) := rfl
    simp only [hsome, htexts]
    exact moves_pure hmid
      (Parameter.mk ty (.literal (es.map (textOf src))) (t.span.to g.closer.span))

theorem moves_parametersUpTo (hts : Ended ts) (src : Source) (fuel : Nat) :
    Moves s ts (parametersUpTo src fuel) (parametersUpTo (move s src) fuel) := by
  induction fuel generalizing ts with
  | zero => exact moves_pure hts []
  | succ fuel ih =>
    obtain ⟨t, rest, rfl⟩ := hts.exists_cons
    apply moves_peekKind
    have hmore : Moves s (t :: rest)
        (do
          let p ← parameter src
          if (← peekKind) = .comma then
            let _ ← advance
            return p :: (← parametersUpTo src fuel)
          else return [p])
        (do
          let p ← parameter (move s src)
          if (← peekKind) = .comma then
            let _ ← advance
            return p :: (← parametersUpTo (move s src) fuel)
          else return [p]) := by
      apply (moves_parameter hts src).bind
      intro p mid hmid
      obtain ⟨u, mid, rfl⟩ := hmid.exists_cons
      apply moves_peekKind
      apply Moves.ite
      · intro hu
        apply (moves_advance hmid (by simp [hu])).bind
        intro _ mid hmid
        apply (ih hmid).bind
        intro ps mid hmid
        exact moves_pure hmid (p :: ps)
      · intro _
        exact moves_pure hmid [p]
    cases hk : t.kind with
    | rparen => exact moves_pure hts []
    | eof => exact moves_fail hts _ _
    | _ => exact hmore

theorem moves_parameters (hts : Ended ts) (src : Source) :
    Moves s ts (parameters src) (parameters (move s src)) := by
  apply (moves_expect hts (by decide) _ _).bind
  intro _ mid hmid
  apply moves_get
  rw [move_length]
  apply (moves_parametersUpTo hmid src _).bind
  intro ps mid hmid
  apply (moves_expect hmid (by decide) _ _).bind
  intro _ mid hmid
  exact moves_pure hmid ps

theorem move_span_returnSpec (r : ReturnSpec) : (move s r).span = move s r.span := by
  match r with
  | .plain (.value ty) => exact move_span_valueType ty
  | .plain (.option _ _) => rfl
  | .result _ _ => rfl

theorem moves_call (hts : Ended ts) (src : Source) :
    Moves s ts (call src) (call (move s src)) := by
  obtain ⟨t, rest, rfl⟩ := hts.exists_cons
  apply moves_peek
  apply (moves_target hts src).bind
  rintro ⟨tg, m⟩ mid hmid
  apply (moves_parameters hmid src).bind
  intro ps mid hmid
  apply (moves_expect hmid (by decide) _ _).bind
  intro _ mid hmid
  apply (moves_returnSpec hmid src).bind
  intro r mid hmid
  apply (moves_expectEnd hmid _).bind
  intro _ mid hmid
  rw [move_span_returnSpec]
  exact moves_pure hmid
    { target := tg, method := m.literal, methodSpan := m.span, params := ps, ret := r
      span := ⟨t.span.start, r.span.stop⟩ : Call }

end Calls

/-- A reader of a whole text. -/
theorem run_moved {α : Type} [Placed α] {s : Position} {src : Source} (h : 1 ≤ src.start.line)
    {r r' : Reader α} (hr : ∀ ts, Ended ts → Moves s ts r r') :
    run r' (move s src) = move s (run r src) := by
  obtain ⟨e, he, htokens⟩ := src.tokens_eq
  have hrun := (hr src.tokens ⟨_, e, htokens, he⟩).run_eq
  rw [run, run, Source.move_tokens s h, hrun]
  cases r src.tokens with
  | error f => rfl
  | ok p => rfl

end Reader

/-! ### Whole texts -/

section Whole

open Reader

theorem Source.at_eq_move {s : Position} (hline : 1 ≤ s.line) (hcolumn : 1 ≤ s.column)
    (text : Bytes) : Source.at text s = move s (Source.at text .origin) := by
  have hfirst : s.orFirst = s := by
    unfold Position.orFirst
    rw [if_neg (by omega), if_neg (by omega)]
  have horigin : Position.origin.orFirst = .origin := rfl
  rw [Source.at, Source.at, hfirst, horigin]
  exact congrArg (Source.mk text) (move_origin s).symm

/-- **An expression can stand anywhere.** Reading a text that starts at `s` gives what reading it on
    its own gives, value or fault, with every place moved. -/
theorem Call.parse_moved {s : Position} (hline : 1 ≤ s.line) (hcolumn : 1 ≤ s.column)
    (text : Bytes) :
    Call.parse (.at text s) = move s (Call.parse (.at text .origin)) ∧
      ClassPath.parse (.at text s) = move s (ClassPath.parse (.at text .origin)) ∧
      ClassPath.parseWithMethod (.at text s) =
        move s (ClassPath.parseWithMethod (.at text .origin)) ∧
      ValueType.parse (.at text s) = move s (ValueType.parse (.at text .origin)) ∧
      ReturnSpec.parse (.at text s) = move s (ReturnSpec.parse (.at text .origin)) := by
  rw [Source.at_eq_move hline hcolumn]
  have hstart : 1 ≤ (Source.at text .origin).start.line := le_refl _
  refine ⟨?_, ?_, ?_, ?_, ?_⟩
  · exact run_moved hstart fun ts hts => moves_call hts _
  · apply run_moved hstart
    intro ts hts
    apply (moves_path hts).bind
    intro p mid hmid
    apply (moves_expectEnd hmid _).bind
    intro _ mid hmid
    rw [move_toClassPath]
    exact moves_pure hmid p.toClassPath
  · apply run_moved hstart
    intro ts hts
    apply (moves_path hts).bind
    intro p mid hmid
    apply (moves_splitMethod hmid p).bind
    rintro ⟨c, m⟩ mid hmid
    apply (moves_expectEnd hmid _).bind
    intro _ mid hmid
    have hpure := moves_pure (s := s) hmid (c, m.literal)
    rw [move_pair, move_bytes] at hpure
    exact hpure
  · apply run_moved hstart
    intro ts hts
    apply (moves_valueType hts).bind
    intro ty mid hmid
    apply (moves_expectEnd hmid _).bind
    intro _ mid hmid
    exact moves_pure hmid ty
  · apply run_moved hstart
    intro ts hts
    apply (moves_returnSpec hts _).bind
    intro r mid hmid
    apply (moves_expectEnd hmid _).bind
    intro _ mid hmid
    exact moves_pure hmid r

/-- The receiver stands on the line where the text starts, the method on the one below. -/
theorem Call.parse_moved_lines :
    (Call.parse (.at "x\n.f() -> void" ⟨"A.go", 40, 3, 7⟩)).map
        (fun c => (c.target.span.start, c.methodSpan.start)) =
      .ok (⟨"A.go", 40, 3, 7⟩, ⟨"A.go", 43, 4, 2⟩) := by
  rw [(Call.parse_moved (by decide) (by decide) _).1]
  decide +kernel

end Whole
end BridgeCall
