/-
  BridgeCall/Proofs/Expr/Foresight.lean
  =====================================
  **Every construct of call expressions is read with one token of lookahead.**
  The module goes through the readers, one lemma each; the last one is for whole
  calls (`foresees_call`).

  Two loops need an argument of their own.  Reading a group stops at a token that
  no group goes on with, whatever was opened inside it (`groupOf_fault`).  The
  number of parameters that are read is bounded by the tokens that are left, and
  so it depends on what comes after them; reading without a bound does the same
  (`parametersAll`).
-/
import BridgeCall.Proofs.Expr.Lookahead
import Mathlib.Data.List.Infix
import Mathlib.Tactic.Tauto

namespace BridgeCall.Reader

open Grammar

/-! ### Class paths and types -/

section Types

variable {src : Source} {before ts : List Token} {t : Token}

theorem segmentsOf_error {sep : TokenKind} {ts : List Token} {f : Fault}
    (h : segmentsOf sep ts = .error f) : ∃ s t, s ∈ ts ∧ t ∈ ts ∧ f = trailingSeparator s t := by
  fun_induction segmentsOf sep ts with
  | case1 s t rest hs ht ih =>
    cases hmore : segmentsOf sep rest with
    | error g =>
      rw [hmore] at h
      cases h
      obtain ⟨s', t', hs', ht', rfl⟩ := ih hmore
      exact ⟨s', t', by simp [hs'], by simp [ht'], rfl⟩
    | ok p =>
      rw [hmore] at h
      cases h
  | case2 s t rest hs ht =>
    cases h
    exact ⟨s, t, by simp, by simp, rfl⟩
  | case3 s t rest hs => cases h
  | case4 ts hshort => cases h

/-- Behind the segments stands no separator. -/
theorem segmentsOf_stops {sep : TokenKind} (hsep : sep ≠ .eof) {names rest : List Token}
    (hts : Ended ts) (h : segmentsOf sep ts = .ok (names, rest)) : headKind rest ≠ sep := by
  fun_induction segmentsOf sep ts generalizing names rest with
  | case1 s t ts hs ht ih =>
    cases hmore : segmentsOf sep ts with
    | error g =>
      rw [hmore] at h
      cases h
    | ok p =>
      rw [hmore] at h
      cases h
      have htail := hts.tail (by rw [hs]; exact hsep)
      exact ih (htail.tail (by rw [ht]; decide)) hmore
  | case2 s t rest hs ht => cases h
  | case3 s t rest hs =>
    cases h
    exact hs
  | case4 ts hshort =>
    cases h
    obtain ⟨init, e, rfl, he⟩ := hts
    rcases init with _ | ⟨s, _ | ⟨t, init⟩⟩
    · rw [List.nil_append, headKind_cons, he]
      exact Ne.symm hsep
    · exact absurd rfl (hshort s e [])
    · exact absurd rfl (hshort s t (init ++ [e]))

theorem foresees_segments (hts : At src before ts) {sep : TokenKind}
    (hsep : sep ≠ .eof ∧ sep ≠ .error) : Foresees src before 0 ts fun _ => segments sep := by
  constructor
  · intro names mid h
    obtain ⟨used, rfl, hused⟩ := segmentsOf_sound h
    have hstop := segmentsOf_stops hsep.1 hts.ended h
    obtain ⟨t, rest, rfl⟩ :=
      (hts.ended.of_append fun t ht => (hused.clean hsep t ht).1).exists_cons
    exact ⟨used, t, rest, rfl, rfl, Nat.zero_le _, fun _ rest' _ =>
      segmentsOf_complete hused (by simpa using hstop)⟩
  · intro f h
    obtain ⟨s, t, hs, ht, rfl⟩ := segmentsOf_error h
    have hall : ∀ u ∈ ts, u ∈ src.tokens := by
      intro u hu
      simp [hts.tokens, hu]
    constructor
    · unfold trailingSeparator
      by_cases heof : t.kind = .eof
      · exact Fault.on_token (by simp [heof]) (hall s hs)
      · exact Fault.on_token (by simp [heof]) (hall t ht)
    · rintro u ⟨hkind, -⟩
      cases hkind

theorem foresees_path (hts : At src before ts) :
    Foresees src before (lead ts) ts fun _ => path := by
  obtain ⟨t, rest, rfl⟩ := hts.exists_cons
  apply foresees_peekKind
  apply Foresees.ite
  · intro ht
    rw [lead_of_not_ident ht]
    exact foresees_fail hts _ _
  intro ht
  have hident : t.kind = .ident := not_not.mp ht
  rw [lead_of_ident hident]
  apply (foresees_advance hts (by simp [hident])).bind hts
  rintro first c mid - hmid hfirst
  cases hfirst
  apply (foresees_segments hmid (by decide)).bind hmid
  rintro dotted c mid - hmid -
  apply Foresees.ite
  · intro _
    exact foresees_throw (Fault.on_token rfl hts.mem) fun _ hb => by cases hb.1
  intro _
  apply (foresees_segments hmid (by decide)).bind hmid
  rintro nested c mid - hmid -
  exact foresees_pure hmid fun _ _ => rfl

theorem foresees_valueType (hts : At src before ts) :
    Foresees src before (lead ts) ts fun _ => valueType := by
  obtain ⟨t, rest, rfl⟩ := hts.exists_cons
  apply foresees_peek
  apply Foresees.ite
  · intro ht
    rw [lead_of_not_ident ht]
    exact foresees_fail hts _ _
  intro ht
  have hident : t.kind = .ident := not_not.mp ht
  cases HostPrimitive.ofName? t.literal with
  | some h =>
    rw [lead_of_ident hident]
    apply (foresees_advance hts (by simp [hident])).bind hts
    rintro _ c mid - hmid -
    exact foresees_pure hmid fun _ _ => rfl
  | none =>
    cases Primitive.ofName? t.literal with
    | some p =>
      rw [lead_of_ident hident]
      apply (foresees_advance hts (by simp [hident])).bind hts
      rintro _ c mid - hmid -
      exact foresees_pure hmid fun _ _ => rfl
    | none =>
      apply (foresees_path hts).bind hts
      rintro p c mid - hmid -
      exact foresees_pure hmid fun _ _ => rfl

end Types

/-! ### Return specifications -/

section Returns

variable {src : Source} {before ts : List Token} {t : Token}

/-- A fault at a type that was read. -/
theorem on_valueType (hts : At src before ts) {ty : ValueType} {rest : List Token}
    (h : valueType ts = .ok (ty, rest)) {f : Fault} (hspan : f.span = ty.span) :
    f.On src.tokens := by
  obtain ⟨used, rfl, hty⟩ := valueType_sound h
  obtain ⟨htype, hne⟩ := IsType.span_eq hty
  exact ⟨used, ⟨before, rest, by simp [hts.tokens]⟩, hne, hspan.trans htype⟩

theorem foresees_option (hts : At src before (t :: ts)) (ht : t.kind ≠ .eof) :
    Foresees src before 1 (t :: ts) fun _ => option := by
  apply (foresees_advance hts ht).bind hts
  rintro start c mid - hmid -
  apply (foresees_expect hmid (by decide) _ _).bind hmid
  rintro _ c mid - hty -
  apply ((foresees_valueType hty).mono (Nat.zero_le _)).bind hty
  rintro ty c mid - hmid hrun
  have hno : ∀ used, Foresees src used 0 mid fun _ =>
      (if ty.isVoid then throw { problem := .voidOption, span := ty.span }
        else throw { problem := .primitiveOption ty.keyword, span := ty.span } : Reader Success) := by
    intro used
    apply Foresees.ite
    · intro _
      exact foresees_throw (on_valueType hty hrun rfl) fun _ hb => by cases hb.1
    · intro _
      exact foresees_throw (on_valueType hty hrun rfl) fun _ hb => by cases hb.1
  cases ty with
  | java p r => exact hno _
  | host h r => exact hno _
  | object cp =>
    apply (foresees_expect hmid (by decide) _ _).bind hmid
    rintro stop c mid - hmid -
    exact foresees_pure hmid fun _ _ => rfl

theorem foresees_success (hts : At src before ts) :
    Foresees src before (lead ts) ts fun _ => success := by
  apply foresees_atKeyword
  apply Foresees.ite
  · intro hword
    obtain ⟨t, rest, rfl, hkind, -⟩ := startsWithWord_eq_true hword
    rw [lead_of_ident hkind]
    exact foresees_option hts (by simp [hkind])
  · intro _
    apply (foresees_valueType hts).bind hts
    rintro ty c mid - hmid -
    exact foresees_pure hmid fun _ _ => rfl

theorem upToClosingGt_again {depth : Nat} {ts found rest : List Token}
    (h : upToClosingGt depth ts = (found, t :: rest)) (rest' : List Token) :
    upToClosingGt depth (found ++ t :: rest') = (found, t :: rest') := by
  induction ts generalizing depth found with
  | nil => cases h
  | cons u us ih =>
    rw [upToClosingGt] at h
    split at h
    · rename_i hstop
      cases h
      rw [List.nil_append, upToClosingGt, if_pos hstop]
    · rename_i hgo
      cases hmore : upToClosingGt
          (if u.kind = .lt then depth + 1 else if u.kind = .gt then depth - 1 else depth) us with
      | mk as bs =>
        dsimp only at h
        rw [hmore] at h
        cases h
        rw [List.cons_append, upToClosingGt, if_neg hgo]
        dsimp only
        rw [ih hmore]

theorem foresees_upToClosingGt (hts : At src before ts) :
    Foresees src before 0 ts fun _ => (modifyGet (upToClosingGt 0) : Reader (List Token)) := by
  constructor
  · intro found mid h
    have heq : upToClosingGt 0 ts = (found, mid) := Except.ok.inj h
    obtain ⟨happend, hkinds⟩ := upToClosingGt_append 0 ts
    rw [heq] at happend hkinds
    obtain ⟨t, rest, rfl⟩ := ((happend ▸ hts.ended).of_append hkinds).exists_cons
    refine ⟨found, t, rest, happend.symm, rfl, Nat.zero_le _, fun _ rest' _ => ?_⟩
    exact congrArg Except.ok (upToClosingGt_again heq rest')
  · intro f h
    cases h

theorem upToClosingGt_took {c found mid : List Token} (hsplit : ts = c ++ mid)
    (h : (modifyGet (upToClosingGt 0) : Reader (List Token)) ts = .ok (found, mid)) :
    c = found := by
  have heq : upToClosingGt 0 ts = (found, mid) := Except.ok.inj h
  have happend := (upToClosingGt_append 0 ts).1
  rw [heq] at happend
  exact took_of_split _ hsplit happend.symm

theorem foresees_errorType (hts : At src before ts) :
    Foresees src before 0 ts fun s => errorType s := by
  apply (foresees_upToClosingGt hts).bind hts
  rintro found c mid rfl hmid hrun
  obtain rfl := upToClosingGt_took rfl hrun
  cases c with
  | nil => exact foresees_fail hmid _ _
  | cons a found =>
    simp only [List.head?_cons, List.getLast?_eq_some_getLast (List.cons_ne_nil a found)]
    have hstretch : a :: found <:+: src.tokens := ⟨before, mid, by simp [hts.tokens]⟩
    have hhere : Foresees src (before ++ a :: found) 0 mid fun _ =>
        (if textOf src (a :: found) = ("String" : Bytes) then pure ()
          else throw
            { problem := .unsupportedErrorType (textOf src (a :: found))
              span := a.span.to ((a :: found).getLast (by simp)).span } : Reader Unit) := by
      apply Foresees.ite
      · intro _
        exact foresees_pure hmid fun _ _ => rfl
      · intro _
        refine foresees_throw ⟨a :: found, hstretch, by simp, ?_⟩ fun _ hb => by cases hb.1
        rw [spanOf, Span.to, List.headD_cons, List.getLastD_cons, List.getLast_eq_getLastD]
    refine hhere.decided rfl ?_
    intro c t rest _ _ s rest' htexts
    have hpart : a :: found <:+: before ++ a :: found ++ c := ⟨before, c, by simp⟩
    rw [htexts.textOf hpart (by simp)]

theorem foresees_returnSpec (hts : At src before ts) :
    Foresees src before (lead ts) ts fun s => returnSpec s := by
  apply foresees_atKeyword
  apply Foresees.ite
  · intro hword
    obtain ⟨t, rest, rfl, hkind, -⟩ := startsWithWord_eq_true hword
    rw [lead_of_ident hkind]
    apply (foresees_advance hts (by simp [hkind])).bind hts
    rintro start c mid - hmid -
    apply (foresees_expect hmid (by decide) _ _).bind hmid
    rintro _ c mid - hmid -
    refine (Foresees.mono (n := lead mid) ?_ (Nat.zero_le _))
    apply foresees_atKeyword
    apply Foresees.ite
    · intro _
      obtain ⟨t, rest, rfl⟩ := hmid.exists_cons
      apply foresees_peek
      exact foresees_throw (Fault.on_token rfl hmid.mem) fun _ hb => by cases hb.1
    · intro _
      apply (foresees_success hmid).bind hmid
      rintro ok c mid - hmid -
      apply (foresees_expect hmid (by decide) _ _).bind hmid
      rintro _ c mid - hmid -
      apply (foresees_errorType hmid).bind hmid
      rintro _ c mid - hmid -
      apply (foresees_expect hmid (by decide) _ _).bind hmid
      rintro stop c mid - hmid -
      exact foresees_pure hmid fun _ _ => rfl
  · intro _
    apply (foresees_success hts).bind hts
    rintro ok c mid - hmid -
    exact foresees_pure hmid fun _ _ => rfl

end Returns

/-! ### Groups -/

section Groups

variable {src : Source} {before ts : List Token} {o t : Token}

/-- Reading tokens inside groups turns the openers that are not closed yet, the innermost first, into
    others. -/
inductive Opens : List Token → List Token → List Token → Prop
  | nil {os : List Token} : Opens os [] os
  | opening {t o : Token} {below ts os : List Token} (hopen : t.kind.closer?.isSome = true)
      (rest : Opens (t :: o :: below) ts os) : Opens (o :: below) (t :: ts) os
  | closing {t o b : Token} {below ts os : List Token} (hclose : t.kind.isCloser = true)
      (hmatch : o.kind.closer? = some t.kind) (rest : Opens (b :: below) ts os) :
      Opens (o :: b :: below) (t :: ts) os
  | plain {t o : Token} {below ts os : List Token} (hopen : t.kind.closer? = none)
      (hclose : t.kind.isCloser = false) (herror : t.kind ≠ .error) (heof : t.kind ≠ .eof)
      (rest : Opens (o :: below) ts os) : Opens (o :: below) (t :: ts) os

theorem Opens.groupOf_eq {os ts os' : List Token} (h : Opens os ts os') (seen : List Token) :
    ∃ seen', ∀ rest, groupOf os seen (ts ++ rest) = groupOf os' seen' rest := by
  induction h generalizing seen with
  | nil => exact ⟨seen, fun _ => rfl⟩
  | @opening t _ _ _ _ hopen _ ih =>
    obtain ⟨seen', hrun⟩ := ih (t :: seen)
    exact ⟨seen', fun rest => by rw [List.cons_append, groupOf_open hopen, hrun]⟩
  | @closing t _ b _ _ _ hclose hmatch _ ih =>
    obtain ⟨seen', hrun⟩ := ih (t :: seen)
    exact ⟨seen', fun rest => by rw [List.cons_append, groupOf_close b hmatch hclose, hrun]⟩
  | @plain t _ _ _ _ hopen hclose herror heof _ ih =>
    obtain ⟨seen', hrun⟩ := ih (t :: seen)
    exact ⟨seen', fun rest => by
      rw [List.cons_append, groupOf_plain hopen hclose herror heof, hrun]⟩

theorem Opens.subset {os ts os' : List Token} (h : Opens os ts os') : os' ⊆ os ++ ts := by
  induction h with
  | nil => simp
  | opening _ _ ih | closing _ _ _ ih | plain _ _ _ _ _ ih =>
    intro u hu
    have hmem := ih hu
    simp only [List.cons_append, List.mem_cons, List.mem_append] at hmem ⊢
    tauto

/-- Where reading a group fails: at a token that no group with the openers before it goes on
    with. -/
theorem groupOf_fault {below seen : List Token} {f : Fault} (hts : Ended ts)
    (h : groupOf (o :: below) seen ts = .error f) :
    ∃ c t rest b bs, ts = c ++ t :: rest ∧ Opens (o :: below) c (b :: bs) ∧
      (f.span = t.span ∨ f.span = b.span) ∧ (∀ u, f.Blames u → u = t) ∧
      ∀ seen' rest', ∃ f', groupOf (b :: bs) seen' (t :: rest') = .error f' := by
  induction ts generalizing o below seen with
  | nil =>
    obtain ⟨_, _, hnil⟩ := hts.exists_cons
    cases hnil
  | cons t rest ih =>
    by_cases heof : t.kind = .eof
    · rw [groupOf_eof heof] at h
      cases h
      refine ⟨[], t, rest, o, below, rfl, .nil, .inr rfl, ?_, fun _ _ => ⟨_, groupOf_eof heof⟩⟩
      rintro u ⟨-, hu⟩
      exact (Option.some.inj hu).symm
    by_cases herror : t.kind = .error
    · rw [groupOf_error herror] at h
      cases h
      refine ⟨[], t, rest, o, below, rfl, .nil, .inl rfl, ?_, fun _ _ => ⟨_, groupOf_error herror⟩⟩
      rintro u ⟨-, hu⟩
      cases hu
    have hrest := hts.tail heof
    by_cases hopen : t.kind.closer?.isSome = true
    · rw [groupOf_open hopen] at h
      obtain ⟨c, u, more, b, bs, rfl, hopens, hfails⟩ := ih hrest h
      exact ⟨t :: c, u, more, b, bs, rfl, .opening hopen hopens, hfails⟩
    by_cases hclose : t.kind.isCloser = true
    · by_cases hmatch : o.kind.closer? = some t.kind
      · cases below with
        | nil =>
          rw [groupOf_close_last hmatch hclose] at h
          cases h
        | cons b below =>
          rw [groupOf_close b hmatch hclose] at h
          obtain ⟨c, u, more, b', bs, rfl, hopens, hfails⟩ := ih hrest h
          exact ⟨t :: c, u, more, b', bs, rfl, .closing hclose hmatch hopens, hfails⟩
      · rw [groupOf_mismatch hclose hmatch] at h
        cases h
        refine ⟨[], t, rest, o, below, rfl, .nil, .inl rfl, ?_,
          fun _ _ => ⟨_, groupOf_mismatch hclose hmatch⟩⟩
        rintro u ⟨-, hu⟩
        exact (Option.some.inj hu).symm
    · have hnone : t.kind.closer? = none := by simpa using hopen
      have hplain : t.kind.isCloser = false := by simpa using hclose
      rw [groupOf_plain hnone hplain herror heof] at h
      obtain ⟨c, u, more, b, bs, rfl, hopens, hfails⟩ := ih hrest h
      exact ⟨t :: c, u, more, b, bs, rfl, .plain hnone hplain herror heof hopens, hfails⟩

theorem foresees_group (hts : At src before (o :: ts)) (ho : o.kind ≠ .eof) :
    Foresees src before 1 (o :: ts) fun _ => group := by
  have hended := hts.ended.tail ho
  constructor
  · intro g mid h
    obtain ⟨rfl, hbody, hmatch⟩ := group_eq_ok.mp h
    have hclose : g.closer.kind ≠ .eof := (clean_of_closer? hmatch).2.1
    obtain ⟨t, rest, rfl⟩ :=
      ((hended.of_append fun t ht => (hbody.clean t ht).1).tail hclose).exists_cons
    refine ⟨o :: (g.contents ++ [g.closer]), t, rest, by simp, rfl, by simp, fun _ rest' _ => ?_⟩
    have hrun : group (o :: (g.contents ++ g.closer :: t :: rest')) = .ok (g, t :: rest') :=
      group_eq_ok.mpr ⟨rfl, hbody, hmatch⟩
    rw [List.cons_append, List.append_assoc]
    exact hrun
  · intro f h
    obtain ⟨c, t, rest, b, bs, rfl, hopens, hspan, hblames, hfails⟩ := groupOf_fault hended h
    have hall : ∀ u ∈ o :: (c ++ t :: rest), u ∈ src.tokens := by
      intro u hu
      rw [hts.tokens]
      exact List.mem_append_right _ hu
    constructor
    · rcases hspan with hspan | hspan
      · exact Fault.on_token hspan (hall t (by simp))
      · refine Fault.on_token hspan (hall b ?_)
        have hb : b ∈ [o] ++ c := hopens.subset (by simp)
        simp only [List.cons_append, List.nil_append, List.mem_cons, List.mem_append] at hb ⊢
        tauto
    · intro u hu
      rw [hblames u hu]
      refine ⟨o :: c, rest, rfl, by simp, fun _ rest' _ => ?_⟩
      obtain ⟨seen, hrun⟩ := hopens.groupOf_eq []
      obtain ⟨f', hf'⟩ := hfails seen rest'
      exact ⟨f', (hrun _).trans hf'⟩

/-- A group that must not be empty, as the value of a parameter. -/
def value : Reader Group := do
  let g ← group
  if g.contents.isEmpty then
    throw
      { problem := .emptyParameterValue
        span := g.closer.span
        expected := [.ident]
        got := some g.closer }
  else return g

theorem value_bind {α : Type} (k : Group → Reader α) :
    value >>= k = group >>= fun g =>
      if g.contents.isEmpty then
        throw
          { problem := .emptyParameterValue
            span := g.closer.span
            expected := [.ident]
            got := some g.closer }
      else k g := by
  rw [value, bind_assoc]
  congr 1
  funext g
  split
  · rfl
  · rw [pure_bind]

theorem value_eq_ok {rest : List Token} {g : Group} (h : value (o :: ts) = .ok (g, rest)) :
    ts = g.contents ++ g.closer :: rest ∧ Balanced g.contents ∧ g.contents ≠ [] ∧
      o.kind.closer? = some g.closer.kind := by
  obtain ⟨g', mid, hgroup, h⟩ := bind_eq_ok.mp h
  split at h
  · cases h
  · rename_i hne
    cases h
    obtain ⟨hts, hbody, hmatch⟩ := group_eq_ok.mp hgroup
    exact ⟨hts, hbody, by simpa using hne, hmatch⟩

theorem value_took {c mid : List Token} {g : Group} (hsplit : o :: ts = c ++ mid)
    (h : value (o :: ts) = .ok (g, mid)) : c = o :: (g.contents ++ [g.closer]) := by
  obtain ⟨rfl, -, -, -⟩ := value_eq_ok h
  exact took_of_split _ hsplit (by simp)

/-- An empty value is known from the closer right behind its opener. -/
theorem foresees_value (hts : At src before (o :: ts)) (ho : o.kind ≠ .eof) :
    Foresees src before 1 (o :: ts) fun _ => value := by
  by_cases hempty : ∃ g rest, group (o :: ts) = .ok (g, rest) ∧ g.contents = []
  · obtain ⟨⟨contents, closer⟩, rest, hgroup, rfl⟩ := hempty
    obtain ⟨rfl, hbody, hmatch⟩ := group_eq_ok.mp hgroup
    have hrun : ∀ rest', value (o :: closer :: rest') =
        .error
          { problem := .emptyParameterValue
            span := closer.span
            expected := [.ident]
            got := some closer } := by
      intro rest'
      have hagain : group (o :: closer :: rest') = .ok (⟨[], closer⟩, rest') :=
        group_eq_ok.mpr ⟨rfl, hbody, hmatch⟩
      rw [value, bind_of_ok hagain]
      rfl
    constructor
    · intro g mid h
      rw [List.nil_append, hrun] at h
      cases h
    · intro f h
      rw [List.nil_append, hrun] at h
      cases h
      refine ⟨Fault.on_token rfl (by simp [hts.tokens]), ?_⟩
      rintro u ⟨-, hu⟩
      cases hu
      exact ⟨[o], rest, rfl, le_refl _, fun _ rest' _ => ⟨_, hrun rest'⟩⟩
  · apply (foresees_group hts ho).bind hts
    rintro g c mid - hmid hgroup
    have hne : ¬ g.contents.isEmpty = true := by
      intro hg
      exact hempty ⟨g, mid, hgroup, List.isEmpty_iff.mp hg⟩
    simp only [if_neg hne]
    exact foresees_pure hmid fun _ _ => rfl

theorem elementsOf_error {depth : Nat} {seen ts : List Token} {f : Fault}
    (h : elementsOf depth seen ts = .error f) : f.got = none ∧ ∃ t ∈ ts, f.span = t.span := by
  induction ts generalizing depth seen with
  | nil =>
    rw [elementsOf] at h
    cases h
  | cons t rest ih =>
    rw [elementsOf] at h
    split at h
    · split at h
      · cases h
        exact ⟨rfl, t, by simp, rfl⟩
      · cases hmore : elementsOf 0 [] rest with
        | ok es =>
          rw [hmore] at h
          cases h
        | error g =>
          rw [hmore] at h
          cases h
          obtain ⟨hgot, u, hu, hspan⟩ := ih hmore
          exact ⟨hgot, u, List.mem_cons_of_mem _ hu, hspan⟩
    · obtain ⟨hgot, u, hu, hspan⟩ := ih h
      exact ⟨hgot, u, List.mem_cons_of_mem _ hu, hspan⟩

theorem arrayElements?_error {ts : List Token} {f : Fault} (h : arrayElements? ts = .error f) :
    f.got = none ∧ ∃ t ∈ ts, f.span = t.span := by
  cases ts with
  | nil => cases h
  | cons t rest =>
    rw [arrayElements?] at h
    split at h
    · cases hrun : elementsOf 0 [] rest.dropLast with
      | ok es =>
        rw [hrun] at h
        cases h
      | error g =>
        rw [hrun] at h
        cases h
        obtain ⟨hgot, u, hu, hspan⟩ := elementsOf_error hrun
        exact ⟨hgot, u, List.mem_cons_of_mem _ (List.mem_of_mem_dropLast hu), hspan⟩
    · cases h

theorem foresees_arrayElements? (hts : At src before ts) {contents : List Token}
    (hpart : contents <:+: before) :
    Foresees src before 0 ts fun _ =>
      (liftM (arrayElements? contents) : Reader (Option (List (List Token)))) := by
  cases hrun : arrayElements? contents with
  | ok es => exact foresees_pure hts fun _ _ => rfl
  | error f =>
    obtain ⟨hgot, t, ht, hspan⟩ := arrayElements?_error hrun
    have hmem : t ∈ src.tokens := by
      rw [hts.tokens]
      exact List.mem_append_left _ (hpart.subset ht)
    refine foresees_throw (f := fun _ => f) (Fault.on_token hspan hmem) ?_
    rintro u ⟨-, hu⟩
    rw [hgot] at hu
    cases hu

end Groups

/-! ### Calls -/

section Calls

variable {src : Source} {before ts : List Token} {t : Token}

/-- Where a path was read. -/
theorem on_path (hts : At src before ts) {p : Path} {rest : List Token}
    (h : path ts = .ok (p, rest)) {f : Fault} (hspan : f.span = p.span) : f.On src.tokens := by
  obtain ⟨used, rfl, hspelt⟩ := path_sound h
  obtain ⟨ds, ns, hused, -, -⟩ := hspelt.parts
  exact ⟨used, ⟨before, rest, by simp [hts.tokens]⟩, by simp [hused], hspan.trans hspelt.span_eq⟩

theorem foresees_splitMethod (hts : At src before ts) {p : Path}
    (hp : ∀ f : Fault, f.span = p.span → f.On src.tokens) :
    Foresees src before 0 ts fun _ => splitMethod p := by
  unfold splitMethod
  apply Foresees.ite
  · intro _
    apply Foresees.ite
    · intro _
      exact foresees_throw (hp _ rfl) fun _ hb => by cases hb.1
    · intro _
      exact foresees_pure hts fun _ _ => rfl
  · intro _
    apply (foresees_expect hts (by decide) _ _).bind hts
    rintro _ c mid - hmid -
    apply (foresees_expect hmid (by decide) _ _).bind hmid
    rintro m c mid - hmid -
    exact foresees_pure hmid fun _ _ => rfl

/-- The method behind a receiver, whose text is that of tokens consumed before. -/
theorem foresees_method (hts : At src before ts) {tg : Source → Target}
    (htg : ∀ src', SameTexts src src' before → tg src' = tg src) :
    Foresees src before 0 ts fun s => do
      let _ ← expect .dot .noReceiverDot []
      let m ← expect .ident .noMethod []
      return (tg s, m) := by
  apply (foresees_expect hts (by decide) _ _).bind hts
  rintro _ c mid - hmid -
  apply (foresees_expect hmid (by decide) _ _).bind hmid
  rintro m c' mid - hmid -
  apply foresees_pure hmid
  intro src' htexts
  rw [htg src' (htexts.part ⟨[], c ++ c', by simp⟩)]

theorem foresees_target (hts : At src before ts) :
    Foresees src before 0 ts fun s => target s := by
  obtain ⟨t, rest, rfl⟩ := hts.exists_cons
  apply foresees_peek
  cases hk : t.kind with
  | static =>
    apply ((foresees_advance hts (by simp [hk])).mono (Nat.zero_le _)).bind hts
    rintro _ c mid - hpath -
    apply ((foresees_path hpath).mono (Nat.zero_le _)).bind hpath
    rintro p c mid - hmid hrun
    obtain ⟨u, mid, rfl⟩ := hmid.exists_cons
    apply foresees_peekKind
    simp only [pure_bind]
    apply Foresees.ite
    · intro hu
      apply ((foresees_advance hmid (by simp [hu])).mono (Nat.zero_le _)).bind hmid
      rintro _ c mid - hmid -
      apply (foresees_expect hmid (by decide) _ _).bind hmid
      rintro m c mid - hmid -
      exact foresees_pure hmid fun _ _ => rfl
    · intro _
      apply (foresees_splitMethod hmid fun f hspan => on_path hpath hrun hspan).bind hmid
      rintro found c mid - hmid -
      exact foresees_pure hmid fun _ _ => rfl
  | lparen | lbrace =>
    apply ((foresees_group hts (by simp [hk])).mono (Nat.zero_le _)).bind hts
    rintro g c mid hsplit hmid hgroup
    obtain rfl := group_took hsplit hgroup
    apply Foresees.ite
    · intro _
      refine foresees_throw (Fault.on_token rfl ?_) fun _ hb => by cases hb.2
      simp [hmid.tokens]
    · intro hne
      apply foresees_method hmid
      intro src' htexts
      rw [htexts.textOf ⟨before ++ [t], [g.closer], by simp⟩ (by simpa using hne)]
  | ident =>
    apply ((foresees_advance hts (by simp [hk])).mono (Nat.zero_le _)).bind hts
    rintro u c mid - hmid -
    exact foresees_method hmid fun _ _ => rfl
  | _ => exact foresees_fail hts _ _

theorem foresees_parameterType (hts : At src before ts) :
    Foresees src before 0 ts fun _ => parameterType := by
  obtain ⟨t, rest, rfl⟩ := hts.exists_cons
  apply foresees_peekKind
  apply Foresees.ite
  · intro hk
    apply ((foresees_advance hts (by simp [hk])).mono (Nat.zero_le _)).bind hts
    rintro _ c mid - hmid -
    apply ((foresees_valueType hmid).mono (Nat.zero_le _)).bind hmid
    rintro ty c mid - hmid -
    apply (foresees_expect hmid (by decide) _ _).bind hmid
    rintro _ c mid - hmid -
    exact foresees_pure hmid fun _ _ => rfl
  · intro _
    apply ((foresees_valueType hts).mono (Nat.zero_le _)).bind hts
    rintro ty c mid - hmid -
    exact foresees_pure hmid fun _ _ => rfl

/-- Where the type of a parameter was read. -/
theorem on_parameterType (hts : At src before ts) {array : Bool} {ty : ValueType}
    {rest : List Token} (h : parameterType ts = .ok ((array, ty), rest)) {f : Fault}
    (hspan : f.span = ty.span) : f.On src.tokens := by
  obtain ⟨used, rfl, htype⟩ := parameterType_sound h
  cases array with
  | true =>
    obtain ⟨l, us, r, rfl, -, hty, -⟩ := htype
    obtain ⟨hus, hne⟩ := IsType.span_eq hty
    exact ⟨us, ⟨before ++ [l], r :: rest, by simp [hts.tokens]⟩, hne, hspan.trans hus⟩
  | false =>
    obtain ⟨hus, hne⟩ := IsType.span_eq htype
    exact ⟨used, ⟨before, rest, by simp [hts.tokens]⟩, hne, hspan.trans hus⟩

/-- A parameter, with its value read as one step. -/
theorem parameter_eq (src : Source) :
    parameter src = do
      let start ← peek
      let (array, ty) ← parameterType
      if ty.isVoid then throw { problem := .voidParameter, span := ty.span }
      else if (← peekKind) ≠ .lparen then fail .noParameterValue [.lparen]
      else
        let g ← value
        let span := start.span.to g.closer.span
        if !array then return ⟨ty, .single (textOf src g.contents), span⟩
        else match ← arrayElements? g.contents with
          | some es => return ⟨ty, .literal (es.map (textOf src)), span⟩
          | none => return ⟨ty, .array (textOf src g.contents), span⟩ := by
  simp only [value_bind]
  rfl

theorem foresees_parameter (hts : At src before ts) :
    Foresees src before 0 ts fun s => parameter s := by
  obtain ⟨t, rest, rfl⟩ := hts.exists_cons
  simp only [parameter_eq]
  apply foresees_peek
  apply (foresees_parameterType hts).bind hts
  rintro ⟨array, ty⟩ c mid - hmid hty
  obtain ⟨o, mid, rfl⟩ := hmid.exists_cons
  dsimp only
  apply Foresees.ite
  · intro _
    exact foresees_throw (on_parameterType hts hty rfl) fun _ hb => by cases hb.1
  intro _
  apply foresees_peekKind
  apply Foresees.ite
  · intro _
    exact foresees_fail hmid _ _
  intro ho
  have hkind : o.kind ≠ .eof := by
    rw [not_not.mp ho]
    decide
  apply ((foresees_value hmid hkind).mono (Nat.zero_le _)).bind hmid
  rintro g c' mid' hsplit hmid' hvalue
  obtain ⟨-, hbody, hne, -⟩ := value_eq_ok hvalue
  obtain rfl := value_took hsplit hvalue
  have hcontents : g.contents <:+: before ++ c ++ o :: (g.contents ++ [g.closer]) :=
    ⟨before ++ c ++ [o], [g.closer], by simp⟩
  apply Foresees.ite
  · intro _
    apply foresees_pure hmid'
    intro src' htexts
    rw [htexts.textOf hcontents hne]
  intro _
  apply (foresees_arrayElements? hmid' hcontents).bind hmid'
  rintro found c'' mid'' - hmid'' hfound
  obtain ⟨hfound, -⟩ := liftM_eq_ok.mp hfound
  have hcontents' := hcontents.trans ⟨[], c'', rfl⟩
  rcases arrayElements?_sound hbody hfound with ⟨rfl, -⟩ | ⟨lb, inner, rb, items, rfl, hlist, -, hitems, -⟩
  · apply foresees_pure hmid''
    intro src' htexts
    rw [htexts.textOf hcontents' hne]
  · apply foresees_pure hmid''
    intro src' htexts
    have hitem : items.map (textOf src') = items.map (textOf src) := by
      apply List.map_congr_left
      intro item hitem
      have hinner : inner <:+: g.contents := ⟨[lb], [rb], by simp [hlist]⟩
      exact htexts.textOf (((hitems.part item hitem).trans hinner).trans hcontents')
        (hitems.ne_nil item hitem)
    rw [hitem]

/-- One round of reading parameters; `more` reads those behind a comma. -/
def parametersWith (src : Source) (more : Reader (List Parameter)) : Reader (List Parameter) := do
  match ← peekKind with
  | .rparen => return []
  | .eof => fail .unclosedParameterList [.rparen]
  | _ =>
    let p ← parameter src
    if (← peekKind) = .comma then
      let _ ← advance
      return p :: (← more)
    else return [p]

theorem parametersUpTo_succ (src : Source) (fuel : Nat) :
    parametersUpTo src (fuel + 1) = parametersWith src (parametersUpTo src fuel) := rfl

theorem bind_congr_run {α β : Type} {r q : Reader α} {k : α → Reader β} (h : r ts = q ts) :
    (r >>= k) ts = (q >>= k) ts := by
  change Except.bind (r ts) (fun p => k p.1 p.2) = Except.bind (q ts) (fun p => k p.1 p.2)
  rw [h]

/-- A round leaves less than it found, by a parameter and a comma. -/
theorem parametersWith_congr {more more' : Reader (List Parameter)}
    (h : ∀ us, us.length + 2 ≤ ts.length → more us = more' us) :
    parametersWith src more ts = parametersWith src more' ts := by
  have hround : ∀ {k : Reader (List Parameter)}, headKind ts ≠ .rparen → headKind ts ≠ .eof →
      parametersWith src k ts = (do
        let p ← parameter src
        if (← peekKind) = .comma then
          let _ ← advance
          return p :: (← k)
        else return [p] : Reader (List Parameter)) ts := by
    intro k hrparen heof
    rw [parametersWith, bind_of_ok peekKind_run]
    cases hk : headKind ts with
    | rparen => exact absurd hk hrparen
    | eof => exact absurd hk heof
    | _ => rfl
  by_cases hrparen : headKind ts = .rparen
  · rw [parametersWith, parametersWith, bind_of_ok peekKind_run, bind_of_ok peekKind_run, hrparen]
  by_cases heof : headKind ts = .eof
  · rw [parametersWith, parametersWith, bind_of_ok peekKind_run, bind_of_ok peekKind_run, heof]
  rw [hround hrparen heof, hround hrparen heof]
  cases hp : parameter src ts with
  | error f => rw [bind_of_error hp, bind_of_error hp]
  | ok r =>
    obtain ⟨p, mid⟩ := r
    rw [bind_of_ok hp, bind_of_ok hp, bind_of_ok peekKind_run, bind_of_ok peekKind_run]
    split
    · rename_i hcomma
      obtain ⟨used, rfl, hused⟩ := parameter_sound hp
      obtain ⟨comma, us, rfl, -⟩ := eq_cons_of_headKind hcomma (by decide)
      obtain ⟨_, _, _, _, _, rfl, -⟩ := parts_of_isParameter hused
      have hus : more us = more' us := by
        apply h
        simp only [List.length_append, List.length_cons]
        omega
      rw [bind_of_ok advance_run, bind_of_ok advance_run]
      exact bind_congr_run hus
    · rfl

theorem parametersUpTo_of_le {fuel fuel' : Nat} (hfuel : ts.length ≤ fuel) (hpos : 1 ≤ fuel)
    (hle : fuel ≤ fuel') : parametersUpTo src fuel' ts = parametersUpTo src fuel ts := by
  induction fuel generalizing ts fuel' with
  | zero => omega
  | succ fuel ih =>
    obtain ⟨fuel', rfl⟩ : ∃ n, fuel' = n + 1 := ⟨fuel' - 1, by omega⟩
    rw [parametersUpTo_succ, parametersUpTo_succ]
    apply parametersWith_congr
    intro us hus
    exact ih (by omega) (by omega) (by omega)

/-- Parameters up to the closing parenthesis, however many there are. -/
def parametersAll (src : Source) : Reader (List Parameter) :=
  fun ts => parametersUpTo src (ts.length + 1) ts

theorem parametersAll_eq (src : Source) :
    parametersAll src = parametersWith src (parametersAll src) := by
  funext ts
  rw [parametersAll, parametersUpTo_succ]
  apply parametersWith_congr
  intro us hus
  exact parametersUpTo_of_le (by omega) (by omega) (by omega)

theorem parametersUpTo_get {α : Type} {us : List Token} (hus : us ≠ [])
    {k : List Parameter → Reader α} :
    ((do k (← parametersUpTo src (← get).length)) : Reader α) us = (parametersAll src >>= k) us := by
  have hpos : 1 ≤ us.length := List.length_pos_iff.mpr hus
  rw [bind_of_ok get_run]
  apply bind_congr_run
  exact (parametersUpTo_of_le (le_refl _) hpos (Nat.le_succ _)).symm

theorem foresees_parametersAll (hts : At src before ts) :
    Foresees src before 0 ts fun s => parametersAll s := by
  induction hn : ts.length using Nat.strongRecOn generalizing before ts with
  | ind n ih =>
    obtain ⟨t, rest, rfl⟩ := hts.exists_cons
    have hround : (fun s => parametersAll s) = fun s => parametersWith s (parametersAll s) :=
      funext parametersAll_eq
    rw [hround]
    apply foresees_peekKind
    have hmore : Foresees src before 0 (t :: rest) fun s => do
        let p ← parameter s
        if (← peekKind) = .comma then
          let _ ← advance
          return p :: (← parametersAll s)
        else return [p] := by
      apply (foresees_parameter hts).bind hts
      rintro p c mid hsplit hmid -
      obtain ⟨u, mid, rfl⟩ := hmid.exists_cons
      apply foresees_peekKind
      apply Foresees.ite
      · intro hu
        apply ((foresees_advance hmid (by simp [hu])).mono (Nat.zero_le _)).bind hmid
        rintro _ c' mid' - hmid' hadvance
        cases hadvance
        have hshort : mid.length < n := by
          rw [← hn, hsplit, List.length_append, List.length_cons]
          omega
        apply (ih mid.length hshort hmid' rfl).bind hmid'
        rintro ps c'' mid'' - hmid'' -
        exact foresees_pure hmid'' fun _ _ => rfl
      · intro _
        exact foresees_pure hmid fun _ _ => rfl
    cases hk : t.kind with
    | rparen => exact foresees_pure hts fun _ _ => rfl
    | eof => exact foresees_fail hts _ _
    | _ => exact hmore

theorem foresees_parameters (hts : At src before ts) :
    Foresees src before 0 ts fun s => parameters s := by
  apply (foresees_expect hts (by decide) _ _).bind hts
  rintro _ c mid - hmid -
  have hall : Foresees src (before ++ c) 0 mid fun s => do
      let ps ← parametersAll s
      let _ ← expect .rparen .noParameterEnd [.comma]
      return ps := by
    apply (foresees_parametersAll hmid).bind hmid
    rintro ps c' mid' - hmid' -
    apply (foresees_expect hmid' (by decide) _ _).bind hmid'
    rintro _ c'' mid'' - hmid'' -
    exact foresees_pure hmid'' fun _ _ => rfl
  exact hall.congr hmid fun s us hus => parametersUpTo_get hus

theorem foresees_call (hts : At src before ts) :
    Foresees src before 0 ts fun s => call s := by
  obtain ⟨t, rest, rfl⟩ := hts.exists_cons
  apply foresees_peek
  apply (foresees_target hts).bind hts
  rintro ⟨tg, m⟩ c mid - hmid -
  apply (foresees_parameters hmid).bind hmid
  rintro ps c mid - hmid -
  apply (foresees_expect hmid (by decide) _ _).bind hmid
  rintro _ c mid - hmid -
  apply ((foresees_returnSpec hmid).mono (Nat.zero_le _)).bind hmid
  rintro r c mid - hmid -
  apply (foresees_expectEnd hmid _).bind hmid
  rintro _ c mid - hmid -
  exact foresees_pure hmid fun _ _ => rfl

end Calls

end BridgeCall.Reader
