/-
  BridgeCall/Proofs/Expr/Viability.lean
  =====================================
  **What was read so far can be completed.**  When a reader blames a token, the
  tokens in front of it are the start of a call: a few words and marks complete
  them.  Inside a group the delimiters that are still open are closed, with a name
  before the last of them, so that the group is not empty and no list either.

  The one exception is an array of `void`, which is refused only behind its
  closing bracket.

  `Viable` states this for one reader at one place.  Each lemma about a reader
  takes as a hypothesis that the construct which it reads can be completed there,
  and the construct around it provides that.
-/
import BridgeCall.Proofs.Expr.Foresight

namespace BridgeCall.Reader

open Grammar

/-! ### Completions -/

/-- What completes a call: a name, the words and marks of the grammar, and all closers. -/
def vocabulary : List (TokenKind × Bytes) :=
  [(.ident, "x"), (.ident, "String"), (.lparen, "("), (.rparen, ")"), (.rbrace, "\x7d"),
    (.rbracket, "]"), (.dot, "."), (.comma, ","), (.lt, "<"), (.gt, ">"), (.arrow, "->")]

/-- Tokens that show words of the vocabulary. -/
def Plain (ts : List Token) : Prop := ∀ t ∈ ts, t.symbol ∈ vocabulary

instance (ts : List Token) : Decidable (Plain ts) := inferInstanceAs (Decidable (∀ t ∈ ts, _))

theorem Plain.append {ts us : List Token} (hts : Plain ts) (hus : Plain us) : Plain (ts ++ us) :=
  List.forall_mem_append.mpr ⟨hts, hus⟩

/-- A token of a completion, which stands nowhere. -/
def mark (kind : TokenKind) (literal : Bytes) : Token := ⟨kind, literal, default⟩

def name : Token := mark .ident "x"

/-- The closer of an opener. -/
def closerOf (o : Token) : Token :=
  match o.kind with
  | .lbrace => mark .rbrace "\x7d"
  | .lbracket => mark .rbracket "]"
  | _ => mark .rparen ")"

/-- A class path, which is a type wherever one may stand. -/
def someClass : List Token := [name, mark .dot ".", name]

/-- Some words of the vocabulary complete the tokens to a call. -/
def Completable (src : Source) (us : List Token) : Prop :=
  ∃ ext c, Plain ext ∧ IsCall src (us ++ ext) c

/-- The tokens end with an opening bracket and `void`. -/
def AtVoid (us : List Token) : Prop :=
  ∃ (init : List Token) (l v : Token), us = init ++ [l, v] ∧ l.kind = .lbracket ∧ v.kind = .ident ∧
    v.literal = ("void" : Bytes)

theorem Completable.before {src : Source} {vs : List Token} (h : Completable src vs)
    (us ext : List Token) (hext : Plain ext) (heq : vs = us ++ ext) : Completable src us := by
  obtain ⟨more, c, hmore, hcall⟩ := h
  exact ⟨ext ++ more, c, hext.append hmore, by rwa [← List.append_assoc, ← heq]⟩

theorem isPath_someClass : ∃ c, IsPath someClass c := by
  have hdotted : IsSegments .dot [mark .dot ".", name] [name] := .cons rfl rfl .nil
  exact ⟨⟨[name.literal], name.literal, [], spanOf someClass⟩,
    .mk rfl hdotted (by simp) .nil rfl rfl rfl⟩

theorem isType_someClass : ∃ c, IsType someClass (.object c) := by
  obtain ⟨c, hc⟩ := isPath_someClass
  exact ⟨c, .object (not_hostKeyword.mpr (by decide)) (not_javaKeyword.mpr (by decide)) hc⟩

theorem closer?_closerOf {o : Token} (ho : o.kind.closer?.isSome = true) :
    o.kind.closer? = some (closerOf o).kind := by
  unfold closerOf
  cases hk : o.kind with
  | lparen | lbrace | lbracket => rfl
  | _ =>
    rw [hk] at ho
    cases ho

theorem plain_closerOf (o : Token) : Plain [closerOf o] := by
  unfold closerOf
  cases o.kind <;> decide

theorem balanced_name : Balanced [name] := .plain rfl rfl (by decide) (by decide) .nil

/-! ### Viability -/

/-- Where a reader blames a token, the tokens before it are the start of a call. -/
def Viable {α : Type} (src : Source) (before ts : List Token) (r : Reader α) : Prop :=
  ∀ f t, r ts = .error f → f.Blames t → ∃ used rest, ts = used ++ t :: rest ∧
    (AtVoid (before ++ used) ∨ Completable src (before ++ used))

section Primitives

variable {α β : Type} {src : Source} {before ts : List Token} {n : Nat} {t : Token}

theorem viable_pure (a : α) : Viable src before ts (pure a) := by
  intro f t h
  cases h

/-- A reader that blames no token. -/
theorem viable_of_silent {r : Reader α} (h : ∀ f t, r ts = .error f → ¬ f.Blames t) :
    Viable src before ts r :=
  fun f t hr hb => absurd hb (h f t hr)

theorem viable_throw {f : Fault} (h : ∀ t, ¬ f.Blames t) :
    Viable src before ts (throw f : Reader α) := by
  intro g t hg hb
  cases hg
  exact absurd hb (h t)

theorem Viable.bind {r : Source → Reader α} {k : α → Reader β} (h : Viable src before ts (r src))
    (hr : Foresees src before n ts r) (hts : At src before ts)
    (hk : ∀ a c mid, ts = c ++ mid → At src (before ++ c) mid → r src ts = .ok (a, mid) →
      Viable src (before ++ c) mid (k a)) : Viable src before ts (r src >>= k) := by
  intro f t hf hb
  cases hrun : r src ts with
  | error g =>
    rw [bind_of_error hrun] at hf
    cases hf
    exact h f t hrun hb
  | ok p =>
    obtain ⟨a, mid⟩ := p
    rw [bind_of_ok hrun] at hf
    obtain ⟨c, u, rest, rfl, rfl, -, -⟩ := hr.ok a mid hrun
    obtain ⟨used, rest', hmid, hused⟩ := hk a c (u :: rest) rfl hts.behind hrun f t hf hb
    exact ⟨c ++ used, rest', by rw [hmid, List.append_assoc], by rwa [← List.append_assoc]⟩

theorem Viable.ite {p : Prop} [Decidable p] {r q : Reader α} (hpos : p → Viable src before ts r)
    (hneg : ¬ p → Viable src before ts q) : Viable src before ts (if p then r else q) := by
  by_cases hp : p
  · rw [if_pos hp]
    exact hpos hp
  · rw [if_neg hp]
    exact hneg hp

theorem Viable.congr {r q : Reader α} (h : Viable src before ts q) (heq : r ts = q ts) :
    Viable src before ts r := by
  intro f t hf hb
  exact h f t (heq ▸ hf) hb

theorem viable_peek {k : Token → Reader α} (h : Viable src before (t :: ts) (k t)) :
    Viable src before (t :: ts) (peek >>= k) := h

theorem viable_peekKind {k : TokenKind → Reader α} (h : Viable src before (t :: ts) (k t.kind)) :
    Viable src before (t :: ts) (peekKind >>= k) := h

theorem viable_atKeyword {w : Bytes} {k : Bool → Reader α}
    (h : Viable src before ts (k (startsWithWord w ts))) :
    Viable src before ts (atKeyword w >>= k) := by
  intro f t hf hb
  rw [bind_of_ok (atKeyword_run w)] at hf
  exact h f t hf hb

theorem viable_advance : Viable src before ts advance := by
  intro f t h
  cases h

theorem viable_fail (hts : At src before ts) (hw : AtVoid before ∨ Completable src before)
    (problem : Problem) (expected : List TokenKind) :
    Viable src before ts (fail problem expected : Reader α) := by
  obtain ⟨t, rest, rfl⟩ := hts.exists_cons
  rintro f u h ⟨-, hu⟩
  cases h
  cases hu
  exact ⟨[], rest, rfl, by rwa [List.append_nil]⟩

theorem viable_expect (hts : At src before ts) (hw : AtVoid before ∨ Completable src before)
    {kind : TokenKind} {problem : Problem} {also : List TokenKind} :
    Viable src before ts (expect kind problem also) := by
  obtain ⟨t, rest, rfl⟩ := hts.exists_cons
  apply viable_peekKind
  apply Viable.ite
  · intro _
    exact viable_advance
  · intro _
    exact viable_fail hts hw _ _

theorem viable_expectEnd (hts : At src before ts) (hw : Completable src before) (after : Whole) :
    Viable src before ts (expectEnd after) := by
  obtain ⟨t, rest, rfl⟩ := hts.exists_cons
  apply viable_peekKind
  apply Viable.ite
  · intro _
    exact viable_pure ()
  · intro _
    exact viable_fail hts (.inr hw) _ _

end Primitives

/-! ### Class paths and types -/

section Types

variable {src : Source} {before ts : List Token} {t : Token}

theorem viable_segments {sep : TokenKind} : Viable src before ts (segments sep) := by
  apply viable_of_silent
  rintro f t h ⟨hkind, -⟩
  obtain ⟨_, _, -, -, rfl⟩ := segmentsOf_error h
  cases hkind

/-- The faults of paths belong to no token. -/
theorem viable_path (hts : At src before ts) : Viable src before ts path := by
  obtain ⟨t, rest, rfl⟩ := hts.exists_cons
  apply viable_peekKind
  apply Viable.ite
  · rintro - f u h ⟨hkind, -⟩
    cases h
    cases hkind
  intro ht
  have hkind : t.kind ≠ .eof := by
    rw [not_not.mp ht]
    decide
  apply viable_advance.bind (foresees_advance hts hkind) hts
  rintro first c mid - hmid -
  apply viable_segments.bind (foresees_segments hmid (by decide)) hmid
  rintro dotted c mid - hmid -
  apply Viable.ite
  · intro _
    exact viable_throw fun _ hb => by cases hb.1
  intro _
  apply viable_segments.bind (foresees_segments hmid (by decide)) hmid
  rintro nested c mid - hmid -
  exact viable_pure _

theorem viable_valueType (hts : At src before ts) (hw : Completable src before) :
    Viable src before ts valueType := by
  obtain ⟨t, rest, rfl⟩ := hts.exists_cons
  apply viable_peek
  apply Viable.ite
  · intro _
    exact viable_fail hts (.inr hw) _ _
  intro ht
  have hkind : t.kind ≠ .eof := by
    rw [not_not.mp ht]
    decide
  cases HostPrimitive.ofName? t.literal with
  | some h =>
    apply viable_advance.bind (foresees_advance hts hkind) hts
    rintro _ c mid - hmid -
    exact viable_pure _
  | none =>
    cases Primitive.ofName? t.literal with
    | some p =>
      apply viable_advance.bind (foresees_advance hts hkind) hts
      rintro _ c mid - hmid -
      exact viable_pure _
    | none =>
      apply (viable_path hts).bind (foresees_path hts) hts
      rintro p c mid - hmid -
      exact viable_pure _

end Types

/-! ### Return specifications -/

section Returns

variable {src : Source} {before ts : List Token} {t : Token}

theorem viable_option (hts : At src before (t :: ts)) (hkind : t.kind = .ident)
    (hword : t.literal = ("Option" : Bytes))
    (hw : ∀ us ok, IsSuccess us ok → Completable src (before ++ us)) :
    Viable src before (t :: ts) option := by
  have heof : t.kind ≠ .eof := by
    rw [hkind]
    decide
  have hspelt : ∀ (l : Token) {us : List Token} {cp : ClassPath} (g : Token), l.kind = .lt →
      IsType us (.object cp) → g.kind = .gt → Completable src (before ++ t :: l :: (us ++ [g])) :=
    fun _ _ _ _ hl hty hg => hw _ _ (.option hkind hword hl hty hg)
  obtain ⟨cp, hclass⟩ := isType_someClass
  apply viable_advance.bind (foresees_advance hts heof) hts
  rintro start c mid hsplit hmid hstart
  obtain rfl := advance_took hsplit hstart
  have hlt := (hspelt (mark .lt "<") (mark .gt ">") rfl hclass rfl).before (before ++ [t])
    (mark .lt "<" :: (someClass ++ [mark .gt ">"])) (by decide) (by simp)
  apply (viable_expect hmid (.inr hlt)).bind (foresees_expect hmid (by decide) _ _) hmid
  rintro l c mid hsplit hty hl
  obtain ⟨rfl, hl⟩ := expect_took (by decide) hsplit hl
  have harg := (hspelt l (mark .gt ">") hl hclass rfl).before (before ++ [t] ++ [l])
    (someClass ++ [mark .gt ">"]) (by decide) (by simp)
  apply (viable_valueType hty harg).bind (foresees_valueType hty) hty
  rintro ty c mid hsplit hmid hrun
  have hc : IsType c ty := of_split hsplit (valueType_sound hrun)
  cases ty with
  | java p r =>
    apply Viable.ite
    · exact fun _ => viable_throw fun _ hb => by cases hb.1
    · exact fun _ => viable_throw fun _ hb => by cases hb.1
  | host h r =>
    apply Viable.ite
    · exact fun _ => viable_throw fun _ hb => by cases hb.1
    · exact fun _ => viable_throw fun _ hb => by cases hb.1
  | object cp =>
    have hgt := (hspelt l (mark .gt ">") hl hc rfl).before (before ++ [t] ++ [l] ++ c)
      [mark .gt ">"] (by decide) (by simp)
    apply (viable_expect hmid (.inr hgt)).bind (foresees_expect hmid (by decide) _ _) hmid
    rintro stop c mid - hmid -
    exact viable_pure _

theorem viable_success (hts : At src before ts)
    (hw : ∀ us ok, IsSuccess us ok → Completable src (before ++ us)) :
    Viable src before ts success := by
  apply viable_atKeyword
  apply Viable.ite
  · intro hword
    obtain ⟨t, rest, rfl, hkind, hliteral⟩ := startsWithWord_eq_true hword
    exact viable_option hts hkind hliteral hw
  · intro _
    obtain ⟨cp, hclass⟩ := isType_someClass
    have hhere := (hw _ _ (.value hclass)).before before someClass (by decide) rfl
    apply (viable_valueType hts hhere).bind (foresees_valueType hts) hts
    rintro ty c mid - hmid -
    exact viable_pure _

theorem viable_errorType (hts : At src before ts) (hw : Completable src before) :
    Viable src before ts (errorType src) := by
  have hsilent : Viable src before ts (modifyGet (upToClosingGt 0) : Reader (List Token)) :=
    viable_of_silent fun f t h _ => by cases h
  apply hsilent.bind (foresees_upToClosingGt hts) hts
  rintro found c mid hsplit hmid hrun
  obtain rfl := upToClosingGt_took hsplit hrun
  cases c with
  | nil => exact viable_fail hmid (.inr (by rwa [List.append_nil])) _ _
  | cons a found =>
    simp only [List.head?_cons, List.getLast?_eq_some_getLast (List.cons_ne_nil a found)]
    apply Viable.ite
    · exact fun _ => viable_pure ()
    · exact fun _ => viable_throw fun _ hb => by cases hb.1

theorem viable_returnSpec (hts : At src before ts)
    (hw : ∀ us r, IsReturn us r → Completable src (before ++ us)) :
    Viable src before ts (returnSpec src) := by
  obtain ⟨cp, hclass⟩ := isType_someClass
  apply viable_atKeyword
  apply Viable.ite
  · intro hword
    obtain ⟨t, rest, rfl, hkind, hliteral⟩ := startsWithWord_eq_true hword
    have hspelt : ∀ (l : Token) {us : List Token} {ok : Success} (comma s g : Token), l.kind = .lt →
        IsSuccess us ok → comma.kind = .comma → s.kind = .ident → s.literal = ("String" : Bytes) →
          g.kind = .gt → Completable src (before ++ t :: l :: (us ++ [comma, s, g])) :=
      fun _ _ _ _ _ _ hl hok hcomma hs hstring hg =>
        hw _ _ (.result hkind hliteral hl hok hcomma hs hstring hg)
    have hend : Plain [mark .comma ",", mark .ident "String", mark .gt ">"] := by decide
    apply viable_advance.bind (foresees_advance hts (by simp [hkind])) hts
    rintro start c mid hsplit hmid hstart
    obtain rfl := advance_took hsplit hstart
    have hlt := (hspelt (mark .lt "<") (mark .comma ",") (mark .ident "String") (mark .gt ">") rfl
      (.value hclass) rfl rfl rfl rfl).before (before ++ [t])
      (mark .lt "<" :: (someClass ++ [mark .comma ",", mark .ident "String", mark .gt ">"]))
      (by decide) (by simp)
    apply (viable_expect hmid (.inr hlt)).bind (foresees_expect hmid (by decide) _ _) hmid
    rintro l c mid hsplit hmid hl
    obtain ⟨rfl, hl⟩ := expect_took (by decide) hsplit hl
    apply viable_atKeyword
    apply Viable.ite
    · intro _
      obtain ⟨u, rest, rfl⟩ := hmid.exists_cons
      apply viable_peek
      exact viable_throw fun _ hb => by cases hb.1
    intro _
    have hok : ∀ us ok, IsSuccess us ok → Completable src (before ++ [t] ++ [l] ++ us) :=
      fun us ok hus => (hspelt l (mark .comma ",") (mark .ident "String") (mark .gt ">") hl hus rfl
        rfl rfl rfl).before _ _ hend (by simp)
    apply (viable_success hmid hok).bind (foresees_success hmid) hmid
    rintro ok c mid hsplit hmid hrun
    have hc : IsSuccess c ok := of_split hsplit (success_sound hrun)
    apply (viable_expect hmid (.inr (hok c ok hc))).bind (foresees_expect hmid (by decide) _ _) hmid
    rintro comma c' mid hsplit hmid hcomma
    obtain ⟨rfl, hcomma⟩ := expect_took (by decide) hsplit hcomma
    have hstring := (hspelt l comma (mark .ident "String") (mark .gt ">") hl hc hcomma rfl rfl
      rfl).before (before ++ [t] ++ [l] ++ c ++ [comma])
      [mark .ident "String", mark .gt ">"] (by decide) (by simp)
    apply (viable_errorType hmid hstring).bind (foresees_errorType hmid) hmid
    rintro _ c' mid hsplit hmid' herror
    obtain ⟨s, hs, hskind, hsword⟩ := errorType_sound hmid.tokens herror
    obtain rfl := took_of_split [s] hsplit hs
    have hgt := (hspelt l comma s (mark .gt ">") hl hc hcomma hskind hsword rfl).before
      (before ++ [t] ++ [l] ++ c ++ [comma] ++ [s]) [mark .gt ">"] (by decide) (by simp)
    apply (viable_expect hmid' (.inr hgt)).bind (foresees_expect hmid' (by decide) _ _) hmid'
    rintro stop c mid - hmid -
    exact viable_pure _
  · intro _
    have hok : ∀ us ok, IsSuccess us ok → Completable src (before ++ us) :=
      fun us ok hus => hw _ _ (.plain hus)
    apply (viable_success hts hok).bind (foresees_success hts) hts
    rintro ok c mid - hmid -
    exact viable_pure _

end Returns

/-! ### Groups -/

section Groups

variable {src : Source} {before ts : List Token} {o : Token}

/-- Tokens that close all openers but the last, the innermost first, and end with a name. -/
inductive Fills : List Token → List Token → Prop
  | last {o : Token} (body : List Token) (hbody : Balanced body) : Fills [o] (body ++ [name])
  | more {o b c : Token} {below rest : List Token} (body : List Token) (hbody : Balanced body)
      (hmatch : o.kind.closer? = some c.kind) (hrest : Fills (b :: below) rest) :
      Fills (o :: b :: below) (body ++ c :: rest)

theorem Fills.append {below us ts : List Token} (hts : Balanced ts) (h : Fills (o :: below) us) :
    Fills (o :: below) (ts ++ us) := by
  cases h with
  | last body hbody =>
    rw [← List.append_assoc]
    exact .last _ (hts.append hbody)
  | more body hbody hmatch hrest =>
    rw [← List.append_assoc]
    exact .more _ (hts.append hbody) hmatch hrest

theorem Fills.innermost {b : Token} {below us : List Token} (h : Fills (o :: b :: below) us) :
    ∃ body c rest, us = body ++ c :: rest ∧ Balanced body ∧ o.kind.closer? = some c.kind ∧
      Fills (b :: below) rest := by
  cases h with
  | more body hbody hmatch hrest => exact ⟨body, _, _, rfl, hbody, hmatch, hrest⟩

theorem Fills.of_opens {os os' c ext : List Token} (h : Opens os c os') (hfill : Fills os' ext) :
    Fills os (c ++ ext) := by
  induction h with
  | nil => exact hfill
  | @opening t o below ts os hopen _ ih =>
    obtain ⟨body, cl, rest, heq, hbody, hmatch, hrest⟩ := (ih hfill).innermost
    have hgroup : Balanced (t :: (body ++ [cl])) := .group hmatch hbody .nil
    have hall : t :: ts ++ ext = t :: (body ++ [cl]) ++ rest := by
      rw [List.cons_append, heq]
      simp
    rw [hall]
    exact hrest.append hgroup
  | closing hclose hmatch _ ih => exact .more [] .nil hmatch (ih hfill)
  | @plain t _ _ _ _ hopen hclose herror heof _ ih =>
    have ht : Balanced [t] := .plain hopen hclose herror heof .nil
    rw [List.cons_append, ← List.singleton_append]
    exact (ih hfill).append ht

theorem Opens.openers {os ts os' : List Token} (h : Opens os ts os')
    (hos : ∀ o ∈ os, o.kind.closer?.isSome = true) : ∀ o ∈ os', o.kind.closer?.isSome = true := by
  induction h with
  | nil => exact hos
  | opening hopen _ ih => exact ih (List.forall_mem_cons.mpr ⟨hopen, hos⟩)
  | closing _ _ _ ih => exact ih fun u hu => hos u (List.mem_cons_of_mem _ hu)
  | plain _ _ _ _ _ ih => exact ih hos

theorem exists_fills {os : List Token} (hne : os ≠ []) (h : ∀ o ∈ os, o.kind.closer?.isSome = true) :
    ∃ ext, Plain ext ∧ Fills os ext := by
  induction os with
  | nil => exact absurd rfl hne
  | cons o below ih =>
    cases below with
    | nil => exact ⟨[name], by decide, .last [] .nil⟩
    | cons b below =>
      obtain ⟨ext, hext, hfill⟩ := ih (by simp) fun u hu => h u (List.mem_cons_of_mem _ hu)
      exact ⟨[closerOf o] ++ ext, (plain_closerOf o).append hext,
        .more [] .nil (closer?_closerOf (h o (by simp))) hfill⟩

/-- What fills a single group is a body that is not empty and no list. -/
theorem Fills.exists_body {us : List Token} (h : Fills [o] us) :
    Balanced us ∧ us ≠ [] ∧ ¬ IsList us := by
  cases h with
  | last body hbody =>
    refine ⟨hbody.append balanced_name, by simp, ?_⟩
    rintro ⟨l, inner, r, heq, -, -, hr⟩
    have hsplit : body ++ [name] = (l :: inner) ++ [r] := heq
    have hlast : [name] = [r] := (List.append_inj' hsplit rfl).2
    cases hlast
    cases hr

theorem viable_group (hts : At src before (o :: ts)) (ho : o.kind.closer?.isSome = true)
    (hw : ∀ body c, Balanced body → body ≠ [] → ¬ IsList body → o.kind.closer? = some c.kind →
      Completable src (before ++ o :: (body ++ [c]))) : Viable src before (o :: ts) group := by
  intro f t h hb
  have heof : o.kind ≠ .eof := by
    intro heof
    rw [heof] at ho
    cases ho
  obtain ⟨c, u, rest, b, bs, rfl, hopens, -, hblames, -⟩ := groupOf_fault (hts.ended.tail heof) h
  rw [hblames t hb]
  have hall := hopens.openers (List.forall_mem_singleton.mpr ho)
  obtain ⟨ext, hext, hfill⟩ := exists_fills (by simp) hall
  obtain ⟨hbody, hne, hlist⟩ := (hfill.of_opens hopens).exists_body
  refine ⟨o :: c, rest, rfl, .inr ?_⟩
  exact (hw _ (closerOf o) hbody hne hlist (closer?_closerOf ho)).before _ _
    (hext.append (plain_closerOf o)) (by simp)

/-- In front of the closer of an empty value a name can stand. -/
theorem viable_value (hts : At src before (o :: ts)) (ho : o.kind.closer?.isSome = true)
    (hw : ∀ body c, Balanced body → body ≠ [] → ¬ IsList body → o.kind.closer? = some c.kind →
      Completable src (before ++ o :: (body ++ [c]))) : Viable src before (o :: ts) value := by
  intro f t h hb
  cases hgroup : group (o :: ts) with
  | error g =>
    rw [value, bind_of_error hgroup] at h
    cases h
    exact viable_group hts ho hw f t hgroup hb
  | ok p =>
    obtain ⟨⟨contents, closer⟩, rest⟩ := p
    obtain ⟨rfl, hbody, hmatch⟩ := group_eq_ok.mp hgroup
    rw [value, bind_of_ok hgroup] at h
    split at h
    · rename_i hempty
      obtain rfl : contents = [] := by simpa using hempty
      cases h
      obtain rfl : closer = t := Option.some.inj hb.2
      have hname := (Fills.last (o := o) [] .nil).exists_body
      refine ⟨[o], rest, rfl, .inr ?_⟩
      exact (hw [name] (closerOf o) hname.1 hname.2.1 hname.2.2 (closer?_closerOf ho)).before
        (before ++ [o]) ([name] ++ [closerOf o]) (Plain.append (by decide) (plain_closerOf o)) (by simp)
    · cases h

end Groups

/-! ### Parameters -/

section Parameters

variable {src : Source} {before ts : List Token} {t : Token}

theorem atVoid_of_isType {us : List Token} {ty : ValueType} {l : Token} (hl : l.kind = .lbracket)
    (h : IsType us ty) (hvoid : ty.isVoid = true) : AtVoid (before ++ l :: us) := by
  cases h with
  | host _ _ => cases hvoid
  | object _ _ _ => cases hvoid
  | @java t p hkind _ hjava =>
    cases p with
    | void =>
      have hname := List.find?_some (mem_javaKeywords.mp hjava)
      exact ⟨before, l, t, rfl, hl, hkind, (of_decide_eq_true hname).symm⟩
    | _ => cases hvoid

/-- A fault of the elements is about a whole value and names no token. -/
theorem viable_arrayElements? {contents : List Token} :
    Viable src before ts
      (liftM (arrayElements? contents) : Reader (Option (List (List Token)))) := by
  apply viable_of_silent
  intro f t hf hb
  cases hitems : arrayElements? contents with
  | ok es =>
    rw [hitems] at hf
    cases hf
  | error f' =>
    rw [hitems] at hf
    cases hf
    have hgot := (arrayElements?_error hitems).1
    rw [hb.2] at hgot
    cases hgot

theorem viable_parameterType (hts : At src before ts)
    (hw : ∀ array us ty, TypeTokens array us ty → ty.isVoid = false →
      Completable src (before ++ us)) : Viable src before ts parameterType := by
  obtain ⟨t, rest, rfl⟩ := hts.exists_cons
  obtain ⟨cp, hclass⟩ := isType_someClass
  apply viable_peekKind
  apply Viable.ite
  · intro hk
    have hspelt : ∀ {us : List Token} {ty : ValueType} (r : Token), IsType us ty →
        ty.isVoid = false → r.kind = .rbracket → Completable src (before ++ t :: (us ++ [r])) :=
      fun _ hty hvoid hr => hw true _ _ ⟨_, _, _, rfl, hk, hty, hr⟩ hvoid
    apply viable_advance.bind (foresees_advance hts (by simp [hk])) hts
    rintro _ c mid hsplit hmid hadvance
    obtain rfl := advance_took hsplit hadvance
    have hitem := (hspelt (mark .rbracket "]") hclass rfl rfl).before (before ++ [t])
      (someClass ++ [mark .rbracket "]"]) (by decide) (by simp)
    apply (viable_valueType hmid hitem).bind (foresees_valueType hmid) hmid
    rintro ty c mid hsplit hmid hrun
    have hc : IsType c ty := of_split hsplit (valueType_sound hrun)
    have hclose : AtVoid (before ++ [t] ++ c) ∨ Completable src (before ++ [t] ++ c) := by
      cases hvoid : ty.isVoid with
      | true =>
        left
        rw [List.append_assoc]
        exact atVoid_of_isType hk hc hvoid
      | false =>
        right
        exact (hspelt (mark .rbracket "]") hc hvoid rfl).before _ [mark .rbracket "]"] (by decide)
          (by simp)
    apply (viable_expect hmid hclose).bind (foresees_expect hmid (by decide) _ _) hmid
    rintro _ c mid - hmid -
    exact viable_pure _
  · intro _
    have hhere := (hw false _ _ hclass rfl).before before someClass (by decide) rfl
    apply (viable_valueType hts hhere).bind (foresees_valueType hts) hts
    rintro ty c mid - hmid -
    exact viable_pure _

theorem viable_parameter (hts : At src before ts)
    (hw : ∀ us p, IsParameter src us p → Completable src (before ++ us)) :
    Viable src before ts (parameter src) := by
  have hspelt : ∀ {array : Bool} {us body : List Token} {ty : ValueType} (o c : Token),
      TypeTokens array us ty → ty.isVoid = false → o.kind = .lparen → Balanced body → body ≠ [] →
        ¬ IsList body → c.kind = .rparen → Completable src (before ++ (us ++ o :: (body ++ [c]))) := by
    intro array us body ty o c hus hvoid ho hbody hne hlist hc
    cases array with
    | false => exact hw _ _ (isParameter_of_parts hus hvoid ho hbody hne hc rfl)
    | true => exact hw _ _ (isParameter_of_parts hus hvoid ho hbody hne hc (.inl ⟨rfl, hlist⟩))
  obtain ⟨hname, hnameNe, hnameList⟩ := (Fills.last (o := name) [] .nil).exists_body
  have hvalue : Plain (mark .lparen "(" :: ([name] ++ [mark .rparen ")"])) := by decide
  obtain ⟨t, rest, rfl⟩ := hts.exists_cons
  rw [parameter_eq]
  apply viable_peek
  have htype : ∀ array us ty, TypeTokens array us ty → ty.isVoid = false →
      Completable src (before ++ us) :=
    fun array us ty hus hvoid => (hspelt (mark .lparen "(") (mark .rparen ")") hus hvoid rfl hname
      hnameNe hnameList rfl).before _ _ hvalue (by simp)
  apply (viable_parameterType hts htype).bind (foresees_parameterType hts) hts
  rintro ⟨array, ty⟩ c mid hsplit hmid hrun
  have hc : TypeTokens array c ty := of_split hsplit (parameterType_sound hrun)
  obtain ⟨o, mid, rfl⟩ := hmid.exists_cons
  dsimp only
  apply Viable.ite
  · intro _
    exact viable_throw fun _ hb => by cases hb.1
  intro hvoid
  have hvoid : ty.isVoid = false := by simpa using hvoid
  apply viable_peekKind
  apply Viable.ite
  · intro _
    exact viable_fail hmid (.inr (htype array c ty hc hvoid)) _ _
  intro ho
  have ho : o.kind = .lparen := not_not.mp ho
  have hbodies : ∀ body cl, Balanced body → body ≠ [] → ¬ IsList body →
      o.kind.closer? = some cl.kind → Completable src (before ++ c ++ o :: (body ++ [cl])) := by
    intro body cl hbody hne hlist hmatch
    rw [ho] at hmatch
    rw [List.append_assoc]
    exact hspelt o cl hc hvoid ho hbody hne hlist (Option.some.inj hmatch).symm
  apply (viable_value hmid (by simp [ho, TokenKind.closer?]) hbodies).bind
    (foresees_value hmid (by simp [ho])) hmid
  rintro g c' mid' hsplit hmid' hvalue
  apply Viable.ite
  · intro _
    exact viable_pure _
  intro _
  have hpart : g.contents <:+: before ++ c ++ c' := by
    rw [value_took hsplit hvalue]
    exact ⟨before ++ c ++ [o], [g.closer], by simp⟩
  apply viable_arrayElements?.bind (foresees_arrayElements? hmid' hpart) hmid'
  rintro found c'' mid'' - hmid'' -
  cases found with
  | none => exact viable_pure _
  | some es => exact viable_pure _

theorem viable_parametersUpTo {fuel : Nat} (hts : At src before ts)
    (hw : ∀ us ps, IsParameters src us ps → Completable src (before ++ us)) :
    Viable src before ts (parametersUpTo src fuel) := by
  induction fuel generalizing before ts with
  | zero => exact viable_pure _
  | succ fuel ih =>
    obtain ⟨t, rest, rfl⟩ := hts.exists_cons
    have hone : ∀ us p, IsParameter src us p → Completable src (before ++ us) :=
      fun us p hus => hw us _ (.last hus)
    have hmore : Viable src before (t :: rest) do
        let p ← parameter src
        if (← peekKind) = .comma then
          let _ ← advance
          return p :: (← parametersUpTo src fuel)
        else return [p] := by
      apply (viable_parameter hts hone).bind (foresees_parameter hts) hts
      rintro p c mid hsplit hmid hrun
      have hc : IsParameter src c p := of_split hsplit (parameter_sound hrun)
      obtain ⟨u, mid, rfl⟩ := hmid.exists_cons
      apply viable_peekKind
      apply Viable.ite
      · intro hu
        apply viable_advance.bind (foresees_advance hmid (by simp [hu])) hmid
        rintro _ c' mid' hsplit hmid' hadvance
        obtain rfl := advance_took hsplit hadvance
        have hrest : ∀ us ps, IsParameters src us ps →
            Completable src (before ++ c ++ [u] ++ us) := by
          intro us ps hus
          simpa using hw _ _ (.more hc hu hus)
        intro f t hf hb
        cases hps : parametersUpTo src fuel mid' with
        | error g =>
          rw [bind_of_error hps] at hf
          cases hf
          exact ih hmid' hrest f t hps hb
        | ok r =>
          rw [bind_of_ok hps] at hf
          cases hf
      · intro _
        exact viable_pure _
    rw [parametersUpTo_succ]
    apply viable_peekKind
    cases hk : t.kind with
    | rparen => exact viable_pure _
    | eof =>
      refine viable_fail hts (.inr ?_) _ _
      simpa using hw [] _ .nil
    | _ => exact hmore

theorem viable_parameters (hts : At src before ts)
    (hw : ∀ (o : Token) us ps (c : Token), o.kind = .lparen → IsParameters src us ps →
      c.kind = .rparen → Completable src (before ++ o :: (us ++ [c]))) :
    Viable src before ts (parameters src) := by
  have hempty := (hw (mark .lparen "(") [] [] (mark .rparen ")") rfl .nil rfl).before
    before [mark .lparen "(", mark .rparen ")"] (by decide) rfl
  apply (viable_expect hts (.inr hempty)).bind (foresees_expect hts (by decide) _ _) hts
  rintro o c mid hsplit hmid ho
  obtain ⟨rfl, ho⟩ := expect_took (by decide) hsplit ho
  have hall : ∀ us ps, IsParameters src us ps → Completable src (before ++ [o] ++ us) :=
    fun us ps hus => (hw o us ps (mark .rparen ")") ho hus rfl).before _ [mark .rparen ")"]
      (by decide) (by simp)
  have hlist : Viable src (before ++ [o]) mid do
      let ps ← parametersAll src
      let _ ← expect .rparen .noParameterEnd [.comma]
      return ps := by
    apply Viable.bind (viable_parametersUpTo hmid hall) (foresees_parametersAll hmid) hmid
    rintro ps c mid hsplit hmid hrun
    have hc : IsParameters src c ps := of_split hsplit (parametersUpTo_sound hrun)
    apply (viable_expect hmid (.inr (hall c ps hc))).bind (foresees_expect hmid (by decide) _ _) hmid
    rintro _ c mid - hmid -
    exact viable_pure _
  exact hlist.congr (parametersUpTo_get hmid.ne_nil)

end Parameters

/-! ### Targets and calls -/

section Calls

variable {src : Source} {before ts : List Token}

theorem viable_splitMethod (hts : At src before ts) {p : Path} (hdot : Completable src before)
    (hname : ∀ sep : Token, sep.kind = .dot → Completable src (before ++ [sep])) :
    Viable src before ts (splitMethod p) := by
  unfold splitMethod
  apply Viable.ite
  · intro _
    apply Viable.ite
    · exact fun _ => viable_throw fun _ hb => by cases hb.1
    · exact fun _ => viable_pure _
  intro _
  apply (viable_expect hts (.inr hdot)).bind (foresees_expect hts (by decide) _ _) hts
  rintro sep c mid hsplit hmid hsep
  obtain ⟨rfl, hsep⟩ := expect_took (by decide) hsplit hsep
  apply (viable_expect hmid (.inr (hname sep hsep))).bind (foresees_expect hmid (by decide) _ _) hmid
  rintro m c mid - hmid -
  exact viable_pure _

theorem viable_method (hts : At src before ts) (tg : Target)
    (hspelt : ∀ dot m : Token, dot.kind = .dot → m.kind = .ident →
      Completable src (before ++ [dot, m])) :
    Viable src before ts do
      let _ ← expect .dot .noReceiverDot []
      let m ← expect .ident .noMethod []
      return (tg, m) := by
  have hdot := (hspelt (mark .dot ".") name rfl rfl).before before [mark .dot ".", name] (by decide)
    rfl
  apply (viable_expect hts (.inr hdot)).bind (foresees_expect hts (by decide) _ _) hts
  rintro dot c mid hsplit hmid hrun
  obtain ⟨rfl, hkind⟩ := expect_took (by decide) hsplit hrun
  have hname := (hspelt dot name hkind rfl).before (before ++ [dot]) [name] (by decide)
    (by simp)
  apply (viable_expect hmid (.inr hname)).bind (foresees_expect hmid (by decide) _ _) hmid
  rintro m c mid - hmid -
  exact viable_pure _

theorem viable_target (hts : At src before ts)
    (hw : ∀ us tg m, IsTarget src us tg m → Completable src (before ++ us)) :
    Viable src before ts (target src) := by
  obtain ⟨t, rest, rfl⟩ := hts.exists_cons
  apply viable_peek
  cases hk : t.kind with
  | static =>
    apply viable_advance.bind (foresees_advance hts (by simp [hk])) hts
    rintro _ c mid hsplit hpath hadvance
    obtain rfl := advance_took hsplit hadvance
    apply (viable_path hpath).bind (foresees_path hpath) hpath
    rintro p c mid hsplit hmid hrun
    have hc : IsPath c p.toClassPath := (of_split hsplit (path_sound hrun)).isPath
    have hspelt : ∀ sep m : Token, sep.kind = .colonColon ∨ sep.kind = .dot → m.kind = .ident →
        Completable src (before ++ t :: (c ++ [sep, m])) :=
      fun sep m hsep hm => hw _ _ _ (.static hk hc hsep hm)
    have hname : ∀ {sep : Token}, sep.kind = .colonColon ∨ sep.kind = .dot →
        Completable src (before ++ [t] ++ c ++ [sep]) :=
      fun hsep => (hspelt _ name hsep rfl).before _ [name] (by decide) (by simp)
    have hdot := (hspelt (mark .dot ".") name (.inr rfl) rfl).before (before ++ [t] ++ c)
      [mark .dot ".", name] (by decide) (by simp)
    obtain ⟨u, mid, rfl⟩ := hmid.exists_cons
    apply viable_peekKind
    simp only [pure_bind]
    apply Viable.ite
    · intro hu
      apply viable_advance.bind (foresees_advance hmid (by simp [hu])) hmid
      rintro _ c' mid' hsplit hmid' hadvance
      obtain rfl := advance_took hsplit hadvance
      apply (viable_expect hmid' (.inr (hname (.inl hu)))).bind
        (foresees_expect hmid' (by decide) _ _) hmid'
      rintro m c' mid' - hmid' -
      exact viable_pure _
    · intro _
      have hp : ∀ f : Fault, f.span = p.span → f.On src.tokens :=
        fun f hspan => on_path hpath hrun hspan
      apply (viable_splitMethod hmid hdot fun sep hsep => hname (.inr hsep)).bind
        (foresees_splitMethod hmid hp) hmid
      rintro found c' mid' - hmid' -
      exact viable_pure _
  | lparen | lbrace =>
    have hspelt : ∀ {body : List Token} {c : Token} (dot m : Token), Balanced body → body ≠ [] →
        t.kind.closer? = some c.kind → dot.kind = .dot → m.kind = .ident →
          Completable src (before ++ t :: (body ++ [c, dot, m])) :=
      fun _ _ hbody hne hmatch hdot hm => hw _ _ _ (.group (by simp [hk]) hmatch hbody hne hdot hm)
    have hgroup : ∀ body c, Balanced body → body ≠ [] → ¬ IsList body →
        t.kind.closer? = some c.kind → Completable src (before ++ t :: (body ++ [c])) :=
      fun body c hbody hne _ hmatch =>
        (hspelt (mark .dot ".") name hbody hne hmatch rfl rfl).before _
          [mark .dot ".", name] (by decide) (by simp)
    apply (viable_group hts (by simp [hk, TokenKind.closer?]) hgroup).bind
      (foresees_group hts (by simp [hk])) hts
    rintro g c mid hsplit hmid hrun
    obtain rfl := group_took hsplit hrun
    obtain ⟨-, hbody, hmatch⟩ := group_eq_ok.mp hrun
    apply Viable.ite
    · exact fun _ => viable_throw fun _ hb => by cases hb.2
    · intro hne
      refine viable_method hmid _ fun dot m hdot hm => ?_
      simpa using hspelt dot m hbody (by simpa using hne) hmatch hdot hm
  | ident =>
    apply viable_advance.bind (foresees_advance hts (by simp [hk])) hts
    rintro u c mid hsplit hmid hadvance
    obtain rfl := advance_took hsplit hadvance
    refine viable_method hmid _ fun dot m hdot hm => ?_
    simpa using hw _ _ _ (.name hk hdot hm)
  | _ =>
    have hname : IsTarget src [name, mark .dot ".", name] _ name := .name rfl rfl rfl
    exact viable_fail hts (.inr ((hw _ _ _ hname).before _ _ (by decide) rfl)) _ _

/-- **What stands before a blamed token is the start of a call**, except behind an array of
    `void`. -/
theorem viable_call (hts : At src [] ts) : Viable src [] ts (call src) := by
  obtain ⟨cp, hclass⟩ := isType_someClass
  have hspelt : ∀ {us ps rs : List Token} {tg : Target} {m : Token} (o c arrow : Token)
      {params : List Parameter} {r : ReturnSpec}, IsTarget src us tg m → o.kind = .lparen →
        IsParameters src ps params → c.kind = .rparen → arrow.kind = .arrow → IsReturn rs r →
          Completable src (us ++ o :: (ps ++ c :: arrow :: rs)) := by
    intro us ps rs tg m o c arrow params r hus ho hps hc harrow hrs
    have hcall := IsCall.mk hus ho hps hc harrow hrs
    exact ⟨[], _, by decide, by rwa [List.append_nil]⟩
  obtain ⟨t, rest, rfl⟩ := hts.exists_cons
  apply viable_peek
  have htarget : ∀ us tg m, IsTarget src us tg m → Completable src ([] ++ us) :=
    fun us tg m hus =>
      (hspelt (mark .lparen "(") (mark .rparen ")") (mark .arrow "->") hus rfl .nil rfl rfl
        (.plain (.value hclass))).before _
        (mark .lparen "(" :: mark .rparen ")" :: mark .arrow "->" :: someClass) (by decide) rfl
  apply (viable_target hts htarget).bind (foresees_target hts) hts
  rintro ⟨tg, m⟩ c mid hsplit hmid hrun
  have hc : IsTarget src c tg m := of_split hsplit (target_sound hrun)
  have hparams : ∀ (o : Token) us ps (cl : Token), o.kind = .lparen → IsParameters src us ps →
      cl.kind = .rparen → Completable src ([] ++ c ++ o :: (us ++ [cl])) :=
    fun o us ps cl ho hus hcl =>
      (hspelt o cl (mark .arrow "->") hc ho hus hcl rfl (.plain (.value hclass))).before _
        (mark .arrow "->" :: someClass) (by decide) (by simp)
  apply (viable_parameters hmid hparams).bind (foresees_parameters hmid) hmid
  rintro ps c' mid hsplit hmid hrun
  obtain ⟨o, us, cl, heq, ho, hps, hcl⟩ := parameters_sound hrun
  obtain rfl := took_of_split (o :: (us ++ [cl])) hsplit (by simp [heq])
  have harrow := hparams o us ps cl ho hps hcl
  apply (viable_expect hmid (.inr harrow)).bind (foresees_expect hmid (by decide) _ _) hmid
  rintro arrow c' mid hsplit hmid hrun
  obtain ⟨rfl, harrow⟩ := expect_took (by decide) hsplit hrun
  have hreturn : ∀ rs r, IsReturn rs r →
      Completable src ([] ++ c ++ o :: (us ++ [cl]) ++ [arrow] ++ rs) := by
    intro rs r hrs
    simpa using hspelt o cl arrow hc ho hps hcl harrow hrs
  apply (viable_returnSpec hmid hreturn).bind (foresees_returnSpec hmid) hmid
  rintro r c' mid hsplit hmid' hrun
  have hrs : IsReturn c' r := of_split hsplit (returnSpec_sound hmid.tokens hrun)
  apply (viable_expectEnd hmid' (hreturn c' r hrs) _).bind (foresees_expectEnd hmid' _) hmid'
  rintro _ c'' mid - hmid -
  exact viable_pure _

end Calls

end BridgeCall.Reader
