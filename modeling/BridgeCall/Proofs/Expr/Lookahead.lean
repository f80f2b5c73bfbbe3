/-
  BridgeCall/Proofs/Expr/Lookahead.lean
  =====================================
  **Readers look one token ahead.**  What a reader does with some tokens is known
  from those that it consumes and the one behind them, whatever comes after it.
  `Foresees` states this for one reader and one token list, for results and for
  faults alike, and goes through `do` blocks.

  A reader also cuts texts out of its source.  So it is compared with itself on
  sources that show the same texts for the tokens consumed so far; these are the
  tokens `before` the list.
-/
import BridgeCall.Proofs.Expr.Spans
import BridgeCall.Proofs.Expr.Translation

namespace BridgeCall

open Grammar

/-- A fault that stands at some tokens: it starts with the first and ends with the last. -/
def Fault.On (f : Fault) (ts : List Token) : Prop :=
  ∃ stretch, stretch <:+: ts ∧ stretch ≠ [] ∧ f.span = spanOf stretch

/-- A fault of the grammar that names the token at which reading stopped. -/
def Fault.Blames (f : Fault) (t : Token) : Prop := f.kind = .grammar ∧ f.got = some t

theorem Fault.on_token {f : Fault} {t : Token} {ts : List Token} (hspan : f.span = t.span)
    (ht : t ∈ ts) : f.On ts := by
  obtain ⟨before, more, rfl⟩ := List.append_of_mem ht
  exact ⟨[t], ⟨before, more, by simp⟩, by simp, hspan⟩

theorem Grammar.SameTexts.textOf {src src' : Source} {ts us : List Token} (h : SameTexts src src' ts)
    (hpart : us <:+: ts) (hne : us ≠ []) : Reader.textOf src' us = Reader.textOf src us := by
  rw [Reader.textOf_eq_written hne, Reader.textOf_eq_written hne, h us hpart hne]

namespace Reader

/-! ### Places in a token list -/

/-- A place in the tokens of a source: those that were consumed, and those that are left. -/
structure At (src : Source) (before ts : List Token) : Prop where
  tokens : src.tokens = before ++ ts
  ne_nil : ts ≠ []

section Places

variable {src : Source} {before ts c rest : List Token} {t : Token}

theorem At.exists_cons (h : At src before ts) : ∃ t rest, ts = t :: rest :=
  List.exists_cons_of_ne_nil h.ne_nil

theorem At.ended (h : At src before ts) : Ended ts := by
  obtain ⟨e, he, htokens⟩ := src.tokens_eq
  rw [h.tokens] at htokens
  obtain ⟨init, rfl⟩ : ∃ init, ts = init ++ [e] := by
    obtain ⟨init, u, rfl⟩ := (List.eq_nil_or_concat' ts).resolve_left h.ne_nil
    rw [← List.append_assoc] at htokens
    rw [(List.append_inj' htokens rfl).2]
    exact ⟨init, rfl⟩
  exact ⟨init, e, rfl, he⟩

theorem At.behind (h : At src before (c ++ t :: rest)) : At src (before ++ c) (t :: rest) :=
  ⟨by rw [h.tokens, List.append_assoc], by simp⟩

theorem At.next (h : At src before (t :: ts)) (ht : t.kind ≠ .eof) : At src (before ++ [t]) ts := by
  obtain ⟨u, rest, rfl⟩ := (h.ended.tail ht).exists_cons
  exact At.behind (c := [t]) h

theorem At.mem (h : At src before (t :: ts)) : t ∈ src.tokens := by simp [h.tokens]

end Places

/-! ### What was consumed -/

section Consumed

variable {ts c mid : List Token} {t a : Token}

theorem of_split {P : List Token → Prop} (hsplit : ts = c ++ mid)
    (h : ∃ used, ts = used ++ mid ∧ P used) : P c := by
  obtain ⟨used, rfl, hp⟩ := h
  exact List.append_cancel_right hsplit ▸ hp

theorem took_of_split (used : List Token) (hsplit : ts = c ++ mid) (h : ts = used ++ mid) :
    c = used :=
  List.append_cancel_right (hsplit.symm.trans h)

theorem advance_took (hsplit : t :: ts = c ++ mid) (h : advance (t :: ts) = .ok (a, mid)) :
    c = [t] := by
  cases h
  exact took_of_split [t] hsplit rfl

theorem expect_took {k : TokenKind} {problem : Problem} {also : List TokenKind} (hk : k ≠ .eof)
    (hsplit : ts = c ++ mid) (h : expect k problem also ts = .ok (a, mid)) :
    c = [a] ∧ a.kind = k := by
  obtain ⟨rfl, hkind⟩ := (expect_eq_ok hk).mp h
  exact ⟨took_of_split [a] hsplit rfl, hkind⟩

theorem group_took {o : Token} {g : Group} (hsplit : o :: ts = c ++ mid)
    (h : group (o :: ts) = .ok (g, mid)) : c = o :: (g.contents ++ [g.closer]) := by
  obtain ⟨rfl, -, -⟩ := group_eq_ok.mp h
  exact took_of_split _ hsplit (by simp)

end Consumed

/-! ### Foresight -/

/-- What a reader does at a place is known from what it consumes, at least `n` tokens, and the next
    token. A fault stands at tokens of the source, and the token that it blames is the last one
    that is needed to know that reading fails. -/
structure Foresees {α : Type} (src : Source) (before : List Token) (n : Nat) (ts : List Token)
    (r : Source → Reader α) : Prop where
  ok : ∀ a mid, r src ts = .ok (a, mid) → ∃ c t rest, ts = c ++ t :: rest ∧ mid = t :: rest ∧
    n ≤ c.length ∧ ∀ src' rest', SameTexts src src' (before ++ c) →
      r src' (c ++ t :: rest') = .ok (a, t :: rest')
  fault : ∀ f, r src ts = .error f → f.On src.tokens ∧ ∀ t, f.Blames t →
    ∃ c rest, ts = c ++ t :: rest ∧ n ≤ c.length ∧ ∀ src' rest', SameTexts src src' (before ++ c) →
      ∃ f', r src' (c ++ t :: rest') = .error f'

section Primitives

variable {α β : Type} {src : Source} {before ts : List Token} {n : Nat} {t : Token}

theorem Foresees.mono {r : Source → Reader α} {m : Nat} (h : Foresees src before n ts r)
    (hm : m ≤ n) : Foresees src before m ts r := by
  constructor
  · intro a mid hr
    obtain ⟨c, t, rest, hts, hmid, hn, hsame⟩ := h.ok a mid hr
    exact ⟨c, t, rest, hts, hmid, le_trans hm hn, hsame⟩
  · intro f hr
    obtain ⟨hon, hblames⟩ := h.fault f hr
    refine ⟨hon, fun t ht => ?_⟩
    obtain ⟨c, rest, hts, hn, hsame⟩ := hblames t ht
    exact ⟨c, rest, hts, le_trans hm hn, hsame⟩

theorem foresees_pure (hts : At src before ts) {a : Source → α}
    (ha : ∀ src', SameTexts src src' before → a src' = a src) :
    Foresees src before 0 ts fun s => pure (a s) := by
  obtain ⟨t, rest, rfl⟩ := hts.exists_cons
  constructor
  · intro b mid h
    cases h
    refine ⟨[], t, rest, rfl, rfl, le_refl _, ?_⟩
    intro src' rest' hsame
    rw [List.append_nil] at hsame
    rw [pure_run, ha src' hsame]
    rfl
  · intro f h
    cases h

/-- A fault that blames no token. -/
theorem foresees_throw {f : Source → Fault} (hon : (f src).On src.tokens)
    (hblames : ∀ t, ¬ (f src).Blames t) :
    Foresees src before n ts fun s => (throw (f s) : Reader α) := by
  constructor
  · intro a mid h
    cases h
  · intro g h
    cases h
    exact ⟨hon, fun t ht => absurd ht (hblames t)⟩

theorem bind_of_error {r : Reader α} {k : α → Reader β} {f : Fault} (h : r ts = .error f) :
    (r >>= k) ts = .error f := by
  change Except.bind (r ts) (fun p => k p.1 p.2) = _
  rw [h]
  rfl

theorem Foresees.bind {r : Source → Reader α} {k : Source → α → Reader β}
    (h : Foresees src before n ts r) (hts : At src before ts)
    (hk : ∀ a c mid, ts = c ++ mid → At src (before ++ c) mid → r src ts = .ok (a, mid) →
      Foresees src (before ++ c) 0 mid fun s => k s a) :
    Foresees src before n ts fun s => r s >>= k s := by
  cases hr : r src ts with
  | error f =>
    obtain ⟨hon, hblames⟩ := h.fault f hr
    constructor
    · intro b mid hb
      rw [bind_of_error hr] at hb
      cases hb
    · intro g hg
      rw [bind_of_error hr] at hg
      cases hg
      refine ⟨hon, fun t ht => ?_⟩
      obtain ⟨c, rest, rfl, hn, hsame⟩ := hblames t ht
      refine ⟨c, rest, rfl, hn, fun src' rest' htexts => ?_⟩
      obtain ⟨f', hf'⟩ := hsame src' rest' htexts
      exact ⟨f', bind_of_error hf'⟩
  | ok p =>
    obtain ⟨a, mid⟩ := p
    obtain ⟨c, t, rest, rfl, rfl, hn, hfirst⟩ := h.ok a mid hr
    have hnext := hk a c (t :: rest) rfl hts.behind hr
    -- the first reader stops where it did, because its next token is still there
    have hagain : ∀ {c' u rest'}, t :: rest = c' ++ u :: rest' → ∀ src' rest'',
        SameTexts src src' (before ++ (c ++ c')) →
          (r src' >>= k src') (c ++ c' ++ u :: rest'') = k src' a (c' ++ u :: rest'') := by
      intro c' u rest' heq src' rest'' htexts
      have htexts' : SameTexts src src' (before ++ c) :=
        htexts.part ⟨[], c', by simp⟩
      cases c' with
      | nil =>
        cases heq
        rw [List.append_nil, bind_of_ok (hfirst src' rest'' htexts')]
        rfl
      | cons t' c' =>
        cases heq
        rw [List.append_assoc, List.cons_append, bind_of_ok (hfirst src' _ htexts')]
    constructor
    · intro b mid hb
      rw [bind_of_ok hr] at hb
      obtain ⟨c', u, rest', heq, rfl, -, hlater⟩ := hnext.ok b mid hb
      refine ⟨c ++ c', u, rest', by rw [heq, List.append_assoc], rfl, ?_, ?_⟩
      · rw [List.length_append]
        omega
      · intro src' rest'' htexts
        rw [hagain heq src' rest'' htexts]
        exact hlater src' rest'' (by rwa [List.append_assoc])
    · intro f hf
      rw [bind_of_ok hr] at hf
      obtain ⟨hon, hblames⟩ := hnext.fault f hf
      refine ⟨hon, fun u hu => ?_⟩
      obtain ⟨c', rest', heq, -, hlater⟩ := hblames u hu
      refine ⟨c ++ c', rest', by rw [heq, List.append_assoc], ?_, ?_⟩
      · rw [List.length_append]
        omega
      · intro src' rest'' htexts
        rw [hagain heq src' rest'' htexts]
        exact hlater src' rest'' (by rwa [List.append_assoc])

theorem Foresees.ite {p : Prop} [Decidable p] {r q : Source → Reader α}
    (hpos : p → Foresees src before n ts r) (hneg : ¬ p → Foresees src before n ts q) :
    Foresees src before n ts fun s => if p then r s else q s := by
  by_cases hp : p
  · simp only [if_pos hp]
    exact hpos hp
  · simp only [if_neg hp]
    exact hneg hp

/-- A reader that does the same as another wherever it needs no more tokens than that one. -/
theorem Foresees.decided {r q : Source → Reader α} (h : Foresees src before n ts q)
    (hnow : r src ts = q src ts) (heq : ∀ c t rest, ts = c ++ t :: rest → n ≤ c.length →
      ∀ s rest', SameTexts src s (before ++ c) → r s (c ++ t :: rest') = q s (c ++ t :: rest')) :
    Foresees src before n ts r := by
  constructor
  · intro a mid hr
    rw [hnow] at hr
    obtain ⟨c, t, rest, hcts, hmid, hn, hsame⟩ := h.ok a mid hr
    refine ⟨c, t, rest, hcts, hmid, hn, fun src' rest' htexts => ?_⟩
    rw [heq c t rest hcts hn src' rest' htexts]
    exact hsame src' rest' htexts
  · intro f hr
    rw [hnow] at hr
    obtain ⟨hon, hblames⟩ := h.fault f hr
    refine ⟨hon, fun t ht => ?_⟩
    obtain ⟨c, rest, hcts, hn, hsame⟩ := hblames t ht
    refine ⟨c, rest, hcts, hn, fun src' rest' htexts => ?_⟩
    rw [heq c t rest hcts hn src' rest' htexts]
    exact hsame src' rest' htexts

theorem Foresees.congr {r q : Source → Reader α} (h : Foresees src before n ts q)
    (hts : At src before ts) (heq : ∀ s us, us ≠ [] → r s us = q s us) :
    Foresees src before n ts r :=
  h.decided (heq src ts hts.ne_nil) fun _ _ _ _ _ s _ _ => heq s _ (by simp)

theorem foresees_peek {k : Source → Token → Reader α}
    (h : Foresees src before n (t :: ts) fun s => k s t) :
    Foresees src before n (t :: ts) fun s => peek >>= k s := by
  refine h.decided rfl ?_
  intro c u rest heq _ s rest' _
  cases c with
  | nil =>
    cases heq
    rfl
  | cons _ c =>
    cases heq
    rfl

theorem foresees_peekKind {k : Source → TokenKind → Reader α}
    (h : Foresees src before n (t :: ts) fun s => k s t.kind) :
    Foresees src before n (t :: ts) fun s => peekKind >>= k s := by
  refine h.decided rfl ?_
  intro c u rest heq _ s rest' _
  cases c with
  | nil =>
    cases heq
    rfl
  | cons _ c =>
    cases heq
    rfl

theorem foresees_advance (hts : At src before (t :: ts)) (ht : t.kind ≠ .eof) :
    Foresees src before 1 (t :: ts) fun _ => advance := by
  obtain ⟨u, rest, rfl⟩ := (hts.next ht).exists_cons
  constructor
  · intro a mid h
    cases h
    exact ⟨[t], u, rest, rfl, rfl, le_refl _, fun _ _ _ => rfl⟩
  · intro f h
    cases h

theorem foresees_fail (hts : At src before ts) (problem : Problem) (expected : List TokenKind) :
    Foresees src before 0 ts fun _ => (fail problem expected : Reader α) := by
  obtain ⟨t, rest, rfl⟩ := hts.exists_cons
  constructor
  · intro a mid h
    cases h
  · intro f h
    cases h
    refine ⟨Fault.on_token rfl hts.mem, ?_⟩
    rintro u ⟨-, hu⟩
    cases hu
    exact ⟨[], rest, rfl, le_refl _, fun _ _ _ => ⟨_, rfl⟩⟩

theorem foresees_expect (hts : At src before ts) {k : TokenKind} (hk : k ≠ .eof)
    (problem : Problem) (also : List TokenKind) :
    Foresees src before 0 ts fun _ => expect k problem also := by
  obtain ⟨t, rest, rfl⟩ := hts.exists_cons
  apply foresees_peekKind
  apply Foresees.ite
  · intro ht
    exact (foresees_advance hts (ht ▸ hk)).mono (Nat.zero_le _)
  · intro _
    exact foresees_fail hts _ _

theorem foresees_expectEnd (hts : At src before ts) (after : Whole) :
    Foresees src before 0 ts fun _ => expectEnd after := by
  obtain ⟨t, rest, rfl⟩ := hts.exists_cons
  apply foresees_peekKind
  apply Foresees.ite
  · intro _
    exact foresees_pure hts fun _ _ => rfl
  · intro _
    exact foresees_fail hts _ _

/-- One token is needed at least when the next one may start a keyword. -/
def lead (ts : List Token) : Nat := if headKind ts = .ident then 1 else 0

theorem lead_of_ident (ht : t.kind = .ident) : lead (t :: ts) = 1 := if_pos ht

theorem lead_of_not_ident (ht : t.kind ≠ .ident) : lead (t :: ts) = 0 := if_neg ht

/-- A keyword is told by two tokens: what starts with an identifier consumes the first of them. -/
theorem foresees_atKeyword {w : Bytes} {k : Source → Bool → Reader α}
    (h : Foresees src before (lead ts) ts fun s => k s (startsWithWord w ts)) :
    Foresees src before (lead ts) ts fun s => atKeyword w >>= k s := by
  refine h.decided (bind_of_ok (atKeyword_run w)) ?_
  rintro c u rest rfl hn s rest' -
  have hword : startsWithWord w (c ++ u :: rest') = startsWithWord w (c ++ u :: rest) := by
    match c with
    | [] =>
      have hu : u.kind ≠ .ident := by
        intro hu
        rw [List.nil_append, lead_of_ident hu, List.length_nil] at hn
        omega
      have hno : ∀ us, startsWithWord w (u :: us) = false := by
        intro us
        cases us with
        | nil => rfl
        | cons v us => simp [startsWithWord, hu]
      rw [List.nil_append, List.nil_append, hno, hno]
    | [_] => rfl
    | _ :: _ :: c => rfl
  rw [bind_of_ok (atKeyword_run w), hword]

end Primitives

end Reader
end BridgeCall
