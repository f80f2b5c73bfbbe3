/-
  BridgeCall/Proofs/Marker/BuildLines.lean
  ========================================
  **The build lines of a twin.**  The build lines of a source are cut, and all other edits
  stand behind its package clause, so no build line is left in front of the clause, as
  long as none has a carriage return inside (`Scan.unbuilt_edited`).  The header puts one
  there, the negation of the tag, so the text that is laid out has this one only
  (`Scan.headed_draft`).
-/
import BridgeCall.Proofs.Marker.Exports
import BridgeCall.Proofs.Marker.Places
import Mathlib.Data.List.DropRight
import Mathlib.Data.FinEnum

namespace BridgeCall

section Except

variable {ε α : Type} {p : α → Prop} [DecidablePred p]

instance decidableForallOk (x : Except ε α) : Decidable (∀ a, x = .ok a → p a) :=
  match x with
  | .error _ => .isTrue nofun
  | .ok a => decidable_of_iff (p a) ⟨fun h _ heq => Except.ok.inj heq ▸ h, fun h => h a rfl⟩

instance decidableExistsOk (x : Except ε α) : Decidable (∃ a, x = .ok a ∧ p a) :=
  match x with
  | .error _ => .isFalse fun ⟨_, heq, _⟩ => nomatch heq
  | .ok a => decidable_of_iff (p a) ⟨fun h => ⟨a, rfl, h⟩, fun ⟨_, heq, h⟩ => Except.ok.inj heq ▸ h⟩

end Except

/-! ### Edits that follow each other -/

namespace Edit

theorem spliceFrom_append {i : Nat} {as bs : Bytes} {es : List Edit}
    (h : ∀ e ∈ es, i + as.length ≤ e.start ∧ i + as.length ≤ e.stop) :
    spliceFrom i (as ++ bs) es = as ++ spliceFrom (i + as.length) bs es := by
  cases es with
  | nil => rfl
  | cons e es =>
    obtain ⟨hstart, hstop⟩ := h e List.mem_cons_self
    rw [spliceFrom, spliceFrom, List.take_append, List.take_of_length_le (by omega),
      List.drop_append, List.drop_of_length_le (by omega), List.nil_append,
      Nat.max_eq_right (by omega), Nat.max_eq_right hstop, Nat.sub_sub, Nat.sub_sub,
      List.append_assoc, List.append_assoc, List.append_assoc]

theorem spliceFrom_cut (i n : Nat) (bs : Bytes) (es : List Edit) :
    spliceFrom i bs (⟨i, i + n, []⟩ :: es) = spliceFrom (i + n) (bs.drop n) es := by
  rw [spliceFrom]
  simp

/-- Some edits in order, each in front of all others, are the first ones. -/
theorem eq_append_of_perm {first others es : List Edit} (horder : es.Pairwise (·.start ≤ ·.start))
    (hperm : es.Perm (first ++ others)) (hfirst : first.Pairwise (·.start < ·.start))
    (hbefore : ∀ e ∈ first, ∀ f ∈ others, e.start < f.start) :
    ∃ later, es = first ++ later ∧ later.Perm others := by
  induction first generalizing es with
  | nil => exact ⟨es, rfl, hperm⟩
  | cons e first ih =>
    obtain ⟨hnext, hrest⟩ := List.pairwise_cons.mp hfirst
    obtain ⟨a, es, rfl⟩ := List.exists_cons_of_ne_nil (l := es) (by
      rintro rfl
      exact absurd hperm.symm.eq_nil (by simp))
    obtain ⟨hleast, horder⟩ := List.pairwise_cons.mp horder
    obtain rfl : a = e := by
      by_contra hne
      have ha : a ∈ first ++ others :=
        List.mem_of_ne_of_mem hne (hperm.mem_iff.mp List.mem_cons_self)
      have he : e ∈ es :=
        List.mem_of_ne_of_mem (Ne.symm hne) (hperm.mem_iff.mpr List.mem_cons_self)
      have hle := hleast e he
      rcases List.mem_append.mp ha with ha | ha
      · exact absurd (hnext a ha) (by omega)
      · exact absurd (hbefore e List.mem_cons_self a ha) (by omega)
    obtain ⟨later, rfl, hlater⟩ := ih horder hperm.cons_inv hrest
      fun f hf => hbefore f (List.mem_cons_of_mem _ hf)
    exact ⟨later, rfl, hlater⟩

end Edit

namespace Scan

open Host.Lexer

/-! ### Cutting the build lines of a front -/

/-- The edits that take the build lines among some comments away. -/
def cuts (cs : List Host.Comment) : List Edit := (stretches cs).map fun (a, b) => ⟨a, b, []⟩

theorem mem_cuts {cs : List Host.Comment} {e : Edit} (h : e ∈ cuts cs) :
    ∃ c ∈ cs, e.start = c.pos - 1 ∧ e.stop = c.stop - 1 := by
  obtain ⟨r, hr, rfl⟩ := List.mem_map.mp h
  obtain ⟨c, hc, rfl⟩ := List.mem_map.mp hr
  exact ⟨c, (List.mem_filter.mp hc).1, rfl, rfl⟩

theorem cuts_cons_of_build {i : Nat} {text : Bytes} (h : isBuildLine text = true)
    (cs : List Host.Comment) :
    cuts (⟨i + 1, text⟩ :: cs) = ⟨i, i + text.length, []⟩ :: cuts cs := by
  have hstop : i + 1 + text.length - 1 = i + text.length := by omega
  simp [cuts, stretches, h, Host.Comment.stop, hstop]

theorem cuts_cons_of_other {i : Nat} {text : Bytes} (h : isBuildLine text = false)
    (cs : List Host.Comment) : cuts (⟨i + 1, text⟩ :: cs) = cuts cs := by
  simp [cuts, stretches, h]

theorem prefix_of_singleLine {text line : Bytes} (h : Host.Constraint.singleLine text = some line) :
    line <+: text := by
  unfold Host.Constraint.singleLine at h
  dsimp only at h
  obtain ⟨-, h⟩ := Option.ite_none_left_eq_some.mp h
  rw [← Option.some.inj h]
  split
  · exact List.dropLast_prefix text
  · exact List.prefix_rfl

/-- A build line starts as a comment line does. -/
theorem mark_of_isBuildLine {text : Bytes} (h : isBuildLine text = true) : [0x2f, 0x2f] <+: text := by
  rw [isBuildLine, Bool.or_eq_true, Option.isSome_iff_exists, Option.isSome_iff_exists] at h
  rcases h with ⟨rest, h⟩ | ⟨rest, h⟩
  · obtain ⟨line, hline, h⟩ := Option.bind_eq_some_iff.mp h
    obtain ⟨hlead, -⟩ := Option.ite_none_right_eq_some.mp h
    exact List.IsPrefix.trans ⟨_, rfl⟩
      ((List.isPrefixOf_iff_prefix.mp hlead).trans (prefix_of_singleLine hline))
  · obtain ⟨line, hline, h⟩ := Option.bind_eq_some_iff.mp h
    obtain ⟨after, hlead, -⟩ := Option.bind_eq_some_iff.mp h
    obtain ⟨hlead, -⟩ := Option.ite_none_right_eq_some.mp hlead
    exact (List.isPrefixOf_iff_prefix.mp hlead).trans (prefix_of_singleLine hline)

theorem isBuildLine_block (body : Bytes) : isBuildLine (blockText body) = false := by
  by_contra hbuild
  have hmark := mark_of_isBuildLine (Bool.not_eq_false _ ▸ hbuild)
  have hlead := List.prefix_of_prefix_length_le hmark (prefix_blockText body) (by simp)
  simp at hlead

/-- No build line in front of the package clause has a carriage return in front of its end. -/
def UnbrokenBuildLines (text : Bytes) : Prop :=
  ∀ f, Host.File.parse text = .ok f → ∀ c ∈ leadComments f, isBuildLine c.text = true →
    0x0d ∉ Bytes.trimRight (· = 0x0d) (text.lineFrom (c.pos - 1))

instance (text : Bytes) : Decidable (UnbrokenBuildLines text) :=
  inferInstanceAs (Decidable (∀ _, _ = _ → _))

theorem mem_trimRight_cons {p : UInt8 → Bool} {b : UInt8} {bs : Bytes} (a : UInt8)
    (h : b ∈ Bytes.trimRight p bs) : b ∈ Bytes.trimRight p (a :: bs) := by
  rw [Bytes.trimRight, List.mem_reverse] at h ⊢
  rw [List.reverse_cons, List.dropWhile_append, if_neg]
  · exact List.mem_append_left _ h
  · rw [List.isEmpty_iff]
    exact List.ne_nil_of_mem h

/-- A line without carriage returns in front of its end. -/
theorem exists_tail {body : Bytes} (h : 0x0d ∉ Bytes.trimRight (· = 0x0d) (0x2f :: 0x2f :: body)) :
    ∃ core tail, body = core ++ tail ∧ 0x0d ∉ core ∧ ∀ b ∈ tail, b = 0x0d := by
  refine ⟨body.rdropWhile (· = 0x0d), body.rtakeWhile (· = 0x0d), ?_, fun hmem => h ?_, ?_⟩
  · rw [List.rdropWhile_append_rtakeWhile]
  · exact mem_trimRight_cons _ (mem_trimRight_cons _ hmem)
  · intro b hb
    simpa using List.mem_rtakeWhile_imp hb

variable {text bs : Bytes} {i k : Nat} {cs : List Host.Comment} {later : List Edit}

/-- The comments of a front stand in it. -/
theorem front_bounds (h : Front i bs cs k) :
    i ≤ k ∧ ∀ c ∈ cs, i < c.pos ∧ c.pos ≤ k := by
  have hstep {i j k : Nat} {cs : List Host.Comment} (hij : i ≤ j)
      (h : j ≤ k ∧ ∀ c ∈ cs, j < c.pos ∧ c.pos ≤ k) : i ≤ k ∧ ∀ c ∈ cs, i < c.pos ∧ c.pos ≤ k :=
    ⟨hij.trans h.1, fun c hc => ⟨hij.trans_lt (h.2 c hc).1, (h.2 c hc).2⟩⟩
  have hcomment {i j k : Nat} {t : Bytes} {cs : List Host.Comment} (hij : i + 1 ≤ j)
      (h : j ≤ k ∧ ∀ c ∈ cs, j < c.pos ∧ c.pos ≤ k) :
      i ≤ k ∧ ∀ c ∈ (⟨i + 1, t⟩ : Host.Comment) :: cs, i < c.pos ∧ c.pos ≤ k := by
    have hfrom := hstep hij h
    obtain ⟨hfirst, hrest⟩ := hstep (Nat.le_succ i) hfrom
    exact ⟨hfirst, List.forall_mem_cons.mpr ⟨⟨Nat.lt_succ_self i, hfrom.1⟩, hrest⟩⟩
  induction h with
  | word => exact ⟨Nat.le_refl _, nofun⟩
  | @blank i k b rest cs _ _ ih => exact hstep (Nat.le_succ i) ih
  | line _ _ ih => exact hcomment (by omega) ih
  | block _ _ ih => exact hcomment (by omega) ih

theorem front_pairwise (h : Front i bs cs k) : cs.Pairwise (·.pos < ·.pos) := by
  induction h with
  | word => exact .nil
  | blank _ _ ih => exact ih
  | line _ h ih =>
    exact .cons (fun c hc => Nat.lt_of_le_of_lt (by simp; omega) ((front_bounds h).2 c hc).1) ih
  | block _ h ih =>
    exact .cons (fun c hc => Nat.lt_of_le_of_lt (by simp; omega) ((front_bounds h).2 c hc).1) ih

theorem leadTexts_blanks {as : Bytes} (h : ∀ b ∈ as, isBlank b = true) (bs : Bytes) :
    leadTexts (as ++ bs) = leadTexts bs := by
  induction as with
  | nil => rfl
  | cons b as ih =>
    rw [List.cons_append, leadTexts_blank (h b List.mem_cons_self),
      ih fun b hb => h b (List.mem_cons_of_mem _ hb)]

/-- Edits at the comments of a front, and behind it, leave the bytes in front of the first comment. -/
theorem spliceFrom_front (as : Bytes) {j : Nat} (h : Front j bs cs k) (hj : i + as.length = j)
    (hlater : ∀ e ∈ later, k < e.start ∧ k < e.stop) :
    Edit.spliceFrom i (as ++ bs) (cuts cs ++ later)
      = as ++ Edit.spliceFrom j bs (cuts cs ++ later) := by
  subst hj
  obtain ⟨hle, hbounds⟩ := front_bounds h
  refine Edit.spliceFrom_append fun e he => ?_
  rcases List.mem_append.mp he with he | he
  · obtain ⟨c, hc, hstart, hstop⟩ := mem_cuts he
    have hpos := (hbounds c hc).1
    rw [Host.Comment.stop] at hstop
    omega
  · have := hlater e he
    omega

theorem spliceFrom_word (hk : ∀ e ∈ later, k < e.start) (b : UInt8) (bs : Bytes) :
    ∃ after, Edit.spliceFrom k (b :: bs) later = b :: after := by
  cases later with
  | nil => exact ⟨bs, rfl⟩
  | cons e later =>
    obtain ⟨n, hn⟩ : ∃ n, e.start - k = n + 1 :=
      ⟨e.start - k - 1, by have := hk e List.mem_cons_self; omega⟩
    rw [Edit.spliceFrom, hn, List.take_succ_cons]
    exact ⟨_, rfl⟩

/-- A build line that is cut leaves the carriage returns at its end. -/
theorem spliceFrom_build {core tail rest : Bytes} (hcore : 0x0d ∉ core) (htail : ∀ b ∈ tail, b = 0x0d)
    (hbuild : isBuildLine (lineText (core ++ tail)) = true)
    (h : Front (i + (core ++ tail).length + 3) rest cs k)
    (hlater : ∀ e ∈ later, k < e.start ∧ k < e.stop) :
    Edit.spliceFrom i (0x2f :: 0x2f :: (core ++ tail ++ 0x0a :: rest))
        (cuts (⟨i + 1, lineText (core ++ tail)⟩ :: cs) ++ later)
      = (tail ++ [0x0a])
        ++ Edit.spliceFrom (i + (core ++ tail).length + 3) rest (cuts cs ++ later) := by
  have hline : (lineText (core ++ tail)).length = core.length + 2 := by
    have hkept : core.filter (· ≠ 0x0d) = core :=
      List.filter_eq_self.mpr fun b hb => decide_eq_true fun heq => hcore (heq ▸ hb)
    have hdropped : tail.filter (· ≠ 0x0d) = [] :=
      List.filter_eq_nil_iff.mpr fun b hb => by simp [htail b hb]
    rw [lineText, List.filter_append, hkept, hdropped, List.append_nil]
    rfl
  have hdrop : (0x2f :: 0x2f :: (core ++ tail ++ 0x0a :: rest)).drop (core.length + 2)
      = (tail ++ [0x0a]) ++ rest := by
    simp
  rw [cuts_cons_of_build hbuild, List.cons_append, Edit.spliceFrom_cut, hline, hdrop]
  refine spliceFrom_front _ h ?_ hlater
  simp only [List.length_append, List.length_singleton]
  omega

/-- By induction on the front: each edit is at the first comment that is left, or behind all of them. -/
theorem leadTexts_spliceFrom (h : Front i bs cs k) (htext : text.drop i = bs)
    (hlater : ∀ e ∈ later, k < e.start ∧ k < e.stop)
    (hunbroken : ∀ c ∈ cs, isBuildLine c.text = true →
      0x0d ∉ Bytes.trimRight (· = 0x0d) (text.lineFrom (c.pos - 1))) :
    leadTexts (Edit.spliceFrom i bs (cuts cs ++ later))
      = (cs.filter fun c => !isBuildLine c.text).map Host.Comment.text := by
  induction h with
  | @word i b rest hblank hslash =>
    obtain ⟨after, hafter⟩ := spliceFrom_word (fun e he => (hlater e he).1) b rest
    exact (congrArg leadTexts hafter).trans (leadTexts_other hblank hslash)
  | @blank i k b rest cs hblank h ih =>
    have hrest := ih (by rw [← List.drop_drop, htext]; rfl) hlater hunbroken
    rw [← hrest]
    exact (congrArg leadTexts (spliceFrom_front [b] h rfl hlater)).trans
      (leadTexts_blank hblank)
  | @line i k body rest cs hbody h ih =>
    have hrest := ih (by rw [Nat.add_assoc, ← List.drop_drop, htext]; simp) hlater
      fun c hc => hunbroken c (List.mem_cons_of_mem _ hc)
    cases hbuild : isBuildLine (lineText body) with
    | false =>
      have hmoved : Edit.spliceFrom i (0x2f :: 0x2f :: (body ++ 0x0a :: rest)) (cuts cs ++ later)
          = 0x2f :: 0x2f :: (body ++ 0x0a :: Edit.spliceFrom (i + body.length + 3) rest
            (cuts cs ++ later)) := by
        have hfront := spliceFrom_front (i := i) (0x2f :: 0x2f :: (body ++ [0x0a])) h
          (by simp; omega) hlater
        simpa using hfront
      rw [cuts_cons_of_other hbuild, hmoved, leadTexts_line hbody, hrest,
        List.filter_cons_of_pos (by simp [hbuild]), List.map_cons]
    | true =>
      have hline : text.lineFrom i = 0x2f :: 0x2f :: body := by
        rw [Bytes.lineFrom, htext, List.takeWhile_cons_of_pos (by decide),
          List.takeWhile_cons_of_pos (by decide), takeWhile_line hbody]
      obtain ⟨core, tail, rfl, hcore, htail⟩ :=
        exists_tail (hline ▸ hunbroken _ List.mem_cons_self hbuild)
      have hblanks : ∀ b ∈ tail ++ [0x0a], isBlank b = true := by
        intro b hb
        rcases List.mem_append.mp hb with hb | hb
        · rw [htail b hb]
          rfl
        · rw [List.mem_singleton.mp hb]
          rfl
      rw [spliceFrom_build hcore htail hbuild h hlater, leadTexts_blanks hblanks, hrest,
        List.filter_cons_of_neg (by simp [hbuild])]
  | @block i k body rest cs hbody h ih =>
    have hrest := ih (by rw [Nat.add_assoc, ← List.drop_drop, htext]; simp) hlater
      fun c hc => hunbroken c (List.mem_cons_of_mem _ hc)
    have hother := isBuildLine_block body
    have hmoved : Edit.spliceFrom i (0x2f :: 0x2a :: (body ++ rest)) (cuts cs ++ later)
        = 0x2f :: 0x2a :: (body ++ Edit.spliceFrom (i + body.length + 2) rest (cuts cs ++ later)) := by
      have hfront := spliceFrom_front (i := i) (0x2f :: 0x2a :: body) h (by simp; omega) hlater
      simpa using hfront
    rw [cuts_cons_of_other hother, hmoved, leadTexts_block hbody, hrest,
      List.filter_cons_of_pos (by simp [hother]), List.map_cons]

/-! ### A source without its build lines -/

variable {f : Host.File} {front rest : List Host.Lexeme} {package : Host.Lexeme}

theorem package_pos (h : f.IsRead text front package rest) : 0 < f.package := by
  rw [h.place]
  refine (Host.Lexer.ordered_lexemes text).1 package ?_
  rw [h.lexemes]
  exact List.mem_append_right front List.mem_cons_self

/-- The comments in front of the package clause are the lexemes there. -/
theorem leadComments_eq (h : f.IsRead text front package rest) :
    leadComments f = front.map Host.Lexeme.toComment := by
  obtain ⟨lead, later, hcomments, hlead, hlater⟩ := h.comments
  have hbefore : ∀ g ∈ lead, decide (g.pos < f.package) = true := by
    intro g hg
    rw [decide_eq_true_eq]
    cases g with
    | nil => exact package_pos h
    | cons c g =>
      have hc : c ∈ lead.flatten := List.mem_flatten.mpr ⟨_, hg, List.mem_cons_self⟩
      rw [hlead] at hc
      obtain ⟨l, hl, rfl⟩ := List.mem_map.mp hc
      exact h.before l hl
  have hnone : (later.takeWhile fun g => g.pos < f.package).flatten = [] := by
    refine List.flatten_eq_nil_iff.mpr fun g hg => ?_
    have hpos := List.mem_takeWhile_imp hg
    rw [decide_eq_true_eq] at hpos
    cases g with
    | nil => rfl
    | cons c g =>
      obtain ⟨l, hl, -, rfl⟩ := hlater _ ((List.takeWhile_prefix _).subset hg) c List.mem_cons_self
      exact absurd (h.behind l hl) (Nat.lt_asymm hpos)
  rw [leadComments, hcomments, List.takeWhile_append_of_pos hbefore, List.flatten_append, hnone,
    List.append_nil, hlead]

theorem cuts_pairwise (h : Front i bs cs k) : (cuts cs).Pairwise (·.start < ·.start) := by
  refine List.pairwise_map.mpr (List.pairwise_map.mpr ?_)
  refine ((front_pairwise h).imp_of_mem fun {c d} hc hd hlt => ?_).sublist List.filter_sublist
  have hbounds := (front_bounds h).2 c hc
  exact Nat.sub_lt_sub_right (Nat.succ_le_of_lt (Nat.lt_of_le_of_lt (Nat.zero_le i) hbounds.1)) hlt

/-- The cuts of a front are made before all edits behind it. -/
theorem splice_cuts (h : Front i bs cs k) {others : List Edit}
    (hothers : ∀ e ∈ others, k < e.start ∧ k < e.stop) (text : Bytes) :
    ∃ later, Edit.splice text (others ++ cuts cs) = Edit.spliceFrom 0 text (cuts cs ++ later)
      ∧ ∀ e ∈ later, k < e.start ∧ k < e.stop := by
  have hbefore : ∀ e ∈ cuts cs, ∀ e' ∈ others, e.start < e'.start := by
    intro e he e' he'
    obtain ⟨c, hc, hstart, -⟩ := mem_cuts he
    rw [hstart]
    exact (Nat.sub_le c.pos 1).trans_lt
      (Nat.lt_of_le_of_lt ((front_bounds h).2 c hc).2 (hothers e' he').1)
  obtain ⟨later, hsorted, hlater⟩ := Edit.eq_append_of_perm
    (Edit.sorted_pairwise (others ++ cuts cs))
    ((List.mergeSort_perm _ _).trans List.perm_append_comm) (cuts_pairwise h) hbefore
  refine ⟨later, ?_, fun e he => hothers e (hlater.mem_iff.mp he)⟩
  rw [← hsorted]
  rfl

/-- No build line is left in front of what stands at the package clause. -/
theorem unbuilt_edited {others : List Edit} (hparse : Host.File.parse text = .ok f)
    (hread : f.IsRead text front package rest) (hunbroken : UnbrokenBuildLines text)
    (hothers : ∀ e ∈ others, f.package ≤ e.start ∧ f.package ≤ e.stop) :
    ∀ t ∈ leadTexts (Edit.splice text (others ++ cuts (leadComments f))), isBuildLine t = false := by
  have hlast : f.package - 1 < f.package := Nat.sub_lt (package_pos hread) Nat.one_pos
  obtain ⟨i, hfront, hi⟩ := hread.exists_front (Host.faults_parse hparse).1
  rw [← leadComments_eq hread] at hfront
  obtain ⟨later, hsplice, hbehind⟩ := splice_cuts hfront
    (fun e he => ⟨hlast.trans_le (hothers e he).1, hlast.trans_le (hothers e he).2⟩) text
  rw [hsplice]
  rcases hi with rfl | ⟨hi, hmark⟩
  · intro t ht
    rw [List.drop_zero] at hfront
    rw [leadTexts_spliceFrom hfront rfl hbehind (hunbroken f hparse)] at ht
    obtain ⟨c, hc, rfl⟩ := List.mem_map.mp ht
    simpa using (List.mem_filter.mp hc).2
  · obtain ⟨bs, rfl⟩ : ∃ bs, text = 0xEF :: bs := by
      cases text with
      | nil => cases hmark
      | cons b bs => exact ⟨bs, congrArg (· :: bs) (Option.some.inj hmark)⟩
    have hall : ∀ e ∈ cuts (leadComments f) ++ later, 0 < e.start := by
      intro e he
      rcases List.mem_append.mp he with he | he
      · obtain ⟨c, hc, hstart, -⟩ := mem_cuts he
        have hlt := ((front_bounds hfront).2 c hc).1
        omega
      · exact Nat.zero_lt_of_lt (hbehind e he).1
    obtain ⟨after, hafter⟩ := spliceFrom_word hall 0xEF bs
    rw [hafter, leadTexts_other (by decide) (by decide)]
    nofun

/-! ### Texts without white space around them -/

theorem trimSpace_of_ascii {bs : Bytes} (h : ∀ b ∈ bs, b < 0x80) :
    Unicode.trimSpace bs = Bytes.trim (fun b => Unicode.isSpace b.toNat) bs := by
  have hleft : Unicode.trimSpaceLeft bs = Bytes.trimLeft (fun b => Unicode.isSpace b.toNat) bs := by
    rw [Unicode.trimSpaceLeft, runes_of_ascii h, List.dropWhile_map, List.flatMap_map]
    exact List.flatMap_singleton' _
  have hrest : ∀ b ∈ Bytes.trimLeft (fun b => Unicode.isSpace b.toNat) bs, b < 0x80 :=
    fun b hb => h b ((List.dropWhile_suffix _).subset hb)
  rw [Unicode.trimSpace, hleft, Unicode.trimSpaceRight, runes_of_ascii hrest, ← List.map_reverse,
    List.dropWhile_map, ← List.map_reverse, List.flatMap_map]
  exact List.flatMap_singleton' _

/-- The bytes of a tag are no white space, and neither end a line nor are dropped from one. -/
theorem plain_of_mem_tag {tag : Bytes} (h : Pattern.isTag tag = true) {b : UInt8} (hb : b ∈ tag) :
    b < 0x80 ∧ Unicode.isSpace b.toNat = false ∧ b ≠ 0x0a ∧ b ≠ 0x0d := by
  have hword := (forall_mem_tag h).2 b hb
  clear hb
  revert b
  decide +kernel

/-- What follows a byte that is no white space does not take it away. -/
theorem trimSpaceRight_cons {b : UInt8} (hascii : b < 0x80) (hb : Unicode.isSpace b.toNat = false)
    (bs : Bytes) : ∃ after, Unicode.trimSpaceRight (b :: bs) = b :: after := by
  rw [Unicode.trimSpaceRight, runes_cons_of_ascii bs hascii, List.reverse_cons, List.dropWhile_append]
  split
  · exact ⟨[], by simp [hb]⟩
  · rw [List.reverse_append, List.reverse_singleton, List.singleton_append, List.flatMap_cons]
    exact ⟨_, rfl⟩

/-- What is left of a text that ends in a tag, without the white space in front of it. -/
theorem trimSpace_tag {tag : Bytes} (h : Pattern.isTag tag = true) {lead bs : Bytes} {b : UInt8}
    (hascii : ∀ x ∈ lead ++ b :: bs, x < 0x80) (hlead : ∀ x ∈ lead, Unicode.isSpace x.toNat = true)
    (hb : Unicode.isSpace b.toNat = false) :
    Unicode.trimSpace (lead ++ (b :: bs ++ tag)) = b :: bs ++ tag := by
  have hne := (forall_mem_tag h).1
  have hall : ∀ x ∈ lead ++ (b :: bs ++ tag), x < 0x80 := by
    intro x hx
    rw [← List.append_assoc] at hx
    rcases List.mem_append.mp hx with hx | hx
    · exact hascii x hx
    · exact (plain_of_mem_tag h hx).1
  rw [trimSpace_of_ascii hall, Bytes.trim, Bytes.trimLeft, List.dropWhile_append_of_pos hlead,
    List.cons_append, List.dropWhile_cons_of_neg (by simp [hb])]
  refine List.rdropWhile_eq_self_iff.mpr fun hnonempty => ?_
  have hend : (b :: bs ++ tag).getLast hnonempty = tag.getLast hne :=
    List.getLast_append_of_ne_nil hnonempty hne
  have hplain := (plain_of_mem_tag h (List.getLast_mem hne)).2.1
  rw [← hend] at hplain
  simpa using hplain

theorem singleLine_of_not_mem {line : Bytes} (h : 0x0a ∉ line) :
    Host.Constraint.singleLine line = some line := by
  have hlast : line.getLast? ≠ some 0x0a := fun heq => h (List.mem_of_getLast? heq)
  simp [Host.Constraint.singleLine, hlast, h]

/-- The line that negates a tag is a build line, which says so. -/
theorem buildText?_negated {tag : Bytes} (h : Pattern.isTag tag = true) :
    Host.Constraint.buildText? ("//go:build !" ++ tag) = some ("!" ++ tag) := by
  have hfeed : 0x0a ∉ ("//go:build !" ++ tag : Bytes) := by
    intro hmem
    rcases List.mem_append.mp hmem with hmem | hmem
    · exact absurd hmem (by decide)
    · exact (plain_of_mem_tag h hmem).2.2.1 rfl
  have hmark : Bytes.startsWith "//go:build" ("//go:build !" ++ tag) = true := rfl
  have hrest : Bytes.stripLead "//go:build" ("//go:build !" ++ tag) = some (" !" ++ tag) := rfl
  have hwhole : Unicode.trimSpace ("//go:build !" ++ tag) = "//go:build !" ++ tag :=
    (trimSpace_tag h (by decide +kernel) nofun (by decide) :
      Unicode.trimSpace ([] ++ (0x2f :: Bytes.ofString "/go:build !" ++ tag)) = _)
  have htrim : Unicode.trimSpace (" !" ++ tag) = "!" ++ tag :=
    @trimSpace_tag tag h [0x20] [] 0x21 (by decide +kernel) (by decide +kernel) (by decide)
  have hshorter : (" !" ++ tag : Bytes).length ≠ ("!" ++ tag : Bytes).length := by
    rw [List.length_append, List.length_append, Nat.add_right_cancel_iff.ne]
    decide
  rw [Host.Constraint.buildText?, singleLine_of_not_mem hfeed]
  dsimp only [bind, Option.bind]
  rw [if_pos hmark, hwhole, Host.Constraint.afterMark, hrest]
  dsimp only [bind, Option.bind]
  rw [htrim, if_neg]
  rw [Bool.and_eq_true, decide_eq_true_eq]
  exact fun hsame => hshorter hsame.1

/-! ### The header -/

/-- The last element of a path has no line feed, or no slash. -/
theorem slash_not_mem_baseName {path : Bytes} (h : 0x0a ∈ Host.baseName path) :
    0x2f ∉ Host.baseName path := by
  revert h
  fun_cases Host.baseName path
  · decide
  · decide
  · rename_i base hbase
    rintro - hmem
    simpa using List.mem_takeWhile_imp (List.mem_reverse.mp hmem)

/-- A text that starts with something else than comments and blanks. -/
theorem leadTexts_other_of_mem {as : Bytes} (hslash : 0x2f ∉ as) {b : UInt8} (hb : b ∈ as)
    (hblank : isBlank b = false) (bs : Bytes) : leadTexts (as ++ bs) = [] := by
  induction as with
  | nil => cases hb
  | cons a as ih =>
    rw [List.mem_cons, not_or] at hslash
    cases ha : isBlank a with
    | false => exact leadTexts_other ha (Ne.symm hslash.1)
    | true =>
      rw [List.cons_append, leadTexts_blank ha]
      refine ih hslash.2 (List.mem_of_ne_of_mem ?_ hb)
      rintro rfl
      rw [ha] at hblank
      cases hblank

theorem leadTexts_trimLeft (body : Bytes) :
    leadTexts (Bytes.trimLeft (· = 0x0a) body) = leadTexts body := by
  have hfeeds : ∀ b ∈ body.takeWhile (· = 0x0a), isBlank b = true := by
    intro b hb
    obtain rfl : b = 0x0a := by simpa using List.mem_takeWhile_imp hb
    rfl
  rw [Bytes.trimLeft, ← leadTexts_blanks hfeeds, List.takeWhile_append_dropWhile]

/-- The comment of the header, up to the name of the file that the twin is from. -/
def origin : Bytes := " Code generated by jnicall from "

/-- The rest of that comment. -/
def caution : Bytes := ". DO NOT EDIT."

/-- The build line of the header, behind its mark. -/
def negated (tag : Bytes) : Bytes := "go:build !" ++ tag

theorem header_append (s : Scan) (settings : Settings) (bs : Bytes) :
    s.header settings ++ bs
      = 0x2f :: 0x2f :: (origin ++ Host.baseName s.name ++ caution ++ 0x0a :: 0x0a
        :: 0x2f :: 0x2f :: (negated settings.buildTag ++ 0x0a :: 0x0a :: bs)) := by
  have hfirst : ("// Code generated by jnicall from " : Bytes) = 0x2f :: 0x2f :: origin := rfl
  have hsecond : (". DO NOT EDIT.\n\n//go:build !" : Bytes)
      = caution ++ 0x0a :: 0x0a :: 0x2f :: 0x2f :: Bytes.ofString "go:build !" := rfl
  have hend : ("\n\n" : Bytes) = [0x0a, 0x0a] := rfl
  rw [header, hfirst, hsecond, hend, negated]
  simp only [List.append_assoc, List.cons_append, List.nil_append]

/-- The comment of the header is no build line. -/
theorem isBuildLine_origin {bs : Bytes} (h : 0x0a ∉ bs) : isBuildLine (lineText (origin ++ bs)) = false := by
  have hfeed : 0x0a ∉ lineText (origin ++ bs) := by
    intro hmem
    rcases List.mem_cons.mp hmem with hmem | hmem
    · cases hmem
    rcases List.mem_cons.mp hmem with hmem | hmem
    · cases hmem
    rcases List.mem_append.mp (List.mem_filter.mp hmem).1 with hmem | hmem
    · exact absurd hmem (by decide)
    · exact h hmem
  obtain ⟨xs, hxs⟩ : ∃ xs, lineText (origin ++ bs) = 0x2f :: 0x2f :: 0x20 :: 0x43 :: xs := ⟨_, rfl⟩
  rw [hxs] at hfeed ⊢
  have hbuild : Host.Constraint.buildText? (0x2f :: 0x2f :: 0x20 :: 0x43 :: xs) = none := by
    rw [Host.Constraint.buildText?, singleLine_of_not_mem hfeed]
    rfl
  have hplus : Host.Constraint.plusText? (0x2f :: 0x2f :: 0x20 :: 0x43 :: xs) = none := by
    obtain ⟨after, hafter⟩ : ∃ after, Unicode.trimSpace (0x20 :: 0x43 :: xs) = 0x43 :: after := by
      rw [Unicode.trimSpace, Unicode.trimSpaceLeft, runes_cons_of_ascii _ (by decide),
        runes_cons_of_ascii _ (by decide)]
      exact trimSpaceRight_cons (by decide) (by decide) _
    rw [Host.Constraint.plusText?, singleLine_of_not_mem hfeed]
    have hrest : Bytes.stripLead "//" (0x2f :: 0x2f :: 0x20 :: 0x43 :: xs) = some (0x20 :: 0x43 :: xs) := rfl
    dsimp only [bind, Option.bind]
    rw [hrest]
    dsimp only [bind, Option.bind]
    rw [hafter]
    rfl
  rw [isBuildLine, hbuild, hplus]
  rfl

theorem lineText_negated {tag : Bytes} (h : Pattern.isTag tag = true) :
    lineText (negated tag) = "//go:build !" ++ tag := by
  have hkept : tag.filter (· ≠ 0x0d) = tag :=
    List.filter_eq_self.mpr fun b hb => decide_eq_true (plain_of_mem_tag h hb).2.2.2
  rw [lineText, negated, List.filter_append, hkept]
  rfl

/-- In front of the twin stand a comment, the line that negates the tag, and what the body starts
    with. A line feed in the name of the file ends the comment, and then no other one is left. -/
theorem mem_leadTexts_header {s : Scan} {settings : Settings}
    (htag : Pattern.isTag settings.buildTag = true) {body t : Bytes}
    (ht : t ∈ leadTexts (s.header settings ++ Bytes.trimLeft (· = 0x0a) body)) :
    (∃ bs, 0x0a ∉ bs ∧ t = lineText (origin ++ bs)) ∨ t = "//go:build !" ++ settings.buildTag
      ∨ t ∈ leadTexts body := by
  have horigin : 0x0a ∉ origin := by decide
  rw [header_append] at ht
  by_cases hname : 0x0a ∈ Host.baseName s.name
  · have hslash := slash_not_mem_baseName hname
    obtain ⟨before, after, hsplit, hbefore⟩ := List.eq_append_cons_of_mem hname
    rw [hsplit, List.mem_append, List.mem_cons, not_or, not_or] at hslash
    have hline : 0x0a ∉ origin ++ before := by
      rw [List.mem_append, not_or]
      exact ⟨horigin, hbefore⟩
    have hrest : 0x2f ∉ after ++ caution := by
      rw [List.mem_append, not_or]
      exact ⟨hslash.2.2, by decide⟩
    have hword : 0x44 ∈ after ++ caution := List.mem_append_right _ (by decide)
    have hshape (bs : Bytes) : origin ++ (before ++ 0x0a :: after) ++ caution ++ bs
        = (origin ++ before) ++ 0x0a :: ((after ++ caution) ++ bs) := by
      simp only [List.append_assoc, List.cons_append]
    rw [hsplit, hshape, leadTexts_line hline, leadTexts_other_of_mem hrest hword (by decide),
      List.mem_singleton] at ht
    exact .inl ⟨before, hbefore, ht⟩
  · have hrest : 0x0a ∉ Host.baseName s.name ++ caution := by
      rw [List.mem_append, not_or]
      exact ⟨hname, by decide⟩
    have hline : 0x0a ∉ origin ++ (Host.baseName s.name ++ caution) := by
      rw [List.mem_append, not_or]
      exact ⟨horigin, hrest⟩
    have hbuild : 0x0a ∉ negated settings.buildTag := by
      rw [negated, List.mem_append, not_or]
      exact ⟨by decide, fun hmem => (plain_of_mem_tag htag hmem).2.2.1 rfl⟩
    rw [List.append_assoc origin, leadTexts_line hline, leadTexts_blank (by decide),
      leadTexts_line hbuild, leadTexts_blank (by decide), leadTexts_trimLeft,
      lineText_negated htag] at ht
    rcases List.mem_cons.mp ht with rfl | ht
    · exact .inl ⟨_, hrest, rfl⟩
    · exact .inr (List.mem_cons.mp ht)

/-! ### The build lines of the draft -/

variable {settings : Settings} {name data : Bytes} {s : Scan} {r : Registry}

/-- A marker stands behind the package clause. -/
theorem behind_marker (hread : f.IsRead text front package rest) {m : Marker}
    (hm : m ∈ (ofFile settings name text f).markers) :
    f.package ≤ m.start ∧ f.package ≤ m.stop := by
  obtain ⟨qualifier, fn, c, hc, hjudge⟩ := exists_call hm
  obtain ⟨p, lit, hliteral, -⟩ := literal_of_judge hjudge
  obtain ⟨hstart, hstop⟩ := judge_stretch hjudge
  obtain ⟨d, hd, hc⟩ := List.mem_flatMap.mp hc
  obtain ⟨hcall, hargs⟩ := literals_markerCalls (hread.decls d hd) c hc
  obtain ⟨close, hclose, -, hend, hbetween⟩ := encloses_of_markerArgs? hcall hargs
  obtain ⟨⟨first, hfirst, hpos⟩, -⟩ := hbetween p .string lit hliteral
  rw [hstart, hstop, hend, ← hpos]
  exact ⟨Nat.le_sub_one_of_lt (hread.behind first hfirst), Nat.le_of_lt (hread.behind close hclose)⟩

theorem mem_markers_of_coded {m : Marker} {p : Plan} {code : Bytes} (h : (m, p, code) ∈ s.coded settings) :
    m ∈ s.markers := by
  obtain ⟨x, hx, hcode⟩ := List.mem_filterMap.mp h
  obtain ⟨m', hm, rfl⟩ := List.mem_map.mp hx
  obtain ⟨y, -, hsame⟩ := Option.map_eq_some_iff.mp hcode
  rw [← (Prod.mk.inj hsame).1]
  exact hm

theorem edges_of_exportEdit {d : Directive} {e : Edit} (h : (exportEdit r d).toOption = some e) :
    e.start = d.start ∧ e.stop = d.stop := by
  unfold exportEdit at h
  split at h
  · rw [← Option.some.inj h]
    exact ⟨rfl, rfl⟩
  · cases h

/-- No build line of a file is left in front of its package clause, whatever takes the place of its
    markers and exports. -/
theorem unbuilt_source (hrun : run settings name text = .ok s) (hunbroken : UnbrokenBuildLines text) :
    ∀ t ∈ leadTexts (s.edited settings ((s.exports.map (exportEdit r)).filterMap Except.toOption)),
      isBuildLine t = false := by
  obtain ⟨f, hparse, -, htext, -, hconstraints⟩ := run_eq_ok hrun
  obtain ⟨front, package, rest, hread⟩ := Host.File.exists_isRead hparse
  have hscan : s = ofFile settings name text f := by
    rw [run_eq, hparse] at hrun
    exact (Except.ok.inj hrun).symm
  rw [edited, htext, hconstraints]
  refine unbuilt_edited hparse hread hunbroken fun e he => ?_
  rcases List.mem_append.mp he with he | he
  · obtain ⟨⟨m, p, code⟩, hcoded, rfl⟩ := List.mem_map.mp he
    exact behind_marker hread (hscan ▸ mem_markers_of_coded hcoded)
  · obtain ⟨x, hx, he⟩ := List.mem_filterMap.mp he
    obtain ⟨d, hd, rfl⟩ := List.mem_map.mp hx
    obtain ⟨l, hl, -, -, hstart, hstop⟩ := exists_export hread (hscan ▸ hd)
    obtain ⟨hedge, hedge'⟩ := edges_of_exportEdit he
    rw [hedge, hedge', hstart, hstop]
    have hbehind := hread.behind l hl
    exact ⟨Nat.le_sub_one_of_lt hbehind,
      Nat.le_sub_one_of_lt (hbehind.trans_le (Nat.le_add_right l.pos l.text.length))⟩

/-- **The only build line of a draft.** In front of the package clause of the text that is laid out as
    a twin there is no build line but the one that negates the tag. -/
theorem headed_draft (hrun : run settings name text = .ok s)
    (htag : Pattern.isTag settings.buildTag = true) (hunbroken : UnbrokenBuildLines text)
    (hparse : Host.File.parse (s.draft settings r) = .ok f) :
    ∀ c ∈ leadComments f, isBuildLine c.text = true → c.text = "//go:build !" ++ settings.buildTag := by
  obtain ⟨front, package, rest, hread⟩ := Host.File.exists_isRead hparse
  have hhead : (s.draft settings r).head? ≠ some 0xEF := by
    rw [draft, header_append]
    nofun
  have hlead := hread.leadTexts_eq hhead
  intro c hc hbuild
  rw [leadComments_eq hread] at hc
  obtain ⟨l, hl, rfl⟩ := List.mem_map.mp hc
  have hmem : l.text ∈ leadTexts (s.draft settings r) := hlead ▸ List.mem_map_of_mem hl
  have hbuild : isBuildLine l.text = true := hbuild
  rcases mem_leadTexts_header htag hmem with ⟨bs, hbs, htext⟩ | htext | hbody
  · rw [htext, isBuildLine_origin hbs] at hbuild
    cases hbuild
  · exact htext
  · rw [unbuilt_source hrun hunbroken l.text hbody] at hbuild
    cases hbuild

/-- Laying the twin out keeps its build lines: it can be read again, and each build line in front of its
    package clause was there before. -/
def KeepsBuildLines (settings : Settings) (r : Registry) (s : Scan) : Prop :=
  ∀ f, Host.File.parse (s.draft settings r) = .ok f → ∀ data ∈ (s.rewrite settings r).text,
    ∃ g, Host.File.parse data = .ok g ∧ ∀ c ∈ leadComments g, isBuildLine c.text = true →
      c.text ∈ (leadComments f).map Host.Comment.text

instance (settings : Settings) (r : Registry) (s : Scan) : Decidable (KeepsBuildLines settings r s) :=
  inferInstanceAs (Decidable (∀ _, _ = _ → _))

/-- Then the twin has no other build line, either. -/
theorem headed_twin (hrun : run settings name text = .ok s)
    (htag : Pattern.isTag settings.buildTag = true) (hunbroken : UnbrokenBuildLines text)
    (hkeeps : KeepsBuildLines settings r s) (hdata : (s.rewrite settings r).text = some data) :
    Headed settings data := by
  obtain ⟨f, hparse⟩ := exists_draft hdata
  obtain ⟨g, hagain, hlines⟩ := hkeeps f hparse data hdata
  refine ⟨g, hagain, fun c hc line hline => ?_⟩
  have hbuild : isBuildLine c.text = true := by simp [isBuildLine, hline]
  obtain ⟨d, hd, hsame⟩ := List.mem_map.mp (hlines c hc hbuild)
  rw [← hsame] at hbuild hline
  rw [headed_draft hrun htag hunbroken hparse d hd hbuild, buildText?_negated htag] at hline
  exact (Option.some.inj hline).symm

end Scan
end BridgeCall
