/-
  BridgeCall/Proofs/Marker/Requirement.lean
  =========================================
  **Files that need the tag.**  A source and its twin are built side by side
  unless the build line of the source is false whenever the tag is off.  Whether it
  is takes all values of the other tags; the scan tries one, with all of them on.

  This one value decides the question where the other tags only count in favour of
  the file: then it is the best case, and a file that is left out in it is always
  left out (`Scan.tagged_iff_requires`).  A tag that is negated counts against it:
  `jnicall || !linux` is false with `linux` on and true with no tag at all, so that
  the file is taken for a source and is built together with its twin
  (`Scan.tagged_without_need`).
-/
import BridgeCall.Proofs.Marker.Tagging

namespace BridgeCall

namespace Host.Constraint

/-- The expression is false whenever the tag is off, whatever else is on. -/
def Requires (t : Bytes) (x : Constraint) : Prop :=
  ∀ on : Bytes → Bool, on t = false → x.eval on = false

/-- Whether every tag but `t` counts in favour of the expression, or against it: it stands under an
    even number of negations, or an odd one. -/
def others (t : Bytes) (inFavour : Bool) : Constraint → Bool
  | .tag s => s = t || inFavour
  | .not x => x.others t !inFavour
  | .and x y | .or x y => x.others t inFavour && y.others t inFavour

/-- With more tags on, an expression changes only in the direction in which its tags count. By
    induction on the expression, for both directions at once: a negation swaps them. -/
theorem eval_of_others {t : Bytes} {on more : Bytes → Bool} (ht : on t = more t)
    (hmore : ∀ s, on s = true → more s = true) (x : Constraint) (inFavour : Bool)
    (h : x.others t inFavour = true) :
    (inFavour = true → x.eval on = true → x.eval more = true)
      ∧ (inFavour = false → x.eval more = true → x.eval on = true) := by
  induction x generalizing inFavour with
  | tag s =>
    constructor
    · intro _ hs
      exact hmore s hs
    · intro hagainst hs
      have hst : s = t := by simpa [others, hagainst] using h
      rw [eval, hst] at hs ⊢
      rw [ht, hs]
  | not x ih =>
    obtain ⟨hup, hdown⟩ := ih (!inFavour) h
    constructor
    · intro hfavour hx
      by_contra hmore'
      have hx' : x.eval on = true := hdown (by simp [hfavour]) (by simpa [eval] using hmore')
      simp [eval, hx'] at hx
    · intro hagainst hx
      by_contra hon
      have hx' : x.eval more = true := hup (by simp [hagainst]) (by simpa [eval] using hon)
      simp [eval, hx'] at hx
  | and x y ihx ihy =>
    obtain ⟨hx, hy⟩ := (Bool.and_eq_true _ _ ▸ h : _ ∧ _)
    simp only [eval, Bool.and_eq_true]
    constructor
    · rintro hfavour ⟨hx', hy'⟩
      exact ⟨(ihx _ hx).1 hfavour hx', (ihy _ hy).1 hfavour hy'⟩
    · rintro hagainst ⟨hx', hy'⟩
      exact ⟨(ihx _ hx).2 hagainst hx', (ihy _ hy).2 hagainst hy'⟩
  | or x y ihx ihy =>
    obtain ⟨hx, hy⟩ := (Bool.and_eq_true _ _ ▸ h : _ ∧ _)
    simp only [eval, Bool.or_eq_true]
    constructor
    · rintro hfavour (hx' | hy')
      · exact .inl ((ihx _ hx).1 hfavour hx')
      · exact .inr ((ihy _ hy).1 hfavour hy')
    · rintro hagainst (hx' | hy')
      · exact .inl ((ihx _ hx).2 hagainst hx')
      · exact .inr ((ihy _ hy).2 hagainst hy')

theorem needs_eq_true {t : Bytes} {x : Constraint} :
    x.needs t = true ↔ x.mentions t = true ∧ x.eval (fun s => s ≠ t) = false := by
  simp [needs]

/-- The value that is tried is one of those that count. -/
theorem needs_of_requires {t : Bytes} {x : Constraint} (hmentions : x.mentions t = true)
    (h : x.Requires t) : x.needs t = true :=
  needs_eq_true.mpr ⟨hmentions, h _ (by simp)⟩

/-- The value that is tried is the best case when the other tags only count in favour. -/
theorem requires_of_needs {t : Bytes} {x : Constraint} (hothers : x.others t true = true)
    (h : x.needs t = true) : x.Requires t := by
  intro on ht
  obtain ⟨-, htried⟩ := needs_eq_true.mp h
  have hbest : ∀ s, on s = true → decide (s ≠ t) = true := by
    intro s hs
    simp only [decide_eq_true_eq]
    rintro rfl
    rw [ht] at hs
    cases hs
  have hmono := (eval_of_others (by simp [ht]) hbest x true hothers).1 rfl
  cases hx : x.eval on with
  | false => rfl
  | true =>
    rw [hmono hx] at htried
    cases htried

/-- The tag is required when no file with the expression is built with one that asks for the tag to be
    off. -/
theorem requires_iff_apart {t : Bytes} {x : Constraint} :
    x.Requires t ↔ ∀ on, ¬ (x.eval on = true ∧ (Constraint.not (.tag t)).eval on = true) := by
  constructor
  · rintro h on ⟨hx, htag⟩
    rw [h on (by simpa [eval] using htag)] at hx
    cases hx
  · intro h on ht
    by_contra hx
    exact h on ⟨by simpa using hx, by simp [eval, ht]⟩

end Host.Constraint

namespace Scan

open Host.Constraint (Requires needs_of_requires requires_of_needs requires_iff_apart)

/-- The expression of a comment that is a build line. -/
def buildLine? (c : Host.Comment) : Option Host.Constraint :=
  (Host.Constraint.buildText? c.text).bind Host.Constraint.parse

/-- The expressions of the build lines in front of the package clause. -/
def buildLines (f : Host.File) : List Host.Constraint := (leadComments f).filterMap buildLine?

/-- The last build line decides whether a file is tagged. -/
theorem foldl_tagAfter (tag : Bytes) (tagged : Bool) (cs : List Host.Comment) :
    cs.foldl (tagAfter tag) tagged
      = ((cs.filterMap buildLine?).getLast?.map (·.needs tag)).getD tagged := by
  induction cs generalizing tagged with
  | nil => rfl
  | cons c cs ih =>
    rw [List.foldl_cons, ih]
    cases hc : buildLine? c with
    | none =>
      have hkept : tagAfter tag tagged c = tagged := by
        unfold tagAfter
        rw [← buildLine?, hc]
      rw [List.filterMap_cons_none hc, hkept]
    | some x =>
      have hdecided : tagAfter tag tagged c = x.needs tag := by
        unfold tagAfter
        rw [← buildLine?, hc]
      rw [List.filterMap_cons_some hc, List.getLast?_cons, hdecided]
      cases (cs.filterMap buildLine?).getLast? <;> rfl

theorem tagged_of_buildLines (settings : Settings) (name : Bytes) {text : Bytes} {f : Host.File}
    {x : Host.Constraint} (hparse : Host.File.parse text = .ok f) (hline : buildLines f = [x]) :
    ∃ s, run settings name text = .ok s ∧ s.tagged = x.needs settings.buildTag := by
  obtain ⟨s, hrun⟩ := run_ok_of_parse settings name hparse
  obtain ⟨f', hparse', -, -, htagged, -⟩ := run_eq_ok hrun
  obtain rfl : f = f' := by simpa [hparse] using hparse'
  refine ⟨s, hrun, ?_⟩
  rw [htagged, foldl_tagAfter, ← buildLines, hline]
  rfl

/-- **Tagged files and the tag.** A file with one build line is scanned, and it is tagged when its line
    speaks of the tag and requires it. Where the other tags only count in favour of the file it is
    tagged exactly then, and the line that its twin starts with is never true together with its own. -/
theorem tagged_iff_requires (settings : Settings) (name : Bytes) {text : Bytes} {f : Host.File}
    {x : Host.Constraint} (hparse : Host.File.parse text = .ok f) (hline : buildLines f = [x]) :
    ∃ s, run settings name text = .ok s
      ∧ (x.mentions settings.buildTag = true → x.Requires settings.buildTag → s.tagged = true)
      ∧ (x.others settings.buildTag true = true →
        (s.tagged = true ↔ x.mentions settings.buildTag = true ∧ x.Requires settings.buildTag)
        ∧ (s.tagged = true → Pattern.isTag settings.buildTag = true →
          ∃ y, Host.Constraint.parse ("!" ++ settings.buildTag) = some y
            ∧ ∀ on, ¬ (x.eval on = true ∧ y.eval on = true))) := by
  obtain ⟨s, hrun, htagged⟩ := tagged_of_buildLines settings name hparse hline
  refine ⟨s, hrun, ?_, ?_⟩
  · intro hmentions hrequires
    rw [htagged]
    exact needs_of_requires hmentions hrequires
  · intro hothers
    constructor
    · rw [htagged]
      constructor
      · intro hneeds
        exact ⟨(Host.Constraint.needs_eq_true.mp hneeds).1, requires_of_needs hothers hneeds⟩
      · rintro ⟨hmentions, hrequires⟩
        exact needs_of_requires hmentions hrequires
    · intro hyes htag
      rw [htagged] at hyes
      exact ⟨_, parse_negated htag, requires_iff_apart.mp (requires_of_needs hothers hyes)⟩

/-- A file with one build line, as it is read. -/
theorem exists_buildLine (text : Bytes) (x : Host.Constraint)
    (h : ((Host.File.parse text).toOption.any fun f => decide (buildLines f = [x])) = true) :
    ∃ f, Host.File.parse text = .ok f ∧ buildLines f = [x] := by
  cases hparse : Host.File.parse text with
  | error i =>
    rw [hparse] at h
    cases h
  | ok f =>
    rw [hparse] at h
    exact ⟨f, rfl, of_decide_eq_true h⟩

/-- A file for one system that needs the tag. -/
def portable : Bytes := "//go:build jnicall && (linux || darwin)\n\npackage p\n"

theorem tagged_iff_requires_portable :
    ∃ f x s, Host.File.parse portable = .ok f ∧ buildLines f = [x]
      ∧ run {} "a.go" portable = .ok s
      ∧ x.others "jnicall" true = true ∧ s.tagged = true ∧ x.Requires "jnicall" := by
  obtain ⟨f, hparse, hline⟩ := exists_buildLine portable
    (.and (.tag "jnicall") (.or (.tag "linux") (.tag "darwin"))) (by decide +kernel)
  obtain ⟨s, hrun, hif, honly⟩ := tagged_iff_requires {} "a.go" hparse hline
  have hrequires : Requires "jnicall"
      (.and (.tag "jnicall") (.or (.tag "linux") (.tag "darwin"))) := by
    intro on hoff
    simp [Host.Constraint.eval, hoff]
  exact ⟨f, _, s, hparse, hline, hrun, by decide, hif (by decide) hrequires, hrequires⟩

/-- A file that is left out on one system only, unless the tag is on. -/
def elsewhere : Bytes := "//go:build jnicall || !linux\n\npackage p\n"

/-- Such a file is taken for one that needs the tag, and with no tag at all it is built together with
    its twin. -/
theorem tagged_without_need :
    ∃ f x y s, Host.File.parse elsewhere = .ok f ∧ buildLines f = [x]
      ∧ run {} "a.go" elsewhere = .ok s ∧ s.tagged = true
      ∧ ¬ x.Requires "jnicall"
      ∧ Host.Constraint.parse ("!" ++ "jnicall") = some y
      ∧ x.eval (fun _ => false) = true ∧ y.eval (fun _ => false) = true := by
  obtain ⟨f, hparse, hline⟩ := exists_buildLine elsewhere
    (.or (.tag "jnicall") (.not (.tag "linux"))) (by decide +kernel)
  obtain ⟨s, hrun, htagged⟩ := tagged_of_buildLines {} "a.go" hparse hline
  refine ⟨f, _, _, s, hparse, hline, hrun, ?_, ?_, parse_negated (by decide), rfl, rfl⟩
  · rw [htagged]
    decide
  · intro h
    exact absurd (h (fun _ => false) rfl) (by decide)

end Scan
end BridgeCall
