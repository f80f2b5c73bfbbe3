/-
  BridgeCall/Proofs/Marker/Twin.lean
  ==================================
  **From a file to its twin.**  A text with edits is made of pieces: stretches of the
  old text that are kept, and what the edits put there, in the order of their starts.
  Each edit is put exactly once (`Edit.pieces_puts`), and no byte that an edit takes
  away is kept (`Edit.kept_outside`), also where edits overlap.

  A file that has a twin has no problems, and the code of each of its markers is an
  edit (`Scan.edits_of_twin`).
-/
import BridgeCall.Marker.Rewrite
import Mathlib.Data.List.Sort

namespace BridgeCall

namespace Edit

/-! ### The pieces of an edited text -/

/-- A piece of an edited text: a stretch that is kept, or what an edit puts there. -/
inductive Piece where
  | kept (start stop : Nat)
  | put (e : Edit)

namespace Piece

def bytes (text : Bytes) : Piece → Bytes
  | .kept a b => Bytes.slice a b text
  | .put e => e.text

def edit? : Piece → Option Edit
  | .kept .. => none
  | .put e => some e

end Piece

/-- The pieces of a text of this length from offset `i` on. -/
def piecesFrom (i length : Nat) : List Edit → List Piece
  | [] => [.kept i length]
  | e :: es => .kept i e.start :: .put e :: piecesFrom (max i e.stop) length es

def sorted (edits : List Edit) : List Edit := edits.mergeSort fun a b => a.start ≤ b.start

/-- The pieces of a text with some edits. -/
def pieces (text : Bytes) (edits : List Edit) : List Piece :=
  piecesFrom 0 text.length (sorted edits)

theorem spliceFrom_eq (i : Nat) (text : Bytes) (es : List Edit) :
    spliceFrom i (text.drop i) es = (piecesFrom i text.length es).flatMap (Piece.bytes text) := by
  induction es generalizing i with
  | nil => simp [spliceFrom, piecesFrom, Piece.bytes, Bytes.slice, List.take_of_length_le]
  | cons e es ih =>
    have hdrop : (text.drop i).drop (e.stop - i) = text.drop (max i e.stop) := by
      rw [List.drop_drop]
      congr 1
      omega
    rw [spliceFrom, hdrop, ih, piecesFrom]
    simp [Piece.bytes, Bytes.slice]

/-- An edited text is its pieces, one after the other. -/
theorem splice_eq (text : Bytes) (edits : List Edit) :
    splice text edits = (pieces text edits).flatMap (Piece.bytes text) :=
  spliceFrom_eq 0 text _

theorem puts_piecesFrom (i length : Nat) (es : List Edit) :
    (piecesFrom i length es).filterMap Piece.edit? = es := by
  induction es generalizing i with
  | nil => rfl
  | cons e es ih => exact congrArg (e :: ·) (ih _)

/-- Each edit is put exactly once. -/
theorem pieces_puts (text : Bytes) (edits : List Edit) :
    ((pieces text edits).filterMap Piece.edit?).Perm edits := by
  rw [pieces, puts_piecesFrom]
  exact List.mergeSort_perm edits _

theorem sorted_pairwise (edits : List Edit) :
    (sorted edits).Pairwise fun a b => a.start ≤ b.start := by
  have h : (sorted edits).Pairwise fun a b => decide (a.start ≤ b.start) = true := by
    apply List.pairwise_mergeSort
    · intro a b c hab hbc
      simp only [decide_eq_true_eq] at *
      omega
    · intro a b
      simp only [Bool.or_eq_true, decide_eq_true_eq]
      omega
  exact h.imp fun hab => of_decide_eq_true hab

theorem le_of_kept {i length a b : Nat} {es : List Edit}
    (h : .kept a b ∈ piecesFrom i length es) : i ≤ a := by
  induction es generalizing i with
  | nil =>
    rw [piecesFrom, List.mem_singleton] at h
    cases h
    exact Nat.le_refl _
  | cons e es ih =>
    rw [piecesFrom, List.mem_cons, List.mem_cons] at h
    rcases h with h | h | h
    · cases h
      exact Nat.le_refl _
    · cases h
    · exact (Nat.le_max_left i e.stop).trans (ih h)

/-- By induction on the edits: what is kept before one of them stops where it starts, and what is kept
    behind it starts where it stops. -/
theorem kept_apart {i length a b : Nat} {es : List Edit}
    (hsorted : es.Pairwise fun a b => a.start ≤ b.start)
    (h : .kept a b ∈ piecesFrom i length es) {e : Edit} (he : e ∈ es) :
    b ≤ e.start ∨ e.stop ≤ a := by
  induction es generalizing i with
  | nil => cases he
  | cons first es ih =>
    obtain ⟨hfirst, hrest⟩ := List.pairwise_cons.mp hsorted
    rw [piecesFrom, List.mem_cons, List.mem_cons] at h
    rcases h with h | h | h
    · cases h
      rcases List.mem_cons.mp he with rfl | he
      · exact .inl (Nat.le_refl _)
      · exact .inl (hfirst e he)
    · cases h
    · rcases List.mem_cons.mp he with rfl | he
      · exact .inr ((Nat.le_max_right i e.stop).trans (le_of_kept h))
      · exact ih hrest h he

/-- No byte that is kept stands inside of an edit. -/
theorem kept_outside {text : Bytes} {edits : List Edit} {a b k : Nat} {e : Edit}
    (h : .kept a b ∈ pieces text edits) (hk : a ≤ k ∧ k < b) (he : e ∈ edits) :
    ¬ (e.start ≤ k ∧ k < e.stop) := by
  have hmem : e ∈ sorted edits := List.mem_mergeSort.mpr he
  have hapart := kept_apart (sorted_pairwise edits) h hmem
  omega

end Edit

namespace Scan

/-! ### What a file becomes -/

def failure? {α : Type} : Except Diagnostic α → Option Diagnostic
  | .error d => some d
  | .ok _ => none

/-- The markers of a file that have code, with their plans. -/
def coded (s : Scan) (settings : Settings) : List (Marker × Plan × Bytes) :=
  (s.markers.map fun m => (m, m.expand settings)).filterMap fun (m, e) =>
    e.toOption.map fun (p, code) => (m, p, code)

def plans (s : Scan) (settings : Settings) : List Plan := (s.coded settings).map fun (_, p, _) => p

/-- The problems of a file that have nothing to do with the name. -/
def nameless (s : Scan) (settings : Settings) : List Diagnostic :=
  s.problems ++ (s.markers.map fun m => (m, m.expand settings)).filterMap fun (_, e) => failure? e

/-- The text of a file with code for its markers, without its build lines, and with some other edits. -/
def edited (s : Scan) (settings : Settings) (others : List Edit) : Bytes :=
  Edit.splice s.text ((s.coded settings).map (fun (m, _, code) => ⟨m.start, m.stop, code⟩)
    ++ others ++ s.constraints.map fun (a, b) => ⟨a, b, []⟩)

/-- The text that is laid out as the twin of a file. -/
def draft (s : Scan) (settings : Settings) (r : Registry) : Bytes :=
  s.header settings ++ Bytes.trimLeft (· = 0x0a)
    (s.edited settings ((s.exports.map (exportEdit r)).filterMap Except.toOption))

theorem rewrite_eq (s : Scan) (settings : Settings) (r : Registry) :
    s.rewrite settings r =
      let exported := s.exports.map (exportEdit r)
      let problems := s.nameless settings ++ exported.filterMap failure?
      if !problems.isEmpty then { plans := s.plans settings, problems }
      else match s.finish settings (s.edited settings (exported.filterMap Except.toOption))
          (!(s.plans settings).isEmpty) with
        | .ok text => { plans := s.plans settings, text := some text }
        | .error d => { plans := s.plans settings, problems := [d] } := by
  rfl

/-- A file has a twin, or it has problems. -/
theorem rewrite_text_isSome (s : Scan) (settings : Settings) (r : Registry) :
    (s.rewrite settings r).text.isSome = (s.rewrite settings r).problems.isEmpty := by
  rw [rewrite_eq]
  dsimp only
  split
  · rename_i h
    simpa using h
  · split <;> rfl

/-- A twin was read before it was laid out. -/
theorem exists_draft {s : Scan} {settings : Settings} {r : Registry} {out : Bytes}
    (h : (s.rewrite settings r).text = some out) :
    ∃ f, Host.File.parse (s.draft settings r) = .ok f := by
  rw [rewrite_eq] at h
  dsimp only at h
  split at h
  · cases h
  · split at h
    · rename_i hfinish
      unfold finish at hfinish
      dsimp only at hfinish
      split at hfinish
      · cases hfinish
      · exact ⟨_, by assumption⟩
    · cases h

/-- A file with a twin has no problems, and each of its markers is an edit with its code. -/
theorem edits_of_twin {s : Scan} {settings : Settings} {r : Registry} {out : Bytes}
    (h : (s.rewrite settings r).text = some out) :
    ∃ edits, s.finish settings (Edit.splice s.text edits) (!(s.plans settings).isEmpty) = .ok out
      ∧ s.problems = []
      ∧ ∀ m ∈ s.markers, ∃ p code, m.expand settings = .ok (p, code)
        ∧ ⟨m.start, m.stop, code⟩ ∈ edits := by
  rw [rewrite_eq] at h
  dsimp only at h
  split at h
  · cases h
  rename_i hnone
  have hnameless : s.nameless settings = [] := by
    rw [Bool.not_eq_true', Bool.not_eq_false, List.isEmpty_iff, List.append_eq_nil_iff] at hnone
    exact hnone.1
  obtain ⟨hproblems, hfailed⟩ := List.append_eq_nil_iff.mp hnameless
  split at h
  · rename_i hfinish
    cases h
    refine ⟨_, hfinish, hproblems, ?_⟩
    intro m hm
    cases hexpand : m.expand settings with
    | error d =>
      have hd := List.filterMap_eq_nil_iff.mp hfailed (m, m.expand settings)
        (List.mem_map.mpr ⟨m, hm, rfl⟩)
      rw [hexpand] at hd
      cases hd
    | ok r =>
      have hcoded : (m, r.1, r.2) ∈ s.coded settings := by
        refine List.mem_filterMap.mpr ⟨(m, m.expand settings), List.mem_map.mpr ⟨m, hm, rfl⟩, ?_⟩
        rw [hexpand]
        rfl
      refine ⟨r.1, r.2, rfl, ?_⟩
      exact List.mem_append_left _ (List.mem_append_left _ (List.mem_map.mpr ⟨_, hcoded, rfl⟩))
  · cases h

/-! ### Files without markers and exports -/

/-- Without markers and exports a file only loses its build lines. -/
theorem edited_of_sorted {s : Scan} {settings : Settings} (hmarkers : s.markers = [])
    (h : s.constraints.Pairwise fun c c' => c.1 ≤ c'.1) :
    s.edited settings [] = Edit.spliceFrom 0 s.text (s.constraints.map fun (a, b) => ⟨a, b, []⟩) := by
  rw [edited, coded, hmarkers, Edit.splice]
  refine congrArg _ (List.mergeSort_of_pairwise ?_)
  refine List.pairwise_map.mpr (h.imp fun hle => ?_)
  simpa using hle

theorem rewrite_of_finish {s : Scan} {settings : Settings} {text : Bytes} (hmarkers : s.markers = [])
    (hexports : s.exports = []) (hproblems : s.problems = [])
    (h : s.finish settings (s.edited settings []) false = .ok text) (r : Registry) :
    s.rewrite settings r = { text := some text } := by
  have hplans : s.plans settings = [] := by
    rw [plans, coded, hmarkers]
    rfl
  have hnameless : s.nameless settings = [] := by
    rw [nameless, hproblems, hmarkers]
    rfl
  rw [rewrite_eq, hexports]
  simp [hplans, hnameless, h]

end Scan
end BridgeCall
