/-
  BridgeCall/Proofs/Marker/Splicing.lean
  ======================================
  **Splicing edits into a text.**  Edits that take away stretches of a text, none of
  which overlap, stand in a row once they are in order (`Edit.inRow_sorted`).  So the
  order is the only one, whatever way they are sorted, and a loop that copies from where
  the last edit stopped up to where the next one starts never leaves the text
  (`Edit.loop?_eq`).

  The pieces of the edited text tile the old one: each starts where the one before it
  stops (`Edit.tiles_piecesFrom`), so what is kept are the bytes outside of all edits,
  each once and in order (`Edit.offsets_piecesFrom`).  The main statement puts this
  together (`Edit.splice_tiles`).
-/
import BridgeCall.Proofs.Marker.Twin

namespace BridgeCall.Edit

/-- The edit takes away some bytes of the text. -/
def Within (text : Bytes) (e : Edit) : Prop := e.start < e.stop ∧ e.stop ≤ text.length

/-- No byte is taken away by both edits. -/
def Apart (e f : Edit) : Prop := e.stop ≤ f.start ∨ f.stop ≤ e.start

/-- The edit takes the byte at this offset away. -/
def covers (e : Edit) (k : Nat) : Bool := e.start ≤ k && k < e.stop

theorem covers_eq_false {e : Edit} {k : Nat} (h : k < e.start ∨ e.stop ≤ k) : e.covers k = false := by
  simp only [covers, Bool.and_eq_false_iff, decide_eq_false_iff_not]
  omega

/-! ### Edits in a row -/

/-- From offset `i` on the edits stand in a row, in a text of `n` bytes. -/
def InRow (n i : Nat) : List Edit → Prop
  | [] => i ≤ n
  | e :: es => i ≤ e.start ∧ e.start < e.stop ∧ InRow n e.stop es

variable {text : Bytes} {n i : Nat} {e : Edit} {es fs : List Edit}

theorem InRow.le (h : InRow n i es) : i ≤ n := by
  induction es generalizing i with
  | nil => exact h
  | cons e es ih =>
    obtain ⟨hstart, hsize, hrest⟩ := h
    have := ih hrest
    omega

theorem InRow.le_start (h : InRow n i es) (he : e ∈ es) : i ≤ e.start := by
  induction es generalizing i with
  | nil => cases he
  | cons f es ih =>
    obtain ⟨hstart, hsize, hrest⟩ := h
    rcases List.mem_cons.mp he with rfl | he
    · exact hstart
    · have := ih hrest he
      omega

theorem InRow.not_covers (h : InRow n i es) (he : e ∈ es) {k : Nat} (hk : k < i) :
    e.covers k = false := by
  have := h.le_start he
  exact covers_eq_false (.inl (by omega))

/-- In order, no edit stops behind the start of the next one. -/
theorem pairwise_stop_le (hin : ∀ e ∈ es, e.Within text) (hapart : es.Pairwise Apart)
    (horder : es.Pairwise fun e f => e.start ≤ f.start) :
    es.Pairwise fun e f => e.stop ≤ f.start := by
  refine (List.pairwise_and_iff.mpr ⟨hapart, horder⟩).imp_of_mem ?_
  rintro e f - hf ⟨hstops | hstops, hstarts⟩
  · exact hstops
  · have := (hin f hf).1
    omega

theorem inRow_of_pairwise (hin : ∀ e ∈ es, e.Within text)
    (hrow : es.Pairwise fun e f => e.stop ≤ f.start) (hi : i ≤ text.length)
    (hfirst : ∀ e ∈ es, i ≤ e.start) : InRow text.length i es := by
  induction es generalizing i with
  | nil => exact hi
  | cons e es ih =>
    obtain ⟨hnext, hrest⟩ := List.pairwise_cons.mp hrow
    obtain ⟨hsize, hend⟩ := hin e List.mem_cons_self
    exact ⟨hfirst e List.mem_cons_self, hsize,
      ih (fun f hf => hin f (List.mem_cons_of_mem _ hf)) hrest hend hnext⟩

theorem Apart.symm {e f : Edit} (h : e.Apart f) : f.Apart e := Or.symm h

theorem apart_of_perm (hapart : es.Pairwise Apart) (h : fs.Perm es) : fs.Pairwise Apart :=
  (h.symm.pairwise_iff fun hef => hef.symm).mp hapart

/-- Edits that are sorted by their starts are in the order that `sorted` puts them into. -/
theorem eq_sorted (hin : ∀ e ∈ es, e.Within text) (hapart : es.Pairwise Apart) (h : fs.Perm es)
    (horder : fs.Pairwise fun e f => e.start ≤ f.start) : fs = sorted es := by
  have hsorted : (sorted es).Perm es := List.mergeSort_perm es _
  have hrow := pairwise_stop_le (fun e he => hin e (h.mem_iff.mp he)) (apart_of_perm hapart h) horder
  have hrow' := pairwise_stop_le (fun e he => hin e (hsorted.mem_iff.mp he))
    (apart_of_perm hapart hsorted) (sorted_pairwise es)
  refine (h.trans hsorted.symm).eq_of_pairwise ?_ hrow hrow'
  intro e f he hf hef hfe
  have he := (hin e (h.mem_iff.mp he)).1
  have hf := (hin f (hsorted.mem_iff.mp hf)).1
  omega

theorem inRow_sorted (hin : ∀ e ∈ es, e.Within text) (hapart : es.Pairwise Apart) :
    InRow text.length 0 (sorted es) := by
  have hsorted : (sorted es).Perm es := List.mergeSort_perm es _
  have hin' : ∀ e ∈ sorted es, e.Within text := fun e he => hin e (hsorted.mem_iff.mp he)
  exact inRow_of_pairwise hin'
    (pairwise_stop_le hin' (apart_of_perm hapart hsorted) (sorted_pairwise es))
    (Nat.zero_le _) fun _ _ => Nat.zero_le _

/-! ### The loop -/

/-- The bytes between two offsets, when these are offsets of the text in order. -/
def cut? (a b : Nat) (text : Bytes) : Option Bytes :=
  if a ≤ b ∧ b ≤ text.length then some (Bytes.slice a b text) else none

/-- The text with some edits from offset `last` on, copied stretch by stretch. There is none when
    a stretch is not one of the text. -/
def loop? (text : Bytes) (last : Nat) : List Edit → Option Bytes
  | [] => cut? last text.length text
  | e :: es => do
    let gap ← cut? last e.start text
    let rest ← loop? text e.stop es
    return gap ++ e.text ++ rest

theorem piecesFrom_cons (h : InRow n i (e :: es)) :
    piecesFrom i n (e :: es) = .kept i e.start :: .put e :: piecesFrom e.stop n es := by
  obtain ⟨hstart, hsize, -⟩ := h
  rw [piecesFrom, Nat.max_eq_right (by omega)]

/-- The loop writes the pieces of the edited text and never leaves the text. -/
theorem loop?_eq (h : InRow text.length i es) :
    loop? text i es = some ((piecesFrom i text.length es).flatMap (Piece.bytes text)) := by
  induction es generalizing i with
  | nil =>
    have hcut : cut? i text.length text = some (Bytes.slice i text.length text) :=
      if_pos ⟨h, Nat.le_refl _⟩
    rw [loop?, hcut, piecesFrom, List.flatMap_singleton]
    rfl
  | cons e es ih =>
    have hpieces := piecesFrom_cons h
    obtain ⟨hstart, hsize, hrest⟩ := h
    have hend := hrest.le
    have hcut : cut? i e.start text = some (Bytes.slice i e.start text) :=
      if_pos ⟨hstart, by omega⟩
    rw [loop?, hcut, ih hrest, hpieces]
    simp [Piece.bytes]

/-! ### The tiling -/

namespace Piece

/-- Where the piece starts in the old text. -/
def start : Piece → Nat
  | .kept a _ => a
  | .put e => e.start

/-- Where the piece stops in the old text. -/
def stop : Piece → Nat
  | .kept _ b => b
  | .put e => e.stop

/-- The offsets of the bytes that are kept. -/
def offsets : Piece → List Nat
  | .kept a b => List.range' a (b - a)
  | .put _ => []

end Piece

/-- Each piece starts where the one before it stops, the first at offset `i` and the last one stops at
    offset `n`. -/
def Tiles (i n : Nat) : List Piece → Prop
  | [] => i = n
  | p :: ps => p.start = i ∧ i ≤ p.stop ∧ Tiles p.stop n ps

theorem tiles_piecesFrom (h : InRow n i es) : Tiles i n (piecesFrom i n es) := by
  induction es generalizing i with
  | nil => exact ⟨rfl, h, rfl⟩
  | cons e es ih =>
    rw [piecesFrom_cons h]
    obtain ⟨hstart, hsize, hrest⟩ := h
    exact ⟨rfl, hstart, rfl, Nat.le_of_lt hsize, ih hrest⟩

/-- The bytes behind `i` are those in front of an edit, those it takes away, and those behind it. -/
theorem range'_split {a b : Nat} (hia : i ≤ a) (hab : a ≤ b) (hbn : b ≤ n) :
    List.range' i (n - i)
      = List.range' i (a - i) ++ (List.range' a (b - a) ++ List.range' b (n - b)) := by
  have hback : List.range' a (n - a) = List.range' a (b - a) ++ List.range' b (n - b) := by
    have happend := List.range'_append_1 (s := a) (m := b - a) (n := n - b)
    rw [Nat.add_sub_cancel' hab] at happend
    rw [happend]
    congr 1
    omega
  have happend := List.range'_append_1 (s := i) (m := a - i) (n := n - a)
  rw [Nat.add_sub_cancel' hia] at happend
  rw [← hback, happend]
  congr 1
  omega

/-- What is kept are the bytes outside of all edits, each once and in order. -/
theorem offsets_piecesFrom (h : InRow n i es) :
    (piecesFrom i n es).flatMap Piece.offsets
      = (List.range' i (n - i)).filter fun k => es.all fun e => !e.covers k := by
  induction es generalizing i with
  | nil => simp [piecesFrom, Piece.offsets]
  | cons e es ih =>
    rw [piecesFrom_cons h, List.flatMap_cons, List.flatMap_cons]
    have hrow := h
    obtain ⟨hstart, hsize, hrest⟩ := h
    have hfront : (List.range' i (e.start - i)).filter
        (fun k => (e :: es).all fun e => !e.covers k) = List.range' i (e.start - i) := by
      rw [List.filter_eq_self]
      intro k hk
      rw [List.mem_range'_1] at hk
      rw [List.all_cons, covers_eq_false (.inl (by omega)), Bool.not_false, Bool.true_and,
        List.all_eq_true]
      intro f hf
      rw [hrest.not_covers hf (by omega), Bool.not_false]
    have haway : (List.range' e.start (e.stop - e.start)).filter
        (fun k => (e :: es).all fun e => !e.covers k) = [] := by
      rw [List.filter_eq_nil_iff]
      intro k hk
      rw [List.mem_range'_1] at hk
      have hself : e.covers k = true := by
        simp only [covers, Bool.and_eq_true, decide_eq_true_eq]
        omega
      simp [hself]
    have hback : (List.range' e.stop (n - e.stop)).filter
        (fun k => (e :: es).all fun e => !e.covers k)
        = (List.range' e.stop (n - e.stop)).filter fun k => es.all fun e => !e.covers k := by
      refine List.filter_congr fun k hk => ?_
      rw [List.mem_range'_1] at hk
      rw [List.all_cons, covers_eq_false (.inr hk.1), Bool.not_false, Bool.true_and]
    rw [range'_split hstart hsize.le hrest.le, List.filter_append, List.filter_append, hfront,
      haway, hback, ← ih hrest]
    rfl

/-- **Splicing.** Edits take away stretches of a text that do not overlap. In whatever order they come
    and however they are sorted by their starts, the loop stays inside of the text and gives the edited
    text. Its pieces tile the old text: each edit is one of them, with its text where it takes bytes
    away, in the order of their starts, and the other pieces keep the bytes outside of all edits, each
    once and in order. -/
theorem splice_tiles (hin : ∀ e ∈ es, e.Within text) (hapart : es.Pairwise Apart) :
    (∀ fs : List Edit, fs.Perm es → fs.Pairwise (fun e f => e.start ≤ f.start) →
      loop? text 0 fs = some (splice text es))
    ∧ (∀ fs : List Edit, fs.Perm es → splice text fs = splice text es)
    ∧ ∃ ps : List Piece, splice text es = ps.flatMap (Piece.bytes text)
      ∧ Tiles 0 text.length ps
      ∧ (ps.filterMap Piece.edit?).Perm es
      ∧ (ps.filterMap Piece.edit?).Pairwise (fun e f => e.stop ≤ f.start)
      ∧ ps.flatMap Piece.offsets
        = (List.range text.length).filter fun k => es.all fun e => !e.covers k := by
  have hsorted : (sorted es).Perm es := List.mergeSort_perm es _
  have hrow := inRow_sorted hin hapart
  refine ⟨?_, ?_, pieces text es, splice_eq text es, tiles_piecesFrom hrow, pieces_puts text es,
    ?_, ?_⟩
  · intro fs hperm horder
    rw [eq_sorted hin hapart hperm horder, splice_eq, pieces]
    exact loop?_eq hrow
  · intro fs hperm
    have hsame : sorted fs = sorted es :=
      eq_sorted hin hapart ((List.mergeSort_perm fs _).trans hperm) (sorted_pairwise fs)
    rw [splice_eq, splice_eq, pieces, pieces, hsame]
  · rw [pieces, puts_piecesFrom]
    exact pairwise_stop_le (fun e he => hin e (hsorted.mem_iff.mp he))
      (apart_of_perm hapart hsorted) (sorted_pairwise es)
  · rw [pieces, offsets_piecesFrom hrow, Nat.sub_zero, List.range_eq_range']
    refine List.filter_congr fun k _ => ?_
    rw [Bool.eq_iff_iff, List.all_eq_true, List.all_eq_true]
    exact forall_congr' fun e => imp_congr_left hsorted.mem_iff

/-- Three edits that touch each other, the last one first, in a text that they take away as a whole. -/
theorem splice_tiles_adjacent :
    let text : Bytes := "abcdef"
    let fs : List Edit := [⟨0, 2, "YY"⟩, ⟨2, 3, ""⟩, ⟨3, 6, "X"⟩]
    (∀ e ∈ fs.reverse, e.Within text) ∧ fs.reverse.Pairwise Apart
      ∧ fs.Pairwise (fun e f => e.start ≤ f.start)
      ∧ loop? text 0 fs = some (splice text fs.reverse) ∧ splice text fs.reverse = ("YYX" : Bytes)
      ∧ splice text fs = splice text fs.reverse := by
  intro text fs
  have hin : ∀ e ∈ fs.reverse, e.Within text := by
    simp only [fs, List.reverse_cons, List.reverse_nil, List.nil_append, List.cons_append,
      List.forall_mem_cons, Within]
    decide
  have hapart : fs.reverse.Pairwise Apart := by
    simp [fs, Apart]
  have horder : fs.Pairwise fun e f => e.start ≤ f.start := by
    simp [fs]
  obtain ⟨hloop, hperm, -⟩ := splice_tiles hin hapart
  have hsame := (List.reverse_perm fs).symm
  have hwritten : loop? text 0 fs = some ("YYX" : Bytes) := by decide +kernel
  have hspliced := hloop fs hsame horder
  refine ⟨hin, hapart, horder, hspliced, ?_, hperm fs hsame⟩
  rw [hwritten] at hspliced
  exact (Option.some.inj hspliced).symm

end BridgeCall.Edit
