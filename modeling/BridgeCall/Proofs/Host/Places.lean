/-
  BridgeCall/Proofs/Host/Places.lean
  ==================================
  **Lines and columns of places.**  The line table gives the place of an offset from all
  bytes before it.  Counting goes on from any place: where no mark renames a place within
  a stretch of the file, the place behind the stretch is the one before it, advanced by
  its bytes (`Lines.position_advance`), and no place is behind a later one
  (`Lines.position_upto`).  In a file without marks every place is the first
  one, advanced by all bytes in front of it (`Lines.position_unmarked`).
-/
import BridgeCall.Host.Parse
import BridgeCall.Marker.Diagnostic
import BridgeCall.Proofs.Expr.PlaceOrder
import Mathlib.Algebra.Order.Ring.Nat
import Mathlib.Data.List.TakeWhile
import Mathlib.Tactic.SplitIfs

namespace BridgeCall.Host.Lines

/-! ### Where lines start -/

theorem lt_of_mem_startsFrom {i : Nat} {bs : Bytes} {s : Nat} (h : s ∈ startsFrom i bs) : i < s := by
  fun_induction startsFrom i bs with
  | case1 => cases h
  | case2 i b bs hbreak ih =>
    rcases List.mem_cons.mp h with rfl | h
    · omega
    · have := ih h
      omega
  | case3 i b bs hbreak ih =>
    have := ih h
    omega

theorem takeWhile_startsFrom_of_le {i p : Nat} (hp : p ≤ i + 1) (bs : Bytes) :
    (startsFrom i bs).takeWhile (· < p) = [] := by
  rw [List.takeWhile_eq_nil_iff]
  intro hne hlt
  have hmem := lt_of_mem_startsFrom (List.get_mem _ ⟨0, hne⟩)
  have hlt := of_decide_eq_true hlt
  omega

theorem takeWhile_cons_of_lt {s p : Nat} (h : s < p) (starts : List Nat) :
    (s :: starts).takeWhile (· < p) = s :: starts.takeWhile (· < p) :=
  List.takeWhile_cons_of_pos (decide_eq_true h)

theorem startsFrom_cons (i : Nat) (b c : UInt8) (post : Bytes) :
    startsFrom i (b :: c :: post)
      = (if b = 0x0a then [i + 1] else []) ++ startsFrom (i + 1) (c :: post) := by
  rw [startsFrom, List.isEmpty_cons, Bool.not_false, Bool.and_true]
  by_cases hb : b = 0x0a
  · rw [if_pos (decide_eq_true hb), if_pos hb, List.singleton_append]
  · rw [if_neg (by rw [decide_eq_true_eq]; exact hb), if_neg hb, List.nil_append]

/-- One byte more adds the start of a line behind it, when it is a line feed. -/
theorem takeWhile_startsFrom_succ (i : Nat) (pre : Bytes) (b c : UInt8) (post : Bytes) :
    (startsFrom i (pre ++ b :: c :: post)).takeWhile (· < i + pre.length + 2) =
      (startsFrom i (pre ++ b :: c :: post)).takeWhile (· < i + pre.length + 1)
        ++ if b = 0x0a then [i + pre.length + 1] else [] := by
  induction pre generalizing i with
  | nil =>
    have hnone (p : Nat) (hp : p ≤ i + 2) :
        (startsFrom (i + 1) (c :: post)).takeWhile (· < p) = [] :=
      takeWhile_startsFrom_of_le hp _
    rw [List.nil_append, List.length_nil, Nat.add_zero, startsFrom_cons]
    by_cases hb : b = 0x0a
    · have hself : ((i + 1) :: startsFrom (i + 1) (c :: post)).takeWhile (· < i + 1) = [] :=
        List.takeWhile_cons_of_neg (by rw [decide_eq_true_eq]; exact Nat.lt_irrefl _)
      rw [if_pos hb, List.singleton_append, takeWhile_cons_of_lt (Nat.lt_succ_self _), hself,
        hnone _ (Nat.le_refl _), List.nil_append]
    · rw [if_neg hb, List.nil_append, hnone _ (Nat.le_refl _), hnone _ (Nat.le_succ _),
        List.nil_append]
  | cons a pre ih =>
    have hrest := ih (i + 1)
    have hlength : i + 1 + pre.length = i + (a :: pre).length := by
      rw [List.length_cons]
      omega
    rw [hlength] at hrest
    have hpos : 0 < (a :: pre).length := Nat.succ_pos _
    rw [List.cons_append, startsFrom]
    split
    · rw [takeWhile_cons_of_lt (by omega), takeWhile_cons_of_lt (by omega), hrest,
        List.cons_append]
    · exact hrest

variable {t : Lines} {text : Bytes}

theorem line_succ (t : Lines) (n : Nat) :
    t.line (n + 1) = (t.starts.takeWhile (· < n + 1)).length :=
  if_neg (Nat.succ_ne_zero n)

theorem column_succ (t : Lines) (n : Nat) :
    t.column (n + 1) = n + 1 - (t.starts.takeWhile (· < n + 1)).getLast?.getD 0 :=
  if_neg (Nat.succ_ne_zero n)

theorem takeWhile_of_le (t : Lines) {m n : Nat} (h : m ≤ n) :
    t.starts.takeWhile (· < m + 1) = (t.starts.takeWhile (· < n + 1)).takeWhile (· < m + 1) := by
  rw [List.takeWhile_takeWhile]
  congr 1
  funext s
  rw [decide_eq_decide, decide_eq_true_iff, decide_eq_true_iff]
  omega

theorem line_mono (t : Lines) {m n : Nat} (h : m ≤ n) : t.line (m + 1) ≤ t.line (n + 1) := by
  rw [line_succ, line_succ, t.takeWhile_of_le h]
  exact (List.takeWhile_prefix _).length_le

theorem column_mono (t : Lines) {m n : Nat} (h : m ≤ n) (hline : t.line (m + 1) = t.line (n + 1)) :
    t.column (m + 1) ≤ t.column (n + 1) := by
  rw [line_succ, line_succ, takeWhile_of_le t h] at hline
  have hsame := (List.takeWhile_prefix _).eq_of_length hline
  rw [column_succ, column_succ, takeWhile_of_le t h, hsame]
  exact Nat.sub_le_sub_right (Nat.succ_le_succ h) _

/-- The table has the lines of a text. -/
def IsOf (t : Lines) (text : Bytes) : Prop := t.starts = 0 :: startsFrom 0 text

theorem isOf_ofFile (text : Bytes) : (ofFile text).IsOf text := rfl

theorem IsOf.takeWhile_step {pre post : Bytes} {b c : UInt8} (h : t.IsOf (pre ++ b :: c :: post)) :
    t.starts.takeWhile (· < pre.length + 2) =
      t.starts.takeWhile (· < pre.length + 1) ++ if b = 0x0a then [pre.length + 1] else [] := by
  have hstep := takeWhile_startsFrom_succ 0 pre b c post
  rw [Nat.zero_add] at hstep
  rw [show t.starts = 0 :: _ from h, List.takeWhile_cons_of_pos (by simp),
    List.takeWhile_cons_of_pos (by simp), hstep, List.cons_append]

theorem IsOf.line_step {pre post : Bytes} {b c : UInt8} (h : t.IsOf (pre ++ b :: c :: post)) :
    t.line (pre.length + 2) = t.line (pre.length + 1) + if b = 0x0a then 1 else 0 := by
  rw [line_succ, line_succ, h.takeWhile_step, List.length_append]
  split <;> rfl

theorem IsOf.column_step {pre post : Bytes} {b c : UInt8} (h : t.IsOf (pre ++ b :: c :: post)) :
    t.column (pre.length + 2) = if b = 0x0a then 1 else t.column (pre.length + 1) + 1 := by
  rw [column_succ, column_succ, h.takeWhile_step]
  by_cases hb : b = 0x0a
  · rw [if_pos hb, if_pos hb, List.getLast?_concat, Option.getD_some]
    omega
  · rw [if_neg hb, if_neg hb, List.append_nil]
    have hlt : (t.starts.takeWhile (· < pre.length + 1)).getLast?.getD 0 < pre.length + 1 := by
      cases hlast : (t.starts.takeWhile (· < pre.length + 1)).getLast? with
      | none => exact Nat.succ_pos _
      | some s =>
        have hs := List.mem_takeWhile_imp (List.mem_of_getLast? hlast)
        exact of_decide_eq_true hs
    omega

/-! ### Places as the marks call them -/

/-- No mark renames a place behind offset `i` up to offset `j`. -/
def Unmarked (t : Lines) (i j : Nat) : Prop := ∀ m ∈ t.marks, m.offset ≤ i ∨ j < m.offset

theorem Unmarked.mono {i i' j j' : Nat} (h : t.Unmarked i j) (hi : i ≤ i') (hj : j' ≤ j) :
    t.Unmarked i' j' := by
  intro m hm
  rcases h m hm with hle | hlt
  · exact .inl (by omega)
  · exact .inr (by omega)

theorem Unmarked.marksTo_eq {i j : Nat} (h : t.Unmarked i j) (hij : i ≤ j) :
    t.marksTo j = t.marksTo i := by
  have htake : ∀ ms : List LineMark, (∀ m ∈ ms, m.offset ≤ i ∨ j < m.offset) →
      ms.takeWhile (·.offset ≤ j) = ms.takeWhile (·.offset ≤ i) := by
    intro ms hms
    induction ms with
    | nil => rfl
    | cons m ms ih =>
      have hsame : decide (m.offset ≤ j) = decide (m.offset ≤ i) := by
        rw [decide_eq_decide]
        have := hms m List.mem_cons_self
        omega
      rw [List.takeWhile_cons, List.takeWhile_cons, hsame, ih fun m hm => hms m (.tail _ hm)]
  exact htake t.marks h

theorem called_step {pre post : Bytes} {b c : UInt8} (h : t.IsOf (pre ++ b :: c :: post))
    (hmarks : t.Unmarked pre.length (pre.length + 1)) (hcolumn : (t.called (pre.length + 1)).2 ≠ 0) :
    t.called (pre.length + 2) =
      if b = 0x0a then ((t.called (pre.length + 1)).1 + 1, 1)
      else ((t.called (pre.length + 1)).1, (t.called (pre.length + 1)).2 + 1) := by
  have hsame : t.marksTo (pre.length + 1) = t.marksTo pre.length := hmarks.marksTo_eq (by omega)
  have hline := h.line_step
  have hcol := h.column_step
  unfold called at hcolumn ⊢
  rw [show pre.length + 2 - 1 = pre.length + 1 from rfl, hsame]
  rw [show pre.length + 1 - 1 = pre.length from rfl] at hcolumn ⊢
  cases hlast : (t.marksTo pre.length).getLast? with
  | none =>
    dsimp only
    rw [hline, hcol]
    split <;> simp
  | some m =>
    rw [hlast] at hcolumn
    dsimp only at hcolumn ⊢
    have hm := List.mem_takeWhile_imp (List.mem_of_getLast? hlast)
    have hmono := t.line_mono (of_decide_eq_true hm)
    -- the mark names a place before, so a line feed puts the next place on another line than it
    rw [hline, hcol]
    by_cases hb : b = 0x0a
    · have hknown : m.column ≠ 0 := by
        intro hzero
        rw [if_pos hzero] at hcolumn
        exact hcolumn rfl
      rw [if_pos hb, if_pos hb, if_pos hb, if_neg hknown, if_neg (by omega)]
      exact Prod.ext (by omega) rfl
    · rw [if_neg hb, if_neg hb, if_neg hb, Nat.add_zero]
      refine Prod.ext rfl ?_
      dsimp only
      by_cases hknown : m.column = 0
      · rw [if_pos hknown] at hcolumn
        exact absurd rfl hcolumn
      · rw [if_neg hknown, if_neg hknown]
        split
        · omega
        · omega

/-- The place behind one more byte, when no mark renames it. -/
theorem position_step {pre post : Bytes} {b c : UInt8} (h : t.IsOf (pre ++ b :: c :: post))
    (file : Bytes) (hmarks : t.Unmarked pre.length (pre.length + 1))
    (hcolumn : (t.position file (pre.length + 1)).column ≠ 0) :
    t.position file (pre.length + 2) = (t.position file (pre.length + 1)).step b := by
  have hsame : t.marksTo (pre.length + 1) = t.marksTo pre.length := hmarks.marksTo_eq (by omega)
  have hcalled := called_step h hmarks hcolumn
  have hfile : t.fileAt file (pre.length + 1) = t.fileAt file pre.length := by
    rw [fileAt, hsame, fileAt]
  have hoffset : ((pre.length + 2 : Nat) : Int) - 1 = ((pre.length + 1 : Nat) : Int) - 1 + 1 := by
    omega
  unfold position Position.step
  rw [hcalled, show pre.length + 2 - 1 = pre.length + 1 from rfl, Nat.add_sub_cancel, hfile, hoffset]
  by_cases hb : b = 0x0a
  · rw [if_pos hb, if_pos hb]
  · rw [if_neg hb, if_neg hb]

/-- **The places of a stretch.** Where no mark renames a place within a stretch of a file, and columns are
    known at its start, the place behind it is the one before it, advanced by its bytes. -/
theorem position_advance {pre piece post : Bytes} (h : t.IsOf (pre ++ (piece ++ post)))
    (hpost : post ≠ []) (file : Bytes) (hmarks : t.Unmarked pre.length (pre.length + piece.length))
    (hcolumn : 0 < (t.position file (pre.length + 1)).column) :
    t.position file (pre.length + piece.length + 1)
      = (t.position file (pre.length + 1)).advance piece := by
  induction piece generalizing pre with
  | nil => rfl
  | cons b piece ih =>
    obtain ⟨c, more, hmore⟩ := List.exists_cons_of_ne_nil (List.append_ne_nil_of_right_ne_nil piece hpost)
    have htext : pre ++ (b :: piece ++ post) = pre ++ b :: c :: more := by
      rw [List.cons_append, hmore]
    have hstep := position_step (htext ▸ h) file (hmarks.mono (by omega) (by simp))
      (by omega)
    have hnext : 0 < (t.position file ((pre ++ [b]).length + 1)).column := by
      rw [List.length_append, List.length_singleton, hstep]
      unfold Position.step
      split
      · exact Int.one_pos
      · dsimp only
        omega
    have hfrom : t.IsOf ((pre ++ [b]) ++ (piece ++ post)) := by simpa using h
    have hrest := ih hfrom
      (hmarks.mono (by simp) (by simp; omega)) hnext
    rw [List.length_append, List.length_singleton, hstep] at hrest
    rw [List.length_cons, ← Nat.add_assoc, Nat.add_right_comm pre.length, hrest]
    rfl

/-- The place behind a stretch, given by the offsets of its ends. -/
theorem IsOf.position_eq (h : t.IsOf text) {i j : Nat} (hij : i ≤ j) (hj : j < text.length)
    (file : Bytes) (hmarks : t.Unmarked i j) (hcolumn : 0 < (t.position file (i + 1)).column) :
    t.position file (j + 1) = (t.position file (i + 1)).advance (Bytes.slice i j text) := by
  have hsplit : text = text.take i ++ (Bytes.slice i j text ++ text.drop j) := by
    rw [Bytes.slice, ← Nat.add_sub_cancel' hij, ← List.drop_drop, Nat.add_sub_cancel_left,
      List.take_append_drop, List.take_append_drop]
  have hi : (text.take i).length = i := List.length_take_of_le (hij.trans hj.le)
  have hpiece : (Bytes.slice i j text).length = j - i := by
    rw [Bytes.slice, List.length_take, List.length_drop]
    omega
  have hadvance := position_advance (hsplit ▸ h) (by simpa using hj) file
    (by rwa [hi, hpiece, Nat.add_sub_cancel' hij]) (by rwa [hi])
  rwa [hi, hpiece, Nat.add_sub_cancel' hij] at hadvance

/-- Where no mark renames a place in between, a place is up to every one behind it. -/
theorem position_upto {i j : Nat} (hij : i ≤ j) (hmarks : t.Unmarked i j) (file : Bytes) :
    (t.position file (i + 1)).Upto (t.position file (j + 1)) := by
  have hsame := hmarks.marksTo_eq hij
  have hmono := t.line_mono hij
  refine ⟨?_, ?_, ?_⟩
  · exact congrArg (List.foldl _ file) hsame.symm
  · simp only [position]
    omega
  · simp only [position, called, Nat.add_sub_cancel]
    rw [hsame]
    cases hlast : (t.marksTo i).getLast? with
    | none =>
      dsimp only
      rcases hmono.lt_or_eq with hlt | heq
      · exact .inl (by omega)
      · exact .inr ⟨by omega, by have := t.column_mono hij heq; omega⟩
    | some m =>
      dsimp only
      rcases hmono.lt_or_eq with hlt | heq
      · exact .inl (by omega)
      · have hcolumn := t.column_mono hij heq
        rw [heq]
        refine .inr ⟨rfl, ?_⟩
        split_ifs
        · exact le_refl _
        · omega
        · omega

/-- In a file without marks a place is the first one, advanced by all bytes in front of it. -/
theorem position_unmarked {text : Bytes} (h : t.IsOf text) (hmarks : t.marks = []) (file : Bytes)
    {k : Nat} (hk : k < text.length) :
    t.position file (k + 1)
      = ({ file, offset := 0, line := 1, column := 1 } : Position).advance (text.take k) := by
  have hbefore : t.starts.takeWhile (· < 0 + 1) = [0] := by
    rw [show t.starts = 0 :: _ from h, List.takeWhile_cons_of_pos (by decide),
      takeWhile_startsFrom_of_le (Nat.le_refl 1)]
  have hline : t.line 1 = 1 := (t.line_succ 0).trans (by rw [hbefore]; rfl)
  have hcolumn : t.column 1 = 1 := (t.column_succ 0).trans (by rw [hbefore]; rfl)
  have hfirst : t.position file 1 = { file, offset := 0, line := 1, column := 1 } := by
    simp [position, called, fileAt, marksTo, hmarks, hline, hcolumn]
  have hunmarked : t.Unmarked 0 k := by
    intro m hm
    rw [hmarks] at hm
    cases hm
  have hadvance := h.position_eq (Nat.zero_le k) hk file hunmarked
    (by rw [Nat.zero_add, hfirst]; exact Int.one_pos)
  rw [Nat.zero_add, hfirst, Bytes.slice, List.drop_zero, Nat.sub_zero] at hadvance
  exact hadvance

end BridgeCall.Host.Lines
