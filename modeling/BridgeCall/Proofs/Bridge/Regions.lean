/-
  BridgeCall/Proofs/Bridge/Regions.lean
  =====================================
  **Writing a region of an array.**  A region that an array has is written as a whole, and
  nothing else changes; of a region that it does not have nothing is written
  (`Recorder.region_all_or_nothing`).  Writing the elements one after the other, each at an
  index of 64 bits, comes to the same (`Recorder.setArrayRegion_eq_each`).

  The end of the region is computed in 64 bits before it is compared with the length.  Where
  it does not fit into them it is negative, so the region is taken for one of the array,
  and the first element that is written breaks the process down
  (`Recorder.region_end_wraps`).
-/
import BridgeCall.Proofs.Plan.FailStop
import Mathlib.Data.Nat.Basic
import Mathlib.Order.Basic
import Mathlib.Data.List.TakeDrop
import Mathlib.Data.Int.Order.Basic
import Mathlib.Algebra.Group.Nat.Defs
import Mathlib.Algebra.Group.Int.Defs

namespace BridgeCall.Recorder

variable {α : Type}

/-! ### Overwriting a list -/

theorem overwrite_nil (start : Nat) (xs : List α) : overwrite start [] xs = xs := by
  simp [overwrite]

/-- The first value goes to the first index, the others behind it. -/
theorem overwrite_cons {start : Nat} {xs : List α} (h : start < xs.length) (v : α) (vs : List α) :
    overwrite start (v :: vs) xs = overwrite (start + 1) vs (xs.set start v) := by
  have hfront : (xs.set start v).take (start + 1) = xs.take start ++ [v] := by
    rw [List.set_eq_take_append_cons_drop, if_pos h, List.take_append]
    simp [Nat.min_eq_left h.le]
  have hback : (xs.set start v).drop (start + 1 + vs.length)
      = xs.drop (start + (v :: vs).length) := by
    rw [List.drop_set_of_lt (by omega), List.length_cons]
    congr 1
    omega
  rw [overwrite, overwrite, hfront, hback]
  simp

theorem getElem?_overwrite {start : Nat} {buf xs : List α} (h : start + buf.length ≤ xs.length)
    (j : Nat) :
    (overwrite start buf xs)[j]?
      = if start ≤ j ∧ j < start + buf.length then buf[j - start]? else xs[j]? := by
  have hstart : (xs.take start).length = start := List.length_take_of_le (by omega)
  rw [overwrite, List.append_assoc]
  by_cases hfront : j < start
  · rw [List.getElem?_append_left (by omega), List.getElem?_take_of_lt hfront, if_neg (by omega)]
  rw [List.getElem?_append_right (by omega), hstart]
  by_cases hregion : j < start + buf.length
  · rw [List.getElem?_append_left (by omega), if_pos (by omega)]
  · rw [List.getElem?_append_right (by omega), List.getElem?_drop, if_neg (by omega)]
    congr 1
    omega

/-! ### Element by element -/

/-- Writes values one after the other from index `start + i` on, as far as the list has the index: whether
    all were written, and what became of the list. An index has 64 bits. -/
def writeEach (start : Int) (i : Nat) : List α → List α → Bool × List α
  | [], xs => (true, xs)
  | v :: vs, xs =>
    let j := (Int64.ofInt (start + i)).toInt
    if 0 ≤ j ∧ j < xs.length then writeEach start (i + 1) vs (xs.set j.toNat v) else (false, xs)

/-- By induction on the values: all of them are written when the list has all indices. -/
theorem writeEach_of_fits {start : Int} (hstart : 0 ≤ start) {i : Nat} {buf xs : List α}
    (hfits : start + i + buf.length ≤ xs.length) (hsize : xs.length < 2 ^ 63) :
    writeEach start i buf xs = (true, overwrite (start.toNat + i) buf xs) := by
  induction buf generalizing i xs with
  | nil => rw [writeEach, overwrite_nil]
  | cons v vs ih =>
    rw [List.length_cons] at hfits
    have hindex : (Int64.ofInt (start + i)).toInt = start + i :=
      Int64.toInt_ofInt_of_le (by omega) (by omega)
    have hplace : (start + i).toNat = start.toNat + i := by omega
    rw [writeEach, hindex, if_pos ⟨by omega, by omega⟩, hplace, overwrite_cons (by omega),
      ih (by rw [List.length_set]; omega) (by rwa [List.length_set])]
    rfl

/-- Nothing is written when the list does not have the first index. -/
theorem writeEach_of_misses {start : Int64} {buf xs : List α} (hbuf : buf ≠ [])
    (hmiss : (xs.length : Int) ≤ start.toInt) :
    writeEach start.toInt 0 buf xs = (false, xs) := by
  obtain ⟨v, vs, rfl⟩ := List.exists_cons_of_ne_nil hbuf
  rw [writeEach, Int.natCast_zero, Int.add_zero, Int64.ofInt_toInt, if_neg (by omega)]

/-- Writes a region of an array element by element, once the end of the region was compared with the
    length. -/
def setArrayRegionEach (p : Primitive) (arr : Obj) (start : Int) (buf : List HostValue) :
    BridgeM Unit := do
  let op : BridgeOp := .setArrayRegion p
  record { op, index := start, len := buf.length }
  let (id, a) ← arrayOf op arr
  let n := a.elements.length
  let stop := (Int64.ofInt (start + buf.length)).toInt
  if start < 0 ∨ (n : Int) < stop then throw (.regionOutOfBounds op start stop n)
  else
    let (done, elements) := writeEach start 0 buf a.elements
    store id { a with elements }
    if done then return ()
    else throw (.crash ("runtime error: index out of range [" ++ Bytes.ofInt start
      ++ "] with length " ++ Bytes.ofNat n))

/-! ### Regions of an array -/

variable {s : Recorder} {id : Nat} {a : JavaArray} {p : Primitive}

/-- The recorder once a region was asked for. -/
def askedRegion (s : Recorder) (p : Primitive) (start : Int) (buf : List HostValue) : Recorder :=
  s.wrote { op := .setArrayRegion p, index := start, len := buf.length }

theorem record_region (hfail : s.fail.lookup (BridgeOp.setArrayRegion p).name = none) (start : Int)
    (buf : List HostValue) :
    record { op := .setArrayRegion p, index := start, len := buf.length } s
      = (.ok (), s.askedRegion p start buf) := by
  rcases record_cases { op := .setArrayRegion p, index := start, len := buf.length } s with
    ⟨t, ht, -⟩ | ⟨-, hrun⟩
  · rw [hfail] at ht
    cases ht
  · exact hrun

/-- The array of a region is found once the region was asked for. -/
theorem arrayOf_region (ha : s.heap[id]? = some a) (start : Int) (buf : List HostValue) :
    arrayOf (.setArrayRegion p) (.array id) (s.askedRegion p start buf)
      = (.ok (id, a), s.askedRegion p start buf) :=
  arrayOf_run (s := s.askedRegion p start buf) ha _

theorem store_run (s : Recorder) (id : Nat) (a : JavaArray) :
    store id a s = (.ok (), { s with heap := s.heap.set id a }) := rfl

/-- What is answered for a region of an array, and what becomes of the recorder. -/
theorem setArrayRegion_run_eq (ha : s.heap[id]? = some a)
    (hfail : s.fail.lookup (BridgeOp.setArrayRegion p).name = none) (start : Int)
    (buf : List HostValue) :
    setArrayRegion p (.array id) start buf s =
      let n := a.elements.length
      let stop := (Int64.ofInt (start + buf.length)).toInt
      let s' := s.askedRegion p start buf
      if start < 0 ∨ (n : Int) < stop then
        (.error (.regionOutOfBounds (.setArrayRegion p) start stop n), s')
      else if (n : Int) < start + buf.length then
        (.error (.crash ("runtime error: index out of range [" ++ Bytes.ofInt start
          ++ "] with length " ++ Bytes.ofNat n)), s')
      else
        (.ok (), { s' with
          heap := s.heap.set id { a with elements := overwrite start.toNat buf a.elements } }) := by
  rw [setArrayRegion, bind_run_ok (record_region hfail start buf),
    bind_run_ok (arrayOf_region ha start buf)]
  dsimp only
  split
  · rfl
  · split <;> rfl

/-- The end of a region that 64 bits do not hold is negative. -/
theorem stop_of_wraps (start : Int64) {k : Nat} (hk : k < 2 ^ 63)
    (hwraps : 2 ^ 63 ≤ start.toInt + k) : (Int64.ofInt (start.toInt + k)).toInt < 0 := by
  have hlt := start.toInt_lt
  have hsize : (Int64.size : Int) = 2 ^ 64 := rfl
  rw [Int64.toInt_ofInt, Int.bmod_def, hsize]
  split <;> omega

theorem stop_of_holds (start : Int64) {k : Nat} (hholds : start.toInt + k < 2 ^ 63) :
    (Int64.ofInt (start.toInt + k)).toInt = start.toInt + k := by
  have hle := start.le_toInt
  exact Int64.toInt_ofInt_of_le (by omega) hholds

theorem heap_set_self (ha : s.heap[id]? = some a) : s.heap.set id a = s.heap := by
  obtain ⟨hid, rfl⟩ := List.getElem?_eq_some_iff.mp ha
  exact List.set_getElem_self hid

section Asked

variable (ha : s.heap[id]? = some a)
  (hfail : s.fail.lookup (BridgeOp.setArrayRegion p).name = none) (start : Int64)
  {buf : List HostValue}

include ha hfail

/-- A region that the array has is written. -/
theorem region_written (hbuf : buf.length < 2 ^ 63) (hstart : 0 ≤ start.toInt)
    (hfits : start.toInt + buf.length ≤ a.elements.length) :
    setArrayRegion p (.array id) start.toInt buf s
      = (.ok (), { s.askedRegion p start.toInt buf with
          heap := s.heap.set id
            { a with elements := overwrite start.toInt.toNat buf a.elements } }) := by
  have hstop : (Int64.ofInt (start.toInt + buf.length)).toInt ≤ start.toInt + buf.length := by
    by_cases hholds : start.toInt + buf.length < 2 ^ 63
    · exact (stop_of_holds start hholds).le
    · have := stop_of_wraps start hbuf (by omega)
      omega
  rw [setArrayRegion_run_eq ha hfail]
  dsimp only
  rw [if_neg (by omega), if_neg (by omega)]

/-- A region that the array does not have is refused when its end is a number of 64 bits. -/
theorem region_refused (hmisses : start.toInt < 0
      ∨ a.elements.length < start.toInt + buf.length ∧ start.toInt + buf.length < 2 ^ 63) :
    setArrayRegion p (.array id) start.toInt buf s
      = (.error (.regionOutOfBounds (.setArrayRegion p) start.toInt
          (Int64.ofInt (start.toInt + buf.length)).toInt a.elements.length),
        s.askedRegion p start.toInt buf) := by
  rw [setArrayRegion_run_eq ha hfail]
  dsimp only
  refine if_pos ?_
  rcases hmisses with hstart | ⟨hpast, hholds⟩
  · exact .inl hstart
  · exact .inr (by rwa [stop_of_holds start hholds])

/-- The process breaks down where the end of a region that the array does not have is no number of 64
    bits. -/
theorem region_breaks (hbuf : buf.length < 2 ^ 63) (hstart : 0 ≤ start.toInt)
    (hpast : a.elements.length < start.toInt + buf.length)
    (hwraps : 2 ^ 63 ≤ start.toInt + buf.length) :
    setArrayRegion p (.array id) start.toInt buf s
      = (.error (.crash ("runtime error: index out of range [" ++ Bytes.ofInt start.toInt
          ++ "] with length " ++ Bytes.ofNat a.elements.length)),
        s.askedRegion p start.toInt buf) := by
  have hstop := stop_of_wraps start hbuf hwraps
  rw [setArrayRegion_run_eq ha hfail]
  dsimp only
  rw [if_neg (by omega), if_pos hpast]

/-- Where an array and a buffer have room together in 64 bits, a region is written element by element:
    the process breaks down at the first element or at none. -/
theorem setArrayRegion_eq_each (hroom : a.elements.length + buf.length < 2 ^ 63) :
    setArrayRegion p (.array id) start.toInt buf s
      = setArrayRegionEach p (.array id) start.toInt buf s := by
  rw [setArrayRegion_run_eq ha hfail, setArrayRegionEach,
    bind_run_ok (record_region hfail start.toInt buf),
    bind_run_ok (arrayOf_region ha start.toInt buf)]
  dsimp only
  split
  · rfl
  rename_i hchecked
  have hstart : 0 ≤ start.toInt := by omega
  split
  · rename_i hmisses
    -- the end of the region was wrapped, so the first index is behind the array
    have hwraps : 2 ^ 63 ≤ start.toInt + buf.length := by
      by_contra hholds
      have := stop_of_holds start (k := buf.length) (by omega)
      omega
    have hbuf : buf ≠ [] := by
      rintro rfl
      have := start.toInt_lt
      simp only [List.length_nil] at hwraps
      omega
    have hsame : (s.askedRegion p start.toInt buf).heap.set id a = s.heap := heap_set_self ha
    rw [writeEach_of_misses hbuf (by omega), bind_run_ok (store_run _ id _)]
    simp only [hsame, Bool.false_eq_true, if_false, throw_run]
    rfl
  · have hfits : start.toInt + (0 : Nat) + buf.length ≤ a.elements.length := by omega
    rw [writeEach_of_fits hstart hfits (by omega), bind_run_ok (store_run _ id _)]
    rfl

end Asked

/-- **A region is written as a whole or not at all.** A recorder that is not told to fail writes down
    what was asked for, and else nothing but the array changes. A region that the array has is written:
    its elements become those of the buffer, and no others change. Of a region that the array does not
    have, nothing is written and an error is returned, unless its start is not negative and its end is
    no number of 64 bits: then the process breaks down. -/
theorem region_all_or_nothing (ha : s.heap[id]? = some a)
    (hfail : s.fail.lookup (BridgeOp.setArrayRegion p).name = none) (start : Int64)
    {buf : List HostValue} (hbuf : buf.length < 2 ^ 63) :
    let n := a.elements.length
    let first := start.toInt
    let past := first + buf.length
    ∃ answer heap,
      setArrayRegion p (.array id) first buf s
        = (answer, { s.wrote { op := .setArrayRegion p, index := first, len := buf.length } with heap })
      ∧ (0 ≤ first ∧ past ≤ n → answer = .ok () ∧ ∃ elements : List HostValue,
        heap = s.heap.set id { a with elements } ∧ elements.length = n ∧ ∀ j : Nat,
          elements[j]? = if first ≤ j ∧ j < past then buf[j - first.toNat]? else a.elements[j]?)
      ∧ (first < 0 ∨ n < past → heap = s.heap ∧ ∃ e, answer = .error e
        ∧ ((∃ t, e = .crash t) ↔ 0 ≤ first ∧ 2 ^ 63 ≤ past))
      ∧ (n + buf.length < 2 ^ 63 →
        setArrayRegion p (.array id) first buf s
          = setArrayRegionEach p (.array id) first buf s) := by
  intro n first past
  have heach : n + buf.length < 2 ^ 63 →
      setArrayRegion p (.array id) first buf s = setArrayRegionEach p (.array id) first buf s :=
    setArrayRegion_eq_each ha hfail start
  by_cases hfits : 0 ≤ first ∧ past ≤ n
  · refine ⟨_, _, region_written ha hfail start hbuf hfits.1 hfits.2, ?_, ?_, heach⟩
    · intro _
      have hroom : first.toNat + buf.length ≤ a.elements.length := by omega
      refine ⟨rfl, _, rfl, ?_, ?_⟩
      · simp only [overwrite, List.length_append, List.length_take, List.length_drop]
        omega
      · intro j
        rw [getElem?_overwrite hroom]
        congr 1
        rw [eq_iff_iff]
        omega
    · intro hmisses
      omega
  have hmisses : first < 0 ∨ n < past := by omega
  by_cases hbreaks : 0 ≤ first ∧ 2 ^ 63 ≤ past
  · refine ⟨_, _, region_breaks ha hfail start hbuf hbreaks.1 (by omega) hbreaks.2,
      fun h => absurd h hfits, fun _ => ⟨rfl, _, rfl, iff_of_true ⟨_, rfl⟩ hbreaks⟩, heach⟩
  · refine ⟨_, _, region_refused ha hfail start (by omega), fun h => absurd h hfits,
      fun _ => ⟨rfl, _, rfl, iff_of_false ?_ hbreaks⟩, heach⟩
    rintro ⟨t, ht⟩
    cases ht

/-- Two elements in the middle of an array. -/
theorem region_all_or_nothing_middle :
    let a : JavaArray := ⟨Primitive.int.letter, [], [.int32 1, .int32 2, .int32 3, .int32 4]⟩
    let s : Recorder := { heap := [a] }
    let buf : List HostValue := [.int32 8, .int32 9]
    s.heap[0]? = some a ∧ s.fail.lookup (BridgeOp.setArrayRegion .int).name = none
      ∧ buf.length < 2 ^ 63
      ∧ setArrayRegion .int (.array 0) 1 buf s
        = (.ok (), { s.wrote { op := .setArrayRegion .int, index := 1, len := 2 } with
            heap := [{ a with elements := [.int32 1, .int32 8, .int32 9, .int32 4] }] }) := by
  intro a s buf
  have hbuf : buf.length < 2 ^ 63 := by decide
  have ha : s.heap[0]? = some a := rfl
  have hfail : s.fail.lookup (BridgeOp.setArrayRegion .int).name = none := rfl
  obtain ⟨answer, heap, hrun, hwritten, -⟩ := region_all_or_nothing ha hfail 1 hbuf
  obtain ⟨rfl, elements, rfl, -, helements⟩ := hwritten (by decide)
  have hpast : (1 : Int64).toInt + buf.length = 3 := by decide
  have hall : elements = [.int32 1, .int32 8, .int32 9, .int32 4] := by
    refine List.ext_getElem? fun j => ?_
    rw [helements]
    rcases j with _ | _ | _ | _ | j
    · rfl
    · rfl
    · rfl
    · rfl
    · exact if_neg (by omega)
  rw [hall] at hrun
  exact ⟨ha, hfail, hbuf, hrun⟩

/-- One element behind the largest index: the end of the region is no number of 64 bits, and the process
    breaks down where an error was to be returned. -/
theorem region_end_wraps :
    let s : Recorder := { heap := [⟨Primitive.int.letter, [], [.absent]⟩] }
    (1 : Int) < Int64.maxValue.toInt + [HostValue.int32 1].length
      ∧ ∃ t s', setArrayRegion .int (.array 0) Int64.maxValue.toInt [.int32 1] s
        = (.error (.crash t), s') := by
  refine ⟨by decide, _, _, region_breaks (a := ⟨Primitive.int.letter, [], [.absent]⟩) rfl rfl
    Int64.maxValue ?_ ?_ ?_ ?_⟩
  · decide
  · decide
  · decide
  · decide

end BridgeCall.Recorder
