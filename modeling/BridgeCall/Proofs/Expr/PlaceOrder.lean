/-
  BridgeCall/Proofs/Expr/PlaceOrder.lean
  ======================================
  **The order of places.**  A place is up to another one in the same file when a reader
  who follows offsets, lines and columns meets it first (`Position.Upto`).  Counting
  keeps this order: over the same bytes, over more bytes (`Position.Upto.advance`), and
  over bytes without a line feed when the other bytes are at least as many
  (`Position.upto_advance_of_length`).
-/
import BridgeCall.Proofs.Expr.Tiling

namespace BridgeCall

/-- A place is not behind another one of the same file. -/
structure Position.Upto (p q : Position) : Prop where
  file : p.file = q.file
  offset : p.offset ≤ q.offset
  place : p.line < q.line ∨ p.line = q.line ∧ p.column ≤ q.column

/-- A span lies inside another one, with its ends in order. -/
structure Span.Inside (a b : Span) : Prop where
  start : b.start.Upto a.start
  ordered : a.start.Upto a.stop
  stop : a.stop.Upto b.stop

namespace Position

variable {p q r : Position}

@[refl]
theorem Upto.refl (p : Position) : p.Upto p := ⟨rfl, le_refl _, .inr ⟨rfl, le_refl _⟩⟩

theorem Upto.trans (hpq : p.Upto q) (hqr : q.Upto r) : p.Upto r := by
  refine ⟨hpq.file.trans hqr.file, hpq.offset.trans hqr.offset, ?_⟩
  rcases hpq.place with hlt | ⟨hline, hcolumn⟩
  · refine .inl (hlt.trans_le ?_)
    rcases hqr.place with hlt | ⟨hline, -⟩
    · exact hlt.le
    · exact hline.le
  · rcases hqr.place with hlt | ⟨hline', hcolumn'⟩
    · exact .inl (hline.trans_lt hlt)
    · exact .inr ⟨hline.trans hline', hcolumn.trans hcolumn'⟩

theorem Upto.line_le (h : p.Upto q) : p.line ≤ q.line := by
  rcases h.place with hlt | ⟨hline, -⟩
  · exact hlt.le
  · exact hline.le

theorem upto_step (p : Position) (b : UInt8) : p.Upto (p.step b) := by
  unfold step
  split
  · exact ⟨rfl, Int.le_add_one (le_refl _), .inl (Int.lt_succ _)⟩
  · exact ⟨rfl, Int.le_add_one (le_refl _), .inr ⟨rfl, Int.le_add_one (le_refl _)⟩⟩

theorem Upto.step (h : p.Upto q) (b : UInt8) : (p.step b).Upto (q.step b) := by
  obtain ⟨hfile, hoffset, hplace⟩ := h
  unfold Position.step
  split
  · refine ⟨hfile, Int.add_le_add_right hoffset 1, ?_⟩
    dsimp only
    omega
  · refine ⟨hfile, Int.add_le_add_right hoffset 1, ?_⟩
    dsimp only
    omega

/-- More bytes lead further. -/
theorem Upto.advance (h : p.Upto q) {as bs : Bytes} (hsub : as.Sublist bs) :
    (p.advance as).Upto (q.advance bs) := by
  induction hsub generalizing p q with
  | slnil => exact h
  | cons b _ ih => exact ih (h.trans (upto_step q b))
  | cons_cons b _ ih => exact ih (h.step b)

theorem upto_advance (p : Position) (bs : Bytes) : p.Upto (p.advance bs) :=
  (Upto.refl p).advance (List.nil_sublist bs)

/-- Bytes on one line do not lead further than other bytes that are at least as many. -/
theorem upto_advance_of_length (p : Position) {as bs : Bytes} (has : 0x0a ∉ as)
    (h : as.length ≤ bs.length) : (p.advance as).Upto (p.advance bs) := by
  rw [advance_eq_behind, advance_eq_behind]
  refine ⟨rfl, by simpa [behind] using h, ?_⟩
  simp only [behind, List.count_eq_zero_of_not_mem has, if_neg has]
  by_cases hbs : 0x0a ∈ bs
  · have hcount := List.count_pos_iff.mpr hbs
    exact .inl (by omega)
  · rw [List.count_eq_zero_of_not_mem hbs, if_neg hbs]
    exact .inr ⟨rfl, by omega⟩

end Position
end BridgeCall
