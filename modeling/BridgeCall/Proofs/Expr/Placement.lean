/-
  BridgeCall/Proofs/Expr/Placement.lean
  =====================================
  **Moving texts.**  An expression may be embedded in a file, where it starts at
  any place.  `Placed.move` takes whatever holds places to where it is then: the
  offset and the line grow by those of the start, and so does the column on the
  first line.  Tokens move with their text (`Source.move_tokens`), because the
  lexer only steps from place to place, and what is cut out of a source stays the
  same (`Source.move_cut`).
-/
import BridgeCall.Proofs.Expr.TokenStream
import Mathlib.Data.Int.Order.Basic

namespace BridgeCall

/-! ### Moving -/

/-- What has places of a text in it. `move s` takes them to where they are when the text, which was
    given without a place, starts at `s`. -/
class Placed (α : Type) where
  move : Position → α → α

open Placed (move)

/-- Columns only move on the first line. -/
instance : Placed Position where
  move s p :=
    { file := s.file
      offset := p.offset + s.offset
      line := p.line + s.line - 1
      column := if p.line = 1 then p.column + s.column - 1 else p.column }

instance : Placed Span where
  move s r := ⟨move s r.start, move s r.stop⟩

instance : Placed Token where
  move s t := { t with span := move s t.span }

instance : Placed Source where
  move s src := { src with start := move s src.start }

instance {α : Type} [Placed α] : Placed (List α) where
  move s := List.map (move s)

instance {α : Type} [Placed α] : Placed (Option α) where
  move s := Option.map (move s)

instance {α β : Type} [Placed α] [Placed β] : Placed (α × β) where
  move s p := (move s p.1, move s p.2)

instance : Placed UInt8 where
  move _ b := b

instance : Placed Bool where
  move _ b := b

instance : Placed Unit where
  move _ u := u

instance : Placed ClassPath where
  move s c := { c with span := move s c.span }

instance : Placed ValueType where
  move s
    | .java p r => .java p (move s r)
    | .host h r => .host h (move s r)
    | .object c => .object (move s c)

instance : Placed Success where
  move s
    | .value ty => .value (move s ty)
    | .option c r => .option (move s c) (move s r)

instance : Placed ReturnSpec where
  move s
    | .plain ok => .plain (move s ok)
    | .result ok r => .result (move s ok) (move s r)

instance : Placed Target where
  move s
    | .static c r => .static (move s c) (move s r)
    | .object receiver r => .object receiver (move s r)

instance : Placed Parameter where
  move s p := { p with ty := move s p.ty, span := move s p.span }

instance : Placed Call where
  move s c :=
    { c with
      target := move s c.target
      methodSpan := move s c.methodSpan
      params := move s c.params
      ret := move s c.ret
      span := move s c.span }

instance : Placed Fault where
  move s f := { f with span := move s f.span, got := move s f.got }

instance {α : Type} [Placed α] : Placed (Except Fault α) where
  move s
    | .ok a => .ok (move s a)
    | .error f => .error (move s f)

instance : Placed Reader.Path where
  move s p := ⟨move s p.first, move s p.dotted, move s p.nested⟩

instance : Placed Reader.Group where
  move s g := ⟨move s g.contents, move s g.closer⟩

section Moving

variable {α β : Type} [Placed α] [Placed β] (s : Position)

theorem move_list (as : List α) : move s as = as.map (move s) := rfl

@[simp] theorem move_nil : move s ([] : List α) = [] := rfl

@[simp] theorem move_cons (a : α) (as : List α) : move s (a :: as) = move s a :: move s as := rfl

@[simp] theorem move_append (as bs : List α) : move s (as ++ bs) = move s as ++ move s bs :=
  List.map_append

@[simp] theorem move_isEmpty (as : List α) : (move s as).isEmpty = as.isEmpty := List.isEmpty_map

@[simp] theorem move_length (as : List α) : (move s as).length = as.length := List.length_map _

@[simp] theorem move_dropLast (as : List α) : (move s as).dropLast = move s as.dropLast :=
  List.map_dropLast.symm

@[simp] theorem move_reverse (as : List α) : (move s as).reverse = move s as.reverse :=
  List.map_reverse.symm

@[simp] theorem move_bytes (bs : Bytes) : move s bs = bs := List.map_id bs

@[simp] theorem move_pair (a : α) (b : β) : move s (a, b) = (move s a, move s b) := rfl

@[simp] theorem move_ok (a : α) : move s (.ok a : Except Fault α) = .ok (move s a) := rfl

@[simp] theorem move_error (f : Fault) : move s (.error f : Except Fault α) = .error (move s f) := rfl

@[simp] theorem move_kind (t : Token) : (move s t).kind = t.kind := rfl

@[simp] theorem move_literal (t : Token) : (move s t).literal = t.literal := rfl

@[simp] theorem move_span (t : Token) : (move s t).span = move s t.span := rfl

@[simp] theorem move_to (a b : Span) : (move s a).to (move s b) = move s (a.to b) := rfl

theorem move_getLastD (as : List α) (d : α) :
    (move s as).getLastD (move s d) = move s (as.getLastD d) := by
  rw [move_list, List.getLastD_map]

/-- A text given without a place starts at the origin. -/
theorem move_origin : move s Position.origin = s := by
  obtain ⟨file, offset, line, column⟩ := s
  simp only [move, Position.origin, if_true, Position.mk.injEq]
  refine ⟨trivial, ?_, ?_, ?_⟩ <;> omega

end Moving

/-! ### Tokens -/

theorem Position.move_step {p : Position} (hp : 1 ≤ p.line) (s : Position) (b : UInt8) :
    (move s p).step b = move s (p.step b) := by
  unfold Position.step
  split
  · simp only [move, Position.mk.injEq]
    refine ⟨trivial, ?_, ?_, ?_⟩
    · omega
    · omega
    · rw [if_neg (by omega)]
  · simp only [move, Position.mk.injEq]
    refine ⟨trivial, ?_, trivial, ?_⟩
    · omega
    · split <;> omega

theorem Position.line_step (p : Position) (b : UInt8) : p.line ≤ (p.step b).line := by
  unfold Position.step
  split
  · exact Int.le_add_one (le_refl _)
  · exact le_refl _

theorem Position.line_advance (p : Position) (bs : Bytes) : p.line ≤ (p.advance bs).line := by
  induction bs generalizing p with
  | nil => exact le_refl _
  | cons b bs ih => exact le_trans (p.line_step b) (ih (p.step b))

theorem Position.move_advance {p : Position} (hp : 1 ≤ p.line) (s : Position) (bs : Bytes) :
    (move s p).advance bs = move s (p.advance bs) := by
  induction bs generalizing p with
  | nil => rfl
  | cons b bs ih =>
    have hstep : ∀ q : Position, q.advance (b :: bs) = (q.step b).advance bs := fun _ => rfl
    rw [hstep, hstep, move_step hp, ih (le_trans hp (p.line_step b))]

namespace Lexer

theorem move_tokensFrom {pos : Position} (hpos : 1 ≤ pos.line) (s : Position) (bs : Bytes) :
    tokensFrom (move s pos) bs = move s (tokensFrom pos bs) := by
  fun_induction tokensFrom pos bs with
  | case1 pos bs t start rest hrest =>
    rw [tokensFrom, dif_pos hrest, Position.move_advance hpos]
    rfl
  | case2 pos bs t start rest hrest kind size hlex n stop ih =>
    have hstart : 1 ≤ start.line := le_trans hpos (pos.line_advance _)
    have hstop : 1 ≤ stop.line := le_trans hstart (start.line_advance _)
    rw [tokensFrom, dif_neg hrest, Position.move_advance hpos]
    simp only [rest, t] at hlex
    simp only [hlex]
    rw [Position.move_advance hstart, move_cons, ← ih hstop]
    rfl

end Lexer

namespace Source

variable {src : Source} (s : Position)

theorem move_tokens (h : 1 ≤ src.start.line) : (move s src).tokens = move s src.tokens :=
  Lexer.move_tokensFrom h s src.text

/-- A cut only depends on how far its ends are from the start. -/
theorem move_cut (a b : Position) : (move s src).cut (move s a) (move s b) = src.cut a b := by
  have hoffset : ∀ p : Position,
      (move s p).offset - (move s src).start.offset = p.offset - src.start.offset := by
    intro p
    change p.offset + s.offset - (src.start.offset + s.offset) = _
    omega
  unfold Source.cut
  simp only [hoffset]
  rfl

theorem move_textOf (ts : List Token) :
    Reader.textOf (move s src) (move s ts) = Reader.textOf src ts := by
  cases ts with
  | nil => rfl
  | cons t ts =>
    have hlast : (move s (t :: ts)).getLast? = some (move s ((t :: ts).getLast (by simp))) := by
      rw [move_list, List.getLast?_map, List.getLast?_eq_some_getLast (by simp)]
      rfl
    simp only [Reader.textOf, hlast, List.getLast?_eq_some_getLast (List.cons_ne_nil t ts)]
    exact move_cut s _ _

end Source

end BridgeCall
