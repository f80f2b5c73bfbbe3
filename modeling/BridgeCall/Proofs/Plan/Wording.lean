/-
  BridgeCall/Proofs/Plan/Wording.lean
  ===================================
  **Names and wordings in expanded code.**  The local that holds an array is
  named by the number of its parameter, and different numbers have different
  names.  The wording of a step is handed to a formatted print when the step
  breaks down; for a parsed call it holds no sign that would be filled in, so
  that it comes out as it is, with the cause at its end (`errorf_cause`).
-/
import BridgeCall.Proofs.Expr.Names
import BridgeCall.Proofs.Plan.Meaning

namespace BridgeCall

/-! ### Numbers in names -/

/-- A digit of a number, as a byte. -/
theorem toNat_digit {n : Nat} {d : Char} (h : d ∈ Nat.toDigits 10 n) :
    d.toNat.toUInt8.toNat = d.toNat ∧ 0x30 ≤ d.toNat := by
  have hdigit := Nat.isDigit_of_mem_toDigits (by decide) (by decide) h
  simp only [Char.isDigit, Bool.and_eq_true, decide_eq_true_eq] at hdigit
  have hlow : 0x30 ≤ d.toNat := UInt32.le_iff_toNat_le.mp hdigit.1
  have hhigh : d.toNat ≤ 0x39 := UInt32.le_iff_toNat_le.mp hdigit.2
  refine ⟨?_, hlow⟩
  change d.toNat % 256 = d.toNat
  omega

theorem Bytes.ofNat_injective {m n : Nat} (h : Bytes.ofNat m = Bytes.ofNat n) : m = n := by
  have hback : ∀ k, (Bytes.ofNat k).map (fun x => Char.ofNat x.toNat) = Nat.toDigits 10 k := by
    intro k
    rw [Bytes.ofNat, Bytes.digits, List.map_map]
    conv_rhs => rw [← List.map_id (Nat.toDigits 10 k)]
    apply List.map_congr_left
    intro d hd
    rw [Function.comp_apply, (toNat_digit hd).1, Char.ofNat_toNat, id]
  have hdigits : Nat.toDigits 10 m = Nat.toDigits 10 n := by rw [← hback, h, hback]
  rw [← Nat.ofDigitChars_ten_toDigits (n := m), hdigits, Nat.ofDigitChars_ten_toDigits]

theorem Plan.arrayVar_injective {i j : Nat} (h : Plan.arrayVar i = Plan.arrayVar j) : i = j :=
  Bytes.ofNat_injective (List.append_cancel_left h)

theorem Plan.arrayVar_ne {n : Bytes} (h : n.take 6 ≠ ("jniArg" : Bytes)) (i : Nat) :
    n ≠ Plan.arrayVar i := by
  rintro rfl
  exact h rfl

/-! ### Wordings -/

/-- The text has no sign that a message would fill in. -/
def Verbatim (t : Bytes) : Prop := 0x25 ∉ t

instance (t : Bytes) : Decidable (Verbatim t) := inferInstanceAs (Decidable (0x25 ∉ t))

theorem verbatim_append {t u : Bytes} : Verbatim (t ++ u) ↔ Verbatim t ∧ Verbatim u := by
  simp only [Verbatim, List.mem_append, not_or]

theorem verbatim_ofNat (n : Nat) : Verbatim (Bytes.ofNat n) := by
  intro h
  obtain ⟨d, hd, heq⟩ := List.mem_map.mp h
  obtain ⟨hsame, hlow⟩ := toNat_digit hd
  rw [heq] at hsame
  rw [← hsame] at hlow
  exact absurd hlow (by decide)

theorem Lexer.IsName.verbatim {t : Bytes} (h : Lexer.IsName t) : Verbatim t :=
  fun hmem => absurd (h.2 0x25 hmem) (by decide)

theorem ClassPath.WellFormed.verbatim {c : ClassPath} (h : c.WellFormed) : Verbatim c.display := by
  intro hmem
  rcases ClassPath.mem_write h hmem with hb | hb | hb <;> exact absurd hb (by decide)

theorem Primitive.verbatim_name (p : Primitive) : Verbatim p.name := by
  cases p <;> decide

theorem ValueType.WellFormed.verbatim {ty : ValueType} (h : ty.WellFormed) :
    Verbatim ty.display := by
  cases ty with
  | java p s => exact p.verbatim_name
  | host k s => exact k.java.verbatim_name
  | object c => exact ClassPath.WellFormed.verbatim h

/-- The type that a step names; none for the others. -/
def Step.typeText : Step → Bytes
  | .allocate ty _ | .fill ty | .setElement _ ty | .convert ty => ty
  | .call | .nullCheck => []

/-- The wording of a step of a parsed call stands for itself. -/
theorem Call.WellFormed.verbatim_message {c : Call} (h : c.WellFormed) (st : Step)
    (hst : Verbatim st.typeText) : Verbatim (st.message c) := by
  have hmethod : Verbatim c.method := h.method.verbatim
  cases st with
  | call =>
    cases htarget : c.target with
    | static k s =>
      have hk : Verbatim k.display := (h.static k s htarget).verbatim
      simp +decide only [Step.message, htarget, verbatim_append, hmethod, hk]
    | object r s => simp +decide only [Step.message, htarget, verbatim_append, hmethod]
  | allocate ty n =>
    rw [Step.typeText] at hst
    simp +decide only [Step.message, verbatim_append, verbatim_ofNat, hmethod, hst]
  | fill ty =>
    rw [Step.typeText] at hst
    simp +decide only [Step.message, verbatim_append, hmethod, hst]
  | setElement i ty =>
    rw [Step.typeText] at hst
    simp +decide only [Step.message, verbatim_append, verbatim_ofNat, hmethod, hst]
  | convert ty =>
    rw [Step.typeText] at hst
    simp +decide only [Step.message, verbatim_append, hmethod, hst]
  | nullCheck => simp +decide only [Step.message, verbatim_append, hmethod]

namespace Code

theorem errorf_cons {x : UInt8} (h : x ≠ 0x25) (m : Bytes) (causes : List Bytes) :
    errorf (x :: m) causes = (errorf m causes).map (x :: ·) := by
  conv_lhs => unfold errorf
  exact if_neg h

theorem errorf_verbatim {m : Bytes} (h : Verbatim m) (rest : Bytes) (causes : List Bytes) :
    errorf (m ++ rest) causes = (errorf rest causes).map (m ++ ·) := by
  induction m with
  | nil => simp
  | cons x m ih =>
    have hx : x ≠ 0x25 := by
      rintro rfl
      exact h (List.mem_cons_self ..)
    have hm : Verbatim m := fun hmem => h (List.mem_cons_of_mem _ hmem)
    rw [List.cons_append, errorf_cons hx, ih hm, Option.map_map]
    rfl

theorem errorf_cause {m : Bytes} (h : Verbatim m) (t : Bytes) :
    errorf (m ++ ": %w") [t] = some (m ++ ": " ++ t) := by
  have hsign : errorf (0x25 :: 0x77 :: []) [t] = some t := by
    simp [errorf]
  have htail : errorf ": %w" [t] = some (": " ++ t) := by
    change errorf (0x3a :: 0x20 :: 0x25 :: 0x77 :: []) [t] = _
    rw [errorf_cons (by decide), errorf_cons (by decide), hsign]
    rfl
  rw [errorf_verbatim h, htail, Option.map_some, List.append_assoc]

theorem errorf_plain {m : Bytes} (h : Verbatim m) : errorf m [] = some m := by
  have hrun := errorf_verbatim h [] []
  rw [List.append_nil] at hrun
  rw [hrun]
  simp [errorf]

end Code
end BridgeCall
