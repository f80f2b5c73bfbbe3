/-
  BridgeCall/Proofs/Machine/Truncation.lean
  =========================================
  **Class files that end too early.**  A reader is exact when all it ever takes is
  a definite part of its input: it reads that part whatever follows, and it
  refuses every proper beginning of it.  Exact readers compose, and every reader
  of class files is one, except for the number of methods: an input that ends
  before or inside it can pass for a class without methods.

  `ClassFile.parse_cut` says for every class file at which places it can be cut
  without being refused.
-/
import BridgeCall.Proofs.Machine.ClassReading
import Mathlib.Data.FinEnum

namespace BridgeCall

/-! ### Exact readers -/

section Exact

variable {ε α β : Type}

/-- The reader takes these bytes for this value, and no beginning of them for any. -/
structure Consumes (r : StateT Bytes (Except ε) α) (used : Bytes) (a : α) : Prop where
  whole : ∀ rest, r (used ++ rest) = .ok (a, rest)
  cut : ∀ n, n < used.length → ∃ e, r (used.take n) = .error e

/-- Whenever the reader succeeds, it has consumed the front of its input. -/
def Exact (r : StateT Bytes (Except ε) α) : Prop :=
  ∀ bs a rest, r bs = .ok (a, rest) → ∃ used, bs = used ++ rest ∧ Consumes r used a

theorem read_bind_error {r : StateT Bytes (Except ε) α} {f : α → StateT Bytes (Except ε) β}
    {bs : Bytes} {e : ε} (h : r bs = .error e) : (r >>= f) bs = .error e := by
  change Except.bind (r bs) (fun x => f x.1 x.2) = .error e
  rw [h]
  rfl

theorem read_bind_ok {r : StateT Bytes (Except ε) α} {f : α → StateT Bytes (Except ε) β}
    {bs rest : Bytes} {b : β} (h : (r >>= f) bs = .ok (b, rest)) :
    ∃ a mid, r bs = .ok (a, mid) ∧ f a mid = .ok (b, rest) := by
  cases hr : r bs with
  | error e =>
    rw [read_bind_error hr] at h
    cases h
  | ok x =>
    obtain ⟨a, mid⟩ := x
    rw [read_bind hr] at h
    exact ⟨a, mid, rfl, h⟩

/-- A cut of two parts lies in the first or leaves it whole. -/
theorem take_append_cases (as bs : Bytes) (n : Nat) :
    (n < as.length ∧ (as ++ bs).take n = as.take n) ∨
      (as.length ≤ n ∧ (as ++ bs).take n = as ++ bs.take (n - as.length)) := by
  rcases Nat.lt_or_ge n as.length with h | h
  · exact .inl ⟨h, List.take_append_of_le_length (Nat.le_of_lt h)⟩
  · refine .inr ⟨h, ?_⟩
    rw [List.take_append, List.take_of_length_le h]

theorem Consumes.bind {r : StateT Bytes (Except ε) α} {f : α → StateT Bytes (Except ε) β}
    {used used' : Bytes} {a : α} {b : β} (h : Consumes r used a) (h' : Consumes (f a) used' b) :
    Consumes (r >>= f) (used ++ used') b := by
  constructor
  · intro rest
    rw [List.append_assoc, read_bind (h.whole _)]
    exact h'.whole rest
  · intro n hn
    rcases take_append_cases used used' n with ⟨hlt, htake⟩ | ⟨hge, htake⟩
    · obtain ⟨e, he⟩ := h.cut n hlt
      exact ⟨e, by rw [htake, read_bind_error he]⟩
    · rw [htake, read_bind (h.whole _)]
      apply h'.cut
      rw [List.length_append] at hn
      omega

theorem Exact.bind {r : StateT Bytes (Except ε) α} {f : α → StateT Bytes (Except ε) β}
    (hr : Exact r) (hf : ∀ a, Exact (f a)) : Exact (r >>= f) := by
  intro bs b rest h
  obtain ⟨a, mid, hfirst, hsecond⟩ := read_bind_ok h
  obtain ⟨used, rfl, hused⟩ := hr bs a mid hfirst
  obtain ⟨used', rfl, hused'⟩ := hf a mid b rest hsecond
  exact ⟨used ++ used', by rw [List.append_assoc], hused.bind hused'⟩

theorem exact_pure (a : α) : Exact (pure a : StateT Bytes (Except ε) α) := by
  intro bs b rest h
  obtain ⟨rfl, rfl⟩ : a = b ∧ bs = rest := by cases h; exact ⟨rfl, rfl⟩
  exact ⟨[], rfl, fun rest => rfl, fun n hn => absurd hn (by simp)⟩

theorem exact_throw (e : ε) : Exact (throw e : StateT Bytes (Except ε) α) := by
  intro bs a rest h
  cases h

/-- What an exact reader has read in full is what it consumed. -/
theorem Exact.consumes {r : StateT Bytes (Except ε) α} (hr : Exact r) {bs : Bytes} {a : α}
    (h : r bs = .ok (a, [])) : Consumes r bs a := by
  obtain ⟨used, rfl, hused⟩ := hr bs a [] h
  rw [List.append_nil]
  exact hused

theorem Exact.as {r : ByteReader α} (hr : Exact r) (part : ClassPart) : Exact (r.as part) := by
  intro bs a rest h
  have hok : r bs = .ok (a, rest) := by
    unfold ByteReader.as at h
    split at h
    · rename_i x hx
      cases h
      exact hx
    · cases h
  obtain ⟨used, rfl, hused⟩ := hr bs a rest hok
  refine ⟨used, rfl, fun rest => as_read (hused.whole rest) part, ?_⟩
  intro n hn
  obtain ⟨e, he⟩ := hused.cut n hn
  exact ⟨.ended part e, by rw [ByteReader.as, he]⟩

end Exact

/-! ### The readers of class files -/

namespace ByteReader

theorem take_short {n : Nat} {bs : Bytes} (h : bs.length < n) : ∃ e, take n bs = .error e := by
  have hfront : (bs.take n).length ≠ n := by
    rw [List.length_take]
    omega
  rw [take, read_bind (read_get _), if_neg hfront]
  split
  · exact ⟨.before, rfl⟩
  · exact ⟨.inside, rfl⟩

theorem skip_short {n : Nat} {bs : Bytes} (h : bs.length < n) : ∃ e, skip n bs = .error e := by
  have hfront : (bs.take n).length ≠ n := by
    rw [List.length_take]
    omega
  rw [skip, read_bind (read_get _), if_neg hfront]
  exact ⟨.before, rfl⟩

/-- A reader that needs a number of bytes, and nothing but that number, is exact. -/
theorem exact_of_length {r : ByteReader α} {n : Nat} (f : Bytes → α)
    (hlong : ∀ bs rest, bs.length = n → r (bs ++ rest) = .ok (f bs, rest))
    (hshort : ∀ bs, bs.length < n → ∃ e, r bs = .error e) : Exact r := by
  intro bs a rest h
  rcases Nat.lt_or_ge bs.length n with hlt | hge
  · obtain ⟨e, he⟩ := hshort bs hlt
    rw [he] at h
    cases h
  · have hlength : (bs.take n).length = n := by simp [hge]
    have hread := hlong (bs.take n) (bs.drop n) hlength
    rw [List.take_append_drop, h] at hread
    cases hread
    refine ⟨bs.take n, (List.take_append_drop n bs).symm, fun rest => hlong _ rest hlength, ?_⟩
    intro k hk
    apply hshort
    rw [List.length_take]
    omega

theorem exact_take (n : Nat) : Exact (take n) := by
  refine exact_of_length id ?_ (fun bs h => take_short h)
  intro bs rest hlength
  rw [← hlength]
  exact take_append bs rest

theorem exact_skip (n : Nat) : Exact (skip n) := by
  refine exact_of_length (fun _ => ()) ?_ (fun bs h => skip_short h)
  intro bs rest hlength
  rw [← hlength]
  exact skip_append bs rest

theorem exact_number (n : Nat) : Exact (do return bigEndian (← take n) : ByteReader Nat) :=
  (exact_take n).bind fun bs => exact_pure (bigEndian bs)

theorem exact_u1 : Exact u1 := exact_number 1

theorem exact_u2 : Exact u2 := exact_number 2

theorem exact_u4 : Exact u4 := exact_number 4

theorem exact_times {r : ByteReader Unit} (hr : Exact r) (n : Nat) : Exact (times n r) := by
  induction n with
  | zero => exact exact_pure ()
  | succ n ih => exact hr.bind fun _ => ih

theorem exact_skipAttributes : Exact skipAttributes := by
  apply exact_u2.bind
  intro count
  apply exact_times
  exact (exact_skip 2).bind fun _ => exact_u4.bind fun length => exact_skip length

end ByteReader

namespace Pool

open ByteReader

theorem exact_readEntry (p : Pool) (slot : UInt16) : Exact (p.readEntry slot) := by
  apply (exact_u1.as _).bind
  intro tag
  simp only
  split
  · exact (exact_u2.as _).bind fun length => ((exact_take length).as _).bind fun bs => exact_pure _
  · exact (exact_u2.as _).bind fun name => exact_pure _
  · split
    · exact exact_throw _
    · exact ((exact_skip _).as _).bind fun _ => exact_pure _

theorem readEntry_nil (p : Pool) (slot : UInt16) : ∃ e, p.readEntry slot [] = .error e := by
  exact ⟨_, rfl⟩

/-- An entry takes at least its tag. -/
theorem readEntry_pos {p : Pool} {slot : UInt16} {used : Bytes} {x : Pool × UInt16}
    (h : Consumes (p.readEntry slot) used x) : 0 < used.length := by
  cases used with
  | cons b bs => simp
  | nil =>
    obtain ⟨e, he⟩ := readEntry_nil p slot
    have hread := h.whole []
    rw [List.append_nil, he] at hread
    cases hread

/-- The entries are read with as much fuel as there are bytes, and one more. What is read does not
    depend on it, as every entry takes a byte. -/
theorem readEntries_exact (count : Nat) {fuel : Nat} {p q : Pool} {slot : UInt16} {bs rest : Bytes}
    (hfuel : bs.length < fuel) (h : readEntries count fuel p slot bs = .ok (q, rest)) :
    ∃ used, bs = used ++ rest ∧
      (∀ fuel rest, (used ++ rest).length < fuel →
        readEntries count fuel p slot (used ++ rest) = .ok (q, rest)) ∧
      ∀ fuel n, n < used.length → n < fuel →
        ∃ e, readEntries count fuel p slot (used.take n) = .error e := by
  induction fuel generalizing p slot bs with
  | zero => exact absurd hfuel (by simp)
  | succ fuel ih =>
    rw [readEntries] at h
    by_cases hslot : slot.toNat < count
    · rw [if_pos hslot] at h
      obtain ⟨⟨p', last⟩, mid, hentry, hrest⟩ := read_bind_ok h
      obtain ⟨entry, rfl, hused⟩ := exact_readEntry p slot _ _ _ hentry
      have hpos := readEntry_pos hused
      obtain ⟨used, rfl, hwhole, hcut⟩ :=
        ih (by rw [List.length_append] at hfuel; omega) hrest
      refine ⟨entry ++ used, by rw [List.append_assoc], ?_, ?_⟩
      · intro fuel rest hlength
        obtain ⟨k, rfl⟩ : ∃ k, fuel = k + 1 := ⟨fuel - 1, by omega⟩
        rw [readEntries, if_pos hslot, List.append_assoc, read_bind (hused.whole _)]
        apply hwhole
        simp only [List.length_append] at hlength ⊢
        omega
      · intro fuel n hn hlength
        obtain ⟨k, rfl⟩ : ∃ k, fuel = k + 1 := ⟨fuel - 1, by omega⟩
        rw [readEntries, if_pos hslot]
        rcases take_append_cases entry used n with ⟨hlt, htake⟩ | ⟨hge, htake⟩
        · obtain ⟨e, he⟩ := hused.cut n hlt
          exact ⟨e, by rw [htake, read_bind_error he]⟩
        · rw [htake, read_bind (hused.whole _)]
          rw [List.length_append] at hn
          exact hcut k (n - entry.length) (by omega) (by omega)
    · rw [if_neg hslot] at h
      obtain ⟨rfl, rfl⟩ : p = q ∧ bs = rest := by cases h; exact ⟨rfl, rfl⟩
      refine ⟨[], rfl, ?_, fun fuel n hn => absurd hn (by simp)⟩
      intro fuel rest hlength
      obtain ⟨k, rfl⟩ : ∃ k, fuel = k + 1 := ⟨fuel - 1, by omega⟩
      rw [readEntries, if_neg hslot]
      rfl

theorem exact_read : Exact Pool.read := by
  apply (exact_u2.as _).bind
  intro count bs q rest h
  rw [read_bind (read_get _)] at h
  obtain ⟨used, rfl, hwhole, hcut⟩ := readEntries_exact count (Nat.lt_succ_self _) h
  refine ⟨used, rfl, ?_, ?_⟩
  · intro rest
    rw [read_bind (read_get _)]
    exact hwhole _ rest (Nat.lt_succ_self _)
  · intro n hn
    rw [read_bind (read_get _)]
    apply hcut _ n hn
    rw [List.length_take]
    omega

end Pool

namespace ClassFile

open ByteReader

theorem exact_readHeader : Exact readHeader :=
  exact_u2.bind fun _ => exact_u2.bind fun _ => exact_u2.bind fun _ =>
    exact_u2.bind fun interfaces => (exact_skip (2 * interfaces)).bind fun _ => exact_pure _

theorem exact_skipFields : Exact skipFields :=
  exact_u2.bind fun fields => exact_times ((exact_skip 6).bind fun _ => exact_skipAttributes) fields

theorem exact_thisName (p : Pool) (i : Nat) : Exact (thisName p i) := by
  unfold thisName
  split
  · exact exact_pure _
  · exact exact_throw _

theorem exact_superName (p : Pool) (i : Nat) : Exact (superName p i) := by
  unfold superName
  split
  · exact exact_pure _
  · split
    · exact exact_pure _
    · exact exact_throw _

theorem exact_readHead : Exact readHead := by
  apply (exact_u4.as _).bind
  intro magic
  split
  · exact exact_throw _
  · apply (exact_u2.as _).bind
    intro minor
    apply (exact_u2.as _).bind
    intro major
    apply Pool.exact_read.bind
    intro pool
    apply (exact_readHeader.as _).bind
    rintro ⟨flags, this, super⟩
    apply (exact_thisName pool this).bind
    intro name
    apply (exact_superName pool super).bind
    intro super
    exact (exact_skipFields.as _).bind fun _ => exact_pure _

theorem exact_readMethod (p : Pool) (i : Nat) : Exact (readMethod p i) := by
  apply Exact.bind
  · apply Exact.as
    exact exact_u2.bind fun flags => exact_u2.bind fun name => exact_u2.bind fun desc =>
      exact_skipAttributes.bind fun _ => exact_pure _
  · rintro ⟨flags, name, desc⟩
    simp only
    split
    · exact exact_pure _
    · exact exact_throw _
    · exact exact_throw _

theorem exact_readMethods (p : Pool) (i n : Nat) : Exact (readMethods p i n) := by
  induction n generalizing i with
  | zero => exact exact_pure []
  | succ n ih =>
    exact (exact_readMethod p i).bind fun m => (ih (i + 1)).bind fun ms => exact_pure (m :: ms)

/-! ### Where a class file can be cut -/

/-- The method table of an input that ends before the second byte of its count. -/
theorem readMethodTable_nil (p : Pool) : readMethodTable p [] = .ok ([], []) := rfl

theorem readMethodTable_zero (p : Pool) : readMethodTable p [0] = .ok ([], [0]) := rfl

theorem readMethodTable_empty (p : Pool) : readMethodTable p [0, 0] = .ok ([], []) := rfl

theorem readMethodTable_single (p : Pool) {b : UInt8} (hb : b ≠ 0) :
    ∃ e, readMethodTable p [b] = .error e := by
  have hcount : readMethodCount [b] = .error (.ended (.method 0) .inside) := by
    change (if b = 0 then _ else _ : ClassReader Nat) [b] = _
    rw [if_neg hb]
    rfl
  exact ⟨_, read_bind_error hcount⟩

theorem parse_eq_ok {file : Bytes} {v : ClassFile} (h : ClassFile.parse file = .ok v) :
    ∃ rest, ClassFile.read file = .ok (v, rest) := by
  unfold ClassFile.parse at h
  cases hread : ClassFile.read file with
  | error e =>
    rw [hread] at h
    cases h
  | ok x =>
    rw [hread] at h
    obtain ⟨v', rest⟩ := x
    cases h
    exact ⟨rest, rfl⟩

theorem parse_of_read {file rest : Bytes} {v : ClassFile}
    (h : ClassFile.read file = .ok (v, rest)) : ClassFile.parse file = .ok v := by
  rw [ClassFile.parse, h]
  rfl

theorem parse_error {file : Bytes} (h : ∃ e, ClassFile.read file = .error e) :
    ∃ e, ClassFile.parse file = .error e := by
  obtain ⟨e, he⟩ := h
  refine ⟨e, ?_⟩
  rw [ClassFile.parse, he]
  rfl

theorem read_of_parts {file mid rest : Bytes} {p : Pool} {v : ClassFile} {ms : List ClassMethod}
    (hhead : readHead file = .ok ((p, v), mid)) (htable : readMethodTable p mid = .ok (ms, rest)) :
    ClassFile.read file = .ok ({ v with methods := ms }, rest) := by
  rw [ClassFile.read, read_bind hhead]
  simp only
  rw [read_bind htable]
  rfl

end ClassFile

/-- A file cut here has lost its method table, or all of it but a first byte that is zero. -/
def ClassImage.LosesMethods (c : ClassImage) (n : Nat) : Prop :=
  n = c.encodeHead.length ∨ n = c.encodeHead.length + 1 ∧ c.methods.length < 256

namespace ClassFile

open ByteReader

theorem parse_losesMethods {c : ClassImage} {n : Nat} (h : c.LosesMethods n) :
    ClassFile.parse (c.encode.take n) = .ok { c.view with methods := [] } := by
  obtain ⟨p, -, hhead⟩ := readHead_read c
  rcases h with rfl | ⟨rfl, hcount⟩
  · have htake : c.encode.take c.encodeHead.length = c.encodeHead ++ [] := by
      rw [ClassImage.encode, List.take_left, List.append_nil]
    rw [htake]
    have hread := read_of_parts (hhead []) (readMethodTable_nil p)
    exact parse_of_read hread
  · have htake : c.encode.take (c.encodeHead.length + 1) = c.encodeHead ++ [0] := by
      have hzero : c.methods.length / 256 = 0 := Nat.div_eq_of_lt hcount
      have hbytes : spell 2 c.methods.length = [(c.methods.length / 256).toUInt8,
        c.methods.length.toUInt8] := rfl
      rw [ClassImage.encode, List.take_length_add_append, ClassImage.encodeMethods, hbytes, hzero]
      rfl
    rw [htake]
    have hread := read_of_parts (hhead [0]) (readMethodTable_zero p)
    exact parse_of_read hread

/-- Behind the head, a cut is refused unless nothing is left but a zero byte, if that. -/
theorem readMethodTable_cut {c : ClassImage} {p : Pool} (hp : p.Shows (poolSlots c.pool)) {k : Nat}
    (hk : k < c.encodeMethods.length) (hzero : k ≠ 0) (hone : k = 1 → 256 ≤ c.methods.length) :
    ∃ e, readMethodTable p (c.encodeMethods.take k) = .error e := by
  have hbytes : spell 2 c.methods.length
      = [(c.methods.length / 256).toUInt8, c.methods.length.toUInt8] := rfl
  have hshort := c.methods_short
  rcases take_append_cases (spell 2 c.methods.length) (c.methods.flatMap Member.encode) k
    with ⟨hlt, htake⟩ | ⟨hge, htake⟩
  · -- only the first byte of the count is left
    rw [length_spell] at hlt
    obtain rfl : k = 1 := by omega
    have hhigh : (c.methods.length / 256).toUInt8 ≠ 0 := by
      intro h
      have hvalue := congrArg UInt8.toNat h
      rw [ModifiedUtf8.toNat_toUInt8 (by omega)] at hvalue
      have hlarge := hone rfl
      change c.methods.length / 256 = 0 at hvalue
      omega
    rw [ClassImage.encodeMethods, htake, hbytes]
    exact readMethodTable_single p hhigh
  · -- the count is whole, so one of the methods it announces is cut
    have hread := readMethods_read hp (fun m hm => hm) 0 []
    rw [List.append_nil] at hread
    have hconsumes := (exact_readMethods p 0 c.methods.length).consumes hread
    rw [ClassImage.encodeMethods, htake, readMethodTable,
      read_bind (readMethodCount_read hshort _)]
    apply hconsumes.cut
    rw [ClassImage.encodeMethods, List.length_append] at hk
    rw [length_spell] at hk hge ⊢
    omega

theorem parse_cut_error {c : ClassImage} {n : Nat} (hn : n < c.encode.length)
    (h : ¬ c.LosesMethods n) : ∃ e, ClassFile.parse (c.encode.take n) = .error e := by
  obtain ⟨p, hp, hhead⟩ := readHead_read c
  have hconsumes : Consumes readHead c.encodeHead (p, { c.view with methods := [] }) := by
    apply exact_readHead.consumes
    have hread := hhead []
    rwa [List.append_nil] at hread
  apply parse_error
  rcases take_append_cases c.encodeHead c.encodeMethods n with ⟨hlt, htake⟩ | ⟨hge, htake⟩
  · obtain ⟨e, he⟩ := hconsumes.cut n hlt
    refine ⟨e, ?_⟩
    rw [ClassImage.encode, htake]
    exact read_bind_error he
  · rw [ClassImage.encode, List.length_append] at hn
    obtain ⟨e, he⟩ := readMethodTable_cut hp (k := n - c.encodeHead.length) (by omega)
      (fun hzero => h (.inl (by omega)))
      (fun hone => Nat.le_of_not_lt fun hlt => h (.inr ⟨by omega, hlt⟩))
    refine ⟨e, ?_⟩
    rw [ClassImage.encode, htake, ClassFile.read, read_bind (hhead _)]
    exact read_bind_error he

/-- A file that is read has everything that was asked of it, unless it ends before or inside the
    number of its methods. -/
theorem parse_complete {file : Bytes} {v : ClassFile} (h : ClassFile.parse file = .ok v) :
    (∃ used rest, file = used ++ rest ∧ ∀ more, ClassFile.parse (used ++ more) = .ok v) ∨
      v.methods = [] ∧ ∃ missing : Bytes, (missing = [0] ∨ missing = [0, 0]) ∧
        ClassFile.parse (file ++ missing) = .ok v := by
  obtain ⟨rest, hread⟩ := parse_eq_ok h
  rw [ClassFile.read] at hread
  obtain ⟨⟨p, head⟩, mid, hhead, htail⟩ := read_bind_ok hread
  obtain ⟨ms, mid', htable, hlast⟩ := read_bind_ok htail
  cases hlast
  obtain ⟨used, rfl, hused⟩ := exact_readHead _ _ _ hhead
  rcases mid with _ | ⟨a, _ | ⟨b, mid⟩⟩
  · -- nothing is left of the method table
    cases htable
    refine .inr ⟨rfl, [0, 0], .inr rfl, ?_⟩
    rw [List.append_nil]
    have hread := read_of_parts (hused.whole [0, 0]) (readMethodTable_empty p)
    exact parse_of_read hread
  · by_cases ha : a = 0
    · subst ha
      cases htable
      refine .inr ⟨rfl, [0], .inl rfl, ?_⟩
      rw [List.append_assoc]
      have hread := read_of_parts (hused.whole [0, 0]) (readMethodTable_empty p)
      exact parse_of_read hread
    · obtain ⟨e, he⟩ := readMethodTable_single p ha
      rw [he] at htable
      cases htable
  · have hcount (rest : Bytes) :
        readMethodCount (a :: b :: rest) = .ok (bigEndian [a, b], rest) := rfl
    rw [readMethodTable, read_bind (hcount mid)] at htable
    obtain ⟨used', rfl, hused'⟩ := exact_readMethods p 0 _ _ _ _ htable
    refine .inl ⟨used ++ a :: b :: used', rest, by simp, ?_⟩
    intro more
    have htable' : readMethodTable p (a :: b :: (used' ++ more)) = .ok (ms, more) := by
      rw [readMethodTable, read_bind (hcount _)]
      exact hused'.whole more
    have hread := read_of_parts (hused.whole _) htable'
    rw [List.append_assoc]
    exact parse_of_read hread

/-- **Where a class file can be cut.** A file that is cut before the last byte of its method table
    is refused, unless the cut leaves nothing of the table or one zero byte of it: then the file
    passes for one without methods. Of every file that is read, well-formed or not, all that was
    asked for was there, except that one or two zero bytes may be missing from the number of
    methods. -/
theorem parse_cut (c : ClassImage) {n : Nat} (hn : n < c.encode.length) :
    (c.LosesMethods n → ClassFile.parse (c.encode.take n) = .ok { c.view with methods := [] }) ∧
      (¬ c.LosesMethods n → ∃ e, ClassFile.parse (c.encode.take n) = .error e) ∧
      ∀ file v, ClassFile.parse file = .ok v →
        (∃ used rest, file = used ++ rest ∧ ∀ more, ClassFile.parse (used ++ more) = .ok v) ∨
          v.methods = [] ∧ ∃ missing : Bytes, (missing = [0] ∨ missing = [0, 0]) ∧
            ClassFile.parse (file ++ missing) = .ok v :=
  ⟨parse_losesMethods, parse_cut_error hn, fun _ _ => parse_complete⟩

theorem parse_cut_sample :
    50 < ClassImage.sample.encode.length ∧ ¬ ClassImage.sample.LosesMethods 50 ∧
      ∃ e, ClassFile.parse (ClassImage.sample.encode.take 50) = .error e := by
  have hlength : 50 < ClassImage.sample.encode.length := by decide
  have hkept : ¬ ClassImage.sample.LosesMethods 50 := by
    rintro (h | ⟨h, -⟩)
    · exact absurd h (by decide)
    · exact absurd h (by decide)
  exact ⟨hlength, hkept, (parse_cut ClassImage.sample hlength).2.1 hkept⟩

/-- A class with a method, cut right before its method table, is read as one without methods. -/
theorem parse_lost_methods :
    46 < ClassImage.sample.encode.length ∧ ClassImage.sample.view.methods ≠ [] ∧
      ClassFile.parse (ClassImage.sample.encode.take 46)
        = .ok { ClassImage.sample.view with methods := [] } := by
  decide

end ClassFile

end BridgeCall
