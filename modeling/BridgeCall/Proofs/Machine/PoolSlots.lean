/-
  BridgeCall/Proofs/Machine/PoolSlots.lean
  ========================================
  **The slots of the constant pool.**  A run of the pool's reader is the list of
  the entries that it reads, each with its slot and its tag (`Pool.Reads`).  Every
  answer of the reader comes at the end of such a run (`Pool.exists_run`).

  The slots of a run increase, stay below the count and are recorded at most once,
  with one exception: the slot is a 16-bit number, and an entry of two slots that
  starts in slot 65534 makes it zero again.  Only the count 65535 lets the reader
  go on from there (`Pool.slots_wrap`); without such an entry every run is
  `Bounded`.
-/
import BridgeCall.Proofs.Machine.Truncation

namespace BridgeCall

/-! ### Runs -/

namespace Pool

open ByteReader

/-- An entry of the pool: the slot that it starts in, and its tag. -/
structure Entry where
  slot : UInt16
  tag : UInt8
  deriving DecidableEq, Repr

namespace Entry

def isWide (e : Entry) : Bool := Pool.isWide e.tag.toNat

/-- The last slot of the entry, as the reader counts it. -/
def last (e : Entry) : UInt16 := if e.isWide then e.slot + 1 else e.slot

end Entry

/-- From a pool and a slot the reader goes over these entries to another pool and slot. -/
inductive Reads (count : Nat) :
    Pool → UInt16 → Bytes → List Entry → Pool → UInt16 → Bytes → Prop
  | nil {p : Pool} {slot : UInt16} {bs : Bytes} : Reads count p slot bs [] p slot bs
  | cons {p p' q : Pool} {slot last slot' : UInt16} {tag : UInt8} {tail mid rest : Bytes}
      {es : List Entry} (hslot : slot.toNat < count)
      (hentry : p.readEntry slot (tag :: tail) = .ok ((p', last), mid))
      (more : Reads count p' (last + 1) mid es q slot' rest) :
      Reads count p slot (tag :: tail) (⟨slot, tag⟩ :: es) q slot' rest

/-- The slots that something is recorded in. -/
def recorded (p : Pool) : List UInt16 := p.texts.map Prod.fst ++ p.classes.map Prod.fst

/-- What should hold of every run from the first slot. -/
structure Bounded (count : Nat) (es : List Entry) (p : Pool) (slot : UInt16) : Prop where
  increasing : es.Pairwise fun e e' => e.slot < e'.slot
  /-- No entry starts in the second slot of another. -/
  apart : es.Pairwise fun e e' => e.last < e'.slot
  inside : ∀ e ∈ es, 1 ≤ e.slot ∧ e.slot.toNat < count
  few : es.length ≤ count - 1
  /-- The next slot is behind all entries. -/
  next : 1 ≤ slot ∧ ∀ e ∈ es, e.last < slot
  once : p.recorded.Nodup
  read : ∀ i ∈ p.recorded, ∃ e ∈ es, e.slot = i

variable {count : Nat} {p q : Pool} {slot slot' : UInt16} {bs rest : Bytes} {es : List Entry}

/-! ### One entry -/

theorem u1_cons (b : UInt8) (bs : Bytes) : ByteReader.u1 (b :: bs) = .ok (b.toNat, bs) := by
  have hnumber : ByteReader.bigEndian [b] = b.toNat := by simp [ByteReader.bigEndian]
  rw [← hnumber]
  rfl

/-- What reading an entry can do. -/
theorem readEntry_cases {p p' : Pool} {slot last : UInt16} {tag : UInt8} {tail mid : Bytes}
    (h : p.readEntry slot (tag :: tail) = .ok ((p', last), mid)) :
    last = (Entry.mk slot tag).last ∧ mid.length ≤ tail.length ∧
      (p' = p ∨ (∃ t, p' = { p with texts := (slot, t) :: p.texts }) ∨
        ∃ n, p' = { p with classes := (slot, n) :: p.classes }) := by
  have hlength : mid.length ≤ tail.length := by
    obtain ⟨used, hbytes, hused⟩ := exact_readEntry p slot _ _ _ h
    have hpos := readEntry_pos hused
    have hsum := congrArg List.length hbytes
    rw [List.length_cons, List.length_append] at hsum
    omega
  rw [readEntry, read_bind (as_read (u1_cons tag tail) _)] at h
  simp only at h
  generalize htag : tag.toNat = n at h
  split at h
  · obtain ⟨length, bs, -, h⟩ := read_bind_ok h
    obtain ⟨text, bs', -, h⟩ := read_bind_ok h
    cases h
    refine ⟨?_, hlength, .inr (.inl ⟨_, rfl⟩)⟩
    simp [Entry.last, Entry.isWide, htag, Pool.isWide]
  · obtain ⟨name, bs, -, h⟩ := read_bind_ok h
    cases h
    refine ⟨?_, hlength, .inr (.inr ⟨_, rfl⟩)⟩
    simp [Entry.last, Entry.isWide, htag, Pool.isWide]
  · subst htag
    cases hsize : skippedSize? tag.toNat with
    | none =>
      rw [hsize] at h
      cases h
    | some size =>
      rw [hsize] at h
      obtain ⟨-, bs, -, h⟩ := read_bind_ok h
      cases h
      exact ⟨rfl, hlength, .inl rfl⟩

theorem toNat_succ {i : UInt16} (h : i.toNat < 65535) : (i + 1).toNat = i.toNat + 1 := by
  rw [UInt16.toNat_add]
  exact Nat.mod_eq_of_lt (by simp; omega)

/-- An entry whose last slot is not 65535 leaves room for the next slot. -/
theorem Entry.toNat_last {slot : UInt16} {tag : UInt8} (hslot : slot.toNat < 65535)
    (hlast : (Entry.mk slot tag).last ≠ 65535) :
    slot.toNat ≤ (Entry.mk slot tag).last.toNat ∧
      ((Entry.mk slot tag).last + 1).toNat = (Entry.mk slot tag).last.toNat + 1 := by
  have hle : slot.toNat ≤ (Entry.mk slot tag).last.toNat := by
    rw [Entry.last]
    split
    · rw [toNat_succ hslot]
      omega
    · exact Nat.le_refl _
  have hne : (Entry.mk slot tag).last.toNat ≠ 65535 := fun h => hlast (UInt16.toNat_inj.mp h)
  have hlt := (Entry.mk slot tag).last.toNat_lt
  exact ⟨hle, toNat_succ (by omega)⟩

/-! ### Runs and answers -/

/-- Every answer comes at the end of a run: all slots below the count are passed, or the next entry
    cannot be read. -/
theorem exists_run (count : Nat) {fuel : Nat} {p : Pool} {slot : UInt16} {bs : Bytes}
    (hfuel : bs.length < fuel) :
    ∃ es q slot' rest, Reads count p slot bs es q slot' rest ∧
      (count ≤ slot'.toNat ∧ readEntries count fuel p slot bs = .ok (q, rest) ∨
        ∃ e, slot'.toNat < count ∧ q.readEntry slot' rest = .error e ∧
          readEntries count fuel p slot bs = .error e) := by
  induction fuel generalizing p slot bs with
  | zero => exact absurd hfuel (by simp)
  | succ fuel ih =>
    rw [readEntries]
    by_cases hslot : slot.toNat < count
    · rw [if_pos hslot]
      cases hentry : p.readEntry slot bs with
      | error e =>
        exact ⟨[], p, slot, bs, .nil, .inr ⟨e, hslot, hentry, read_bind_error hentry⟩⟩
      | ok x =>
        obtain ⟨⟨p', last⟩, mid⟩ := x
        cases bs with
        | nil =>
          obtain ⟨e, he⟩ := readEntry_nil p slot
          rw [he] at hentry
          cases hentry
        | cons tag tail =>
          obtain ⟨-, hmid, -⟩ := readEntry_cases hentry
          have hshort : mid.length < fuel := by
            rw [List.length_cons] at hfuel
            omega
          obtain ⟨es, q, slot', rest, hrun, hend⟩ := @ih p' (last + 1) mid hshort
          refine ⟨_, q, slot', rest, .cons hslot hentry hrun, ?_⟩
          rw [read_bind hentry]
          exact hend
    · rw [if_neg hslot]
      exact ⟨[], p, slot, bs, .nil, .inl ⟨by omega, rfl⟩⟩

/-- Every entry takes a byte. -/
theorem Reads.length_le (h : Reads count p slot bs es q slot' rest) :
    es.length + rest.length ≤ bs.length := by
  induction h with
  | nil => simp
  | cons hslot hentry more ih =>
    obtain ⟨-, hmid, -⟩ := readEntry_cases hentry
    simp only [List.length_cons]
    omega

/-- Behind a run the reader goes on. -/
theorem Reads.readEntries_add (h : Reads count p slot bs es q slot' rest) (fuel : Nat) :
    readEntries count (es.length + fuel) p slot bs = readEntries count fuel q slot' rest := by
  induction h with
  | nil => rw [List.length_nil, Nat.zero_add]
  | cons hslot hentry more ih =>
    rw [List.length_cons, Nat.succ_add, readEntries, if_pos hslot, read_bind hentry]
    exact ih

/-! ### The slots of a run -/

/-- As long as no entry ends in slot 65535, the slots increase from the first to the next. -/
theorem Reads.slots_increase (h : Reads count p slot bs es q slot' rest) (hcount : count < 65536)
    (hlast : ∀ e ∈ es, e.last ≠ 65535) :
    slot ≤ slot' ∧ (∀ e ∈ es, slot ≤ e.slot ∧ e.slot ≤ e.last ∧ e.last < slot') ∧
      es.Pairwise fun e e' => e.last < e'.slot := by
  simp only [UInt16.le_iff_toNat_le, UInt16.lt_iff_toNat_lt]
  induction h with
  | nil => simp
  | @cons p p' q slot last slot' tag tail mid rest es hslot hentry more ih =>
    obtain ⟨rfl, -, -⟩ := readEntry_cases hentry
    rw [List.forall_mem_cons] at hlast
    obtain ⟨hle, hnext⟩ := Entry.toNat_last (by omega) hlast.1
    obtain ⟨hrest, hslots, hapart⟩ := ih hlast.2
    rw [hnext] at hrest hslots
    refine ⟨by omega, ?_, ?_⟩
    · rw [List.forall_mem_cons]
      refine ⟨⟨Nat.le_refl _, hle, hrest⟩, fun e he => ?_⟩
      obtain ⟨hfirst, hwidth, hbehind⟩ := hslots e he
      exact ⟨by omega, hwidth, hbehind⟩
    · rw [List.pairwise_cons]
      exact ⟨fun e he => (hslots e he).1, hapart⟩

theorem Reads.slot_lt (h : Reads count p slot bs es q slot' rest) :
    ∀ e ∈ es, e.slot.toNat < count := by
  induction h with
  | nil => simp
  | cons hslot hentry more ih => simpa using ⟨hslot, ih⟩

/-- Every entry takes at least one slot, and starts below the count. -/
theorem Reads.length_le_count (h : Reads count p slot bs es q slot' rest) (hcount : count < 65536)
    (hlast : ∀ e ∈ es, e.last ≠ 65535) : slot.toNat + es.length ≤ max slot.toNat count := by
  induction h with
  | nil => simp
  | @cons p p' q slot last slot' tag tail mid rest es hslot hentry more ih =>
    obtain ⟨rfl, -, -⟩ := readEntry_cases hentry
    rw [List.forall_mem_cons] at hlast
    obtain ⟨hle, hnext⟩ := Entry.toNat_last (by omega) hlast.1
    have hrest := ih hlast.2
    rw [hnext] at hrest
    rw [List.length_cons]
    rcases es with _ | ⟨e, es⟩
    · simp only [List.length_nil]
      omega
    · rw [List.length_cons] at hrest ⊢
      omega

/-- What a run records are slots of its entries, each at most once. -/
theorem Reads.recorded_perm (h : Reads count p slot bs es q slot' rest) :
    ∃ ks, ks.Sublist (es.map Entry.slot) ∧ q.recorded.Perm (ks ++ p.recorded) := by
  induction h with
  | nil => exact ⟨[], .slnil, .rfl⟩
  | @cons p p' q slot last slot' tag tail mid rest es hslot hentry more ih =>
    obtain ⟨ks, hks, hperm⟩ := ih
    have hrecorded : p'.recorded = p.recorded ∨ p'.recorded.Perm (slot :: p.recorded) := by
      obtain ⟨-, -, rfl | ⟨t, rfl⟩ | ⟨n, rfl⟩⟩ := readEntry_cases hentry
      · exact .inl rfl
      · exact .inr .rfl
      · exact .inr List.perm_middle
    rcases hrecorded with hsame | hmore
    · refine ⟨ks, hks.cons _, ?_⟩
      rwa [← hsame]
    · refine ⟨slot :: ks, hks.cons_cons _, ?_⟩
      exact hperm.trans ((List.Perm.append_left ks hmore).trans List.perm_middle)

theorem Reads.bounded (h : Reads count {} 1 bs es q slot' rest) (hcount : count < 65536)
    (hlast : ∀ e ∈ es, e.last ≠ 65535) : Bounded count es q slot' := by
  obtain ⟨hnext, hslots, hapart⟩ := h.slots_increase hcount hlast
  have hincreasing : es.Pairwise fun e e' => e.slot < e'.slot := by
    apply hapart.imp_of_mem
    intro e e' he he' hlt
    exact UInt16.lt_of_le_of_lt (hslots e he).2.1 hlt
  have hfew := h.length_le_count hcount hlast
  obtain ⟨ks, hks, hperm⟩ := h.recorded_perm
  have hrecorded : q.recorded.Perm ks := by simpa [recorded] using hperm
  have hnodup : (es.map Entry.slot).Nodup := by
    rw [List.nodup_iff_pairwise_ne, List.pairwise_map]
    exact hincreasing.imp fun hlt => UInt16.ne_of_lt hlt
  constructor
  · exact hincreasing
  · exact hapart
  · exact fun e he => ⟨(hslots e he).1, h.slot_lt e he⟩
  · have hone : (1 : UInt16).toNat = 1 := rfl
    rcases es with _ | ⟨e, es⟩
    · simp
    · rw [hone, List.length_cons] at hfew
      rw [List.length_cons]
      omega
  · exact ⟨hnext, fun e he => (hslots e he).2.2⟩
  · exact hrecorded.nodup_iff.mpr (hnodup.sublist hks)
  · intro i hi
    obtain ⟨e, he, rfl⟩ := List.mem_map.mp (hks.subset (hrecorded.mem_iff.mp hi))
    exact ⟨e, he, rfl⟩

/-- Only an entry of two slots that starts in slot 65534 ends in slot 65535. -/
theorem Reads.last_ne (h : Reads count p slot bs es q slot' rest) (hcount : count < 65536)
    (hwide : count = 65535 → ∀ e ∈ es, e.slot = 65534 → e.isWide = false) :
    ∀ e ∈ es, e.last ≠ 65535 := by
  intro e he hlast
  have hslot := h.slot_lt e he
  by_cases hw : e.isWide = true
  · rw [Entry.last, if_pos hw] at hlast
    have hsum : e.slot + 1 = 65534 + 1 := hlast
    have hstart := (UInt16.add_left_inj 1).mp hsum
    rw [hstart] at hslot
    change 65534 < count at hslot
    rw [hwide (by omega) e he hstart] at hw
    cases hw
  · rw [Entry.last, if_neg hw] at hlast
    rw [hlast] at hslot
    change 65535 < count at hslot
    omega

theorem Reads.bounded_iff (h : Reads count {} 1 bs es q slot' rest) (hcount : count < 65536) :
    Bounded count es q slot' ↔
      (count = 65535 → ∀ e ∈ es, e.slot = 65534 → e.isWide = false) := by
  constructor
  · intro hbounded _ e he hslot
    by_contra hw
    rw [Bool.not_eq_false] at hw
    have hlast : e.last = 65535 := by
      rw [Entry.last, if_pos hw, hslot]
      rfl
    have hnext := hbounded.next.2 e he
    rw [hlast, UInt16.lt_iff_toNat_lt] at hnext
    have hlt := slot'.toNat_lt
    change 65535 < _ at hnext
    omega
  · exact fun hwide => h.bounded hcount (h.last_ne hcount hwide)

/-- The count takes two bytes. -/
theorem u2_cases (bs : Bytes) :
    (∃ e, ByteReader.u2 bs = .error e) ∨
      ∃ count mid, ByteReader.u2 bs = .ok (count, mid) ∧ count < 65536 := by
  rcases bs with _ | ⟨a, _ | ⟨b, bs⟩⟩
  · exact .inl ⟨_, rfl⟩
  · exact .inl ⟨_, rfl⟩
  · refine .inr ⟨_, bs, rfl, ?_⟩
    have ha := a.toNat_lt
    have hb := b.toNat_lt
    change (0 * 256 + a.toNat) * 256 + b.toNat < 65536
    omega

/-- **The slots of the pool.** For every input that has a count, the answer comes at the end of a
    run. The slots of a run increase from 1 to below the count, there is at most one entry less than
    the count, and nothing is recorded twice in a slot: all this exactly unless the count is 65535
    and an entry of two slots starts in slot 65534. -/
theorem slots_bounded (bs : Bytes) :
    (∃ e, ByteReader.u2 bs = .error e ∧ Pool.read bs = .error (.ended .poolCount e)) ∨
      ∃ count mid, ByteReader.u2 bs = .ok (count, mid) ∧
        (∃ es p slot rest, Reads count {} 1 mid es p slot rest ∧
          (count ≤ slot.toNat ∧ Pool.read bs = .ok (p, rest) ∨
            ∃ e, slot.toNat < count ∧ p.readEntry slot rest = .error e ∧
              Pool.read bs = .error e)) ∧
        ∀ es p slot rest, Reads count {} 1 mid es p slot rest →
          (Bounded count es p slot ↔
            (count = 65535 → ∀ e ∈ es, e.slot = 65534 → e.isWide = false)) := by
  rcases u2_cases bs with ⟨e, he⟩ | ⟨count, mid, hcount, hlt⟩
  · refine .inl ⟨e, he, ?_⟩
    apply read_bind_error
    rw [ByteReader.as, he]
  · refine .inr ⟨count, mid, hcount, ?_, fun es p slot rest hrun => hrun.bounded_iff hlt⟩
    rw [read_of_count hcount]
    exact exists_run count (Nat.lt_succ_self _)

/-! ### A pool that starts again -/

theorem Reads.append {p' : Pool} {last : UInt16} {mid : Bytes} {es' : List Entry}
    (h : Reads count p slot bs es p' last mid) (h' : Reads count p' last mid es' q slot' rest) :
    Reads count p slot bs (es ++ es') q slot' rest := by
  induction h with
  | nil => exact h'
  | cons hslot hentry more ih => exact .cons hslot hentry (ih h')

theorem reads_constant (p : Pool) (c : Constant) (rest : Bytes) (hslot : slot.toNat < count) :
    Reads count p slot (c.encode ++ rest) [⟨slot, c.tag.toUInt8⟩] (p.add slot c) (last slot c + 1)
      rest :=
  .cons hslot (readEntry_read p slot c rest) .nil

/-- Constants of one slot each are read one slot after the other. -/
theorem reads_narrow {cs : List Constant} (hnarrow : ∀ c ∈ cs, isWide c.tag = false) {n : Nat}
    (hn : n + cs.length ≤ count) (hcount : count < 65536) (p : Pool) (rest : Bytes) :
    ∃ es q, es.length = cs.length ∧
      Reads count p (UInt16.ofNat n) (cs.flatMap Constant.encode ++ rest) es q
        (UInt16.ofNat (n + cs.length)) rest := by
  induction cs generalizing n p with
  | nil => exact ⟨[], p, rfl, .nil⟩
  | cons c cs ih =>
    rw [List.forall_mem_cons] at hnarrow
    rw [List.length_cons] at hn
    have hsize : n < 2 ^ 16 := by omega
    have hslot : (UInt16.ofNat n).toNat = n := UInt16.toNat_ofNat_of_lt' hsize
    have hnext : last (UInt16.ofNat n) c + 1 = UInt16.ofNat (n + 1) := by
      rw [last_succ, c.slots_eq, hnarrow.1]
      rfl
    have hbelow : (UInt16.ofNat n).toNat < count := by omega
    have hfirst := reads_constant p c (cs.flatMap Constant.encode ++ rest) hbelow
    rw [hnext] at hfirst
    obtain ⟨es, q, hlength, hmore⟩ := @ih hnarrow.2 (n + 1) (by omega) (p.add (UInt16.ofNat n) c)
    refine ⟨⟨UInt16.ofNat n, c.tag.toUInt8⟩ :: es, q, by simp [hlength], ?_⟩
    rw [List.flatMap_cons, List.append_assoc, List.length_cons, Nat.add_comm cs.length,
      ← Nat.add_assoc]
    exact hfirst.append hmore

theorem Reads.recorded_subset (h : Reads count p slot bs es q slot' rest) :
    p.recorded ⊆ q.recorded := by
  obtain ⟨ks, -, hperm⟩ := h.recorded_perm
  exact fun i hi => hperm.mem_iff.mpr (List.mem_append_right _ hi)

/-- A text of one byte. -/
def letter (b : UInt8) : Constant := .utf8 [b] (by simp)

/-- Constants that fill slots 2 to 65533: a class and empty texts. -/
def filling : List Constant := .cls 1 :: List.replicate 65531 (.utf8 "" (by decide))

/-- The name of the class comes first, and a constant of two slots last. -/
def overfull : List Constant := [letter 0x41] ++ filling ++ [Constant.long 0]

/-- More texts, for slots that are taken. -/
def further : List Constant := [letter 0x42, letter 0x43]

theorem reads_filling (p : Pool) (rest : Bytes) :
    ∃ es q, es.length = 65532 ∧
      Reads 65535 p 2 (filling.flatMap Constant.encode ++ rest) es q 65534 rest := by
  have hlength : filling.length = 65532 := by
    rw [filling, List.length_cons, List.length_replicate]
  have hnarrow : ∀ c ∈ filling, isWide c.tag = false := by
    intro c hc
    rw [filling, List.mem_cons, List.mem_replicate] at hc
    rcases hc with rfl | ⟨-, rfl⟩ <;> rfl
  have hfit : 2 + filling.length ≤ 65535 := by omega
  obtain ⟨es, q, hes, hrun⟩ := reads_narrow hnarrow hfit (by omega) p rest
  rw [hlength] at hes hrun
  exact ⟨es, q, hes, hrun⟩

theorem reads_overfull (rest : Bytes) :
    ∃ es p, es.length = 65534 ∧ 1 ∈ p.recorded ∧
      Reads 65535 {} 1 (overfull.flatMap Constant.encode ++ rest) es p 0 rest := by
  simp only [overfull, List.flatMap_append, List.flatMap_singleton, List.append_assoc]
  have hone : (1 : UInt16).toNat < 65535 := by decide
  have hlow : (65534 : UInt16).toNat < 65535 := by decide
  have hfirst := reads_constant {} (letter 0x41)
    (filling.flatMap Constant.encode ++ ((Constant.long 0).encode ++ rest)) hone
  obtain ⟨es, q, hes, hfill⟩ :=
    reads_filling (add {} 1 (letter 0x41)) ((Constant.long 0).encode ++ rest)
  have hlast := reads_constant q (.long 0) rest hlow
  refine ⟨_, _, ?_, ?_, (hfirst.append hfill).append hlast⟩
  · simp [hes]
  · exact hfill.recorded_subset List.mem_cons_self

/-- **Past the last slot.** When a number of two slots follows 65533 other constants, the slot is
    zero again. A class with such a pool is refused for its flags, which are behind the pool. Where
    texts are there instead, slot 0 is recorded and slot 1 once more. -/
theorem slots_wrap :
    Pool.read (spell 2 65535 ++ (overfull.flatMap Constant.encode ++ [0x00, 0x21]))
        = .error (.unknownTag 0 0) ∧
      ∃ es p, Reads 65535 {} 1
          (overfull.flatMap Constant.encode ++ further.flatMap Constant.encode) es p 2 [] ∧
        65535 ≤ es.length ∧ 0 ∈ p.recorded ∧ ¬ p.recorded.Nodup := by
  constructor
  · obtain ⟨es, p, -, -, hrun⟩ := reads_overfull [0x00, 0x21]
    have hlength := hrun.length_le
    have hcount (rest : Bytes) : ByteReader.u2 (spell 2 65535 ++ rest) = .ok (65535, rest) :=
      u2_read (by decide) rest
    have hentry : p.readEntry 0 [0x00, 0x21] = .error (.unknownTag 0 0) := rfl
    rw [read_of_count (hcount _)]
    generalize overfull.flatMap Constant.encode ++ [0x00, 0x21] = bs at hrun hlength
    obtain ⟨fuel, hfuel⟩ : ∃ fuel, bs.length + 1 = es.length + (fuel + 1) :=
      ⟨bs.length - es.length, by omega⟩
    rw [hfuel, hrun.readEntries_add, readEntries, if_pos (by decide), read_bind_error hentry]
  · obtain ⟨es, p, hlength, hfirst, hrun⟩ := reads_overfull (further.flatMap Constant.encode)
    have hlow : (0 : UInt16).toNat < 65535 := by decide
    have hnext : (1 : UInt16).toNat < 65535 := by decide
    have hzero := reads_constant p (letter 0x42) (letter 0x43).encode hlow
    have hone := reads_constant (p.add 0 (letter 0x42)) (letter 0x43) [] hnext
    refine ⟨_, _, hrun.append (hzero.append hone), ?_, ?_, ?_⟩
    · simp [hlength]
    · exact List.mem_cons_of_mem _ List.mem_cons_self
    · intro hnodup
      have hnew := (List.nodup_cons.mp hnodup).1
      exact hnew (List.mem_cons_of_mem _ hfirst)

end Pool
end BridgeCall
