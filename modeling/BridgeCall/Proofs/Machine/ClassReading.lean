/-
  BridgeCall/Proofs/Machine/ClassReading.lean
  ===========================================
  **Class files read back.**  Reading what `ClassImage.encode` writes gives what
  `ClassImage.view` shows, whatever bytes follow (`ClassFile.parse_written`).
  Nearly all of the reading is one number after the other.  The exception is the
  pool: the slot of an entry depends on all entries before it, and `Pool.Shows`
  says what a pool knows after a number of slots.
-/
import BridgeCall.Proofs.Machine.ClassImage
import BridgeCall.Proofs.Machine.StoredText

namespace BridgeCall

/-! ### Readers -/

section Read

variable {ε α β : Type}

theorem read_bind {r : StateT Bytes (Except ε) α} {f : α → StateT Bytes (Except ε) β} {bs rest : Bytes}
    {a : α} (h : r bs = .ok (a, rest)) : (r >>= f) bs = f a rest := by
  change Except.bind (r bs) (fun x => f x.1 x.2) = f a rest
  rw [h]
  rfl

theorem read_get (bs : Bytes) : (get : StateT Bytes (Except ε) Bytes) bs = .ok (bs, bs) := rfl

theorem as_read {r : ByteReader α} {bs rest : Bytes} {a : α} (h : r bs = .ok (a, rest))
    (part : ClassPart) : r.as part bs = .ok (a, rest) := by
  rw [ByteReader.as, h]

end Read

namespace ByteReader

@[simp] theorem length_spell (width v : Nat) : (spell width v).length = width := by
  induction width generalizing v with
  | zero => rfl
  | succ width ih => simp [spell, ih]

theorem bigEndian_snoc (bs : Bytes) (b : UInt8) :
    bigEndian (bs ++ [b]) = bigEndian bs * 256 + b.toNat := by
  simp [bigEndian]

theorem bigEndian_spell {width v : Nat} (hv : v < 256 ^ width) : bigEndian (spell width v) = v := by
  induction width generalizing v with
  | zero =>
    have hzero : v = 0 := by simpa using hv
    rw [hzero]
    rfl
  | succ width ih =>
    have hdiv : v / 256 < 256 ^ width := by
      rw [Nat.pow_succ] at hv
      exact Nat.div_lt_of_lt_mul (by rwa [Nat.mul_comm])
    have hlow : v.toUInt8.toNat = v % 256 := by simp
    rw [spell, bigEndian_snoc, ih hdiv, hlow]
    omega

theorem take_append (bs rest : Bytes) : take bs.length (bs ++ rest) = .ok (bs, rest) := by
  rw [take, read_bind (read_get _)]
  simp only [List.take_left, List.drop_left, if_true]
  rfl

theorem skip_append (bs rest : Bytes) : skip bs.length (bs ++ rest) = .ok ((), rest) := by
  rw [skip, read_bind (read_get _)]
  simp only [List.take_left, List.drop_left, if_true]
  rfl

/-- A number that fits its bytes reads back. -/
theorem number_read {width v : Nat} (hv : v < 256 ^ width) (rest : Bytes) :
    (do return bigEndian (← take width) : ByteReader Nat) (spell width v ++ rest)
      = .ok (v, rest) := by
  have htake := take_append (spell width v) rest
  rw [length_spell] at htake
  rw [read_bind htake, bigEndian_spell hv]
  rfl

theorem u1_read {v : Nat} (hv : v < 2 ^ 8) (rest : Bytes) : u1 (spell 1 v ++ rest) = .ok (v, rest) :=
  number_read hv rest

theorem u2_read {v : Nat} (hv : v < 2 ^ 16) (rest : Bytes) :
    u2 (spell 2 v ++ rest) = .ok (v, rest) :=
  number_read hv rest

theorem u4_read {v : Nat} (hv : v < 2 ^ 32) (rest : Bytes) :
    u4 (spell 4 v ++ rest) = .ok (v, rest) :=
  number_read hv rest

/-- A slot number reads back. -/
theorem u2_slot (i : UInt16) (rest : Bytes) : u2 (spell 2 i.toNat ++ rest) = .ok (i.toNat, rest) :=
  u2_read i.toNat_lt rest

theorem skip_spell (width v : Nat) (rest : Bytes) :
    skip width (spell width v ++ rest) = .ok ((), rest) := by
  have hskip := skip_append (spell width v) rest
  rwa [length_spell] at hskip

/-- A reader that passes over one item passes over a list of them. -/
theorem times_read {r : ByteReader Unit} {xs : List α} {encode : α → Bytes}
    (h : ∀ x ∈ xs, ∀ rest, r (encode x ++ rest) = .ok ((), rest)) (rest : Bytes) :
    times xs.length r (xs.flatMap encode ++ rest) = .ok ((), rest) := by
  induction xs with
  | nil => rfl
  | cons x xs ih =>
    rw [List.flatMap_cons, List.append_assoc, List.length_cons, times, read_bind (h x (by simp) _)]
    exact ih fun y hy => h y (by simp [hy])

theorem skipAttributes_read {as : List Attribute} (has : as.length < 2 ^ 16) (rest : Bytes) :
    skipAttributes (encodeAttributes as ++ rest) = .ok ((), rest) := by
  rw [encodeAttributes, List.append_assoc, skipAttributes, read_bind (u2_read has _)]
  apply times_read
  intro a _ rest
  simp only [Attribute.encode, List.append_assoc]
  rw [read_bind (skip_spell 2 _ _), read_bind (u4_read a.info_short _)]
  exact skip_append a.info rest

end ByteReader

/-! ### The pool -/

theorem Constant.slots_eq (c : Constant) :
    c.slots = if Pool.isWide c.tag then [some c, none] else [some c] := by
  cases c <;> rfl

theorem Constant.tag_lt (c : Constant) : c.tag < 2 ^ 8 := by
  cases c <;> simp [Constant.tag]

theorem constantIn?_append (slots : List (Option Constant)) (c : Constant) (i : UInt16) :
    constantIn? (slots ++ c.slots) i
      = if i.toNat = slots.length then some c else constantIn? slots i := by
  unfold constantIn?
  rcases Nat.lt_trichotomy i.toNat slots.length with hlt | heq | hgt
  · rw [List.getElem?_append_left hlt, if_neg (by omega)]
  · rw [if_pos heq, heq, List.getElem?_append_right (by omega), Nat.sub_self]
    rw [c.slots_eq]
    split <;> rfl
  · -- past the entry there is at most its empty second slot
    rw [if_neg (by omega), List.getElem?_append_right (by omega),
      List.getElem?_eq_none (by omega : slots.length ≤ i.toNat)]
    obtain ⟨k, hk⟩ : ∃ k, i.toNat - slots.length = k + 1 := ⟨i.toNat - slots.length - 1, by omega⟩
    rw [hk, c.slots_eq]
    split
    · cases k <;> rfl
    · rfl

namespace Pool

open ByteReader

/-- The pool knows the texts and the classes of the slots, and nothing else. -/
structure Shows (p : Pool) (slots : List (Option Constant)) : Prop where
  texts : ∀ i, p.texts.lookup i = (textIn? slots i).map ModifiedUtf8.decode
  classes : ∀ i, p.classes.lookup i = classIn? slots i

theorem shows_empty : Shows {} [none] := by
  have hnone : ∀ i, constantIn? [none] i = none := by
    intro i
    unfold constantIn?
    cases h : [(none : Option Constant)][i.toNat]? with
    | none => rfl
    | some x =>
      have hmem := List.mem_of_getElem? h
      rw [List.mem_singleton] at hmem
      rw [hmem]
      rfl
  exact ⟨fun i => by simp [textIn?, hnone], fun i => by simp [classIn?, hnone]⟩

/-- The pool with one more entry. -/
def add (p : Pool) (slot : UInt16) : Constant → Pool
  | .utf8 text _ => { p with texts := (slot, ModifiedUtf8.decode text) :: p.texts }
  | .cls name => { p with classes := (slot, name) :: p.classes }
  | _ => p

theorem beq_slot {n : Nat} (hn : n < 2 ^ 16) (i : UInt16) :
    (i == UInt16.ofNat n) = decide (i.toNat = n) := by
  have hslot : (UInt16.ofNat n).toNat = n := UInt16.toNat_ofNat_of_lt' hn
  have hiff : i = UInt16.ofNat n ↔ i.toNat = n := by rw [← UInt16.toNat_inj, hslot]
  rw [Bool.eq_iff_iff, beq_iff_eq, decide_eq_true_eq]
  exact hiff

theorem constantIn?_length (slots : List (Option Constant)) {i : UInt16}
    (hi : i.toNat = slots.length) : constantIn? slots i = none := by
  rw [constantIn?, List.getElem?_eq_none (by omega)]
  rfl

/-- An entry is added at the first slot that is still free. -/
theorem Shows.add {p : Pool} {slots : List (Option Constant)} (h : p.Shows slots)
    (hlength : slots.length < 2 ^ 16) (c : Constant) :
    (p.add (UInt16.ofNat slots.length) c).Shows (slots ++ c.slots) := by
  constructor
  · intro i
    have hold := h.texts i
    rw [textIn?, constantIn?_append]
    by_cases hi : i.toNat = slots.length
    · rw [textIn?, constantIn?_length slots hi] at hold
      rw [if_pos hi]
      cases c with
      | utf8 text short => simp [Pool.add, List.lookup_cons, beq_slot hlength, hi, Constant.text?]
      | _ => exact hold
    · rw [if_neg hi]
      cases c with
      | utf8 text short =>
        simp only [Pool.add, List.lookup_cons, beq_slot hlength, hi, decide_false]
        exact hold
      | _ => exact hold
  · intro i
    have hold := h.classes i
    rw [classIn?, constantIn?_append]
    by_cases hi : i.toNat = slots.length
    · rw [classIn?, constantIn?_length slots hi] at hold
      rw [if_pos hi]
      cases c with
      | cls name => simp [Pool.add, List.lookup_cons, beq_slot hlength, hi, Constant.className?]
      | _ => exact hold
    · rw [if_neg hi]
      cases c with
      | cls name =>
        simp only [Pool.add, List.lookup_cons, beq_slot hlength, hi, decide_false]
        exact hold
      | _ => exact hold

theorem Shows.text {p : Pool} {slots : List (Option Constant)} (h : p.Shows slots) {i : UInt16}
    {t : Bytes} (ht : textIn? slots i = some t) : p.text i.toNat = .ok (ModifiedUtf8.decode t) := by
  have hlookup := h.texts i
  rw [ht] at hlookup
  have hslot : i.toNat.toUInt16 = i := UInt16.ofNat_toNat
  rw [Pool.text, hslot, hlookup]
  rfl

theorem Shows.className {p : Pool} {slots : List (Option Constant)} (h : p.Shows slots) {i : UInt16}
    {t : Bytes} (ht : (classIn? slots i).bind (textIn? slots) = some t) :
    p.className i.toNat = .ok (ModifiedUtf8.decode t) := by
  obtain ⟨n, hn, htext⟩ := Option.bind_eq_some_iff.mp ht
  have hlookup := h.classes i
  rw [hn] at hlookup
  have hslot : i.toNat.toUInt16 = i := UInt16.ofNat_toNat
  rw [Pool.className, hslot, hlookup]
  exact h.text htext

/-! ### Reading the pool -/

/-- The last slot that an entry takes. -/
def last (slot : UInt16) (c : Constant) : UInt16 := if isWide c.tag then slot + 1 else slot

theorem last_succ {n : Nat} (c : Constant) :
    last (UInt16.ofNat n) c + 1 = UInt16.ofNat (n + c.slots.length) := by
  rw [last, c.slots_eq]
  split
  · rw [List.length_cons, List.length_singleton, UInt16.ofNat_add, UInt16.add_assoc]
    rfl
  · rw [List.length_singleton, UInt16.ofNat_add]
    rfl

/-- An entry that is neither a text nor a class is passed over by its size. -/
theorem skipped_read {c : Constant} (hsize : skippedSize? c.tag = some c.payload.length)
    (p : Pool) (slot : UInt16) (rest : Bytes) :
    p.readEntry slot (c.encode ++ rest) = .ok ((p, last slot c), rest) := by
  have hskip := skip_append c.payload rest
  rw [Constant.encode, List.append_assoc, readEntry, read_bind (as_read (u1_read c.tag_lt _) _), last]
  generalize c.tag = tag at hsize
  simp only
  split
  · cases hsize
  · cases hsize
  · rw [hsize]
    exact read_bind (as_read hskip _)

theorem readEntry_read (p : Pool) (slot : UInt16) (c : Constant) (rest : Bytes) :
    p.readEntry slot (c.encode ++ rest) = .ok ((p.add slot c, last slot c), rest) := by
  cases c with
  | utf8 text short =>
    rw [Constant.encode, Constant.payload, List.append_assoc, List.append_assoc, readEntry,
      read_bind (as_read (u1_read (Constant.tag_lt _) _) _)]
    change (do
      let length ← ByteReader.u2.as _
      let bs ← (ByteReader.take length).as _
      return ({ p with texts := (slot, ModifiedUtf8.decode bs) :: p.texts }, slot) : ClassReader _)
      _ = _
    rw [read_bind (as_read (u2_read short _) _), read_bind (as_read (take_append text rest) _)]
    rfl
  | cls name =>
    rw [Constant.encode, Constant.payload, List.append_assoc, readEntry,
      read_bind (as_read (u1_read (Constant.tag_lt _) _) _)]
    change (do
      let name ← ByteReader.u2.as _
      return ({ p with classes := (slot, name.toUInt16) :: p.classes }, slot) : ClassReader _) _ = _
    rw [read_bind (as_read (u2_slot name _) _)]
    have hname : name.toNat.toUInt16 = name := UInt16.ofNat_toNat
    rw [hname]
    rfl
  | _ =>
    apply skipped_read
    simp [skippedSize?, Constant.tag, Constant.payload]

/-- Reading goes on to the last entry: the slots of all entries together are the count. -/
theorem readEntries_read {cs : List Constant} {p : Pool} {slots : List (Option Constant)}
    (h : p.Shows slots) (hshort : (slots ++ cs.flatMap Constant.slots).length < 2 ^ 16) :
    ∃ q : Pool, q.Shows (slots ++ cs.flatMap Constant.slots) ∧
      ∀ (fuel : Nat) (rest : Bytes), cs.length < fuel →
        readEntries (slots ++ cs.flatMap Constant.slots).length fuel p (UInt16.ofNat slots.length)
          (cs.flatMap Constant.encode ++ rest) = .ok (q, rest) := by
  induction cs generalizing p slots with
  | nil =>
    simp only [List.flatMap_nil, List.append_nil] at hshort ⊢
    have hslot : (UInt16.ofNat slots.length).toNat = slots.length :=
      UInt16.toNat_ofNat_of_lt' hshort
    refine ⟨p, h, ?_⟩
    intro fuel rest hfuel
    obtain ⟨n, rfl⟩ : ∃ n, fuel = n + 1 := ⟨fuel - 1, by simp at hfuel; omega⟩
    rw [readEntries, if_neg (by omega)]
    rfl
  | cons c cs ih =>
    have hslots : 0 < c.slots.length := by
      rw [c.slots_eq]
      split <;> simp
    have hassoc : slots ++ (c :: cs).flatMap Constant.slots
        = (slots ++ c.slots) ++ cs.flatMap Constant.slots := by
      rw [List.flatMap_cons, List.append_assoc]
    rw [hassoc] at hshort ⊢
    have hlength : slots.length < (slots ++ c.slots ++ cs.flatMap Constant.slots).length := by
      simp only [List.length_append]
      omega
    have hslot : (UInt16.ofNat slots.length).toNat = slots.length :=
      UInt16.toNat_ofNat_of_lt' (Nat.lt_trans hlength hshort)
    obtain ⟨q, hq, hread⟩ := ih (h.add (Nat.lt_trans hlength hshort) c) hshort
    refine ⟨q, hq, ?_⟩
    intro fuel rest hfuel
    obtain ⟨n, rfl⟩ : ∃ n, fuel = n + 1 := ⟨fuel - 1, by simp at hfuel; omega⟩
    rw [readEntries, if_pos (by rw [hslot]; exact hlength), List.flatMap_cons,
      List.append_assoc c.encode, read_bind (readEntry_read p _ c _)]
    simp only [last_succ]
    rw [← List.length_append]
    exact hread n rest (by simpa using hfuel)

theorem length_le_encode (cs : List Constant) : cs.length ≤ (cs.flatMap Constant.encode).length := by
  induction cs with
  | nil => simp
  | cons c cs ih =>
    simp only [List.flatMap_cons, List.length_append, List.length_cons, Constant.encode, length_spell]
    omega

theorem read_of_count {bs mid : Bytes} {count : Nat} (h : u2 bs = .ok (count, mid)) :
    Pool.read bs = readEntries count (mid.length + 1) {} 1 mid := by
  rw [Pool.read, read_bind (as_read h _), read_bind (read_get _)]

theorem pool_read {cs : List Constant} (hshort : (poolSlots cs).length < 2 ^ 16) :
    ∃ q : Pool, q.Shows (poolSlots cs) ∧ ∀ rest,
      Pool.read (spell 2 (poolSlots cs).length ++ cs.flatMap Constant.encode ++ rest)
        = .ok (q, rest) := by
  obtain ⟨q, hq, hread⟩ := readEntries_read shows_empty hshort
  refine ⟨q, hq, ?_⟩
  intro rest
  have hfuel : cs.length < (cs.flatMap Constant.encode ++ rest).length + 1 := by
    have hlength := length_le_encode cs
    rw [List.length_append]
    omega
  rw [List.append_assoc, read_of_count (u2_read hshort _)]
  exact hread _ rest hfuel

end Pool

/-! ### Methods -/

namespace ClassImage

theorem shown_text {c : ClassImage} {p : Pool} (hp : p.Shows (poolSlots c.pool)) {i : UInt16}
    (h : (c.text? i).isSome) : p.text i.toNat = .ok (shown (c.text? i)) := by
  obtain ⟨t, ht⟩ := Option.isSome_iff_exists.mp h
  rw [hp.text ht, ht]
  rfl

theorem shown_className {c : ClassImage} {p : Pool} (hp : p.Shows (poolSlots c.pool)) {i : UInt16}
    (h : (c.className? i).isSome) : p.className i.toNat = .ok (shown (c.className? i)) := by
  obtain ⟨t, ht⟩ := Option.isSome_iff_exists.mp h
  rw [hp.className ht, ht]
  rfl

end ClassImage

namespace ClassFile

open ByteReader

variable {c : ClassImage} {p : Pool}

theorem readMethod_read (hp : p.Shows (poolSlots c.pool)) {m : Member} (hm : m ∈ c.methods) (i : Nat)
    (rest : Bytes) : readMethod p i (m.encode ++ rest) = .ok (c.viewMethod m, rest) := by
  obtain ⟨hname, hdescriptor⟩ := c.methods_named m hm
  have hnumbers : (do
      let flags ← ByteReader.u2
      let name ← ByteReader.u2
      let desc ← ByteReader.u2
      ByteReader.skipAttributes
      return (flags, name, desc) : ByteReader (Nat × Nat × Nat)) (m.encode ++ rest)
      = .ok ((m.flags.toNat, m.name.toNat, m.descriptor.toNat), rest) := by
    simp only [Member.encode, List.append_assoc]
    rw [read_bind (u2_slot _ _), read_bind (u2_slot _ _), read_bind (u2_slot _ _),
      read_bind (skipAttributes_read m.attributes_short _)]
    rfl
  rw [readMethod, read_bind (as_read hnumbers _)]
  simp only [ClassImage.shown_text hp hname, ClassImage.shown_text hp hdescriptor]
  rfl

theorem readMethods_read (hp : p.Shows (poolSlots c.pool)) {ms : List Member}
    (hms : ∀ m ∈ ms, m ∈ c.methods) (i : Nat) (rest : Bytes) :
    readMethods p i ms.length (ms.flatMap Member.encode ++ rest)
      = .ok (ms.map c.viewMethod, rest) := by
  induction ms generalizing i with
  | nil => rfl
  | cons m ms ih =>
    rw [List.flatMap_cons, List.append_assoc, List.length_cons, readMethods,
      read_bind (readMethod_read hp (hms m (by simp)) i _),
      read_bind (ih (fun x hx => hms x (by simp [hx])) (i + 1))]
    rfl

theorem readHeader_read (c : ClassImage) (rest : Bytes) :
    readHeader (c.encodeHeader ++ rest)
      = .ok ((c.flags.toNat, c.thisClass.toNat, c.superClass.toNat), rest) := by
  have hskip := skip_append (c.interfaces.flatMap fun i => spell 2 i.toNat) rest
  have hlength : (c.interfaces.flatMap fun i => spell 2 i.toNat).length
      = 2 * c.interfaces.length := by
    simp [List.length_flatMap, List.map_const', Nat.mul_comm]
  rw [hlength] at hskip
  simp only [ClassImage.encodeHeader, List.append_assoc]
  rw [readHeader, read_bind (u2_slot _ _), read_bind (u2_slot _ _), read_bind (u2_slot _ _),
    read_bind (u2_read c.interfaces_short _), read_bind hskip]
  rfl

theorem skipFields_read (c : ClassImage) (rest : Bytes) :
    skipFields (c.encodeFields ++ rest) = .ok ((), rest) := by
  rw [ClassImage.encodeFields, List.append_assoc, skipFields, read_bind (u2_read c.fields_short _)]
  apply times_read
  intro m _ rest
  -- flags, name and descriptor of a field are passed over at once
  have hskip := skip_append
    (spell 2 m.flags.toNat ++ (spell 2 m.name.toNat ++ spell 2 m.descriptor.toNat))
    (encodeAttributes m.attributes ++ rest)
  simp only [List.length_append, length_spell, List.append_assoc] at hskip
  simp only [Member.encode, List.append_assoc]
  rw [read_bind hskip]
  exact skipAttributes_read m.attributes_short rest

theorem superName_read (hp : p.Shows (poolSlots c.pool)) (rest : Bytes) :
    superName p c.superClass.toNat rest = .ok (c.view.super, rest) := by
  have hzero : c.superClass.toNat = 0 ↔ c.superClass = 0 := by
    rw [← UInt16.toNat_inj]
    rfl
  rw [superName, ClassImage.view]
  by_cases h : c.superClass = 0
  · rw [if_pos (hzero.mpr h), if_pos h]
    rfl
  · have hnamed := c.super_named.resolve_left h
    rw [if_neg (mt hzero.mp h), if_neg h, ClassImage.shown_className hp hnamed]
    rfl

/-- Everything before the method table reads back. -/
theorem readHead_read (c : ClassImage) :
    ∃ p : Pool, p.Shows (poolSlots c.pool) ∧ ∀ rest,
      readHead (c.encodeHead ++ rest) = .ok ((p, { c.view with methods := [] }), rest) := by
  obtain ⟨p, hp, hpool⟩ := Pool.pool_read c.pool_short
  refine ⟨p, hp, ?_⟩
  intro rest
  have hpool (rest : Bytes) : Pool.read (c.encodePool ++ rest) = .ok (p, rest) := hpool rest
  have hthis : thisName p c.thisClass.toNat (c.encodeFields ++ rest)
      = .ok (c.view.name, c.encodeFields ++ rest) := by
    rw [thisName, ClassImage.shown_className hp c.this_named]
    rfl
  have hsuper := superName_read hp (c.encodeFields ++ rest)
  simp only [ClassImage.encodeHead, List.append_assoc]
  rw [readHead, read_bind (as_read (u4_read (by decide) _) _), if_neg (by decide),
    read_bind (as_read (u2_slot _ _) _), read_bind (as_read (u2_slot _ _) _),
    read_bind (hpool _), read_bind (as_read (readHeader_read c _) _)]
  simp only
  rw [read_bind hthis, read_bind hsuper, read_bind (as_read (skipFields_read c _) _)]
  rfl

theorem readMethodCount_read {n : Nat} (hn : n < 2 ^ 16) (rest : Bytes) :
    readMethodCount (spell 2 n ++ rest) = .ok (n, rest) := by
  have hbytes : spell 2 n = [(n / 256).toUInt8, n.toUInt8] := rfl
  have hvalue := bigEndian_spell (show n < 256 ^ 2 from hn)
  rw [hbytes] at hvalue ⊢
  change Except.ok (bigEndian [(n / 256).toUInt8, n.toUInt8], rest) = _
  rw [hvalue]

theorem readMethodTable_read (hp : p.Shows (poolSlots c.pool)) (rest : Bytes) :
    readMethodTable p (c.encodeMethods ++ rest) = .ok (c.view.methods, rest) := by
  rw [ClassImage.encodeMethods, List.append_assoc, readMethodTable,
    read_bind (readMethodCount_read c.methods_short _)]
  exact readMethods_read hp (fun m hm => hm) 0 rest

theorem read_written (c : ClassImage) (rest : Bytes) :
    read (c.encode ++ rest) = .ok (c.view, rest) := by
  obtain ⟨p, hp, hhead⟩ := readHead_read c
  rw [ClassImage.encode, List.append_assoc, read, read_bind (hhead _)]
  simp only
  rw [read_bind (readMethodTable_read hp rest)]
  rfl

/-- **A class file reads back.** Whatever follows the method table, the reader finds the versions,
    the flags, the names and the methods in their order. A text that was stored as modified UTF-8 is
    shown as that text. -/
theorem parse_written (c : ClassImage) (rest : Bytes) :
    ClassFile.parse (c.encode ++ rest) = .ok c.view ∧
      ∀ text : String, ClassImage.shown (some (ModifiedUtf8.encode text.toList)) = text := by
  constructor
  · rw [parse, read_written]
    rfl
  · exact ModifiedUtf8.decode_encode

theorem parse_written_sample :
    ClassFile.parse (ClassImage.sample.encode ++ [0x00, 0x01])
      = .ok { minor := 0, major := 52, flags := 0x21, name := "A", super := ""
              methods := [⟨0x0101, "m", "()V"⟩] } := by
  rw [(parse_written ClassImage.sample [0x00, 0x01]).1]
  rfl

end ClassFile

end BridgeCall
