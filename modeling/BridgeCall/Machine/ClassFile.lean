/-
  BridgeCall/Machine/ClassFile.lean
  =================================
  **Compiled classes.**  Reads the header, the constant pool and the method table
  of a class file, as far as listing its methods needs.  Fields, interfaces and
  attributes are skipped by their sizes.
-/
import BridgeCall.Machine.Descriptor
import BridgeCall.Machine.ModifiedUtf8

namespace BridgeCall

/-! ### Reading bytes -/

/-- How the input ended too early: before the first byte that was asked for, or after it. -/
inductive InputEnd where
  | before
  | inside
  deriving DecidableEq, Repr

def InputEnd.message : InputEnd → Bytes
  | .before => "EOF"
  | .inside => "unexpected EOF"

abbrev ByteReader := StateT Bytes (Except InputEnd)

namespace ByteReader

/-- Exactly `n` bytes. Only these are counted: the rest of a file can be long. -/
def take (n : Nat) : ByteReader Bytes := do
  let bs ← get
  let front := bs.take n
  if front.length = n then
    set (bs.drop n)
    return front
  else if bs.isEmpty then throw .before
  else throw .inside

/-- The number that bytes spell, the most significant first. -/
def bigEndian (bs : Bytes) : Nat := bs.foldl (fun n b => n * 256 + b.toNat) 0

def u1 : ByteReader Nat := do return bigEndian (← take 1)

/-- An unsigned number of two bytes. -/
def u2 : ByteReader Nat := do return bigEndian (← take 2)

/-- An unsigned number of four bytes. -/
def u4 : ByteReader Nat := do return bigEndian (← take 4)

/-- Passes over `n` bytes. An input that is too short counts as ended before. -/
def skip (n : Nat) : ByteReader Unit := do
  let bs ← get
  if (bs.take n).length = n then set (bs.drop n) else throw .before

/-- Runs a reader `n` times. -/
def times (n : Nat) (r : ByteReader Unit) : ByteReader Unit :=
  match n with
  | 0 => return ()
  | n + 1 => do
    r
    times n r

def skipAttributes : ByteReader Unit := do
  let count ← u2
  times count do
    skip 2
    skip (← u4)

end ByteReader

/-! ### Errors -/

/-- A constant does not have the kind that a reference to it needs. -/
inductive ConstantError where
  | notText (index : Nat)
  | notClass (index : Nat)
  deriving DecidableEq, Repr

/-- The wording of a bad reference. -/
def ConstantError.message : ConstantError → Bytes
  | .notText i => "constant " ++ Bytes.ofNat i ++ " is not a UTF-8 string"
  | .notClass i => "constant " ++ Bytes.ofNat i ++ " is not a class"

inductive ClassPart where
  | magic
  | version
  | poolCount
  | poolEntry (slot : Nat)
  | header
  | fields
  | method (index : Nat)
  deriving DecidableEq, Repr

def ClassPart.name : ClassPart → Bytes
  | .magic => "magic"
  | .version => "version"
  | .poolCount => "constant pool count"
  | .poolEntry i => "constant pool entry " ++ Bytes.ofNat i
  | .header => "class info"
  | .fields => "fields"
  | .method i => "method " ++ Bytes.ofNat i

inductive ClassFileError where
  | ended (part : ClassPart) (how : InputEnd)
  | badMagic (found : Nat)
  | unknownTag (slot tag : Nat)
  | thisClass (why : ConstantError)
  | superClass (why : ConstantError)
  | method (index : Nat) (why : ConstantError)
  deriving DecidableEq, Repr

def upperHex (n : Nat) : Bytes :=
  (Bytes.digits 16 n).map fun b => if 0x61 ≤ b && b ≤ 0x66 then b - 0x20 else b

def ClassFileError.message : ClassFileError → Bytes
  | .ended p how => "read " ++ p.name ++ ": " ++ how.message
  | .badMagic n => "invalid magic number: 0x" ++ upperHex n ++ " (expected 0xCAFEBABE)"
  | .unknownTag i t =>
    "constant pool entry " ++ Bytes.ofNat i ++ ": unknown tag " ++ Bytes.ofNat t
  | .thisClass e => "this class: " ++ e.message
  | .superClass e => "super class: " ++ e.message
  | .method i e => "read method " ++ Bytes.ofNat i ++ ": " ++ e.message

def ClassFileError.inputEnd? : ClassFileError → Option InputEnd
  | .ended _ how => some how
  | _ => none

abbrev ClassReader := StateT Bytes (Except ClassFileError)

def ByteReader.as {α : Type} (part : ClassPart) (r : ByteReader α) : ClassReader α := fun bs =>
  match r bs with
  | .ok x => .ok x
  | .error how => .error (.ended part how)

/-! ### The constant pool -/

/-- The entries that listing methods needs: texts, and classes by the slot of their name. The newest
    entry of a slot comes first. -/
structure Pool where
  texts : List (UInt16 × Bytes) := []
  classes : List (UInt16 × UInt16) := []
  deriving DecidableEq, Repr

namespace Pool

def text (p : Pool) (i : Nat) : Except ConstantError Bytes :=
  match p.texts.lookup i.toUInt16 with
  | some t => .ok t
  | none => .error (.notText i)

def className (p : Pool) (i : Nat) : Except ConstantError Bytes :=
  match p.classes.lookup i.toUInt16 with
  | some n => p.text n.toNat
  | none => .error (.notClass i)

/-- The size of the entries that are only passed over, by their tag. -/
def skippedSize? (tag : Nat) : Option Nat :=
  match tag with
  | 3 | 4 | 9 | 10 | 11 | 12 | 17 | 18 => some 4
  | 5 | 6 => some 8
  | 8 | 16 | 19 | 20 => some 2
  | 15 => some 3
  | _ => none

/-- The entries with these tags take two slots. -/
def isWide (tag : Nat) : Bool := tag == 5 || tag == 6

/-- Reads the entry for a slot; gives the slot it ends in. -/
def readEntry (p : Pool) (slot : UInt16) : ClassReader (Pool × UInt16) := do
  let here := ClassPart.poolEntry slot.toNat
  let tag ← ByteReader.u1.as here
  match tag with
  | 1 =>
    let length ← ByteReader.u2.as here
    let bs ← (ByteReader.take length).as here
    return ({ p with texts := (slot, ModifiedUtf8.decode bs) :: p.texts }, slot)
  | 7 =>
    let name ← ByteReader.u2.as here
    return ({ p with classes := (slot, name.toUInt16) :: p.classes }, slot)
  | tag =>
    match skippedSize? tag with
    | none => throw (.unknownTag slot.toNat tag)
    | some n =>
      let last := if isWide tag then slot + 1 else slot
      (ByteReader.skip n).as (.poolEntry last.toNat)
      return (p, last)

/-- Reads entries while the slot, a 16-bit number, is below the count. Every entry takes at least
    one byte, so the number of bytes bounds their number. -/
def readEntries (count : Nat) : Nat → Pool → UInt16 → ClassReader Pool
  | 0, p, _ => return p
  | fuel + 1, p, slot => do
    if slot.toNat < count then
      let (p, last) ← readEntry p slot
      readEntries count fuel p (last + 1)
    else return p

def read : ClassReader Pool := do
  let count ← ByteReader.u2.as .poolCount
  readEntries count ((← get).length + 1) {} 1

end Pool

/-! ### Classes -/

structure ClassMethod where
  flags : Nat
  name : Bytes
  descriptor : Bytes
  deriving DecidableEq, Repr

namespace ClassMethod

def isStatic (m : ClassMethod) : Bool := m.flags / 0x0008 % 2 == 1

/-- Whether the method is implemented outside the machine. -/
def isNative (m : ClassMethod) : Bool := m.flags / 0x0100 % 2 == 1

/-- The method as Java source; name and descriptor as they are when the descriptor is bad. -/
def declaration (m : ClassMethod) : Bytes :=
  (if m.isStatic then ("static " : Bytes) else []) ++ (if m.isNative then ("native " : Bytes) else [])
    ++ match MethodType.parse m.descriptor with
      | .ok t => t.declaration m.name
      | .error _ => m.name ++ m.descriptor

end ClassMethod

structure ClassFile where
  minor : Nat
  major : Nat
  flags : Nat
  name : Bytes
  super : Bytes
  methods : List ClassMethod
  deriving DecidableEq, Repr

namespace ClassFile

def sourceName (c : ClassFile) : Bytes := internalToSource c.name

def natives (c : ClassFile) : List ClassMethod := c.methods.filter ClassMethod.isNative

/-- Whether more than one native method has this name. -/
def isOverloaded (c : ClassFile) (name : Bytes) : Bool :=
  1 < (c.natives.filter fun m => m.name = name).length

def readMethod (p : Pool) (i : Nat) : ClassReader ClassMethod := do
  let (flags, name, desc) ← ByteReader.as (.method i) do
    let flags ← ByteReader.u2
    let name ← ByteReader.u2
    let desc ← ByteReader.u2
    ByteReader.skipAttributes
    return (flags, name, desc)
  match p.text name, p.text desc with
  | .ok name, .ok descriptor => return { flags, name, descriptor }
  | .error e, _ => throw (.method i e)
  | _, .error e => throw (.method i e)

/-- Reads `n` methods, the first of which has number `i`. -/
def readMethods (p : Pool) (i : Nat) : Nat → ClassReader (List ClassMethod)
  | 0 => return []
  | n + 1 => do
    let m ← readMethod p i
    return m :: (← readMethods p (i + 1) n)

/-- The number of methods. A count that is missing is zero, and one that is cut off after its first
    byte ends in a zero byte. -/
def readMethodCount : ClassReader Nat := do
  match ← get with
  | a :: b :: rest =>
    set rest
    return ByteReader.bigEndian [a, b]
  | [a] =>
    if a = 0 then return 0 else throw (.ended (.method 0) .inside)
  | [] => return 0

/-- Flags, class and super class. The interfaces are passed over. -/
def readHeader : ByteReader (Nat × Nat × Nat) := do
  let flags ← ByteReader.u2
  let this ← ByteReader.u2
  let super ← ByteReader.u2
  let interfaces ← ByteReader.u2
  ByteReader.skip (2 * interfaces)
  return (flags, this, super)

def skipFields : ByteReader Unit := do
  let fields ← ByteReader.u2
  ByteReader.times fields do
    ByteReader.skip 6
    ByteReader.skipAttributes

def thisName (p : Pool) (i : Nat) : ClassReader Bytes :=
  match p.className i with
  | .ok n => return n
  | .error e => throw (.thisClass e)

/-- The name of the super class, empty when there is none. -/
def superName (p : Pool) (i : Nat) : ClassReader Bytes :=
  if i = 0 then return []
  else match p.className i with
    | .ok n => return n
    | .error e => throw (.superClass e)

/-- Reads everything before the method table. The class has no methods yet. -/
def readHead : ClassReader (Pool × ClassFile) := do
  let magic ← ByteReader.u4.as .magic
  if magic ≠ 0xCAFEBABE then throw (.badMagic magic)
  else
    let minor ← ByteReader.u2.as .version
    let major ← ByteReader.u2.as .version
    let pool ← Pool.read
    let (flags, this, super) ← readHeader.as .header
    let name ← thisName pool this
    let super ← superName pool super
    skipFields.as .fields
    return (pool, { minor, major, flags, name, super, methods := [] })

def readMethodTable (p : Pool) : ClassReader (List ClassMethod) := do
  let count ← readMethodCount
  readMethods p 0 count

/-- Reads a class file up to the end of its method table. -/
def read : ClassReader ClassFile := do
  let (pool, c) ← readHead
  let methods ← readMethodTable pool
  return { c with methods }

def parse (file : Bytes) : Except ClassFileError ClassFile := (read file).map Prod.fst

end ClassFile
end BridgeCall
