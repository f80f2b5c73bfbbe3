/-
  BridgeCall/Proofs/Machine/ClassImage.lean
  =========================================
  **Class files as they are written.**  A `ClassImage` is everything a class file
  holds, up to the end of its method table, before it is put into bytes: the
  constants of all tags, the interfaces, the fields and the methods with their
  attributes.  Its parts carry the bounds of the counts that the format gives
  them, and its references point at constants of the right kind.

  `ClassImage.encode` puts it into bytes, and `ClassImage.view` says what a
  reader of the bytes should see.
-/
import Mathlib.Algebra.Group.Nat.Defs
import BridgeCall.Machine.ClassFile

namespace BridgeCall

/-! ### Numbers -/

namespace ByteReader

/-- A number in a fixed number of bytes, the most significant first. -/
def spell : Nat → Nat → Bytes
  | 0, _ => []
  | width + 1, v => spell width (v / 256) ++ [v.toUInt8]

end ByteReader

/-! ### What a class file holds -/

/-- An entry of the constant pool. The slots that an entry refers to are kept as numbers. -/
inductive Constant where
  | utf8 (text : Bytes) (short : text.length < 2 ^ 16)
  | integer (bits : UInt32)
  | float (bits : UInt32)
  | long (bits : UInt64)
  | double (bits : UInt64)
  | cls (name : UInt16)
  | string (text : UInt16)
  | fieldRef (cls nameAndType : UInt16)
  | methodRef (cls nameAndType : UInt16)
  | interfaceMethodRef (cls nameAndType : UInt16)
  | nameAndType (name descriptor : UInt16)
  | methodHandle (kind : UInt8) (reference : UInt16)
  | methodType (descriptor : UInt16)
  | dynamic (bootstrap nameAndType : UInt16)
  | invokeDynamic (bootstrap nameAndType : UInt16)
  | moduleName (name : UInt16)
  | packageName (name : UInt16)
  deriving DecidableEq, Repr

namespace Constant

open ByteReader

def tag : Constant → Nat
  | utf8 .. => 1
  | integer _ => 3
  | float _ => 4
  | long _ => 5
  | double _ => 6
  | cls _ => 7
  | string _ => 8
  | fieldRef .. => 9
  | methodRef .. => 10
  | interfaceMethodRef .. => 11
  | nameAndType .. => 12
  | methodHandle .. => 15
  | methodType _ => 16
  | dynamic .. => 17
  | invokeDynamic .. => 18
  | moduleName _ => 19
  | packageName _ => 20

/-- What follows the tag. -/
def payload : Constant → Bytes
  | utf8 text _ => spell 2 text.length ++ text
  | integer v | float v => spell 4 v.toNat
  | long v | double v => spell 8 v.toNat
  | cls i | string i | methodType i | moduleName i | packageName i => spell 2 i.toNat
  | fieldRef i j | methodRef i j | interfaceMethodRef i j | nameAndType i j | dynamic i j
  | invokeDynamic i j => spell 2 i.toNat ++ spell 2 j.toNat
  | methodHandle k i => spell 1 k.toNat ++ spell 2 i.toNat

def encode (c : Constant) : Bytes := spell 1 c.tag ++ c.payload

def text? : Constant → Option Bytes
  | utf8 text _ => some text
  | _ => none

/-- The slot with the name of a class. -/
def className? : Constant → Option UInt16
  | cls name => some name
  | _ => none

/-- The slots that an entry takes: the second slot of a wide one stays empty. -/
def slots (c : Constant) : List (Option Constant) :=
  match c with
  | long _ | double _ => [some c, none]
  | _ => [some c]

end Constant

/-- The slots of a pool, the first of which has number one. -/
def poolSlots (pool : List Constant) : List (Option Constant) :=
  none :: pool.flatMap Constant.slots

def constantIn? (slots : List (Option Constant)) (i : UInt16) : Option Constant :=
  slots[i.toNat]?.join

/-- The stored text that a slot holds. -/
def textIn? (slots : List (Option Constant)) (i : UInt16) : Option Bytes :=
  (constantIn? slots i).bind Constant.text?

/-- The slot with the name of the class that a slot holds. -/
def classIn? (slots : List (Option Constant)) (i : UInt16) : Option UInt16 :=
  (constantIn? slots i).bind Constant.className?

structure Attribute where
  name : UInt16
  info : Bytes
  info_short : info.length < 2 ^ 32
  deriving DecidableEq, Repr

/-- A field or a method. -/
structure Member where
  flags : UInt16
  name : UInt16
  descriptor : UInt16
  attributes : List Attribute
  attributes_short : attributes.length < 2 ^ 16
  deriving DecidableEq, Repr

/-- A class, with its name and the names of its methods found in its own constants. -/
structure ClassImage where
  minor : UInt16
  major : UInt16
  pool : List Constant
  flags : UInt16
  thisClass : UInt16
  superClass : UInt16
  interfaces : List UInt16
  fields : List Member
  methods : List Member
  pool_short : (poolSlots pool).length < 2 ^ 16
  interfaces_short : interfaces.length < 2 ^ 16
  fields_short : fields.length < 2 ^ 16
  methods_short : methods.length < 2 ^ 16
  this_named : ((classIn? (poolSlots pool) thisClass).bind (textIn? (poolSlots pool))).isSome
  super_named : superClass = 0 ∨
    ((classIn? (poolSlots pool) superClass).bind (textIn? (poolSlots pool))).isSome
  methods_named : ∀ m ∈ methods, (textIn? (poolSlots pool) m.name).isSome ∧
    (textIn? (poolSlots pool) m.descriptor).isSome

/-! ### In bytes -/

section Encode

open ByteReader

def Attribute.encode (a : Attribute) : Bytes :=
  spell 2 a.name.toNat ++ (spell 4 a.info.length ++ a.info)

def encodeAttributes (as : List Attribute) : Bytes :=
  spell 2 as.length ++ as.flatMap Attribute.encode

def Member.encode (m : Member) : Bytes :=
  spell 2 m.flags.toNat ++ (spell 2 m.name.toNat ++ (spell 2 m.descriptor.toNat ++
    encodeAttributes m.attributes))

namespace ClassImage

def encodePool (c : ClassImage) : Bytes :=
  spell 2 (poolSlots c.pool).length ++ c.pool.flatMap Constant.encode

/-- The flags of the class, its references and its interfaces. -/
def encodeHeader (c : ClassImage) : Bytes :=
  spell 2 c.flags.toNat ++ (spell 2 c.thisClass.toNat ++ (spell 2 c.superClass.toNat ++
    (spell 2 c.interfaces.length ++ c.interfaces.flatMap fun i => spell 2 i.toNat)))

def encodeFields (c : ClassImage) : Bytes :=
  spell 2 c.fields.length ++ c.fields.flatMap Member.encode

/-- Everything before the method table. -/
def encodeHead (c : ClassImage) : Bytes :=
  spell 4 0xCAFEBABE ++ (spell 2 c.minor.toNat ++ (spell 2 c.major.toNat ++
    (c.encodePool ++ (c.encodeHeader ++ c.encodeFields))))

def encodeMethods (c : ClassImage) : Bytes :=
  spell 2 c.methods.length ++ c.methods.flatMap Member.encode

/-- The bytes of the class, up to the end of its method table. -/
def encode (c : ClassImage) : Bytes := c.encodeHead ++ c.encodeMethods

end ClassImage
end Encode

/-! ### What a reader should see -/

namespace ClassImage

/-- The stored text that the slot holds. -/
def text? (c : ClassImage) (i : UInt16) : Option Bytes := textIn? (poolSlots c.pool) i

/-- The stored name of the class that the slot holds. -/
def className? (c : ClassImage) (i : UInt16) : Option Bytes :=
  (classIn? (poolSlots c.pool) i).bind c.text?

/-- A stored text as it is shown. -/
def shown (t : Option Bytes) : Bytes := ModifiedUtf8.decode (t.getD [])

def viewMethod (c : ClassImage) (m : Member) : ClassMethod :=
  { flags := m.flags.toNat
    name := shown (c.text? m.name)
    descriptor := shown (c.text? m.descriptor) }

/-- The class as the listing of its methods needs it. The name of no super class is empty. -/
def view (c : ClassImage) : ClassFile :=
  { minor := c.minor.toNat
    major := c.major.toNat
    flags := c.flags.toNat
    name := shown (c.className? c.thisClass)
    super := if c.superClass = 0 then [] else shown (c.className? c.superClass)
    methods := c.methods.map c.viewMethod }

/-- A class with one native method. Its third constant is a wide one, which shifts the slots of the
    names behind it. -/
def sample : ClassImage where
  minor := 0
  major := 52
  pool := [.utf8 "A" (by decide), .cls 1, .long 7, .utf8 "m" (by decide), .utf8 "()V" (by decide)]
  flags := 0x21
  thisClass := 2
  superClass := 0
  interfaces := []
  fields := []
  methods := [⟨0x0101, 5, 6, [], by decide⟩]
  pool_short := by decide
  interfaces_short := by decide
  fields_short := by decide
  methods_short := by decide
  this_named := by decide
  super_named := by decide
  methods_named := by decide

/-- A class with two natives called `f`, the symbols of which end in `__I` and `__La_C_2`, and one
    whose name spells such an end. -/
def overloads : ClassImage where
  minor := 0
  major := 52
  pool := [.utf8 "a/B" (by decide), .cls 1, .utf8 "f" (by decide), .utf8 "(I)V" (by decide),
    .utf8 "(La/C;)V" (by decide), .utf8 "f__I" (by decide), .utf8 "()V" (by decide)]
  flags := 0x21
  thisClass := 2
  superClass := 0
  interfaces := []
  fields := []
  methods := [⟨0x0101, 3, 4, [], by decide⟩, ⟨0x0101, 3, 5, [], by decide⟩,
    ⟨0x0101, 6, 7, [], by decide⟩]
  pool_short := by decide
  interfaces_short := by decide
  fields_short := by decide
  methods_short := by decide
  this_named := by decide
  super_named := by decide
  methods_named := by decide

end ClassImage

end BridgeCall
