/-
  BridgeCall/Machine/Descriptor.lean
  ==================================
  **Type and method descriptors.**  A field type is a number of `[` marks before
  a primitive letter or a class name between `L` and `;`.  A method is its
  parameters in parentheses before what it returns.  A descriptor that cannot be
  read is refused with the offset at which it stopped making sense.
-/
import BridgeCall.Expr.Types
import BridgeCall.Text.Quoted

namespace BridgeCall

/-- An internal name as people write it: `java/util/Map$Entry` is `java.util.Map.Entry`. -/
def internalToSource (name : Bytes) : Bytes :=
  Bytes.replaceByte 0x24 0x2e (Bytes.replaceByte 0x2f 0x2e name)

/-- A dotted name with slashes instead. -/
def sourceToInternal (name : Bytes) : Bytes := Bytes.replaceByte 0x2e 0x2f name

/-- The innermost element of a field type. -/
inductive FieldBase where
  | primitive (p : Primitive)
  | cls (name : Bytes)
  deriving DecidableEq, Repr

/-- A field type: what is at the bottom, and how many arrays deep. -/
structure FieldType where
  base : FieldBase
  depth : Nat
  deriving DecidableEq, Repr

namespace FieldType

/-- Whether the bottom is void, at any depth. -/
def isVoid (f : FieldType) : Bool :=
  match f.base with
  | .primitive .void => true
  | _ => false

def isArray (f : FieldType) : Bool := 0 < f.depth

def isPrimitive (f : FieldType) : Bool :=
  match f.base with
  | .primitive _ => f.depth == 0
  | .cls _ => false

def display (f : FieldType) : Bytes :=
  (match f.base with
    | .primitive p => p.name
    | .cls c => internalToSource c)
    ++ (List.replicate f.depth ("[]" : Bytes)).flatten

def encode (f : FieldType) : Bytes :=
  List.replicate f.depth 0x5b ++
    match f.base with
    | .primitive p => [p.letter]
    | .cls c => 0x4c :: c ++ [0x3b]

end FieldType

structure MethodType where
  params : List FieldType
  ret : FieldType
  deriving DecidableEq, Repr

namespace MethodType

def declaration (m : MethodType) (name : Bytes) : Bytes :=
  m.ret.display ++ " " ++ name ++ "(" ++ Bytes.join ", " (m.params.map FieldType.display) ++ ")"

def encode (m : MethodType) : Bytes :=
  0x28 :: m.params.flatMap FieldType.encode ++ 0x29 :: m.ret.encode

end MethodType

/-! ### Reading -/

/-- Why a descriptor makes no sense. -/
inductive DescriptorProblem where
  | noParameterStart
  | noParameterEnd
  | voidParameter
  | voidArray
  | voidField
  | trailing
  | unexpectedEnd
  | unknownType (b : UInt8)
  | unterminatedClass
  | emptyClass
  deriving DecidableEq, Repr

def DescriptorProblem.message : DescriptorProblem → Bytes
  | .noParameterStart => "expected '('"
  | .noParameterEnd => "expected ')'"
  | .voidParameter => "void parameter"
  | .voidArray => "array of void"
  | .voidField => "void is not a field type"
  | .trailing => "trailing characters"
  | .unexpectedEnd => "unexpected end"
  | .unknownType b => "unknown type " ++ Quoted.quoteChar b.toNat
  | .unterminatedClass => "unterminated class name"
  | .emptyClass => "empty class name"

structure DescriptorError where
  offset : Nat
  problem : DescriptorProblem
  deriving DecidableEq, Repr

/-- The full text of an error in the descriptor `desc`. -/
def DescriptorError.message (desc : Bytes) (e : DescriptorError) : Bytes :=
  "descriptor " ++ Quoted.quote desc ++ " at offset " ++ Bytes.ofNat e.offset ++ ": "
    ++ e.problem.message

/-- The letters of descriptors. Signatures are written with a table of their own. -/
def Primitive.letters : List (UInt8 × Primitive) :=
  [(0x42, .byte), (0x43, .char), (0x44, .double), (0x46, .float), (0x49, .int), (0x4a, .long),
    (0x53, .short), (0x5a, .boolean), (0x56, .void)]

def Primitive.ofLetter? (b : UInt8) : Option Primitive := Primitive.letters.lookup b

/-- The two tables agree. -/
theorem Primitive.ofLetter?_eq_some_iff {b : UInt8} {p : Primitive} :
    Primitive.ofLetter? b = some p ↔ p.letter = b := by
  constructor
  · intro h
    have hagree : ∀ e ∈ letters, e.2.letter = e.1 := by decide
    obtain ⟨before, after, hletters, -⟩ := List.lookup_eq_some_iff.mp h
    exact hagree (b, p) (by rw [hletters]; simp)
  · rintro rfl
    cases p <;> decide

namespace FieldType

/-- Reads one field type at the given offset, `depth` arrays deep so far; gives the text after it. -/
def readFrom (depth offset : Nat) : Bytes → Except DescriptorError (FieldType × Bytes)
  | [] => .error ⟨offset, .unexpectedEnd⟩
  | b :: rest =>
    if b = 0x5b then readFrom (depth + 1) (offset + 1) rest
    else match Primitive.ofLetter? b with
      | some p => .ok (⟨.primitive p, depth⟩, rest)
      | none =>
        if b ≠ 0x4c then .error ⟨offset, .unknownType b⟩
        else
          let name := rest.takeWhile (· ≠ 0x3b)
          match rest.dropWhile (· ≠ 0x3b) with
          | [] => .error ⟨offset, .unterminatedClass⟩
          | _ :: after =>
            if name.isEmpty then .error ⟨offset, .emptyClass⟩
            else .ok (⟨.cls name, depth⟩, after)

def parse (desc : Bytes) : Except DescriptorError FieldType := do
  let (f, rest) ← readFrom 0 0 desc
  if f.isVoid then .error ⟨0, .voidField⟩
  else if rest.isEmpty then .ok f
  else .error ⟨desc.length - rest.length, .trailing⟩

end FieldType

namespace MethodType

/-- Reads parameters up to the closing parenthesis; `total` is the length of the whole descriptor
    and `fuel` bounds the number of parameters. Gives the text after the parenthesis. -/
def readParams (total : Nat) : Nat → Bytes → Except DescriptorError (List FieldType × Bytes)
  | 0, bs => .error ⟨total - bs.length, .noParameterEnd⟩
  | _ + 1, [] => .error ⟨total, .noParameterEnd⟩
  | fuel + 1, b :: bs =>
    if b = 0x29 then .ok ([], bs)
    else do
      let offset := total - (b :: bs).length
      let (f, rest) ← FieldType.readFrom 0 offset (b :: bs)
      if f.isVoid then .error ⟨offset, .voidParameter⟩
      else
        let (fs, rest) ← readParams total fuel rest
        return (f :: fs, rest)

def parse (desc : Bytes) : Except DescriptorError MethodType :=
  match desc with
  | 0x28 :: body => do
    let (params, rest) ← readParams desc.length (body.length + 1) body
    let offset := desc.length - rest.length
    let (ret, after) ← FieldType.readFrom 0 offset rest
    if ret.isVoid && ret.isArray then .error ⟨offset, .voidArray⟩
    else if after.isEmpty then .ok ⟨params, ret⟩
    else .error ⟨desc.length - after.length, .trailing⟩
  | _ => .error ⟨0, .noParameterStart⟩

end MethodType
end BridgeCall
