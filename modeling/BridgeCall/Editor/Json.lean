/-
  BridgeCall/Editor/Json.lean
  ===========================
  **Messages as JSON.**  Reading a message is lenient: a field that is missing reads
  as null, null reads as the empty value of what is expected, and the case of a
  field's name does not count.  A value of another kind is refused.
-/
import BridgeCall.Text.Utf8

namespace BridgeCall

/-- A JSON value. A number is `mantissa` with its last `places` digits behind the point. -/
inductive Json where
  | null
  | bool (b : Bool)
  | number (mantissa : Int) (places : Nat)
  | string (text : Bytes)
  | array (items : List Json)
  | object (fields : List (Bytes × Json))
  deriving Repr, Inhabited

namespace Json

/-! ### Writing -/

/-- A text as JSON: what is no UTF-8 becomes replacement characters. -/
def text (bs : Bytes) : Json := .string (Utf8.ofCodePoints (Utf8.codePoints bs))

def nat (n : Nat) : Json := .number n 0

/-- An object with its fields named by literals. -/
def record (fields : List (String × Json)) : Json :=
  .object (fields.map fun (k, v) => (Bytes.ofString k, v))

/-! ### Reading -/

/-- A letter without its case; the long s and the sign of the kelvin are letters here. -/
def foldLetter (c : Nat) : Nat :=
  if 0x41 ≤ c && c ≤ 0x5a then c + 0x20
  else if c = 0x17f then 0x73
  else if c = 0x212a then 0x6b
  else c

def foldName (name : Bytes) : List Nat := (Utf8.codePoints name).map foldLetter

/-- The field of a name; one that differs in case only counts when there is none of the name
    itself. -/
def field (name : String) (fields : List (Bytes × Json)) : Json :=
  match fields.lookup (Bytes.ofString name) with
  | some v => v
  | none =>
    match fields.find? fun (k, _) => foldName k = foldName (Bytes.ofString name) with
    | some (_, v) => v
    | none => .null

def fields? : Json → Option (List (Bytes × Json))
  | .null => some []
  | .object fields => some fields
  | _ => none

def items? : Json → Option (List Json)
  | .null => some []
  | .array items => some items
  | _ => none

def maybeText? : Json → Option (Option Bytes)
  | .null => some none
  | .string s => some (some s)
  | _ => none

def text? (j : Json) : Option Bytes := j.maybeText?.map (·.getD [])

def whole? (least greatest : Int) : Json → Option Int
  | .null => some 0
  | .number m 0 => if least ≤ m ∧ m ≤ greatest then some m else none
  | _ => none

/-- A whole number of 32 bits with a sign. -/
def signed? (j : Json) : Option Int := j.whole? (-2147483648) 2147483647

/-- A whole number of 32 bits without a sign. -/
def unsigned? (j : Json) : Option Nat := (j.whole? 0 4294967295).map Int.toNat

/-- A number or a text, as it names a piece of work. -/
def checkToken (j : Json) : Option Unit :=
  if j.signed?.isSome || j.text?.isSome then some () else none

end Json
end BridgeCall
