/-
  BridgeCall/Yaml/Atom.lean
  =========================
  **What a scalar stands for.**  A plain scalar is a truth value, nothing, a number
  or a time when it looks like one, and text otherwise.  A tag says what it must
  be; a scalar with a tag of another family is text.
-/
import BridgeCall.Number.Integer
import BridgeCall.Number.Binary
import BridgeCall.Yaml.Token

namespace BridgeCall.Yaml

inductive Family where
  | text
  | bool
  | null
  | int
  | float
  | time
  deriving DecidableEq, Repr

/-- What a scalar stands for. A number with a fraction is its bit pattern, and a time its text. -/
inductive Atom where
  | text (bytes : Bytes)
  | bool (value : Bool)
  | null
  | int (value : Int)
  | float (bits : Nat)
  | time (bytes : Bytes)
  deriving DecidableEq, Repr, Inhabited

namespace Atom

def family : Atom → Family
  | .text _ => .text
  | .bool _ => .bool
  | .null => .null
  | .int _ => .int
  | .float _ => .float
  | .time _ => .time

/-- Whether two atoms are the same key. Zeros of either sign are, and what is not a number is not
    even the same as itself. -/
def isSame : Atom → Atom → Bool
  | .float a, .float b =>
    let f := Number.double
    a % f.sign ≤ f.infinity && (a = b || (a % f.sign = 0 && b % f.sign = 0))
  | a, b => a = b

end Atom

def shortTag (tag : Bytes) : Bytes :=
  match Bytes.stripLead "tag:yaml.org,2002:" tag with
  | some rest => "!!" ++ rest
  | none => tag

def Family.ofTag? (tag : Bytes) : Option Family :=
  [(("!!str" : Bytes), Family.text), ("!!bool", .bool), ("!!null", .null), ("!!int", .int),
    ("!!float", .float), ("!!timestamp", .time)].lookup tag

/-! ### Times -/

/-- One or two digits at the front of a text, as a number. -/
def shortNumber? (bs : Bytes) : Option (Nat × Bytes) :=
  match (bs.takeWhile Bytes.isDigit).take 2 with
  | [] => none
  | ds => some (ds.foldl (fun n d => 10 * n + (d.toNat - 0x30)) 0, bs.drop ds.length)

def daysIn (year month : Nat) : Nat :=
  if month = 2 then
    if (year % 4 = 0 && year % 100 ≠ 0) || year % 400 = 0 then 29 else 28
  else if [4, 6, 9, 11].contains month then 30
  else 31

/-- A day: a year of four digits, a month and a day. -/
def date? (bs : Bytes) : Option Bytes := do
  let ds := bs.takeWhile Bytes.isDigit
  if ds.length ≠ 4 then none
  else
    let year := ds.foldl (fun n d => 10 * n + (d.toNat - 0x30)) 0
    let (month, rest) ← shortNumber? (← Bytes.stripLead "-" (bs.drop 4))
    let (day, rest) ← shortNumber? (← Bytes.stripLead "-" rest)
    if 1 ≤ month && month ≤ 12 && 1 ≤ day && day ≤ daysIn year month then some rest else none

/-- A time of the day, with a fraction of the second perhaps. -/
def clock? (bs : Bytes) : Option Bytes := do
  let (hour, rest) ← shortNumber? bs
  let (minute, rest) ← shortNumber? (← Bytes.stripLead ":" rest)
  let (second, rest) ← shortNumber? (← Bytes.stripLead ":" rest)
  if 24 ≤ hour || 60 ≤ minute || 60 ≤ second then none
  else match rest with
    | p :: d :: more =>
      if (p = 0x2e || p = 0x2c) && Bytes.isDigit d then some (more.dropWhile Bytes.isDigit)
      else some rest
    | _ => some rest

/-- The distance from the zero meridian. -/
def isZone (bs : Bytes) : Bool :=
  match bs with
  | [0x5a] => true
  | [s, a, b, 0x3a, c, d] =>
    (s = 0x2b || s = 0x2d) && [a, b, c, d].all Bytes.isDigit &&
      10 * (a.toNat - 0x30) + (b.toNat - 0x30) ≤ 24 && 10 * (c.toNat - 0x30) + (d.toNat - 0x30) ≤ 60
  | _ => false

/-- Whether a text is a day, or a day and a time. Spaces between them stand for a time without a
    zone. -/
def isTime (bs : Bytes) : Bool :=
  match date? bs with
  | none => false
  | some [] => true
  | some (b :: rest) =>
    if b = 0x20 then (clock? (rest.dropWhile (· = 0x20))).any List.isEmpty
    else (b = 0x54 || b = 0x74) && (clock? rest).any isZone

/-! ### Numbers -/

/-- An integer of 64 bits with a sign after its base mark. -/
def signedAfterMark? (bs : Bytes) : Option Int := do
  let (base, rest) ←
    match Bytes.stripLead "0b" bs with
    | some rest => some (2, rest)
    | none => (Bytes.stripLead "0o" bs).map fun rest => (8, rest)
  let digits := Number.dropSign rest
  if digits.isEmpty then none
  else
    let v ← (Number.readDigits base 0x8000000000000000 0 digits).toOption
    if rest.head? = some 0x2d then some (-(v : Int))
    else if v < 0x8000000000000000 then some (v : Int)
    else none

/-- An integer of 64 bits, signed or not. -/
def integer? (bs : Bytes) : Option Int :=
  match Number.readSigned 64 bs, Number.readUnsigned 64 bs with
  | .ok n, _ => some n
  | .error _, .ok n => some (n : Int)
  | .error _, .error _ => signedAfterMark? bs

/-- What follows the exponent of a number, which may be missing. -/
def afterExponent (bs : Bytes) : Bytes :=
  match bs with
  | e :: rest =>
    if e = 0x65 || e = 0x45 then
      let digits := Number.dropSign rest
      if digits.head?.any Bytes.isDigit then digits.dropWhile Bytes.isDigit else bs
    else bs
  | [] => []

/-- Whether a text has the form of a number with point and exponent. -/
def isDecimal (bs : Bytes) : Bool :=
  match Number.dropSign bs with
  | 0x2e :: d :: rest => Bytes.isDigit d && (afterExponent (rest.dropWhile Bytes.isDigit)).isEmpty
  | d :: rest =>
    Bytes.isDigit d &&
      match rest.dropWhile Bytes.isDigit with
      | 0x2e :: more => (afterExponent (more.dropWhile Bytes.isDigit)).isEmpty
      | more => (afterExponent more).isEmpty
  | [] => false

def float? (bs : Bytes) : Option Nat := (Number.double.read bs).toOption

/-! ### Scalars -/

def words : List (Bytes × Atom) :=
  let f := Number.double
  let all (ws : List String) (a : Atom) := ws.map fun w => (Bytes.ofString w, a)
  all ["true", "True", "TRUE"] (.bool true) ++ all ["false", "False", "FALSE"] (.bool false) ++
  all ["", "~", "null", "Null", "NULL"] .null ++ all [".nan", ".NaN", ".NAN"] (.float f.nan) ++
  all [".inf", ".Inf", ".INF", "+.inf", "+.Inf", "+.INF"] (.float f.infinity) ++
  all ["-.inf", "-.Inf", "-.INF"] (.float (f.infinity + f.sign))

/-- What a scalar looks like. A time is looked for unless something else is wanted. -/
def Atom.ofLooks (times : Bool) (bs : Bytes) : Atom :=
  match words.lookup bs with
  | some a => a
  | none =>
    match bs with
    | [] => .null
    | b :: _ =>
      if b = 0x2e then ((float? bs).map Atom.float).getD (.text bs)
      else if Bytes.isDigit b || b = 0x2b || b = 0x2d then
        let digits := bs.filter (· ≠ 0x5f)
        if times && isTime bs then .time bs
        else match integer? digits, if isDecimal digits then float? digits else none with
          | some n, _ => .int n
          | none, some f => .float f
          | none, none => .text bs
      else .text bs

/-- An integer as a number with a fraction; one that takes all bits without a sign is refused. -/
def Atom.floatOfInt (n : Int) : Except Fault Atom :=
  if n < 0x8000000000000000 then
    let f := Number.double
    .ok (.float (f.round n.natAbs 1 + if n < 0 then f.sign else 0))
  else .error .tag

/-- A scalar of the given family. An integer will do for a number with a fraction. -/
def Atom.ofFamily (f : Family) (text : Bytes) : Except Fault Atom :=
  let a := Atom.ofLooks (f = .time) text
  if a.family = f then .ok a
  else match f, a with
    | .float, .int n => Atom.floatOfInt n
    | _, _ => .error .tag

/-! ### Text in base 64 -/

/-- The value of a digit in base 64. -/
def base64Digit? (b : UInt8) : Option Nat :=
  if 0x41 ≤ b && b ≤ 0x5a then some (b.toNat - 0x41)
  else if 0x61 ≤ b && b ≤ 0x7a then some (b.toNat - 0x61 + 26)
  else if Bytes.isDigit b then some (b.toNat - 0x30 + 52)
  else if b = 0x2b then some 62
  else if b = 0x2f then some 63
  else none

/-- Reads groups of four digits; the last may end in one or two equals signs. -/
def base64Groups? : Bytes → Option Bytes
  | [] => some []
  | [a, b, 0x3d, 0x3d] => do
    let n := 64 * (← base64Digit? a) + (← base64Digit? b)
    some [(n / 16).toUInt8]
  | [a, b, c, 0x3d] => do
    let n := 4096 * (← base64Digit? a) + 64 * (← base64Digit? b) + (← base64Digit? c)
    some [(n / 1024).toUInt8, (n / 4 % 256).toUInt8]
  | a :: b :: c :: d :: rest => do
    let n := 262144 * (← base64Digit? a) + 4096 * (← base64Digit? b) + 64 * (← base64Digit? c)
      + (← base64Digit? d)
    some ((n / 65536).toUInt8 :: (n / 256 % 256).toUInt8 :: (n % 256).toUInt8 ::
      (← base64Groups? rest))
  | _ => none

/-- Reads base 64; line breaks do not count. -/
def base64? (bs : Bytes) : Option Bytes := base64Groups? (bs.filter fun b => b ≠ 0x0a && b ≠ 0x0d)

/-- What a scalar stands for, given its tag in short form. A tag of no family leaves it text. -/
def Atom.ofScalar (tag : Bytes) (plain : Bool) (text : Bytes) : Except Fault Atom :=
  if tag.isEmpty || tag = ("!" : Bytes) then
    .ok (if plain then Atom.ofLooks true text else .text text)
  else if tag = ("!!binary" : Bytes) then
    match base64? text with
    | some bs => .ok (.text bs)
    | none => .error .tag
  else match Family.ofTag? tag with
    | none | some .text => .ok (.text text)
    | some f => Atom.ofFamily f text

end BridgeCall.Yaml
