/-
  BridgeCall/Number/Binary.lean
  =============================
  **Binary floating point.**  A number is its bit pattern.  `Format.round`
  turns an exact non-negative fraction into the nearest pattern, ties to the
  even one; `Format.read` reads decimal and hexadecimal literals and the words
  for infinity and not-a-number; `Format.shortest` gives the fewest decimal
  digits that read back.
-/
import BridgeCall.Number.Integer

namespace BridgeCall.Number

/-- A binary interchange format: stored fraction bits and exponent bits. -/
structure Format where
  fraction : Nat
  exponent : Nat
  deriving DecidableEq, Repr

/-- The format of 32 bits. -/
def single : Format := ⟨23, 8⟩

/-- The format of 64 bits. -/
def double : Format := ⟨52, 11⟩

namespace Format

def bias (f : Format) : Nat := Nat.pow 2 (f.exponent - 1) - 1

def infinity (f : Format) : Nat := (Nat.pow 2 f.exponent - 1) * Nat.pow 2 f.fraction

/-- The bit pattern that the word for not-a-number stands for. -/
def nan (f : Format) : Nat :=
  f.infinity + Nat.pow 2 (f.fraction - 1) + (if f.fraction = 52 then 1 else 0)

def sign (f : Format) : Nat := Nat.pow 2 (f.fraction + f.exponent)

/-- The binary exponent of the last place of subnormal numbers. -/
def least (f : Format) : Int := 1 - (f.bias : Int) - f.fraction

/-- The quotient rounded to the nearest integer, ties to even. -/
def divEven (num den : Nat) : Nat :=
  let q := num / den
  let r := num % den
  if 2 * r < den then q
  else if den < 2 * r then q + 1
  else if q % 2 = 0 then q else q + 1

/-- The nearest pattern to `num / den` with `den > 0`; infinity when that is too large. -/
def round (f : Format) (num den : Nat) : Nat :=
  if num = 0 then 0
  else
    -- the exponent of the last place, for a quotient with one bit more than the fraction
    let guess : Int := (num.log2 : Int) - (den.log2 : Int) - f.fraction
    let at' (q : Int) : Nat × Nat :=
      if 0 ≤ q then (num, den * Nat.pow 2 q.toNat) else (num * Nat.pow 2 (-q).toNat, den)
    let below := let (n, d) := at' guess; n / d < Nat.pow 2 f.fraction
    let q := max f.least (if below then guess - 1 else guess)
    let (n, d) := at' q
    -- rounding up to the next power of two carries into the exponent by itself
    let m := divEven n d
    let stored := (q - f.least).toNat
    let pattern := if m < Nat.pow 2 f.fraction then m else stored * Nat.pow 2 f.fraction + m
    if f.infinity ≤ pattern then f.infinity else pattern

/-- Significand and binary exponent of a finite pattern without its sign. -/
def unpack (f : Format) (bits : Nat) : Nat × Int :=
  let frac := bits % Nat.pow 2 f.fraction
  let e := bits / Nat.pow 2 f.fraction % Nat.pow 2 f.exponent
  if e = 0 then (frac, f.least) else (Nat.pow 2 f.fraction + frac, f.least + (e - 1 : Nat))

end Format

/-! ### Reading -/

/-- The parts of a float literal: the digits as one number, how many of them follow the point. -/
structure Mantissa where
  value : Nat := 0
  places : Nat := 0
  dot : Bool := false
  any : Bool := false

/-- Reads digits, underscores and at most one point; gives the rest of the text. -/
def readMantissa (base : Nat) : Mantissa → Bytes → Mantissa × Bytes
  | m, [] => (m, [])
  | m, b :: bs =>
    if b = 0x5f then readMantissa base m bs
    else if b = 0x2e then
      if m.dot then (m, b :: bs) else readMantissa base { m with dot := true } bs
    else if Bytes.isDigit b || (base = 16 && Bytes.isHexDigit b) then
      readMantissa base
        { m with
          value := m.value * base + (digit? b).getD 0
          places := if m.dot then m.places + 1 else m.places
          any := true } bs
    else (m, b :: bs)

/-- Reads the digits of an exponent, which stops growing once it is past any format's range. -/
def readExponent : Nat → Bytes → Nat × Bytes
  | e, [] => (e, [])
  | e, b :: bs =>
    if b = 0x5f then readExponent e bs
    else if Bytes.isDigit b then
      readExponent (if e < 10000 then e * 10 + (b.toNat - 0x30) else e) bs
    else (e, b :: bs)

/-- The exponent part after its mark; none unless a digit follows the optional sign. -/
def exponentPart? (bs : Bytes) : Option (Int × Bytes) :=
  let negative := bs.head? = some 0x2d
  let ds := dropSign bs
  match ds with
  | b :: _ =>
    if Bytes.isDigit b then
      let (e, rest) := readExponent 0 ds
      some (if negative then -(e : Int) else e, rest)
    else none
  | [] => none

namespace Format

/-- The pattern of `m · 2^e2 · 10^e10`. -/
def scale (f : Format) (m : Nat) (e2 e10 : Int) : Nat :=
  f.round (m * Nat.pow 2 e2.toNat * Nat.pow 10 e10.toNat)
    (Nat.pow 2 (-e2).toNat * Nat.pow 10 (-e10).toNat)

/-- The words for infinity and not-a-number, in any case; only infinity takes a sign. -/
def special? (f : Format) (bs : Bytes) : Option Nat :=
  let low := Bytes.toLower bs
  let body := Bytes.toLower (dropSign bs)
  if body = "inf" ∨ body = "infinity" then
    some (f.infinity + if bs.head? = some 0x2d then f.sign else 0)
  else if low = "nan" then some f.nan
  else none

/-- Reads a float literal as the nearest pattern. -/
def read (f : Format) (bs : Bytes) : Except Trouble Nat :=
  match f.special? bs with
  | some v => .ok v
  | none =>
    let negative := bs.head? = some 0x2d
    let body := dropSign bs
    let (base, ds) : Nat × Bytes :=
      match body with
      | 0x30 :: m :: d :: rest => if isLetter 0x78 m then (16, d :: rest) else (10, body)
      | _ => (10, body)
    let (m, rest) := readMantissa base {} ds
    let mark : UInt8 := if base = 16 then 0x70 else 0x65
    let tail : Option (Int × Bytes) :=
      match rest with
      | c :: after => if isLetter mark c then exponentPart? after else some (0, rest)
      | [] => if base = 16 then none else some (0, [])
    match tail with
    | none => .error .form
    | some (e, rest) =>
      if !m.any || !rest.isEmpty then .error .form
      else if bs.contains 0x5f && !underscoresOk bs then .error .form
      else
        let bits :=
          if m.value = 0 then 0
          else if base = 16 then f.scale m.value (e - 4 * m.places) 0
          else
            let e10 := e - m.places
            let top : Int := (Bytes.ofNat m.value).length + e10
            if top < -400 then 0 else if 400 < top then f.infinity else f.scale m.value 0 e10
        if bits = f.infinity then .error .range
        else .ok (bits + if negative then f.sign else 0)

end Format

/-! ### Writing -/

/-- The order of `a · 2^e2` and `b · 10^e10`, exactly. -/
def compareScaled (a : Nat) (e2 : Int) (b : Nat) (e10 : Int) : Ordering :=
  compare (a * Nat.pow 2 e2.toNat * Nat.pow 10 (-e10).toNat)
    (b * Nat.pow 10 e10.toNat * Nat.pow 2 (-e2).toNat)

/-- A decimal `value · 10^exponent`. -/
structure Decimal where
  value : Nat
  exponent : Int
  deriving DecidableEq, Repr

namespace Format

/-- Whether a decimal rounds to the number `m · 2^e`: it lies between the midpoints to the
    neighbours, which themselves count when `m` is even. -/
def reads (f : Format) (m : Nat) (e : Int) (d : Decimal) : Bool :=
  -- midpoints in quarter units of the last place; the gap below a power of two is half as wide
  let narrow := m = Nat.pow 2 f.fraction && f.least < e
  let lo := 4 * m - (if narrow then 1 else 2)
  let hi := 4 * m + 2
  let a := compareScaled lo (e - 2) d.value d.exponent
  let b := compareScaled hi (e - 2) d.value d.exponent
  if m % 2 = 0 then a != .gt && b != .lt else a == .lt && b == .gt

/-- The two neighbours of `m · 2^e` on the grid of multiples of `10^g`. -/
def neighbours (m : Nat) (e g : Int) : Nat × Nat :=
  let num := m * Nat.pow 2 e.toNat * Nat.pow 10 (-g).toNat
  let den := Nat.pow 2 (-e).toNat * Nat.pow 10 g.toNat
  (num / den, if num % den = 0 then num / den else num / den + 1)

/-- Of two decimals on one grid, the one nearer to `m · 2^e`; the lower at a tie on even digits. -/
def nearer (m : Nat) (e : Int) (lo hi : Decimal) : Decimal :=
  -- compare the value with the midpoint of the two
  match compareScaled (2 * m) e (lo.value + hi.value) lo.exponent with
  | .lt => lo
  | .gt => hi
  | .eq => if lo.value % 2 = 0 then lo else hi

/-- Tries grids from the coarse to the fine. -/
def shortestFrom (f : Format) (m : Nat) (e : Int) : Nat → Int → Decimal
  | 0, g => ⟨(neighbours m e g).1, g⟩
  | fuel + 1, g =>
    let (a, b) := neighbours m e g
    let lo : Decimal := ⟨a, g⟩
    let hi : Decimal := ⟨b, g⟩
    match a ≠ 0 && f.reads m e lo, f.reads m e hi with
    | true, true => nearer m e lo hi
    | true, false => lo
    | false, true => hi
    | false, false => shortestFrom f m e fuel (g - 1)

/-- The fewest digits that read back as the finite, non-zero pattern `bits`. -/
def shortest (f : Format) (bits : Nat) : Decimal :=
  let (m, e) := f.unpack bits
  -- one grid coarser than the leading decimal digit
  let size : Int := (m.log2 : Int) + e
  let top : Int := size * 30103 / 100000 + 2
  shortestFrom f m e 30 top

/-- A decimal without trailing zeros. -/
def strip : Nat → Decimal → Decimal
  | 0, d => d
  | fuel + 1, d =>
    if d.value ≠ 0 ∧ d.value % 10 = 0 then strip fuel ⟨d.value / 10, d.exponent + 1⟩ else d

/-- A number in the shortest form: positional unless the exponent is below -4 or at least 6,
    then with a mantissa, `e`, a sign and at least two digits of the exponent. -/
def write (f : Format) (bits : Nat) : Bytes :=
  let negative := f.sign ≤ bits
  let abs := bits % f.sign
  if f.infinity < abs then "NaN"
  else if abs = f.infinity then if negative then "-Inf" else "+Inf"
  else
    let minus : Bytes := if negative then "-" else ""
    if abs = 0 then minus ++ ("0" : Bytes)
    else
      let d := strip 400 (f.shortest abs)
      let ds := Bytes.ofNat d.value
      let exp : Int := d.exponent + ds.length - 1
      let body : Bytes :=
        if exp < -4 ∨ 6 ≤ exp then
          let frac := ds.drop 1
          let mant := ds.take 1 ++ (if frac.isEmpty then [] else (0x2e : UInt8) :: frac)
          let mag := Bytes.ofNat exp.natAbs
          let mag := if mag.length < 2 then (0x30 : UInt8) :: mag else mag
          mant ++ ("e" : Bytes) ++ (if exp < 0 then ("-" : Bytes) else "+") ++ mag
        else if exp < 0 then
          ("0." : Bytes) ++ List.replicate ((-exp).toNat - 1) 0x30 ++ ds
        else if 0 ≤ d.exponent then ds ++ List.replicate d.exponent.toNat 0x30
        else
          let whole := (exp + 1).toNat
          ds.take whole ++ (0x2e : UInt8) :: ds.drop whole
      minus ++ body

end Format
end BridgeCall.Number
