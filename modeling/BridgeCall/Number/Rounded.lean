/-
  BridgeCall/Number/Rounded.lean
  ==============================
  **Arithmetic with fifty-three bits.**  A number is `m · 2^e`.  Sums and products
  are exact; `round` gives the nearest number whose significand has at most
  fifty-three bits, ties to the even one.  Every rounded operation is an exact one
  and a rounding, and `fma` rounds a product and a sum once.

  The logarithm and the exponential are polynomials in such numbers, so that they
  give the same last bits wherever they are computed.
-/
import BridgeCall.Number.Binary

namespace BridgeCall.Number

/-- The number `m · 2^e`. -/
structure Rounded where
  m : Int
  e : Int
  deriving DecidableEq, Repr

namespace Rounded

/-- How many bits a significand has. -/
def precision : Nat := 53

def plus (x y : Rounded) : Rounded :=
  let e := min x.e y.e
  ⟨x.m * (Nat.pow 2 (x.e - e).toNat : Nat) + y.m * (Nat.pow 2 (y.e - e).toNat : Nat), e⟩

def times (x y : Rounded) : Rounded := ⟨x.m * y.m, x.e + y.e⟩

/-- The number with the other sign. -/
def neg (x : Rounded) : Rounded := ⟨-x.m, x.e⟩

/-- The nearest number with a significand of fifty-three bits, ties to the even one. -/
def round (x : Rounded) : Rounded :=
  let size := if x.m = 0 then 0 else x.m.natAbs.log2 + 1
  let k := size - precision
  if k = 0 then x else ⟨x.m.sign * Format.divEven x.m.natAbs (Nat.pow 2 k), x.e + k⟩

def add (x y : Rounded) : Rounded := (x.plus y).round

def sub (x y : Rounded) : Rounded := (x.plus y.neg).round

def mul (x y : Rounded) : Rounded := (x.times y).round

/-- The product of two numbers and a third added to it, rounded once. -/
def fma (x y z : Rounded) : Rounded := ((x.times y).plus z).round

/-- The rounded quotient. The quotient is cut off far behind the last bit, and a last one says whether
    anything was cut. -/
def div (x y : Rounded) : Rounded :=
  let shift := 2 * precision + y.m.natAbs.log2
  let n := x.m.natAbs * Nat.pow 2 shift
  let q := 2 * (n / y.m.natAbs) + (if n % y.m.natAbs = 0 then 0 else 1)
  (⟨x.m.sign * y.m.sign * q, x.e - y.e - shift - 1⟩ : Rounded).round

instance : Add Rounded := ⟨add⟩
instance : Sub Rounded := ⟨sub⟩
instance : Mul Rounded := ⟨mul⟩
instance : Div Rounded := ⟨div⟩
instance (n : Nat) : OfNat Rounded n := ⟨⟨n, 0⟩⟩

/-- Whether a number is at most another one. -/
def le (x y : Rounded) : Bool := 0 ≤ (y.plus x.neg).m

def ofNat (n : Nat) : Rounded := round ⟨n, 0⟩

/-- The number with this pattern of 64 bits. -/
def ofBits (bits : Nat) : Rounded :=
  let (m, e) := double.unpack bits
  ⟨m, e⟩

/-- The number times a power of two. -/
def scale (x : Rounded) (k : Int) : Rounded := ⟨x.m, x.e + k⟩

/-- The nearest integer, ties to the even one. -/
def toNearest (x : Rounded) : Int :=
  if 0 ≤ x.e then x.m * (Nat.pow 2 x.e.toNat : Nat)
  else x.m.sign * Format.divEven x.m.natAbs (Nat.pow 2 (-x.e).toNat)

def halfRoot : Rounded := ofBits 0x3FE6A09E667F3BCD

/-- The coefficients of the logarithm at the odd places, highest first. -/
def oddTerms : List Rounded :=
  [ofBits 0x3FC2F112DF3E5244, ofBits 0x3FC7466496CB03DE, ofBits 0x3FD2492494229359,
    ofBits 0x3FE5555555555593]

/-- The coefficients of the logarithm at the even places, highest first. -/
def evenTerms : List Rounded :=
  [ofBits 0x3FC39A09D078C69F, ofBits 0x3FCC71C51D8E78AF, ofBits 0x3FD999999997FA04]

/-- The polynomial with the given coefficients, highest first. -/
def polynomial (x : Rounded) : List Rounded → Rounded
  | [] => 0
  | c :: cs => cs.foldl (fun p c => c + x * p) c

/-- The natural logarithm of a positive number: the number is `2^k · (1 + f)` with `f` small, and
    the logarithm of the second factor is a polynomial in `f / (2 + f)`. -/
def log (x : Rounded) : Rounded :=
  let size : Int := x.m.natAbs.log2 + 1
  let fraction : Rounded := ⟨x.m, -size⟩
  let small := !halfRoot.le fraction
  let k : Rounded := ⟨x.e + size - (if small then 1 else 0), 0⟩
  let f := (if small then fraction.scale 1 else fraction) - 1
  let s := f / (2 + f)
  let s2 := s * s
  let s4 := s2 * s2
  let r := s2 * polynomial s4 oddTerms + s4 * polynomial s4 evenTerms
  let half := f.scale (-1) * f
  k * ofBits 0x3FE62E42FEE00000
    - ((half - (s * (half + r) + k * ofBits 0x3DEA39EF35793C76)) - f)

def termOf (n : Nat) : Rounded := 1 / ofNat n

/-- The coefficients of the exponential, highest first. -/
def expTerms : List Rounded := [40320, 5040, 720, 120, 24, 6, 2, 1].map termOf

/-- The exponential minus one of twice a number, from that of the number. -/
def doubled (x : Rounded) : Rounded := x * (x + 2)

/-- The exponential: the number is `b · log 2 + 16 · r` with `r` small; a polynomial in `r` is
    squared four times. -/
def exp (x : Rounded) : Rounded :=
  let b := (x * ofBits 0x3FF71547652B82FE).toNearest
  let r := fma (neg (ofBits 0x3FE62E42FEFA3000)) ⟨b, 0⟩ x
  let r := (fma (neg (ofBits 0x3D53DE6AF278ECE6)) ⟨b, 0⟩ r).scale (-4)
  let p := match expTerms with
    | [] => 0
    | c :: cs => cs.foldl (fun p c => fma p r c) c
  let y := doubled (doubled (doubled (r * p)))
  (fma y (y + 2) 1).scale b

end Rounded
end BridgeCall.Number
