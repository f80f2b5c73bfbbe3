/-
  BridgeCall/Text/Quoted.lean
  ===========================
  **Quoted text.**  `quote` writes a text between double quotes: printable
  characters stand for themselves, the usual control characters have a letter,
  and everything else is written by number.  `unquoteChar?` reads one possibly
  escaped character back, and `unquote?` a whole literal in any of the three
  quote styles.
-/
import BridgeCall.Text.Utf8
import BridgeCall.Text.Printable

namespace BridgeCall.Quoted

def controlLetter? (c : Nat) : Option UInt8 :=
  match c with
  | 0x07 => some 0x61
  | 0x08 => some 0x62
  | 0x0c => some 0x66
  | 0x0a => some 0x6e
  | 0x0d => some 0x72
  | 0x09 => some 0x74
  | 0x0b => some 0x76
  | _ => none

/-- A code point inside quotes of the kind `q`. -/
def escape (q : UInt8) (c : Nat) : Bytes :=
  if c = q.toNat ∨ c = 0x5c then [0x5c, c.toUInt8]
  else if Unicode.isPrintable c then Utf8.encode c
  else match controlLetter? c with
    | some l => [0x5c, l]
    | none =>
      if c < 0x20 ∨ c = 0x7f then [0x5c, 0x78] ++ Bytes.hex 2 c
      else
        let c := if Utf8.isScalar c then c else Utf8.replacement
        if c < 0x10000 then [0x5c, 0x75] ++ Bytes.hex 4 c
        else [0x5c, 0x55] ++ Bytes.hex 8 c

/-- One decoded character inside double quotes; a byte that is no UTF-8 is written by number. -/
def escapeRune : Nat × Bytes → Bytes
  | (c, [b]) => if c = Utf8.replacement then [0x5c, 0x78] ++ Bytes.hex 2 b.toNat else escape 0x22 c
  | (c, _) => escape 0x22 c

def quote (bs : Bytes) : Bytes := 0x22 :: (Utf8.runes bs).flatMap escapeRune ++ [0x22]

/-- A single code point between single quotes. -/
def quoteChar (c : Nat) : Bytes :=
  0x27 :: escape 0x27 (if Utf8.isScalar c then c else Utf8.replacement) ++ [0x27]

/-- What an escape or a plain character stands for: a single byte or a code point. -/
inductive Unit where
  | byte (b : Nat)
  | point (c : Nat)
  deriving DecidableEq, Repr

def Unit.value : Unit → Nat
  | .byte b => b
  | .point c => c

def Unit.bytes : Unit → Bytes
  | .byte b => [b.toUInt8]
  | .point c => Utf8.encode c

/-- The number written by exactly `n` hexadecimal digits, with the text after them. -/
def hexDigits? : Nat → Nat → Bytes → Option (Nat × Bytes)
  | 0, acc, bs => some (acc, bs)
  | n + 1, acc, b :: bs => (Bytes.hexValue? b).bind fun d => hexDigits? n (acc * 16 + d) bs
  | _ + 1, _, [] => none

def octal? (b : UInt8) : Option Nat := if 0x30 ≤ b && b ≤ 0x37 then some (b.toNat - 0x30) else none

/-- The character after a backslash, inside quotes of the kind `q`. -/
def unescape? (q : UInt8) : Bytes → Option (Unit × Bytes)
  | [] => none
  | c :: bs =>
    match c with
    | 0x61 => some (.byte 0x07, bs)
    | 0x62 => some (.byte 0x08, bs)
    | 0x66 => some (.byte 0x0c, bs)
    | 0x6e => some (.byte 0x0a, bs)
    | 0x72 => some (.byte 0x0d, bs)
    | 0x74 => some (.byte 0x09, bs)
    | 0x76 => some (.byte 0x0b, bs)
    | 0x78 => (hexDigits? 2 0 bs).map fun (v, r) => (.byte v, r)
    | 0x75 => (hexDigits? 4 0 bs).bind fun (v, r) =>
        if Utf8.isScalar v then some (.point v, r) else none
    | 0x55 => (hexDigits? 8 0 bs).bind fun (v, r) =>
        if Utf8.isScalar v then some (.point v, r) else none
    | 0x5c => some (.byte 0x5c, bs)
    | _ =>
      if c = 0x27 ∨ c = 0x22 then if c = q then some (.byte c.toNat, bs) else none
      else match octal? c, bs with
        | some a, d :: e :: r =>
          match octal? d, octal? e with
          | some x, some y =>
            let v := (a * 8 + x) * 8 + y
            if v ≤ 255 then some (.byte v, r) else none
          | _, _ => none
        | _, _ => none

/-- Reads one possibly escaped character inside quotes of the kind `q`. -/
def unquoteChar? (q : UInt8) : Bytes → Option (Unit × Bytes)
  | [] => none
  | c :: bs =>
    if c = q ∧ (q = 0x27 ∨ q = 0x22) then none
    else if 0x80 ≤ c then
      let r := Utf8.decode (c :: bs)
      some (.point r.1, (c :: bs).drop r.2)
    else if c ≠ 0x5c then some (.byte c.toNat, bs)
    else unescape? q bs

/-- The contents of a double-quoted literal up to its closing quote, which must end the text. -/
def unquoteBody? : Nat → Bytes → Option Bytes
  | 0, _ => none
  | _ + 1, [] => none
  | _ + 1, [0x22] => some []
  | fuel + 1, bs =>
    if bs.head? = some 0x0a then none
    else (unquoteChar? 0x22 bs).bind fun (u, r) => (unquoteBody? fuel r).map (u.bytes ++ ·)

/-- The text a string literal stands for: raw between back quotes, where carriage returns are
    dropped, or escaped between double quotes. -/
def unquote? (lit : Bytes) : Option Bytes :=
  match lit with
  | 0x60 :: rest =>
    match rest.reverse with
    | 0x60 :: body =>
      if body.contains 0x60 then none else some (body.reverse.filter (· ≠ 0x0d))
    | _ => none
  | 0x22 :: rest => unquoteBody? (rest.length + 1) rest
  | _ => none

end BridgeCall.Quoted
