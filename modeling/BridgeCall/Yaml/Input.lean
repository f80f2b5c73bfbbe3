/-
  BridgeCall/Yaml/Input.lean
  ==========================
  **The characters of a settings file.**  A file is read block by block, and a block
  is decoded as a whole once a character of it is needed.  What is wrong with a
  block that is never needed does not count.  Past the end there are null
  characters, which a file itself must not hold.
-/
import BridgeCall.Yaml.Token

namespace BridgeCall.Yaml

/-- The number of bytes in the UTF-8 character that a byte starts; zero when it starts none. -/
def leadSize (b : UInt8) : Nat :=
  if b < 0x80 then 1
  else if 0xc0 ≤ b && b < 0xe0 then 2
  else if 0xe0 ≤ b && b < 0xf0 then 3
  else if 0xf0 ≤ b && b < 0xf8 then 4
  else 0

/-- A byte of a UTF-8 character after its first. -/
def isTrail (b : UInt8) : Bool := 0x80 ≤ b && b < 0xc0

def isTextChar (c : Nat) : Bool :=
  c = 0x09 || c = 0x0a || c = 0x0d || (0x20 ≤ c && c ≤ 0x7e) || c = 0x85 ||
    (0xa0 ≤ c && c ≤ 0xd7ff) || (0xe000 ≤ c && c ≤ 0xfffd) || (0x10000 ≤ c && c ≤ 0x10ffff)

/-! ### Decoding -/

/-- How characters are written as bytes; UTF-16 has the high byte of a unit first or last. -/
inductive Encoding where
  | utf8
  | utf16 (highFirst : Bool)
  deriving DecidableEq, Repr

inductive Front where
  /-- A character, with the number of its bytes. -/
  | char (code width : Nat)
  /-- The start of a character that goes on in the next block. -/
  | part
  /-- No character of a text. -/
  | bad
  deriving DecidableEq, Repr

namespace Encoding

/-- The encoding that the first bytes of a file tell, with the number of bytes that tell it. -/
def ofStart : Bytes → Encoding × Nat
  | 0xff :: 0xfe :: _ => (.utf16 false, 2)
  | 0xfe :: 0xff :: _ => (.utf16 true, 2)
  | 0xef :: 0xbb :: 0xbf :: _ => (.utf8, 3)
  | _ => (.utf8, 0)

def frontOf (code width : Nat) : Front := if isTextChar code then .char code width else .bad

/-- The front of a block of UTF-8. A character must not take more bytes than it needs. -/
def front8 : Bytes → Front
  | [] => .part
  | b :: rest =>
    let width := leadSize b
    let trail := rest.take (width - 1)
    if width = 0 then .bad
    else if trail.length + 1 < width then .part
    else if !trail.all isTrail then .bad
    else
      let lead := if width = 1 then b.toNat else b.toNat % Nat.pow 2 (7 - width)
      let code := trail.foldl (fun n t => 64 * n + t.toNat % 64) lead
      let least := if width = 2 then 0x80 else if width = 3 then 0x800
        else if width = 4 then 0x10000 else 0
      if code < least then .bad else frontOf code width

/-- A unit of 16 bits. -/
def unit16 (highFirst : Bool) (a b : UInt8) : Nat :=
  if highFirst then 256 * a.toNat + b.toNat else 256 * b.toNat + a.toNat

/-- The front of a block of UTF-16. A surrogate must not be without its partner. -/
def front16 (highFirst : Bool) : Bytes → Front
  | a :: b :: rest =>
    let u := unit16 highFirst a b
    if 0xdc00 ≤ u && u < 0xe000 then .bad
    else if 0xd800 ≤ u && u < 0xdc00 then
      match rest with
      | c :: d :: _ =>
        let v := unit16 highFirst c d
        if 0xdc00 ≤ v && v < 0xe000 then
          frontOf (0x10000 + 0x400 * (u - 0xd800) + (v - 0xdc00)) 4
        else .bad
      | _ => .part
    else frontOf u 2
  | _ => .part

def front : Encoding → Bytes → Front
  | .utf8 => front8
  | .utf16 highFirst => front16 highFirst

/-- The characters of a block, with the bytes of one that goes on in the next block; the last block
    of a file must not have such. `acc` are the characters before, the last one first. -/
def decode (e : Encoding) (isLast : Bool) :
    Nat → List Char → Bytes → Except Fault (List Char × Bytes)
  | 0, acc, bs => .ok (acc.reverse, bs)
  | fuel + 1, acc, bs =>
    if bs.isEmpty then .ok (acc.reverse, [])
    else match e.front bs with
      | .char code width => decode e isLast fuel (Char.ofNat code :: acc) (bs.drop width)
      | .part => if isLast then .error .encoding else .ok (acc.reverse, bs)
      | .bad => .error .encoding

end Encoding

/-! ### Blocks -/

/-- A file that is being read: the characters that are ready, the bytes of the block that are not
    decoded, and the bytes after it. -/
structure Input where
  ready : List Char := []
  block : Bytes := []
  rest : Bytes
  encoding : Option Encoding := none
  ended : Bool := false
  /-- Whether the characters that were ready after the last block started with a byte order mark. -/
  marked : Bool := false

namespace Input

def blockSize : Nat := 512

def byteOrderMark : Char := Char.ofNat 0xfeff

/-- The input of a file; an empty file is one empty line. -/
def ofBytes (bytes : Bytes) : Input := { rest := if bytes.isEmpty then [0x0a] else bytes }

/-- Fills the block, or notes the end. -/
def fill (i : Input) : Input :=
  if i.rest.isEmpty then { i with ended := true }
  else
    let room := blockSize - i.block.length
    { i with block := i.block ++ i.rest.take room, rest := i.rest.drop room }

/-- Finds the encoding out, which takes three bytes when there are so many. -/
def start (i : Input) : Input :=
  match i.encoding with
  | some _ => i
  | none =>
    let i := i.fill
    let i := if i.block.length < 3 then i.fill else i
    let (e, size) := Encoding.ofStart i.block
    { i with encoding := some e, block := i.block.drop size }

/-- Whether `n` characters are ready. -/
def has (i : Input) (n : Nat) : Bool := n = 0 || !(i.ready.drop (n - 1)).isEmpty

/-- Decodes blocks until `n` characters are ready or the end is met. A block that is there already
    comes first. -/
def load (n : Nat) : Nat → Bool → Input → Except Fault Input
  | 0, _, i => .ok i
  | fuel + 1, isFirst, i =>
    if i.has n then .ok i
    else
      let i := if isFirst && !i.block.isEmpty then i else i.fill
      match (i.encoding.getD .utf8).decode i.ended (i.block.length + 1) [] i.block with
      | .error f => .error f
      | .ok (cs, block) =>
        if i.ended then .ok { i with ready := i.ready ++ cs ++ [nul], block }
        else load n fuel false { i with ready := i.ready ++ cs, block }

/-- Makes `n` characters ready. -/
def need (n : Nat) (i : Input) : Except Fault Input :=
  if i.has n then .ok i
  else
    let i := i.start
    match load n (i.rest.length + 3) true i with
    | .error f => .error f
    | .ok i => .ok { i with marked := i.ready.head? = some byteOrderMark }

end Input
end BridgeCall.Yaml
