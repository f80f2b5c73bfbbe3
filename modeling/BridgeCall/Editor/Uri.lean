/-
  BridgeCall/Editor/Uri.lean
  ==========================
  **Names of documents.**  An editor names a document by a file URI; any other name
  is taken as a path.  The parts of a URI are checked although only its path counts.
-/
import BridgeCall.Files.Path

namespace BridgeCall.Uri

/-- An ASCII letter or digit. -/
def isAlnum (b : UInt8) : Bool :=
  (0x61 ≤ b && b ≤ 0x7a) || (0x41 ≤ b && b ≤ 0x5a) || Bytes.isDigit b

def among (set : String) (b : UInt8) : Bool := (Bytes.ofString set).contains b

def isHostByte (b : UInt8) : Bool := isAlnum b || among "!$&'()*+,;=:[]<>\"-_.~" b

/-- A byte that the name and password in front of a host can hold. -/
def isUserByte (b : UInt8) : Bool := isAlnum b || among "-._:~!$&'()*+,;=%@" b

/-- The text with its escapes resolved. `plain` says which bytes can stand as they are and
    `escaped` which can be escaped. -/
def unescape (plain escaped : UInt8 → Bool) : Bytes → Option Bytes
  | [] => some []
  | 0x25 :: a :: b :: rest => do
    let c := ((← Bytes.hexValue? a) * 16 + (← Bytes.hexValue? b)).toUInt8
    if escaped c then return c :: (← unescape plain escaped rest) else none
  | c :: rest => if c ≠ 0x25 && plain c then (unescape plain escaped rest).map (c :: ·) else none

def unescapeAny : Bytes → Option Bytes := unescape (fun _ => true) (fun _ => true)

/-- Escapes in a host stand for bytes beyond ASCII, or for the percent sign. -/
def unescapeHost : Bytes → Option Bytes :=
  unescape (fun b => 0x80 ≤ b || isHostByte b) (fun b => 0x80 ≤ b || b = 0x25)

/-- Escapes in the zone of an address stand for what a host can hold, too, and for blanks. -/
def unescapeZone : Bytes → Option Bytes :=
  unescape (fun b => 0x80 ≤ b || isHostByte b) (fun b => b = 0x25 || b = 0x20 || isHostByte b)

/-- The text before and after the last occurrence of a byte. -/
def cutLast (b : UInt8) (bs : Bytes) : Option (Bytes × Bytes) :=
  if bs.contains b then
    let after := (bs.reverse.takeWhile (· ≠ b)).reverse
    some (bs.take (bs.length - after.length - 1), after)
  else none

def checkPort (port : Bytes) : Option Unit := if port.all Bytes.isDigit then some () else none

/-- Checks a host in brackets, with the text that follows the opening one. -/
def checkAddress (host : Bytes) : Option Unit := do
  let (inner, after) ← cutLast 0x5d host
  match after with
  | [] => pure ()
  | 0x3a :: port => checkPort port
  | _ => none
  match Bytes.cut "%25" inner with
  | none => let _ ← unescapeHost inner
  | some (address, zone) =>
    let _ ← unescapeHost address
    let _ ← unescapeZone zone

def checkHost (host : Bytes) : Option Unit := do
  match host with
  | 0x5b :: rest => checkAddress rest
  | _ =>
    if let some (_, port) := cutLast 0x3a host then checkPort port
    let _ ← unescapeHost host

/-- Checks what stands between the slashes and the path. -/
def checkAuthority (authority : Bytes) : Option Unit :=
  match cutLast 0x40 authority with
  | none => checkHost authority
  | some (user, host) => do
    checkHost host
    if user.all isUserByte then let _ ← unescapeAny user else none

/-- The path in what follows the scheme and the slashes of a URI. -/
def path? (rest : Bytes) : Option Bytes := do
  let (body, fragment) := (Bytes.cut "#" rest).getD (rest, [])
  if body.any fun b => b < 0x20 || b = 0x7f then none
  let (place, _) := (Bytes.cut "?" body).getD (body, [])
  let authority := place.takeWhile (· ≠ 0x2f)
  checkAuthority authority
  let path ← unescapeAny (place.drop authority.length)
  let _ ← unescapeAny fragment
  return Path.clean path

/-- The path of a document, unless its name is a malformed file URI. -/
def toPath (uri : Bytes) : Option Bytes :=
  match Bytes.stripLead "file://" uri with
  | some rest => path? rest
  | none => some uri

end BridgeCall.Uri
