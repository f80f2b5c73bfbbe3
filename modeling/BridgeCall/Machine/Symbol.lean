/-
  BridgeCall/Machine/Symbol.lean
  ==============================
  **Names of native functions.**  The machine looks a native method up under a
  name made of ASCII letters, digits and underscores: an underscore separates
  components, and everything else is escaped with an underscore and digits.
-/
import BridgeCall.Machine.ClassFile

namespace BridgeCall

namespace Symbol

/-- The escape of one code point. -/
def mangleChar (c : Nat) : Bytes :=
  if c = 0x2f ∨ c = 0x2e then "_"
  else if c = 0x5f then "_1"
  else if c = 0x3b then "_2"
  else if c = 0x5b then "_3"
  else if (0x61 ≤ c ∧ c ≤ 0x7a) ∨ (0x41 ≤ c ∧ c ≤ 0x5a) ∨ (0x30 ≤ c ∧ c ≤ 0x39) then [c.toUInt8]
  else (Utf16.encode c).flatMap fun u => ("_0" : Bytes) ++ Bytes.hex 4 u

def mangle (name : Bytes) : Bytes := (Utf8.codePoints name).flatMap mangleChar

/-- The symbol of the native method `fn` of a class in a package, which may be empty. -/
def ofNative (pkg cls fn : Bytes) : Bytes :=
  let qualified := if pkg.isEmpty then cls else pkg ++ "." ++ cls
  "Java_" ++ mangle qualified ++ "_" ++ mangle fn

/-- The part of a method descriptor between its parentheses; the whole text when it has none. -/
def argumentPart (desc : Bytes) : Bytes :=
  match desc with
  | 0x28 :: rest => if rest.contains 0x29 then rest.takeWhile (· ≠ 0x29) else desc
  | _ => desc

/-- The long symbol of an overloaded native method, which ends in its argument types. -/
def ofOverloaded (pkg cls fn desc : Bytes) : Bytes :=
  ofNative pkg cls fn ++ "__" ++ mangle (argumentPart desc)

end Symbol

/-- The symbol of a native method of the class: the long one if the name alone does not tell it from
    the other natives. -/
def ClassFile.symbol (c : ClassFile) (m : ClassMethod) : Bytes :=
  if c.isOverloaded m.name then Symbol.ofOverloaded [] c.name m.name m.descriptor
  else Symbol.ofNative [] c.name m.name

end BridgeCall
