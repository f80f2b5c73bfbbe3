/-
  BridgeCall/Expr/Grammar.lean
  ============================
  **The grammar of call expressions, for people to read.**  It is a list of
  productions in groups.  Brackets stand for what may be missing, braces for what
  may be repeated, and a bar separates alternatives.
-/
import BridgeCall.Text.Bytes

namespace BridgeCall.Grammar

/-- A production: its name and its alternatives, as they are laid out on lines. -/
structure Production where
  name : Bytes
  lines : List Bytes
  deriving DecidableEq, Repr

def rule (name body : String) : Production := ⟨name, [Bytes.ofString body]⟩

def groups : List (List Production) :=
  [[rule "Call" "Target identifier \"(\" [ Params ] \")\" \"->\" ReturnSpec",
    rule "Target" "StaticTarget | InstanceTarget",
    rule "StaticTarget" "\"static\" ClassPath ( \"::\" | \".\" )",
    rule "InstanceTarget" "Receiver \".\"",
    rule "Receiver" "identifier | \"(\" Tokens \")\" | \"\x7b\" Tokens \"\x7d\""],
  [rule "Params" "Param \x7b \",\" Param \x7d [ \",\" ]",
    ⟨"Param",
      ["Type \"(\" Tokens \")\"", "\"[\" Type \"]\" \"(\" ( Tokens | ArrayLiteral ) \")\""]⟩,
    rule "ArrayLiteral" "\"[\" [ Tokens \x7b \",\" Tokens \x7d [ \",\" ] ] \"]\""],
  [rule "ReturnSpec" "Type | OptionType | ResultType",
    rule "OptionType" "\"Option\" \"<\" ClassPath \">\"",
    rule "ResultType" "\"Result\" \"<\" ( Type | OptionType ) \",\" \"String\" \">\""],
  [rule "Type" "HostType | JavaType | ClassPath",
    rule "JavaType" ("\"void\" | \"boolean\" | \"byte\" | \"char\" | \"short\" | \"int\" | \"long\""
      ++ " | \"float\" | \"double\""),
    rule "HostType" ("\"bool\" | \"char\" | \"u8\" | \"i8\" | \"u16\" | \"i16\" | \"u32\" | \"i32\""
      ++ " | \"u64\" | \"i64\" | \"f32\" | \"f64\""),
    rule "ClassPath"
      "identifier \".\" identifier \x7b \".\" identifier \x7d \x7b \"$\" identifier \x7d"],
  [rule "Tokens" ("\x7b token | \"(\" Tokens \")\" | \"[\" Tokens \"]\""
      ++ " | \"\x7b\" Tokens \"\x7d\" \x7d")],
  [rule "token" "identifier | number | quoted | operator",
    rule "identifier" "letter \x7b letter | digit \x7d",
    rule "number" "digit \x7b letter | digit | \".\" \x7d",
    rule "quoted" ("\"\\\"\" \x7b letter | digit | \" \" \x7d \"\\\"\""
      ++ " | \"'\" ( letter | digit ) \"'\""
      ++ " | \"`\" \x7b letter | digit | \" \" \x7d \"`\""),
    rule "operator" ("\"+\" | \"-\" | \"*\" | \"/\" | \"%\" | \"&\" | \"|\" | \"^\" | \"!\" | \"=\""
      ++ " | \"<\" | \">\" | \".\" | \",\" | \":\" | \";\" | \"~\" | \"?\""),
    rule "letter" "\"a\" … \"z\" | \"A\" … \"Z\" | \"_\"",
    rule "digit" "\"0\" … \"9\""]]

/-- The lines in front of the productions. -/
def preamble : Bytes :=
  "// Call expressions accepted by jnicall.Call.\n"
  ++ "//\n"
  ++ "// Value and Receiver text is copied verbatim into the generated Go code;\n"
  ++ "// the lexical productions below only describe how far it extends.\n"

/-- The text filled with blanks to a width. -/
def padded (width : Nat) (bs : Bytes) : Bytes := bs ++ List.replicate (width - bs.length) 0x20

/-- A production as text: its alternatives stand below each other. -/
def Production.render (p : Production) : Bytes :=
  padded 15 p.name ++ "= " ++ Bytes.join ("\n" ++ padded 15 [] ++ "| ") p.lines ++ " .\n"

/-- The whole grammar as text, with an empty line before each group. -/
def text : Bytes :=
  preamble ++ groups.flatMap fun g => 0x0a :: g.flatMap Production.render

/-- The names of all productions, sorted. -/
def names : List Bytes :=
  (groups.flatten.map Production.name).mergeSort fun a b => !Bytes.lt b a

end BridgeCall.Grammar
