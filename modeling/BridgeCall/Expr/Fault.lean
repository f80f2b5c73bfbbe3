/-
  BridgeCall/Expr/Fault.lean
  ==========================
  **What can be wrong with a call expression.**  A fault is a problem at a span,
  possibly with the token kinds that would have been accepted and the token that
  came instead.  Every wording is in `Problem.message`.
-/
import BridgeCall.Expr.Token
import BridgeCall.Text.Quoted

namespace BridgeCall

inductive FaultKind where
  | grammar
  | emptyPath
  | missingPackage
  | trailingSeparator
  | voidNotAllowedHere
  | optionRequiresObjectType
  | nestedResultNotAllowed
  | unsupportedErrorType
  deriving DecidableEq, Repr

namespace FaultKind

/-- Every family, by its number. -/
def all : List FaultKind :=
  [.grammar, .emptyPath, .missingPackage, .trailingSeparator, .voidNotAllowedHere,
    .optionRequiresObjectType, .nestedResultNotAllowed, .unsupportedErrorType]

def name : FaultKind → Bytes
  | .grammar => "SyntaxError"
  | .emptyPath => "EmptyPath"
  | .missingPackage => "MissingPackage"
  | .trailingSeparator => "TrailingSeparator"
  | .voidNotAllowedHere => "VoidNotAllowedHere"
  | .optionRequiresObjectType => "OptionRequiresObjectType"
  | .nestedResultNotAllowed => "NestedResultNotAllowed"
  | .unsupportedErrorType => "UnsupportedErrorType"

def nameOfCode (code : Int) : Bytes :=
  if code < 0 then "Unknown" else (all[code.toNat]?.map name).getD "Unknown"

end FaultKind

/-- A complete construct, after which nothing may follow. -/
inductive Whole where
  | classPath
  | methodName
  | type
  | returnType
  deriving DecidableEq, Repr

def Whole.name : Whole → Bytes
  | .classPath => "class path"
  | .methodName => "method name"
  | .type => "type"
  | .returnType => "return type"

inductive Problem where
  | emptyPath
  | noPackage (segment : Bytes)
  | noPackageBeforeMethod
  | trailingSeparator (separator : Bytes)
  | voidParameter
  | voidOption
  | primitiveOption (keyword : Bytes)
  | nestedResult
  | unsupportedErrorType (text : Bytes)
  | leftover (after : Whole)
  | noType
  | noTarget
  | noReceiverDot
  | noNestedDot
  | noMethod
  | noMethodAfterColons
  | emptyReceiver
  | noParameterList
  | unclosedParameterList
  | noParameterEnd
  | noElementTypeEnd
  | noParameterValue
  | emptyParameterValue
  | emptyElement
  | unclosed (opener : Bytes)
  | invalidToken (literal : Bytes)
  | mismatchedCloser
  | noArrow
  | resultWithoutArguments
  | resultWithOneArgument
  | unclosedResult
  | noErrorType
  | optionWithoutArgument
  | optionWithMoreArguments
  deriving DecidableEq, Repr

namespace Problem

def kind : Problem → FaultKind
  | .emptyPath => .emptyPath
  | .noPackage _ | .noPackageBeforeMethod => .missingPackage
  | .trailingSeparator _ => .trailingSeparator
  | .voidParameter | .voidOption => .voidNotAllowedHere
  | .primitiveOption _ => .optionRequiresObjectType
  | .nestedResult => .nestedResultNotAllowed
  | .unsupportedErrorType _ => .unsupportedErrorType
  | _ => .grammar

def message : Problem → Bytes
  | .emptyPath => "Java class path must not be empty"
  | .noPackage s =>
    "Java class path " ++ Quoted.quote s
      ++ " must have at least one package segment before the class, such as `me.author." ++ s ++ "`"
  | .noPackageBeforeMethod =>
    "Java class path must have at least one package segment aside from the class and method, "
      ++ "such as `me.Class.method`"
  | .trailingSeparator s => "separator `" ++ s ++ "` must be followed by a class path segment"
  | .voidParameter => "parameters can't have type void"
  | .voidOption => "Option can't wrap void"
  | .primitiveOption k =>
    "Option can't be used with primitive type " ++ k
      ++ " because primitives are never null in Java; use a class"
  | .nestedResult => "can't nest a Result within a Result"
  | .unsupportedErrorType t =>
    "unsupported Result error type " ++ Quoted.quote t ++ ": only String is supported"
  | .leftover w => "unexpected input after " ++ w.name
  | .noType => "expected a type: a primitive keyword or a Java class path"
  | .noTarget =>
    "expected `static` or a receiver (an identifier, or an expression in parentheses or braces)"
  | .noReceiverDot => "expected `.` between the receiver and the method name"
  | .noNestedDot => "expected `.` between the nested class and the method name"
  | .noMethod => "expected a method name"
  | .noMethodAfterColons => "expected a method name after `::`"
  | .emptyReceiver => "receiver expression must not be empty"
  | .noParameterList => "expected `(` to open the parameter list"
  | .unclosedParameterList => "unclosed parameter list"
  | .noParameterEnd => "expected `,` or `)` after a parameter"
  | .noElementTypeEnd => "expected `]` after the array element type"
  | .noParameterValue => "expected the parameter value in parentheses"
  | .emptyParameterValue => "parameter value must not be empty"
  | .emptyElement => "array literal elements must not be empty"
  | .unclosed o => "unclosed `" ++ o ++ "`"
  | .invalidToken l => "invalid token " ++ Quoted.quote l
  | .mismatchedCloser => "mismatched closing delimiter"
  | .noArrow => "expected `->` followed by the return type"
  | .resultWithoutArguments => "Result takes generic arguments"
  | .resultWithOneArgument => "Result takes 2 generic arguments"
  | .unclosedResult => "expected `>` to close Result"
  | .noErrorType => "expected the Result error type"
  | .optionWithoutArgument => "Option takes a generic argument"
  | .optionWithMoreArguments => "Option takes only 1 generic argument"

end Problem

structure Fault where
  problem : Problem
  span : Span
  expected : List TokenKind := []
  got : Option Token := none
  deriving DecidableEq, Repr

namespace Fault

def kind (f : Fault) : FaultKind := f.problem.kind

def describe (t : Token) : Bytes :=
  if t.kind = .eof then "end of input" else Quoted.quote t.literal

/-- The text of a fault without its position. -/
def detail (f : Fault) : Bytes :=
  if f.expected.isEmpty then f.problem.message
  else
    let names := Bytes.join " or " (f.expected.map fun k => Quoted.quote k.name)
    let got : Bytes := match f.got with
      | some t => ", got " ++ describe t
      | none => []
    f.problem.message ++ " (expected " ++ names ++ got ++ ")"

/-- The full text of a fault, after its position. -/
def message (f : Fault) : Bytes := f.span.start.render ++ (": " : Bytes) ++ f.detail

end Fault
end BridgeCall
