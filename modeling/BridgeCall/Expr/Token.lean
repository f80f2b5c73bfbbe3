/-
  BridgeCall/Expr/Token.lean
  ==========================
  **Tokens of call expressions.**  Delimiters and separators have kinds of their
  own because the grammar names them.  All other operators are one kind: they
  only occur inside host expressions, which are copied.
-/
import BridgeCall.Expr.Position

namespace BridgeCall

inductive TokenKind where
  | eof
  | error
  | ident
  | intLiteral
  | floatLiteral
  | charLiteral
  | stringLiteral
  | static
  | lparen
  | rparen
  | lbrace
  | rbrace
  | lbracket
  | rbracket
  | comma
  | dot
  | dollar
  | colonColon
  | arrow
  | lt
  | gt
  | operator
  deriving DecidableEq, Repr, Inhabited

namespace TokenKind

def all : List TokenKind :=
  [.eof, .error, .ident, .intLiteral, .floatLiteral, .charLiteral, .stringLiteral, .static,
    .lparen, .rparen, .lbrace, .rbrace, .lbracket, .rbracket, .comma, .dot, .dollar,
    .colonColon, .arrow, .lt, .gt, .operator]

def name : TokenKind → Bytes
  | .eof => "EOF"
  | .error => "Error"
  | .ident => "Identifier"
  | .intLiteral => "IntLiteral"
  | .floatLiteral => "FloatLiteral"
  | .charLiteral => "CharLiteral"
  | .stringLiteral => "StringLiteral"
  | .static => "static"
  | .lparen => "("
  | .rparen => ")"
  | .lbrace => "\x7b"
  | .rbrace => "\x7d"
  | .lbracket => "["
  | .rbracket => "]"
  | .comma => ","
  | .dot => "."
  | .dollar => "$"
  | .colonColon => "::"
  | .arrow => "->"
  | .lt => "<"
  | .gt => ">"
  | .operator => "Operator"

def nameOfCode (code : Int) : Bytes :=
  if code < 0 then "Unknown" else (all[code.toNat]?.map name).getD "Unknown"

def closer? : TokenKind → Option TokenKind
  | .lparen => some .rparen
  | .lbrace => some .rbrace
  | .lbracket => some .rbracket
  | _ => none

def isCloser : TokenKind → Bool
  | .rparen | .rbrace | .rbracket => true
  | _ => false

def ofWord (w : Bytes) : TokenKind := if w = ("static" : Bytes) then .static else .ident

end TokenKind

structure Token where
  kind : TokenKind
  literal : Bytes
  span : Span
  deriving DecidableEq, Repr, Inhabited

end BridgeCall
