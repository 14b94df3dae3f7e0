import Quill.Number.Basic
import Quill.Position

/-!
# Tokens

The words of the language. Keywords and symbols are enumerations with their spellings; a token is a
kind, the slice of the source it was read from, and the place of that slice.
-/

set_option autoImplicit false

namespace Quill

/-- The reserved words, apart from the three that spell values. -/
inductive Keyword
  | letKw | constKw | ifKw | elseKw | returnKw | functionKw | forKw | whileKw | doKw
  | breakKw | continueKw | inKw | ofKw | tryKw | catchKw | finallyKw | throwKw
deriving DecidableEq, Repr

namespace Keyword

def all : List Keyword :=
  [.letKw, .constKw, .ifKw, .elseKw, .returnKw, .functionKw, .forKw, .whileKw, .doKw,
    .breakKw, .continueKw, .inKw, .ofKw, .tryKw, .catchKw, .finallyKw, .throwKw]

def spelling : Keyword → String
  | .letKw => "let"
  | .constKw => "const"
  | .ifKw => "if"
  | .elseKw => "else"
  | .returnKw => "return"
  | .functionKw => "function"
  | .forKw => "for"
  | .whileKw => "while"
  | .doKw => "do"
  | .breakKw => "break"
  | .continueKw => "continue"
  | .inKw => "in"
  | .ofKw => "of"
  | .tryKw => "try"
  | .catchKw => "catch"
  | .finallyKw => "finally"
  | .throwKw => "throw"

/-- The keyword's name in a listing. -/
def label : Keyword → String
  | .letKw => "Let"
  | .constKw => "Const"
  | .ifKw => "If"
  | .elseKw => "Else"
  | .returnKw => "Return"
  | .functionKw => "Function"
  | .forKw => "For"
  | .whileKw => "While"
  | .doKw => "Do"
  | .breakKw => "Break"
  | .continueKw => "Continue"
  | .inKw => "In"
  | .ofKw => "Of"
  | .tryKw => "Try"
  | .catchKw => "Catch"
  | .finallyKw => "Finally"
  | .throwKw => "Throw"

/-- The keyword begins a statement, so that parsing can start afresh in front of it. -/
def startsStatement : Keyword → Bool
  | .elseKw | .inKw | .ofKw | .catchKw | .finallyKw => false
  | _ => true

end Keyword

/-- Operators and punctuation. -/
inductive Symbol
  | plus | minus | star | slash | percent | assign | equal | notEqual
  | less | lessEqual | greater | greaterEqual | andAnd | orOr | bang
  | plusPlus | minusMinus | plusAssign | minusAssign | starAssign | slashAssign
  | arrow | question | questionDot | colon | comma | semicolon | dot
  | leftParen | rightParen | leftBrace | rightBrace | leftBracket | rightBracket
deriving DecidableEq, Repr

namespace Symbol

def all : List Symbol :=
  [.plus, .minus, .star, .slash, .percent, .assign, .equal, .notEqual,
    .less, .lessEqual, .greater, .greaterEqual, .andAnd, .orOr, .bang,
    .plusPlus, .minusMinus, .plusAssign, .minusAssign, .starAssign, .slashAssign,
    .arrow, .question, .questionDot, .colon, .comma, .semicolon, .dot,
    .leftParen, .rightParen, .leftBrace, .rightBrace, .leftBracket, .rightBracket]

def spelling : Symbol → List Char
  | .plus => ['+']
  | .minus => ['-']
  | .star => ['*']
  | .slash => ['/']
  | .percent => ['%']
  | .assign => ['=']
  | .equal => ['=', '=']
  | .notEqual => ['!', '=']
  | .less => ['<']
  | .lessEqual => ['<', '=']
  | .greater => ['>']
  | .greaterEqual => ['>', '=']
  | .andAnd => ['&', '&']
  | .orOr => ['|', '|']
  | .bang => ['!']
  | .plusPlus => ['+', '+']
  | .minusMinus => ['-', '-']
  | .plusAssign => ['+', '=']
  | .minusAssign => ['-', '=']
  | .starAssign => ['*', '=']
  | .slashAssign => ['/', '=']
  | .arrow => ['=', '>']
  | .question => ['?']
  | .questionDot => ['?', '.']
  | .colon => [':']
  | .comma => [',']
  | .semicolon => [';']
  | .dot => ['.']
  | .leftParen => ['(']
  | .rightParen => [')']
  | .leftBrace => ['{']
  | .rightBrace => ['}']
  | .leftBracket => ['[']
  | .rightBracket => [']']

/-- The symbol's name in a listing. -/
def label : Symbol → String
  | .plus => "Plus"
  | .minus => "Minus"
  | .star => "Star"
  | .slash => "Slash"
  | .percent => "Percent"
  | .assign => "Eq"
  | .equal => "EqEq"
  | .notEqual => "BangEq"
  | .less => "Lt"
  | .lessEqual => "LtEq"
  | .greater => "Gt"
  | .greaterEqual => "GtEq"
  | .andAnd => "AndAnd"
  | .orOr => "OrOr"
  | .bang => "Bang"
  | .plusPlus => "PlusPlus"
  | .minusMinus => "MinusMinus"
  | .plusAssign => "PlusEq"
  | .minusAssign => "MinusEq"
  | .starAssign => "StarEq"
  | .slashAssign => "SlashEq"
  | .arrow => "FatArrow"
  | .question => "Question"
  | .questionDot => "QuestionDot"
  | .colon => "Colon"
  | .comma => "Comma"
  | .semicolon => "Semicolon"
  | .dot => "Dot"
  | .leftParen => "LParen"
  | .rightParen => "RParen"
  | .leftBrace => "LBrace"
  | .rightBrace => "RBrace"
  | .leftBracket => "LBracket"
  | .rightBracket => "RBracket"

/-- The symbol with a given spelling. -/
def ofSpelling? (text : List Char) : Option Symbol := all.find? (·.spelling == text)

end Symbol

/-- What a token is. A fault in the text leaves a token too, which carries the message. -/
inductive TokenKind
  | number (value : Number)
  | string (value : String)
  | ident (name : String)
  | bool (value : Bool)
  | null
  | keyword (word : Keyword)
  | symbol (sym : Symbol)
  | error (message : String)
  | eof
deriving DecidableEq, Repr

namespace TokenKind

/-- The name of the kind in a listing. -/
def label : TokenKind → String
  | .number _ => "Number"
  | .string _ => "Str"
  | .ident _ => "Ident"
  | .bool _ => "Bool"
  | .null => "Null"
  | .keyword word => word.label
  | .symbol sym => sym.label
  | .error _ => "Error"
  | .eof => "Eof"

/-- The token spells a value. -/
def isLiteral : TokenKind → Bool
  | .number _ | .string _ | .bool _ | .null => true
  | _ => false

/-- The token is a name. -/
def isName : TokenKind → Bool
  | .ident _ => true
  | _ => false

/-- The token is a reserved word, those that spell values included. -/
def isKeyword : TokenKind → Bool
  | .keyword _ | .bool _ | .null => true
  | _ => false

/-- Parsing can start afresh in front of the token. -/
def startsStatement : TokenKind → Bool
  | .keyword word => word.startsStatement
  | _ => false

/-- The token is an assignment that also computes. -/
def isCompoundAssign : TokenKind → Bool
  | .symbol .plusAssign | .symbol .minusAssign | .symbol .starAssign | .symbol .slashAssign => true
  | _ => false

/-- The kind of a word: a reserved one or a name. -/
def ofWord (word : String) : TokenKind :=
  match Keyword.all.find? (·.spelling == word) with
  | some reserved => .keyword reserved
  | none =>
    if word = "true" then .bool true
    else if word = "false" then .bool false
    else if word = "null" then .null
    else .ident word

end TokenKind

/-- A token in its place. -/
structure Token where
  kind : TokenKind
  /-- The slice of the source; the message for an error. -/
  text : String
  position : Position
deriving DecidableEq, Repr

namespace Token

/-- The line where a token begins. -/
def line (t : Token) : Nat := t.position.line

/-- The token in a message. -/
def display (t : Token) : String :=
  match t.kind with
  | .eof => "end of input"
  | _ => "`" ++ t.text ++ "`"

end Token

end Quill
