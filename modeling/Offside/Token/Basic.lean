import Offside.Decimal.FloatText
import Offside.Source.Span
import Offside.Text.Quoted

namespace Offside

/-!
# Tokens

A token is a symbol together with the text it was read from and its span.  The
symbols with fixed content are marks: keywords, operators, brackets, and the
marks that stand for line ends and for the block structure.
-/

/-- A symbol without content of its own. -/
inductive Mark where
  | letWord
  | varWord
  | funWord
  | plus
  | minus
  | star
  | slash
  | percent
  | caret
  | less
  | greater
  | lessEqual
  | greaterEqual
  | equal
  | notEqual
  | assign
  | arrow
  | openBrace
  | closeBrace
  | openParen
  | closeParen
  | openBracket
  | closeBracket
  | colon
  | comma
  | newline
  | blockStart
  | blockEnd
  | itemSeparator
  | endOfInput
deriving Repr, DecidableEq

namespace Mark

/-- The name of a mark in listings. -/
def name : Mark → String
  | .letWord => "LET"
  | .varWord => "VAR"
  | .funWord => "FUN"
  | .plus => "PLUS"
  | .minus => "MINUS"
  | .star => "STAR"
  | .slash => "SLASH"
  | .percent => "PERCENT"
  | .caret => "CARET"
  | .less => "LT"
  | .greater => "GT"
  | .lessEqual => "LE"
  | .greaterEqual => "GE"
  | .equal => "EQ"
  | .notEqual => "NE"
  | .assign => "ASSIGN"
  | .arrow => "ARROW"
  | .openBrace => "LBRACE"
  | .closeBrace => "RBRACE"
  | .openParen => "LPAREN"
  | .closeParen => "RPAREN"
  | .openBracket => "LBRACKET"
  | .closeBracket => "RBRACKET"
  | .colon => "COLON"
  | .comma => "COMMA"
  | .newline => "NEWLINE"
  | .blockStart => "BLOCK_START"
  | .blockEnd => "BLOCK_END"
  | .itemSeparator => "ITEM_SEP"
  | .endOfInput => "EOF"

/-- How a mark is written in a source; line ends and block structure have no
spelling of their own. -/
def spelling? : Mark → Option Text
  | .letWord => some (Text.ofChars ['l', 'e', 't'])
  | .varWord => some (Text.ofChars ['v', 'a', 'r'])
  | .funWord => some (Text.ofChars ['f', 'u', 'n'])
  | .plus => some [.scalar '+']
  | .minus => some [.scalar '-']
  | .star => some [.scalar '*']
  | .slash => some [.scalar '/']
  | .percent => some [.scalar '%']
  | .caret => some [.scalar '^']
  | .less => some [.scalar '<']
  | .greater => some [.scalar '>']
  | .lessEqual => some [.scalar '<', .scalar '=']
  | .greaterEqual => some [.scalar '>', .scalar '=']
  | .equal => some [.scalar '=', .scalar '=']
  | .notEqual => some [.scalar '!', .scalar '=']
  | .assign => some [.scalar '=']
  | .arrow => some [.scalar '-', .scalar '>']
  | .openBrace => some [.scalar '\x7b']
  | .closeBrace => some [.scalar '\x7d']
  | .openParen => some [.scalar '(']
  | .closeParen => some [.scalar ')']
  | .openBracket => some [.scalar '[']
  | .closeBracket => some [.scalar ']']
  | .colon => some [.scalar ':']
  | .comma => some [.scalar ',']
  | .newline | .blockStart | .blockEnd | .itemSeparator | .endOfInput => none

/-- Whether a mark opens a bracket. -/
def opensBracket : Mark → Bool
  | .openParen | .openBracket | .openBrace => true
  | _ => false

/-- Whether a mark closes a bracket. -/
def closesBracket : Mark → Bool
  | .closeParen | .closeBracket | .closeBrace => true
  | _ => false

/-- Every mark. -/
def all : List Mark :=
  [.letWord, .varWord, .funWord, .plus, .minus, .star, .slash, .percent, .caret, .less,
   .greater, .lessEqual, .greaterEqual, .equal, .notEqual, .assign, .arrow, .openBrace,
   .closeBrace, .openParen, .closeParen, .openBracket, .closeBracket, .colon, .comma,
   .newline, .blockStart, .blockEnd, .itemSeparator, .endOfInput]

end Mark

/-- The kind of a token, without its content. -/
inductive TokenKind where
  | intLiteral
  | floatLiteral
  | stringLiteral
  | rawStringLiteral
  | charLiteral
  | boolLiteral
  | identifier
  | mark (mark : Mark)
deriving Repr, DecidableEq

namespace TokenKind

/-- The name of a kind in listings. -/
def name : TokenKind → String
  | .intLiteral => "INT_LITERAL"
  | .floatLiteral => "FLOAT_LITERAL"
  | .stringLiteral => "STRING_LITERAL"
  | .rawStringLiteral => "RAW_STRING_LITERAL"
  | .charLiteral => "CHAR_LITERAL"
  | .boolLiteral => "BOOL_LITERAL"
  | .identifier => "IDENTIFIER"
  | .mark fixed => fixed.name

/-- The name of a kind in error messages. -/
def description : TokenKind → Text
  | .intLiteral => "int literal"
  | .floatLiteral => "float literal"
  | .stringLiteral => "string literal"
  | .rawStringLiteral => "raw string literal"
  | .charLiteral => "char literal"
  | .boolLiteral => "bool literal"
  | .identifier => "identifier"
  | .mark .newline => "newline"
  | .mark .blockStart => "block start"
  | .mark .blockEnd => "block end"
  | .mark .itemSeparator => "item sep"
  | .mark .endOfInput => "eof"
  | .mark fixed => .scalar '\'' :: (fixed.spelling?.getD [] ++ [.scalar '\''])

/-- Every kind. -/
def all : List TokenKind :=
  [.intLiteral, .floatLiteral, .stringLiteral, .rawStringLiteral, .charLiteral,
   .boolLiteral, .identifier] ++ Mark.all.map .mark

/-- The kind with a given name. -/
def ofName? (name : String) : Option TokenKind :=
  all.find? (·.name == name)

end TokenKind

/-- What a token stands for: a literal, a name or a mark. -/
inductive Symbol where
  | int (value : Int)
  | float (value : Float)
  | string (value : Text)
  | rawString (value : Text)
  | char (value : CodePoint)
  | bool (value : Bool)
  | identifier (name : Text)
  | mark (mark : Mark)
deriving Repr, DecidableEq

namespace Symbol

/-- The kind of a symbol. -/
def kind : Symbol → TokenKind
  | .int _ => .intLiteral
  | .float _ => .floatLiteral
  | .string _ => .stringLiteral
  | .rawString _ => .rawStringLiteral
  | .char _ => .charLiteral
  | .bool _ => .boolLiteral
  | .identifier _ => .identifier
  | .mark fixed => .mark fixed

/-- Whether a symbol is a literal. -/
def isLiteral : Symbol → Bool
  | .int _ | .float _ | .string _ | .rawString _ | .char _ | .bool _ => true
  | .identifier _ | .mark _ => false

/-- Whether an operand is complete after a symbol, so that a following sign is a
binary operator and not part of a number. -/
def endsOperand : Symbol → Bool
  | .mark fixed => fixed.closesBracket
  | _ => true

end Symbol

/-- A symbol with the text that it was read from and its place. -/
structure Token where
  symbol : Symbol
  lexeme : Text
  span : Span
deriving Repr, DecidableEq

namespace Token

/-- The kind of a token. -/
def kind (token : Token) : TokenKind :=
  token.symbol.kind

/-- Whether a token is a given mark. -/
def isMark (token : Token) (mark : Mark) : Bool :=
  token.symbol == .mark mark

end Token

/-!
## Token listings

A listing shows each token by the name of its kind; literals and identifiers
also show their content.
-/

namespace Symbol

/-- The content of a literal or an identifier in a listing. -/
def contentText? : Symbol → Option Text
  | .int value => some (Text.ofInt value)
  | .float value => some (Decimal.floatText value)
  | .string value => some (Text.dumped value)
  | .rawString value => some (Text.dumped value)
  | .char value => some (Text.dumped [value])
  | .bool value => some (if value then "True" else "False")
  | .identifier name => some (Text.dumped name)
  | .mark _ => none

/-- A symbol in a listing. -/
def listed (symbol : Symbol) : Text :=
  match symbol.contentText? with
  | some content => Text.ofString symbol.kind.name ++ "(" ++ content ++ ")"
  | none => symbol.kind.name

end Symbol

end Offside
