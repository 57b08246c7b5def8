import Scripting.Text.Position

/-!
# Tokens

A token is a piece of source text: a word, a quoted string or a mark of punctuation, with its kind
and its place. Keywords are words that are reserved.
-/

namespace Scripting

/-- What a token is. -/
inductive TokenKind where
  | identifier
  | string
  | number
  | boolean
  | leftParen
  | rightParen
  | leftBrace
  | rightBrace
  | dot
  | equal
  | comma
  | colon
  | percent
  deriving DecidableEq, Inhabited

namespace TokenKind

/-- Whether a token of this kind may stand as a call argument or a value. -/
def isOperand : TokenKind → Bool
  | identifier | string | number | boolean => true
  | _ => false

/-- Whether a token of this kind denotes a value by itself. -/
def isLiteral : TokenKind → Bool
  | string | number | boolean => true
  | _ => false

/-- The name of a kind; punctuation names itself. -/
def text : TokenKind → String
  | identifier => "Identifier"
  | string => "String"
  | number => "Number"
  | boolean => "Boolean"
  | leftParen => "("
  | rightParen => ")"
  | leftBrace => "\x7b"
  | rightBrace => "\x7d"
  | dot => "."
  | equal => "="
  | comma => ","
  | colon => ":"
  | percent => "%"

/-- The kind of a mark of punctuation. -/
def ofPunctuation? : Char → Option TokenKind
  | '(' => some leftParen
  | ')' => some rightParen
  | '\x7b' => some leftBrace
  | '\x7d' => some rightBrace
  | '.' => some dot
  | '=' => some equal
  | ',' => some comma
  | ':' => some colon
  | '%' => some percent
  | _ => none

end TokenKind

/-- The reserved words. -/
inductive Keyword where
  | imports
  | exports
  | function
  | declares
  | returns
  deriving DecidableEq, Inhabited

namespace Keyword

/-- How a keyword is written. -/
def text : Keyword → String
  | imports => "import"
  | exports => "export"
  | function => "function"
  | declares => "var"
  | returns => "return"

/-- The keyword that a word spells. -/
def ofText? : String → Option Keyword
  | "import" => some imports
  | "export" => some exports
  | "function" => some function
  | "var" => some declares
  | "return" => some returns
  | _ => none

@[simp] theorem ofText?_text (keyword : Keyword) : ofText? keyword.text = some keyword := by
  cases keyword <;> rfl

end Keyword

/-- The truth value that a word spells. -/
def boolean? : String → Option Bool
  | "true" => some true
  | "false" => some false
  | _ => none

/-- A token. Its lexeme is its text, for a string the text between the quotes. Inside a function body
its scope is the function's name. -/
structure Token where
  kind : TokenKind
  lexeme : String
  span : Span := {}
  scope : Option String := none
  deriving DecidableEq, Inhabited

namespace Token

/-- The keyword that a token is, if it is one. -/
def keyword? (token : Token) : Option Keyword :=
  if token.kind = .identifier then Keyword.ofText? token.lexeme else none

/-- Whether a token is a word that is free to name something. -/
def isName (token : Token) : Bool :=
  token.kind = .identifier && token.keyword?.isNone

/-- A token as it may be written; strings are put between double quotes. -/
def text (token : Token) : String :=
  if token.kind = .string then "\"" ++ token.lexeme ++ "\"" else token.lexeme

end Token

end Scripting
