/-
  Tokens of the Juice language. A token is a kind with its span. A quoted string is one token
  whose body is already split into pieces; the fragment of each `${ }` in it is a token list
  of its own, with offsets into the whole document.
-/
import JuiceSyntax.Source.Span

namespace JuiceSyntax

/-- Base of an integer literal. -/
inductive Radix where
  | decimal | binary | octal | hex
deriving DecidableEq, Repr, Inhabited

namespace Radix

def base : Radix → Nat
  | decimal => 10
  | binary => 2
  | octal => 8
  | hex => 16

/-- What a literal of this radix begins with. -/
def lead : Radix → String
  | decimal => ""
  | binary => "0b"
  | octal => "0o"
  | hex => "0x"

end Radix

/-- The reserved words other than `true` and `false`. -/
inductive Keyword where
  | fnWord | importWord | foreignWord | asWord | ifWord | elseWord | forWord | ofWord | matchWord
  | returnWord | staticWord | typeWord | implWord | exportWord | breakWord | continueWord | loopWord
  | awaitWord
deriving DecidableEq, Repr, Inhabited

namespace Keyword

def all : List Keyword :=
  [fnWord, importWord, foreignWord, asWord, ifWord, elseWord, forWord, ofWord, matchWord,
    returnWord, staticWord, typeWord, implWord, exportWord, breakWord, continueWord, loopWord,
    awaitWord]

def text : Keyword → String
  | fnWord => "fn"
  | importWord => "import"
  | foreignWord => "foreign"
  | asWord => "as"
  | ifWord => "if"
  | elseWord => "else"
  | forWord => "for"
  | ofWord => "of"
  | matchWord => "match"
  | returnWord => "return"
  | staticWord => "static"
  | typeWord => "type"
  | implWord => "impl"
  | exportWord => "export"
  | breakWord => "break"
  | continueWord => "continue"
  | loopWord => "loop"
  | awaitWord => "await"

def ofText? (word : String) : Option Keyword := all.find? fun k => k.text == word

theorem mem_all (k : Keyword) : k ∈ all := by cases k <;> decide

/-- Words that begin a statement of the program; recovery resumes at them. -/
def startsItem : Keyword → Bool
  | fnWord | staticWord | typeWord | implWord | importWord | foreignWord | exportWord => true
  | _ => false

/-- Words that begin a statement of a body. -/
def startsStatement : Keyword → Bool
  | returnWord | breakWord | continueWord | forWord | ifWord | matchWord => true
  | k => k.startsItem

end Keyword

/-- Operators and delimiters. -/
inductive Mark where
  | plus | minus | star | starStar | slash | percent | amp | ampAmp | pipe | pipePipe | caret
  | eqEq | bangEq | lt | gt | ltEq | gtEq | shl | shr | bang | question | eq | colonEq | colon
  | colonColon | dot | dotDot | arrow | comma
  | lParen | rParen | lBrace | rBrace | lBracket | rBracket
deriving DecidableEq, Repr, Inhabited

namespace Mark

/-- Marks of two characters come before those of one, so that the first that fits is the
longest. -/
def all : List Mark :=
  [starStar, ampAmp, pipePipe, eqEq, bangEq, ltEq, gtEq, shl, shr, colonEq, colonColon, dotDot,
    arrow, plus, minus, star, slash, percent, amp, pipe, caret, lt, gt, bang, question, eq, colon,
    dot, comma, lParen, rParen, lBrace, rBrace, lBracket, rBracket]

def chars : Mark → List Char
  | plus => ['+']
  | minus => ['-']
  | star => ['*']
  | starStar => ['*', '*']
  | slash => ['/']
  | percent => ['%']
  | amp => ['&']
  | ampAmp => ['&', '&']
  | pipe => ['|']
  | pipePipe => ['|', '|']
  | caret => ['^']
  | eqEq => ['=', '=']
  | bangEq => ['!', '=']
  | lt => ['<']
  | gt => ['>']
  | ltEq => ['<', '=']
  | gtEq => ['>', '=']
  | shl => ['<', '<']
  | shr => ['>', '>']
  | bang => ['!']
  | question => ['?']
  | eq => ['=']
  | colonEq => [':', '=']
  | colon => [':']
  | colonColon => [':', ':']
  | dot => ['.']
  | dotDot => ['.', '.']
  | arrow => ['-', '>']
  | comma => [',']
  | lParen => ['(']
  | rParen => [')']
  | lBrace => ['{']
  | rBrace => ['}']
  | lBracket => ['[']
  | rBracket => [']']

def text (m : Mark) : String := String.ofList m.chars

theorem mem_all (m : Mark) : m ∈ all := by cases m <;> decide

/-- The longest mark that the text begins with. -/
def ofChars? (cs : List Char) : Option Mark := all.find? fun m => m.chars.isPrefixOf cs

end Mark

mutual

/-- What a token is, without its place. -/
inductive Kind where
  | int (value : UInt64) (radix : Radix)
  | float (value : Float)
  | bool (value : Bool)
  | name (text : String)
  | typeName (text : String)
  /-- A name with a bang after it; the bang is not part of `text`. -/
  | macroName (text : String)
  /-- A quoted string; `multiline` if its body begins with a line break. -/
  | str (multiline : Bool) (pieces : List Piece)
  | word (word : Keyword)
  | mark (mark : Mark)
  /-- The end of a token list. -/
  | done

/-- A piece of the body of a quoted string. -/
inductive Piece where
  /-- Characters as written. -/
  | text (text : String) (span : Span)
  /-- A backslash escape as written and the character it stands for. -/
  | escape (value : Char) (raw : String) (span : Span)
  /-- `${ }` with the tokens inside, which end with `done`. -/
  | fragment (tokens : List Token) (span : Span)
  /-- The marker that sets off the indentation of a line. -/
  | indent (span : Span)

structure Token where
  kind : Kind
  span : Span

end

instance : Inhabited Kind := ⟨.done⟩

instance : Inhabited Token := ⟨⟨.done, .point 0⟩⟩

def Piece.span : Piece → Span
  | text _ span | escape _ _ span | fragment _ span | indent span => span

namespace Kind

def isMark (m : Mark) : Kind → Bool
  | mark m' => m == m'
  | _ => false

def isWord (w : Keyword) : Kind → Bool
  | word w' => w == w'
  | _ => false

def isDone : Kind → Bool
  | done => true
  | _ => false

def isName : Kind → Bool
  | name _ => true
  | _ => false

def isKeyword : Kind → Bool
  | word _ => true
  | _ => false

def startsItem : Kind → Bool
  | word w => w.startsItem
  | _ => false

def startsStatement : Kind → Bool
  | word w => w.startsStatement
  | _ => false

/-- How a message names a kind that was wanted. -/
def label : Kind → String
  | int _ _ | float _ => "a number"
  | str _ _ => "a string"
  | bool _ => "'true' or 'false'"
  | name _ => "a name"
  | typeName _ => "a type name"
  | macroName _ => "a macro name"
  | word w => s!"'{w.text}'"
  | mark m => s!"'{m.text}'"
  | done => "end of file"

/-- How a message shows a kind that was found: names and integers by their text. -/
def shown : Kind → String
  | name text | typeName text => s!"'{text}'"
  | macroName text => s!"'{text}!'"
  | int value _ => s!"'{value.toNat}'"
  | kind => kind.label

end Kind

end JuiceSyntax
