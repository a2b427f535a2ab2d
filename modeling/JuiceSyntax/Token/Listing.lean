/-
  The listing of tokens that the `lex` command prints: every token by the title of its kind,
  with what it holds.
-/
import JuiceSyntax.Decimal.Shortest
import JuiceSyntax.Text.Quoted
import JuiceSyntax.Token.Basic

namespace JuiceSyntax

def Radix.title : Radix → String
  | decimal => "Decimal"
  | binary => "Binary"
  | octal => "Octal"
  | hex => "Hex"

def Keyword.title : Keyword → String
  | fnWord => "Fn"
  | importWord => "Import"
  | foreignWord => "Foreign"
  | asWord => "As"
  | ifWord => "If"
  | elseWord => "Else"
  | forWord => "For"
  | ofWord => "Of"
  | matchWord => "Match"
  | returnWord => "Return"
  | staticWord => "Static"
  | typeWord => "Type"
  | implWord => "Impl"
  | exportWord => "Export"
  | breakWord => "Break"
  | continueWord => "Continue"
  | loopWord => "Loop"
  | awaitWord => "Await"

def Mark.title : Mark → String
  | plus => "Plus"
  | minus => "Minus"
  | star => "Star"
  | starStar => "StarStar"
  | slash => "Slash"
  | percent => "Percent"
  | amp => "Amp"
  | ampAmp => "AmpAmp"
  | pipe => "Pipe"
  | pipePipe => "PipePipe"
  | caret => "Caret"
  | eqEq => "EqEq"
  | bangEq => "BangEq"
  | lt => "Lt"
  | gt => "Gt"
  | ltEq => "LtEq"
  | gtEq => "GtEq"
  | shl => "Shl"
  | shr => "Shr"
  | bang => "Bang"
  | question => "Question"
  | eq => "Eq"
  | colonEq => "ColonEq"
  | colon => "Colon"
  | colonColon => "ColonColon"
  | dot => "Dot"
  | dotDot => "DotDot"
  | arrow => "Arrow"
  | comma => "Comma"
  | lParen => "LParen"
  | rParen => "RParen"
  | lBrace => "LBrace"
  | rBrace => "RBrace"
  | lBracket => "LBracket"
  | rBracket => "RBracket"

/-- A listed record with its fields. -/
def listedFields (title : String) (fields : List (String × String)) : String :=
  title ++ " \x7b " ++ ", ".intercalate (fields.map fun (name, value) => name ++ ": " ++ value) ++ " \x7d"

def listedItems (items : List String) : String := "[" ++ ", ".intercalate items ++ "]"

def Span.listing (s : Span) : String :=
  listedFields "Span" [("start", toString s.start), ("end", toString s.stop)]

mutual

def Kind.listing : Kind → String
  | .int value radix => listedFields "Int" [("value", toString value.toNat), ("radix", radix.title)]
  | .float value => "Float(" ++ floatText value ++ ")"
  | .bool value => "Bool(" ++ toString value ++ ")"
  | .name text => "Ident(" ++ quoted text ++ ")"
  | .typeName text => "TypeIdent(" ++ quoted text ++ ")"
  | .macroName text => "MacroIdent(" ++ quoted text ++ ")"
  | .str multiline pieces =>
    "Str(" ++
      listedFields "StrToken"
        [("multiline", toString multiline), ("pieces", listedItems (pieceListings pieces))] ++ ")"
  | .word word => word.title
  | .mark mark => mark.title
  | .done => "Eof"

def Piece.listing : Piece → String
  | .text text span => listedFields "Text" [("text", quoted text), ("span", span.listing)]
  | .escape value _ span => listedFields "Escape" [("value", quotedChar value), ("span", span.listing)]
  | .fragment tokens span =>
    listedFields "Interpolation" [("tokens", listedItems (tokenListings tokens)), ("span", span.listing)]
  | .indent span => listedFields "Indent" [("span", span.listing)]

def pieceListings : List Piece → List String
  | [] => []
  | piece :: rest => piece.listing :: pieceListings rest

def Token.listing : Token → String
  | ⟨kind, span⟩ => listedFields "Token" [("kind", kind.listing), ("span", span.listing)]

def tokenListings : List Token → List String
  | [] => []
  | token :: rest => token.listing :: tokenListings rest

end

end JuiceSyntax
