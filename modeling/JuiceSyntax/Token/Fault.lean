/-
  Lexical faults: what can be wrong with the text before it is read as a program. A fault is
  a cause with its place; its message and its hint follow from the cause.
-/
import JuiceSyntax.Token.Basic

namespace JuiceSyntax

/-- Why the digits of a number do not make one. -/
inductive DigitFlaw where
  | missing
  /-- An underscore that is not between two digits. -/
  | underscore
  /-- A digit that the radix does not have. -/
  | outside (radix : Radix)
deriving DecidableEq, Repr, Inhabited

def DigitFlaw.hint : DigitFlaw → String
  | missing => "expected digits after the prefix"
  | underscore => "'_' may only appear between two digits"
  | outside .binary => "binary digits are 0 and 1"
  | outside .octal => "octal digits are 0 to 7"
  | outside .hex => "hex digits are 0-9 and a-f"
  | outside .decimal => "decimal digits are 0 to 9"

/-- The causes of lexical faults. -/
inductive LexCause where
  | unexpectedChar (c : Char)
  | unterminatedString
  | invalidEscape (raw : String)
  | malformedNumber (raw : String) (flaw : DigitFlaw)
  | numberOverflow (raw : String)
  /-- A `${ }` deeper than fragments may nest. -/
  | fragmentTooDeep
deriving DecidableEq, Repr, Inhabited

namespace LexCause

def message : LexCause → String
  | unexpectedChar c => s!"unexpected character '{c}'"
  | unterminatedString => "unterminated string"
  | invalidEscape raw => s!"invalid escape sequence '{raw}'"
  | malformedNumber raw _ => s!"malformed number '{raw}'"
  | numberOverflow raw => s!"number '{raw}' does not fit in 64 bits"
  | fragmentTooDeep => "string interpolations nested too deeply"

def hint : LexCause → Option String
  | unexpectedChar ';' => some "statements are not separated by ';'"
  | unexpectedChar '#' => some "'#!' is only allowed on the first line"
  | unexpectedChar '\'' => some "strings use double quotes"
  | unexpectedChar _ => none
  | unterminatedString => some "add a closing '\"'"
  | invalidEscape _ => some "valid: \\\" \\\\ \\/ \\b \\f \\n \\r \\t \\$ \\0 \\u\x7b...\x7d"
  | malformedNumber _ flaw => some flaw.hint
  | numberOverflow _ => some "the largest integer is 18446744073709551615"
  | fragmentTooDeep => none

end LexCause

/-- A lexical fault and the text it is about. -/
structure LexFault where
  cause : LexCause
  span : Span
deriving DecidableEq, Repr, Inhabited

end JuiceSyntax
