/-
  Quoted text: a text between quotes in which the quote, the backslash, a few controls and
  whatever cannot be shown are escaped.
-/
import JuiceSyntax.Text.Printable

namespace JuiceSyntax

/-- The code in lower-case hexadecimal digits. -/
def hexText (n : Nat) : String := String.ofList (Nat.toDigits 16 n)

/-- A character as it stands between quotes of one kind. -/
def quoteChar (quote c : Char) : String :=
  match c with
  | '\t' => "\\t"
  | '\r' => "\\r"
  | '\n' => "\\n"
  | '\\' => "\\\\"
  | '\x00' => "\\0"
  | _ =>
    if c == quote then "\\" ++ quote.toString
    else if isShown c then c.toString
    else "\\u\x7b" ++ hexText c.toNat ++ "\x7d"

/-- A text in double quotes. -/
def quoted (text : String) : String :=
  "\"" ++ String.join (text.toList.map (quoteChar '"')) ++ "\""

/-- A character in single quotes. -/
def quotedChar (c : Char) : String := "'" ++ quoteChar '\'' c ++ "'"

end JuiceSyntax
