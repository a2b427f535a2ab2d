/-
  JSON text, laid out with two spaces for each level.
-/
import JuiceSyntax.Text.Quoted

namespace JuiceSyntax

inductive JsonValue where
  | bool (value : Bool)
  | number (value : Nat)
  | text (value : String)
  | list (items : List JsonValue)
  | record (fields : List (String × JsonValue))

namespace JsonValue

/-- Quotes, backslashes and controls below the space are escaped, and nothing else. -/
def escapeChar (c : Char) : String :=
  match c with
  | '"' => "\\\""
  | '\\' => "\\\\"
  | '\x08' => "\\b"
  | '\x0c' => "\\f"
  | '\n' => "\\n"
  | '\r' => "\\r"
  | '\t' => "\\t"
  | _ =>
    if c.toNat < 0x20 then "\\u00" ++ (if c.toNat < 0x10 then "0" else "") ++ hexText c.toNat
    else c.toString

def textLiteral (text : String) : String :=
  "\"" ++ String.join (text.toList.map escapeChar) ++ "\""

/-- The line break before an element at a level. -/
def lineBreak (level : Nat) : String := "\n" ++ String.ofList (List.replicate (2 * level) ' ')

/-- Elements on lines of their own between brackets; nothing between them if there are none. -/
def bracketed (opening closing : String) (level : Nat) (elements : List String) : String :=
  if elements.isEmpty then opening ++ closing
  else
    opening ++ lineBreak (level + 1) ++ ("," ++ lineBreak (level + 1)).intercalate elements ++
      lineBreak level ++ closing

mutual

def renderAt (level : Nat) : JsonValue → String
  | bool value => toString value
  | number value => toString value
  | text value => textLiteral value
  | list items => bracketed "[" "]" level (renderItems (level + 1) items)
  | record fields => bracketed "\x7b" "\x7d" level (renderFields (level + 1) fields)

def renderItems (level : Nat) : List JsonValue → List String
  | [] => []
  | item :: rest => item.renderAt level :: renderItems level rest

def renderFields (level : Nat) : List (String × JsonValue) → List String
  | [] => []
  | (name, value) :: rest => (textLiteral name ++ ": " ++ value.renderAt level) :: renderFields level rest

end

def render (value : JsonValue) : String := value.renderAt 0

end JsonValue

end JuiceSyntax
